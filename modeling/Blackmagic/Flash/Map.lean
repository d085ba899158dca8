import Blackmagic.Flash.Trace

/-!
# What every flash call keeps

Whatever the drivers answer, faults apart, a call of the flash layer leaves the regions of a target
their geometry and their order, and it moves the state of the device by driver callbacks only: a
relation that each callback keeps (`FlashDriver.Respects`) is kept by the call. A
`target_flash_write` that returned true wrote to addresses of the map (`targetFlashWrite_covers`).
-/

namespace Blackmagic

open Word

section
variable {δ : Type}

/-- Every callback of the driver takes the device along `R`. -/
structure FlashDriver.Respects (drv : FlashDriver δ) (R : δ → δ → Prop) : Prop where
  refl : ∀ d, R d d
  trans : ∀ {d₁ d₂ d₃}, R d₁ d₂ → R d₂ d₃ → R d₁ d₃
  enterFlashMode : ∀ k, drv.enterFlashMode = some k → ∀ d, R d (k d).2
  exitFlashMode : ∀ k, drv.exitFlashMode = some k → ∀ d, R d (k d).2
  reset : ∀ d, R d (drv.reset d)
  prepare : ∀ f d, R d (drv.callPrepare f d).2
  done : ∀ f d, R d (drv.callDone f d).2
  erase : ∀ f addr len d, R d (drv.erase f addr len d).2
  write : ∀ f dest src d, R d (drv.write f dest src d).2
  malloc : ∀ size d, R d (drv.malloc size d).2

/-- Every driver respects the relation that says nothing. -/
theorem FlashDriver.respects_true (drv : FlashDriver δ) : drv.Respects fun _ _ => True where
  refl := fun _ => trivial
  trans := fun _ _ => trivial
  enterFlashMode := fun _ _ _ => trivial
  exitFlashMode := fun _ _ _ => trivial
  reset := fun _ => trivial
  prepare := fun _ _ => trivial
  done := fun _ _ => trivial
  erase := fun _ _ _ _ => trivial
  write := fun _ _ _ _ => trivial
  malloc := fun _ _ => trivial

/-- A step on a region: the geometry is kept, and the device moves along `R`. -/
structure RegionStep (R : δ → δ → Prop) (f f' : TargetFlash) (d d' : δ) : Prop where
  geometry : f'.toFlashGeometry = f.toFlashGeometry
  dev : R d d'

variable {drv : FlashDriver δ} {R : δ → δ → Prop} (hR : drv.Respects R)
include hR

/-! ## Regions -/

/-- Two steps of a region. -/
theorem RegionStep.then {f f₁ f₂ : TargetFlash} {d d₁ d₂ : δ} (h : RegionStep R f f₁ d d₁)
    (h' : RegionStep R f₁ f₂ d₁ d₂) : RegionStep R f f₂ d d₂ :=
  ⟨h'.geometry.trans h.geometry, hR.trans h.dev h'.dev⟩

/-- Closing a region is a step. -/
theorem flashDone_step (f : TargetFlash) (d : δ) :
    RegionStep R f (flashDone drv f d).2.1 d (flashDone drv f d).2.2 := by
  unfold flashDone
  split
  · exact ⟨rfl, hR.refl d⟩
  · exact ⟨rfl, hR.done f d⟩

/-- Opening a region is a step. -/
theorem flashPrepare_step (f : TargetFlash) (op : FlashOperation) (d : δ) :
    RegionStep R f (flashPrepare drv f op d).2.1 d (flashPrepare drv f op d).2.2 := by
  unfold flashPrepare
  split
  · exact ⟨rfl, hR.refl d⟩
  have hdone : ∀ x, (if f.operation ≠ .none then flashDone drv f d else (true, f, d)) = x →
      RegionStep R f x.2.1 d x.2.2 := by
    rintro x rfl
    split
    · exact flashDone_step hR f d
    · exact ⟨rfl, hR.refl d⟩
  rcases hx : (if f.operation ≠ .none then flashDone drv f d else (true, f, d)) with ⟨r, f₁, d₁⟩
  replace hdone := hdone _ hx
  dsimp only
  split
  · have hprep := hR.prepare { f₁ with operation := op } d₁
    split
    · exact ⟨hdone.geometry, hR.trans hdone.dev hprep⟩
    · exact ⟨hdone.geometry, hR.trans hdone.dev hprep⟩
  · exact hdone

/-- Asking for a buffer is a step. -/
theorem flashBufferEnsure_step (f : TargetFlash) (d : δ) :
    RegionStep R f (flashBufferEnsure drv f d).2.1 d (flashBufferEnsure drv f d).2.2 := by
  unfold flashBufferEnsure flashBufferAlloc
  split
  · exact ⟨rfl, hR.refl d⟩
  · dsimp only
    split
    · exact ⟨rfl, hR.malloc _ d⟩
    · exact ⟨rfl, hR.malloc _ d⟩

/-- The flush loop changes the target as the callbacks do. -/
theorem flushLoop_dev {f : TargetFlash} {alignedAddr index : Nat} :
    ∀ {count offset : Nat} {result r : Bool} {d d' : δ},
      flushLoop drv f alignedAddr index count offset result d = .ok (r, d') → R d d' := by
  intro count
  induction count with
  | zero =>
    intro offset result r d d' h
    cases h
    exact hR.refl d
  | succ count ih =>
    intro offset result r d d' h
    obtain ⟨data, -, h⟩ := Run.bind_eq_ok.1 h
    exact hR.trans (hR.write _ _ _ _) (ih h)

/-- A flush is a step. -/
theorem flashBufferedFlush_step {f f' : TargetFlash} {r : Bool} {d d' : δ}
    (h : flashBufferedFlush drv f d = .ok (r, f', d')) : RegionStep R f f' d d' := by
  unfold flashBufferedFlush at h
  split at h
  · have hprep := flashPrepare_step hR f .write d
    generalize flashPrepare drv f .write d = x at hprep h
    obtain ⟨prepared, f₁, d₁⟩ := x
    dsimp only at h hprep
    split at h
    · obtain ⟨⟨r', d₂⟩, hloop, h⟩ := Run.bind_eq_ok.1 h
      cases h
      exact ⟨hprep.geometry, hR.trans hprep.dev (flushLoop_dev hR hloop)⟩
    · cases h
      exact hprep
  · cases h
    exact ⟨rfl, hR.refl d⟩

/-- A flush and a close are a step. -/
theorem flashFlushDone_step {f f' : TargetFlash} {r : Bool} {d d' : δ}
    (h : flashFlushDone drv f d = .ok (r, f', d')) : RegionStep R f f' d d' := by
  obtain ⟨⟨r₁, f₁, d₁⟩, hflush, -⟩ := Run.bind_eq_ok.1 h
  rw [flashFlushDone_of_flush drv hflush] at h
  simp only [Except.ok.injEq, Prod.mk.injEq] at h
  obtain ⟨-, rfl, rfl⟩ := h
  exact (flashBufferedFlush_step hR hflush).then hR (flashDone_step hR f₁ d₁)

/-- Moving the buffer is a step. -/
theorem flashBufferRebase_step {f f' : TargetFlash} {base : Nat} {r : Bool} {d d' : δ}
    (h : flashBufferRebase drv f base d = .ok (r, f', d')) : RegionStep R f f' d d' := by
  unfold flashBufferRebase at h
  split at h
  · obtain ⟨⟨r₁, f₁, d₁⟩, hflush, h⟩ := Run.bind_eq_ok.1 h
    obtain ⟨f₂, hfill, h⟩ := Run.bind_eq_ok.1 h
    cases h
    have hstep := flashBufferedFlush_step hR hflush
    unfold TargetFlash.bufFill at hfill
    split at hfill
    · cases hfill
    · cases hfill
      exact ⟨hstep.geometry, hstep.dev⟩
  · cases h
    exact ⟨rfl, hR.refl d⟩

omit hR in
/-- A chunk leaves the geometry as it is. -/
theorem flashBufferChunk_geometry {f f' : TargetFlash} {dest : Nat} {chunk : List UInt8}
    (h : flashBufferChunk f dest chunk = .ok f') : f'.toFlashGeometry = f.toFlashGeometry := by
  obtain ⟨f₁, hcopy, h⟩ := Run.bind_eq_ok.1 h
  cases h
  unfold TargetFlash.bufCopy at hcopy
  split at hcopy
  · cases hcopy
  · split at hcopy
    · cases hcopy
      rfl
    · cases hcopy

/-- A buffered write is a step. -/
theorem flashBufferedWrite_step :
    ∀ {fuel : Nat} {f f' : TargetFlash} {dest : Nat} {src : List UInt8} {result r : Bool} {d
      d' : δ},
      bufferedWriteLoop drv fuel f dest src result d = .ok (r, f', d') → RegionStep R f f' d d'
  | fuel, _, _, _, [], _, _, d, _, h => by
    cases fuel <;> cases h <;> exact ⟨rfl, hR.refl d⟩
  | 0, _, _, _, _ :: _, _, _, _, _, h => by cases h
  | _ + 1, _, _, _, c :: cs, _, _, _, _, h => by
    obtain ⟨ok, f₁, d₁, f₂, hrebase, hchunk, h⟩ :=
      bufferedWriteLoop_succ drv (List.cons_ne_nil c cs) h
    have hone := flashBufferRebase_step hR hrebase
    have hrest := flashBufferedWrite_step h
    exact ⟨hrest.geometry.trans ((flashBufferChunk_geometry hchunk).trans hone.geometry),
      hR.trans hone.dev hrest.dev⟩

/-! ## The map -/

/-- The regions of a target, without their session state. -/
def Target.geometry (t : Target δ) : List FlashGeometry := t.flash.map (·.toFlashGeometry)

/-- Two states of a target with the same map, with a device that moved along `R`. -/
structure Target.Moves (R : δ → δ → Prop) (t t' : Target δ) : Prop where
  geometry : t'.geometry = t.geometry
  dev : R t.dev t'.dev

/-- The target moved and is in the same mode. -/
structure Target.Keeps (R : δ → δ → Prop) (t t' : Target δ) : Prop extends t.Moves R t' where
  flashMode : t'.flashMode = t.flashMode

/-- Doing nothing keeps the map. -/
theorem Target.Keeps.refl (t : Target δ) : t.Keeps R t := ⟨⟨rfl, hR.refl _⟩, rfl⟩

/-- Two moves of a target. -/
theorem Target.Moves.then {t t₁ t₂ : Target δ} (h : t.Moves R t₁) (h' : t₁.Moves R t₂) :
    t.Moves R t₂ :=
  ⟨h'.geometry.trans h.geometry, hR.trans h.dev h'.dev⟩

/-- Two steps that keep the map. -/
theorem Target.Keeps.then {t t₁ t₂ : Target δ} (h : t.Keeps R t₁) (h' : t₁.Keeps R t₂) :
    t.Keeps R t₂ :=
  ⟨h.toMoves.then hR h'.toMoves, h'.flashMode.trans h.flashMode⟩

/-- A step of a region keeps the map. -/
theorem Target.onFlash_keeps {op : TargetFlash → δ → Bool × TargetFlash × δ}
    (hop : ∀ f d, RegionStep R f (op f d).2.1 d (op f d).2.2) (t : Target δ) (i : Nat) :
    t.Keeps R (t.onFlash i op).2 := by
  cases hf : t.flash[i]? with
  | none =>
    unfold Target.onFlash
    rw [hf]
    exact .refl hR t
  | some f =>
    rw [Target.onFlash_of_getElem? hf]
    exact ⟨⟨map_geometry_set hf (hop f t.dev).geometry, (hop f t.dev).dev⟩, rfl⟩

/-- So does one that can run out of its buffer. -/
theorem Target.onFlashBuf_keeps {op : TargetFlash → δ → Except BufFault (Bool × TargetFlash × δ)}
    (hop : ∀ {f d r f' d'}, op f d = .ok (r, f', d') → RegionStep R f f' d d')
    {t t' : Target δ} {i : Nat} {r : Bool} (h : t.onFlashBuf i op = .ok (r, t')) :
    t.Keeps R t' := by
  unfold Target.onFlashBuf at h
  split at h
  · cases h
    exact .refl hR t
  · next f hf =>
    obtain ⟨⟨r', f', d'⟩, hcall, h⟩ := Run.bind_eq_ok.1 h
    cases h
    exact ⟨⟨map_geometry_set hf (hop hcall).geometry, (hop hcall).dev⟩, rfl⟩

/-- Entering flash mode keeps the map. -/
theorem targetEnterFlashMode_moves (t : Target δ) : t.Moves R (targetEnterFlashMode drv t).2 := by
  refine ⟨by rw [Target.geometry, targetEnterFlashMode_flash]; rfl, ?_⟩
  unfold targetEnterFlashMode
  split
  · exact hR.refl _
  · cases hk : drv.enterFlashMode with
    | none => exact hR.reset _
    | some k => exact hR.enterFlashMode k hk _

/-- Leaving flash mode keeps the map. -/
theorem targetExitFlashMode_moves (t : Target δ) : t.Moves R (targetExitFlashMode drv t).2 := by
  refine ⟨by rw [Target.geometry, targetExitFlashMode_flash]; rfl, ?_⟩
  unfold targetExitFlashMode
  split
  · exact hR.refl _
  · cases hk : drv.exitFlashMode with
    | none => exact hR.reset _
    | some k => exact hR.exitFlashMode k hk _

/-! ## Erasing -/

/-- An erase of a block is a step. -/
theorem flashErase_step (addr len : Nat) (f : TargetFlash) (d : δ) :
    RegionStep R f (flashErase drv addr len f d).2.1 d (flashErase drv addr len f d).2.2 :=
  ⟨rfl, hR.erase f addr len d⟩

/-- The erase loop keeps the map. -/
theorem eraseLoop_keeps :
    ∀ {fuel : Nat} {t : Target δ} {active addr len : Nat} {result : Bool},
      t.Keeps R (eraseLoop drv fuel t active addr len result).2 := by
  intro fuel
  induction fuel with
  | zero =>
    intro t active addr len result
    cases len with
    | zero => exact Target.onFlash_keeps hR (flashDone_step hR) t active
    | succ len => exact .refl hR t
  | succ fuel ih =>
    intro t active addr len result
    cases len with
    | zero => exact Target.onFlash_keeps hR (flashDone_step hR) t active
    | succ len =>
      rw [eraseLoop]
      split
      · exact .refl hR t
      next i hi =>
      have hswitch : t.Keeps R (switchErase drv t active i).2 := by
        unfold switchErase
        split
        · exact Target.onFlash_keeps hR (flashDone_step hR) t active
        · exact .refl hR t
      generalize switchErase drv t active i = x at hswitch ⊢
      obtain ⟨switched, t₁⟩ := x
      dsimp only at hswitch ⊢
      split
      · exact hswitch
      next f hf =>
      have hprep := hswitch.then hR
        (Target.onFlash_keeps hR (fun f d => flashPrepare_step hR f .erase d) t₁ i)
      generalize t₁.onFlash i (fun f d => flashPrepare drv f .erase d) = x at hprep ⊢
      obtain ⟨prepared, t₂⟩ := x
      dsimp only at hprep ⊢
      split
      · have herase := hprep.then hR
          (Target.onFlash_keeps hR (flashErase_step hR (alignDown addr f.blocksize) f.blocksize) t₂
            i)
        generalize t₂.onFlash i (flashErase drv (alignDown addr f.blocksize) f.blocksize) = x
          at herase ⊢
        obtain ⟨ok, t₃⟩ := x
        dsimp only at herase ⊢
        split
        · exact herase.then hR ih
        · exact herase.then hR (Target.onFlash_keeps hR (flashDone_step hR) t₃ i)
      · exact hprep

/-- `target_flash_erase` keeps the map. -/
theorem targetFlashErase_moves (t : Target δ) (addr len : Nat) :
    t.Moves R (targetFlashErase drv t addr len).2 := by
  have henter := targetEnterFlashMode_moves hR t
  unfold targetFlashErase
  generalize targetEnterFlashMode drv t = x at henter ⊢
  obtain ⟨entered, t₁⟩ := x
  dsimp only at henter ⊢
  split
  · split
    · exact henter
    · exact henter.then hR (eraseLoop_keeps hR).toMoves
  · exact henter

/-! ## Writing -/

/-- The loop that settles the other regions keeps the map. -/
theorem settleLoop_step {dest : Nat} :
    ∀ {fs fs' : List TargetFlash} {i : Nat} {active active' : Option Nat} {result r : Bool} {d
      d' : δ},
      settleLoop drv dest fs i active result d = .ok (r, active', fs', d') →
        fs'.map (·.toFlashGeometry) = fs.map (·.toFlashGeometry) ∧ R d d' := by
  intro fs
  induction fs with
  | nil =>
    intro fs' i active active' result r d d' h
    cases h
    exact ⟨rfl, hR.refl d⟩
  | cons f fs ih =>
    intro fs' i active active' result r d d' h
    rw [settleLoop] at h
    split at h
    · obtain ⟨⟨r₁, a₁, fs₁, d₁⟩, hrest, h⟩ := Run.bind_eq_ok.1 h
      cases h
      obtain ⟨hgeom, hdev⟩ := ih hrest
      exact ⟨by rw [List.map_cons, List.map_cons, hgeom], hdev⟩
    · split at h
      · obtain ⟨⟨ok, f₁, d₁⟩, hclose, h⟩ := Run.bind_eq_ok.1 h
        obtain ⟨⟨r₂, a₂, fs₂, d₂⟩, hrest, h⟩ := Run.bind_eq_ok.1 h
        cases h
        have hstep := flashFlushDone_step hR hclose
        obtain ⟨hgeom, hdev⟩ := ih hrest
        exact ⟨by rw [List.map_cons, List.map_cons, hgeom, hstep.geometry],
          hR.trans hstep.dev hdev⟩
      · obtain ⟨⟨r₁, a₁, fs₁, d₁⟩, hrest, h⟩ := Run.bind_eq_ok.1 h
        cases h
        obtain ⟨hgeom, hdev⟩ := ih hrest
        exact ⟨by rw [List.map_cons, List.map_cons, hgeom], hdev⟩

/-- Going over to another region keeps the map. -/
theorem switchWrite_keeps {t t' : Target δ} {active i : Nat} {r : Bool}
    (h : switchWrite drv t active i = .ok (r, t')) : t.Keeps R t' := by
  unfold switchWrite at h
  split at h
  · exact Target.onFlashBuf_keeps hR (flashFlushDone_step hR) h
  · cases h
    exact .refl hR t

/-- The write loop keeps the map. -/
theorem writeLoop_keeps :
    ∀ {fuel : Nat} {t t' : Target δ} {active dest : Nat} {src : List UInt8} {r : Bool},
      writeLoop drv fuel t active dest src = .ok (r, t') → t.Keeps R t' := by
  intro fuel
  induction fuel with
  | zero =>
    intro t t' active dest src r h
    cases src <;> cases h <;> exact .refl hR t
  | succ fuel ih =>
    intro t t' active dest src r h
    cases src with
    | nil =>
      cases h
      exact .refl hR t
    | cons c cs =>
      rw [writeLoop] at h
      split at h
      · cases h
        exact .refl hR t
      next i hi =>
      obtain ⟨⟨closed, t₁⟩, hclose, h⟩ := Run.bind_eq_ok.1 h
      have hready := (switchWrite_keeps hR hclose).then hR
        (Target.onFlash_keeps hR (flashBufferEnsure_step hR) t₁ i)
      rcases hens : t₁.onFlash i (flashBufferEnsure drv) with ⟨ready, t₂⟩
      simp only [hens] at hready h
      split at h
      · split at h
        · cases h
          exact hready
        · obtain ⟨⟨ok, t₃⟩, hbuf, h⟩ := Run.bind_eq_ok.1 h
          have hwrite := hready.then hR
            (Target.onFlashBuf_keeps hR (fun h => flashBufferedWrite_step hR h) hbuf)
          dsimp only at h
          split at h
          · exact hwrite.then hR (ih h)
          · cases h
            exact hwrite
      · cases h
        exact hready

/-- `target_flash_write` keeps the map. -/
theorem targetFlashWrite_moves {t t' : Target δ} {dest : Nat} {src : List UInt8} {r : Bool}
    (h : targetFlashWrite drv t dest src = .ok (r, t')) : t.Moves R t' := by
  have henter := targetEnterFlashMode_moves hR t
  unfold targetFlashWrite at h
  generalize targetEnterFlashMode drv t = x at henter h
  obtain ⟨entered, t₁⟩ := x
  dsimp only at henter h
  split at h
  · obtain ⟨⟨r₁, active, fs, d⟩, hsettle, h⟩ := Run.bind_eq_ok.1 h
    obtain ⟨hgeom, hdev⟩ := settleLoop_step hR hsettle
    have hsettled : t.Moves R { t₁ with flash := fs, dev := d } := henter.then hR ⟨hgeom, hdev⟩
    cases active with
    | none =>
      cases h
      exact hsettled
    | some active =>
      dsimp only at h
      split at h
      · exact hsettled.then hR (writeLoop_keeps hR h).toMoves
      · cases h
        exact hsettled
  · cases h
    exact henter

/-! ## Completing -/

/-- The loop over all regions keeps the map. -/
theorem completeLoop_step :
    ∀ {fs fs' : List TargetFlash} {result r : Bool} {d d' : δ},
      completeLoop drv fs result d = .ok (r, fs', d') →
        fs'.map (·.toFlashGeometry) = fs.map (·.toFlashGeometry) ∧ R d d' := by
  intro fs
  induction fs with
  | nil =>
    intro fs' result r d d' h
    cases h
    exact ⟨rfl, hR.refl d⟩
  | cons f fs ih =>
    intro fs' result r d d' h
    obtain ⟨⟨ok, f₁, d₁⟩, hclose, h⟩ := Run.bind_eq_ok.1 h
    obtain ⟨⟨r₂, fs₂, d₂⟩, hrest, h⟩ := Run.bind_eq_ok.1 h
    cases h
    have hstep := flashFlushDone_step hR hclose
    obtain ⟨hgeom, hdev⟩ := ih hrest
    exact ⟨by rw [List.map_cons, List.map_cons, hgeom, hstep.geometry], hR.trans hstep.dev hdev⟩

/-- `target_flash_complete` keeps the map. -/
theorem targetFlashComplete_moves {t t' : Target δ} {r : Bool}
    (h : targetFlashComplete drv t = .ok (r, t')) : t.Moves R t' := by
  unfold targetFlashComplete at h
  split at h
  · obtain ⟨⟨r₁, fs, d⟩, hloop, h⟩ := Run.bind_eq_ok.1 h
    obtain ⟨hgeom, hdev⟩ := completeLoop_step hR hloop
    have hexit := targetExitFlashMode_moves hR { t with flash := fs, dev := d }
    rcases hmode : targetExitFlashMode drv { t with flash := fs, dev := d } with ⟨left, t₁⟩
    simp only [hmode, Except.ok.injEq, Prod.mk.injEq] at hexit h
    obtain ⟨rfl, rfl⟩ := h
    have hmoved : t.Moves R { t with flash := fs, dev := d } := ⟨hgeom, hdev⟩
    exact hmoved.then hR hexit
  · cases h
    exact ⟨rfl, hR.refl _⟩

end

/-! ## Addresses that were written to -/

section
variable {δ : Type} (drv : FlashDriver δ)

/-- The second loop of a `target_flash_write` that returned true goes through addresses of the
map. -/
theorem writeLoop_covers :
    ∀ {fuel : Nat} {t t' : Target δ} {active dest : Nat} {src : List UInt8},
      dest + src.length < 2 ^ 32 → writeLoop drv fuel t active dest src = .ok (true, t') →
        ∀ k < src.length, ∃ g ∈ t.geometry, g.Contains (dest + k) := by
  have hR := drv.respects_true
  intro fuel
  induction fuel with
  | zero =>
    intro t t' active dest src _ h
    cases src with
    | nil => exact nofun
    | cons c cs => cases h
  | succ fuel ih =>
    intro t t' active dest src hlen h k hk
    have hne : src ≠ [] := List.length_pos_iff.1 (by omega)
    obtain ⟨i, t₁, t₂, f, t₃, hi, hclose, hens, hf, hbuf, hrest⟩ := writeLoop_succ drv hne h
    have h₁ := switchWrite_keeps hR hclose
    have h₂ := h₁.then hR (Target.onFlash_keeps hR (flashBufferEnsure_step hR) t₁ i)
    rw [hens] at h₂
    have h₃ := h₂.then hR
      (Target.onFlashBuf_keeps hR (fun h => flashBufferedWrite_step hR h) hbuf)
    -- the region that is written to is the one that was found
    obtain ⟨g, hg, hgc⟩ := targetFlashForAddr_some hi
    have hgeom : f.toFlashGeometry = g.toFlashGeometry := by
      have := congrArg (·[i]?) h₂.geometry
      simpa [Target.geometry, hf, hg] using this
    have hc : f.Contains dest := by rw [hgeom]; exact hgc
    have hend := add32_lt f.start f.length
    have hmem : f.toFlashGeometry ∈ t.geometry := by
      rw [hgeom]
      exact List.mem_map_of_mem (List.mem_of_getElem? hg)
    have hlocal : f.localEndAddr dest src.length = dest + f.localLength dest src.length ∧
        f.localLength dest src.length ≤ src.length ∧
        ∀ j < f.localLength dest src.length, f.Contains (dest + j) := by
      have h1 := hc.1
      have h2 := hc.2
      unfold FlashGeometry.Contains FlashGeometry.localLength FlashGeometry.localEndAddr
      rw [add32_of_lt hlen]
      generalize add32 f.start f.length = e at *
      rw [sub32_of_le (by omega) (by omega)]
      exact ⟨by omega, by omega, fun j hj => by omega⟩
    generalize f.localLength dest src.length = n at hlocal hrest
    obtain ⟨hnext, hn, hall⟩ := hlocal
    rcases Nat.lt_or_ge k n with hlt | hge
    · exact ⟨_, hmem, hall k hlt⟩
    · rw [hnext] at hrest
      have hdrop : (src.drop n).length = src.length - n := List.length_drop
      obtain ⟨g', hg', hgc'⟩ := ih (by omega) hrest (k - n) (by omega)
      rw [h₃.geometry] at hg'
      refine ⟨g', hg', ?_⟩
      rwa [Nat.add_assoc, Nat.add_sub_cancel' hge] at hgc'

/-- A `target_flash_write` that returned true wrote to addresses of the map. -/
theorem targetFlashWrite_covers {t t' : Target δ} {dest : Nat} {src : List UInt8}
    (hlen : dest + src.length < 2 ^ 32) (h : targetFlashWrite drv t dest src = .ok (true, t')) :
    ∀ k < src.length, ∃ g ∈ t.geometry, g.Contains (dest + k) := by
  have hR := drv.respects_true
  have henter := (targetEnterFlashMode_moves hR t).geometry
  unfold targetFlashWrite at h
  generalize targetEnterFlashMode drv t = x at henter h
  obtain ⟨entered, t₁⟩ := x
  dsimp only at henter h
  split at h
  · obtain ⟨⟨r₁, active, fs, d⟩, hsettle, h⟩ := Run.bind_eq_ok.1 h
    have hfs : fs.map (·.toFlashGeometry) = t.geometry :=
      (settleLoop_step hR hsettle).1.trans henter
    cases active with
    | none => cases h
    | some active =>
      dsimp only at h
      split at h
      · rw [← hfs]
        exact writeLoop_covers drv hlen h
      · cases h
  · cases h

end

end Blackmagic
