import Blackmagic.Flash.Deliver
import Blackmagic.Flash.Map

/-!
# Where programmed bytes come from

A write buffer outlives the call that fills it, so a call can program bytes that it was not given.
What a buffer has apart from the filler of its page was handed over by a `target_flash_write`, for
the address at which it is programmed (`TargetFlash.Buffers`), and `malloc`'s leftovers are never
read: a buffer that is new has no page, and a page starts with the filler. So in a run from regions
without a buffer, whatever the drivers answer, each programmed byte is the erased value or one that
a call of this run handed over for its address (`flashRun_programs`).
-/

namespace Blackmagic

open Word

/-- The call hands over `v` for the address `a`. -/
def FlashCall.Sends : FlashCall → (a : Nat) → (v : UInt8) → Prop
  | .write dest src, a, v => ∃ i, src[i]? = some v ∧ a = add32 dest i
  | .erase _ _, _, _ => False
  | .complete, _, _ => False

/-- What the callback programs is the erased value, or has `P` at its address. -/
def FlashEvent.Programs (P : Nat → UInt8 → Prop) : FlashEvent → Prop
  | .erase _ _ _ => True
  | .write g addr data => ∀ k v, data[k]? = some v → v = g.erased ∨ P (add32 addr k) v

section
variable {P : Nat → UInt8 → Prop}

/-- A buffer with a page has the erased value, or what has `P` at its address. -/
structure TargetFlash.Page (P : Nat → UInt8 → Prop) (f : TargetFlash) (b : List UInt8) : Prop where
  length : b.length = f.writebufsize
  base : f.writebufsize ∣ f.bufAddrBase
  top : f.bufAddrBase + f.writebufsize ≤ 2 ^ 32
  bytes : ∀ j v, b[j]? = some v → v = f.erased ∨ P (f.bufAddrBase + j) v

/-- The buffer of a region, if there is one, has no page yet, or a page with nothing but `P`. -/
structure TargetFlash.Buffers (P : Nat → UInt8 → Prop) (f : TargetFlash) : Prop where
  wf : f.toFlashGeometry.Wf
  page : ∀ b, f.buf = some b → f.bufAddrBase = maxU32 ∨ f.Page P b

/-- A region without a buffer holds nothing. -/
theorem TargetFlash.Buffers.of_none {f : TargetFlash} (wf : f.toFlashGeometry.Wf)
    (h : f.buf = none) : f.Buffers P :=
  ⟨wf, fun b hb => by rw [h] at hb; cases hb⟩

/-- A buffer whose span is cleared holds nothing new. -/
theorem TargetFlash.Buffers.clearSpan {f : TargetFlash} (h : f.Buffers P) : f.clearSpan.Buffers P :=
  ⟨h.wf, fun _ _ => .inl rfl⟩

/-- The operation has no part in what the buffer holds. -/
theorem TargetFlash.Buffers.setOperation {f : TargetFlash} (h : f.Buffers P) (op : FlashOperation) :
    { f with operation := op }.Buffers P :=
  ⟨h.wf, fun b hb => (h.page b hb).imp_right fun ⟨h1, h2, h3, h4⟩ => ⟨h1, h2, h3, h4⟩⟩

/-- No page starts at `UINT32_MAX`. -/
theorem TargetFlash.Buffers.page_of_base {f : TargetFlash} (h : f.Buffers P) {b : List UInt8}
    (hb : f.buf = some b) (htop : f.bufAddrBase + f.writebufsize ≤ 2 ^ 32) : f.Page P b := by
  refine (h.page b hb).resolve_left fun hmax => ?_
  have hge := h.wf.writebufsize_ge
  unfold maxU32 at hmax
  omega

/-- The callbacks of a log from `pre` on program nothing but `P`. -/
def Told (P : Nat → UInt8 → Prop) (pre log : List FlashEvent) : Prop :=
  ∃ evs, log = pre ++ evs ∧ ∀ ev ∈ evs, ev.Programs P

/-- A log tells nothing new at first. -/
theorem Told.refl (log : List FlashEvent) : Told P log log :=
  ⟨[], (List.append_nil _).symm, by simp⟩

/-- One more event that programs such bytes. -/
theorem Told.append {pre log : List FlashEvent} {ev : FlashEvent} (h : Told P pre log)
    (hev : ev.Programs P) : Told P pre (log ++ [ev]) := by
  obtain ⟨evs, rfl, hall⟩ := h
  refine ⟨evs ++ [ev], List.append_assoc _ _ _, fun e he => ?_⟩
  rcases List.mem_append.1 he with he | he
  · exact hall e he
  · rw [List.mem_singleton.1 he]
    exact hev

end

/-! ## Regions -/

section
variable {δ : Type} {P : Nat → UInt8 → Prop} {pre : List FlashEvent}

/-- What every function of a region keeps: the buffer has nothing but `P`, and nothing but `P` was
programmed. -/
structure Stays (P : Nat → UInt8 → Prop) (pre : List FlashEvent) (f : TargetFlash)
    (s : δ × List FlashEvent) : Prop where
  buffers : f.Buffers P
  told : Told P pre s.2

/-- `flash_done` leaves the region, but for its operation and a buffer that it frees. -/
theorem flashDone_buffers (drv : FlashDriver δ) {f : TargetFlash} (h : f.Buffers P) (d : δ) :
    (flashDone drv f d).2.1.Buffers P := by
  unfold flashDone
  split
  · exact h
  · exact .of_none h.wf rfl

/-- Opening a region puts nothing into its buffer. -/
theorem flashPrepare_buffers (drv : FlashDriver δ) {f : TargetFlash} (h : f.Buffers P)
    (op : FlashOperation) (d : δ) : (flashPrepare drv f op d).2.1.Buffers P := by
  unfold flashPrepare
  split
  · exact h
  have hdone : (if f.operation ≠ .none then flashDone drv f d else (true, f, d)).2.1.Buffers P := by
    split
    · exact flashDone_buffers drv h d
    · exact h
  generalize (if f.operation ≠ .none then flashDone drv f d else (true, f, d)) = x at hdone ⊢
  obtain ⟨r, f₁, d₁⟩ := x
  dsimp only at hdone ⊢
  split
  · split
    · exact hdone.setOperation _
    · exact hdone.setOperation _
  · exact hdone

variable (drv : FlashDriver δ)

/-- Closing a region programs nothing. -/
theorem flashDone_stays {f : TargetFlash} {s : δ × List FlashEvent} (h : Stays P pre f s) :
    Stays P pre (flashDone drv.logged f s).2.1 (flashDone drv.logged f s).2.2 :=
  ⟨flashDone_buffers _ h.buffers _, by rw [(flashDone_logged drv f s.1 s.2).1]; exact h.told⟩

/-- Opening a region programs nothing. -/
theorem flashPrepare_stays (op : FlashOperation) {f : TargetFlash} {s : δ × List FlashEvent}
    (h : Stays P pre f s) :
    Stays P pre (flashPrepare drv.logged f op s).2.1 (flashPrepare drv.logged f op s).2.2 :=
  ⟨flashPrepare_buffers _ h.buffers op _, by rw [flashPrepare_log]; exact h.told⟩

/-- An erase programs nothing. -/
theorem flashErase_stays (addr len : Nat) {f : TargetFlash} {s : δ × List FlashEvent}
    (h : Stays P pre f s) :
    Stays P pre (flashErase drv.logged addr len f s).2.1 (flashErase drv.logged addr len f s).2.2 :=
  ⟨h.buffers, h.told.append trivial⟩

/-- A new buffer holds nothing. -/
theorem flashBufferEnsure_stays {f : TargetFlash} {s : δ × List FlashEvent} (h : Stays P pre f s) :
    Stays P pre (flashBufferEnsure drv.logged f s).2.1 (flashBufferEnsure drv.logged f s).2.2 := by
  have htold : Told P pre (drv.logged.malloc f.writebufsize s).2.2 := by
    simpa [FlashDriver.logged, logCall] using h.told
  unfold flashBufferEnsure flashBufferAlloc
  split
  · exact h
  · dsimp only
    split
    · exact ⟨⟨h.buffers.wf, fun _ _ => .inl rfl⟩, htold⟩
    · exact ⟨.of_none h.buffers.wf rfl, htold⟩

/-- Every unit of a flush is a part of the page, at its address. -/
theorem flushLoop_told {f : TargetFlash} (hf : f.Buffers P) (hbase : f.bufAddrBase ≠ maxU32)
    {alignedAddr : Nat} :
    ∀ {count offset : Nat} {result r : Bool} {s s' : δ × List FlashEvent},
      flushLoop drv.logged f alignedAddr (sub32 alignedAddr f.bufAddrBase) count offset result s =
        .ok (r, s') → Told P pre s.2 → Told P pre s'.2 := by
  intro count
  induction count with
  | zero =>
    intro offset result r s s' h htold
    cases h
    exact htold
  | succ count ih =>
    intro offset result r s s' h htold
    obtain ⟨data, hread, h⟩ := Run.bind_eq_ok.1 h
    refine ih h (htold.append fun k v hv => ?_)
    unfold TargetFlash.bufRead at hread
    split at hread
    · cases hread
    next b hb =>
    split at hread
    · cases hread
      have hpage := (hf.page b hb).resolve_left hbase
      obtain ⟨hk, -⟩ := List.getElem?_eq_some_iff.1 hv
      rw [List.length_take, List.length_drop, hpage.length] at hk
      rw [List.getElem?_take_of_lt (by omega), List.getElem?_drop] at hv
      have htop := hpage.top
      have haddr : add32 (add32 alignedAddr offset) k =
          f.bufAddrBase + (sub32 alignedAddr f.bufAddrBase + offset + k) := by
        unfold sub32 at hk ⊢
        unfold add32
        omega
      rw [haddr]
      exact hpage.bytes _ v hv
    · cases hread

/-- A preparation does not move the page. -/
theorem flashPrepare_bufAddrBase (drv : FlashDriver δ) (f : TargetFlash) (op : FlashOperation)
    (d : δ) : (flashPrepare drv f op d).2.1.bufAddrBase = f.bufAddrBase := by
  unfold flashPrepare
  split
  · rfl
  have hdone : (if f.operation ≠ .none then flashDone drv f d else (true, f, d)).2.1.bufAddrBase =
      f.bufAddrBase := by
    split
    · unfold flashDone
      split
      · rfl
      · rfl
    · rfl
  generalize (if f.operation ≠ .none then flashDone drv f d else (true, f, d)) = x at hdone ⊢
  obtain ⟨r, f₁, d₁⟩ := x
  dsimp only at hdone ⊢
  split
  · split
    · exact hdone
    · exact hdone
  · exact hdone

/-- A flush programs what the buffer holds. -/
theorem flashBufferedFlush_stays {f f' : TargetFlash} {r : Bool} {s s' : δ × List FlashEvent}
    (hflush : flashBufferedFlush drv.logged f s = .ok (r, f', s')) (h : Stays P pre f s) :
    Stays P pre f' s' := by
  unfold flashBufferedFlush at hflush
  split at hflush
  · next hp =>
    have hprep := flashPrepare_stays drv .write h
    have hbase := flashPrepare_bufAddrBase drv.logged f .write s
    generalize flashPrepare drv.logged f .write s = x at hprep hbase hflush
    obtain ⟨prepared, f₁, s₁⟩ := x
    dsimp only at hprep hbase hflush
    split at hflush
    · obtain ⟨⟨r', s₂⟩, hloop, hflush⟩ := Run.bind_eq_ok.1 hflush
      cases hflush
      have hmax : f₁.bufAddrBase ≠ maxU32 := by
        rw [hbase]
        exact hp.2.1
      exact ⟨hprep.buffers.clearSpan, flushLoop_told drv hprep.buffers hmax hloop hprep.told⟩
    · cases hflush
      exact hprep
  · cases hflush
    exact h

/-- A flush and a close program what the buffer holds. -/
theorem flashFlushDone_stays {f f' : TargetFlash} {r : Bool} {s s' : δ × List FlashEvent}
    (hclose : flashFlushDone drv.logged f s = .ok (r, f', s')) (h : Stays P pre f s) :
    Stays P pre f' s' := by
  obtain ⟨⟨r₁, f₁, s₁⟩, hflush, -⟩ := Run.bind_eq_ok.1 hclose
  rw [flashFlushDone_of_flush drv.logged hflush] at hclose
  simp only [Except.ok.injEq, Prod.mk.injEq] at hclose
  obtain ⟨-, rfl, rfl⟩ := hclose
  exact flashDone_stays drv (flashBufferedFlush_stays drv hflush h)

/-- Behind a change of the base address the buffer has the page at that address. -/
theorem flashBufferRebase_stays {f f' : TargetFlash} {base : Nat} {r : Bool}
    {s s' : δ × List FlashEvent} (hdvd : f.writebufsize ∣ base)
    (htop : base + f.writebufsize ≤ 2 ^ 32)
    (hrebase : flashBufferRebase drv.logged f base s = .ok (r, f', s')) (h : Stays P pre f s) :
    Stays P pre f' s' ∧ f'.bufAddrBase = base ∧ f'.toFlashGeometry = f.toFlashGeometry := by
  unfold flashBufferRebase at hrebase
  split at hrebase
  · obtain ⟨⟨r₁, f₁, s₁⟩, hflush, hrebase⟩ := Run.bind_eq_ok.1 hrebase
    obtain ⟨f₂, hfill, hrebase⟩ := Run.bind_eq_ok.1 hrebase
    cases hrebase
    have hgeom := (flashBufferedFlush_step drv.logged.respects_true hflush).geometry
    have hstays := flashBufferedFlush_stays drv hflush h
    have hsize : f₁.writebufsize = f.writebufsize := by rw [hgeom]
    unfold TargetFlash.bufFill at hfill
    split at hfill
    · cases hfill
    · cases hfill
      refine ⟨⟨⟨hstays.buffers.wf, ?_⟩, hstays.told⟩, rfl, hgeom⟩
      rintro b ⟨⟩
      refine .inr ⟨List.length_replicate, ?_, ?_, fun j v hv => ?_⟩
      · exact hsize ▸ hdvd
      · exact hsize ▸ htop
      · exact .inl (List.eq_of_mem_replicate (List.mem_of_getElem? hv))
  · next heq =>
    cases hrebase
    exact ⟨h, (not_not.1 heq).symm, rfl⟩

/-- A chunk that is stored in its page. -/
theorem flashBufferChunk_buffers {f f' : TargetFlash} {dest : Nat} {chunk : List UInt8}
    (h : f.Buffers P) (hdest : dest < 2 ^ 32)
    (hbase : f.bufAddrBase = dest - dest % f.writebufsize)
    (hsrc : ∀ i v, chunk[i]? = some v → P (add32 dest i) v)
    (hchunk : flashBufferChunk f dest chunk = .ok f') : f'.Buffers P := by
  obtain ⟨f₁, hcopy, hchunk⟩ := Run.bind_eq_ok.1 hchunk
  cases hchunk
  unfold TargetFlash.bufCopy at hcopy
  split at hcopy
  · cases hcopy
  next b hb =>
  split at hcopy
  · next hfit =>
    cases hcopy
    have htop := h.wf.writebufsize_pow2.block_le hdest
    have hmod := Nat.mod_le dest f.writebufsize
    have hpage := h.page_of_base hb (by rw [hbase]; exact htop)
    refine ⟨h.wf, ?_⟩
    rintro b' ⟨⟩
    have hlen := hpage.length
    refine .inr ⟨?_, hpage.base, hpage.top, fun j v hv => ?_⟩
    · rw [Bytes.length_overwrite (by omega)]
      exact hlen
    · rw [Bytes.getElem?_overwrite (by omega)] at hv
      split at hv
      · next hin =>
        have haddr : f.bufAddrBase + j = add32 dest (j - dest % f.writebufsize) := by
          rw [hbase, add32_of_lt (by omega)]
          omega
        refine .inr ?_
        dsimp only
        rw [haddr]
        exact hsrc _ v hv
      · exact hpage.bytes j v hv
  · cases hcopy

/-- A buffered write puts its own bytes into the buffer. -/
theorem bufferedWriteLoop_stays :
    ∀ {fuel : Nat} {f f' : TargetFlash} {dest : Nat} {src : List UInt8} {result r : Bool}
      {s s' : δ × List FlashEvent}, dest < 2 ^ 32 →
      (∀ i v, src[i]? = some v → P (add32 dest i) v) →
      bufferedWriteLoop drv.logged fuel f dest src result s = .ok (r, f', s') →
      Stays P pre f s → Stays P pre f' s'
  | fuel, _, _, _, [], _, _, _, _, _, _, h, hf => by
    cases fuel <;> cases h <;> exact hf
  | 0, _, _, _, _ :: _, _, _, _, _, _, _, h, _ => by cases h
  | fuel + 1, f, _, dest, c :: cs, _, _, _, _, hdest, hsrc, h, hf => by
    obtain ⟨ok, f₁, s₁, f₂, hrebase, hchunk, h⟩ :=
      bufferedWriteLoop_succ drv.logged (List.cons_ne_nil c cs) h
    have hpow := hf.buffers.wf.writebufsize_pow2
    rw [hpow.alignDown hdest] at hrebase
    obtain ⟨h₁, hbase, hgeom⟩ :=
      flashBufferRebase_stays drv (dvd_unit _ _) (hpow.block_le hdest) hrebase hf
    generalize f₁.localLen dest (c :: cs).length = n at hchunk h
    have htake : ∀ i v, ((c :: cs).take n)[i]? = some v → P (add32 dest i) v := by
      intro i v hv
      rw [List.getElem?_take] at hv
      split at hv
      · exact hsrc i v hv
      · cases hv
    have h₂ := flashBufferChunk_buffers h₁.buffers hdest (by rw [hbase, hgeom]) htake hchunk
    refine bufferedWriteLoop_stays (add32_lt _ _) (fun i v hv => ?_) h ⟨h₂, h₁.told⟩
    rw [List.getElem?_drop] at hv
    rw [add32_add32]
    exact hsrc _ v hv

/-! ## The map -/

/-- `Stays`, for every region of the map. -/
structure Target.Stays (P : Nat → UInt8 → Prop) (pre : List FlashEvent)
    (t : Target (δ × List FlashEvent)) : Prop where
  buffers : ∀ f ∈ t.flash, f.Buffers P
  told : Told P pre t.dev.2

variable {t t' : Target (δ × List FlashEvent)}

/-- One region and the log are replaced. -/
theorem Target.Stays.set (h : t.Stays P pre) {i : Nat} {f : TargetFlash} {s : δ × List FlashEvent}
    (hf : Blackmagic.Stays P pre f s) :
    Target.Stays P pre { t with flash := t.flash.set i f, dev := s } := by
  refine ⟨fun g hg => ?_, hf.told⟩
  rcases List.mem_or_eq_of_mem_set hg with hg | rfl
  · exact h.buffers g hg
  · exact hf.buffers

/-- A call on a region that programs such bytes only. -/
theorem Target.Stays.onFlash (h : t.Stays P pre)
    {op : TargetFlash → δ × List FlashEvent → Bool × TargetFlash × (δ × List FlashEvent)}
    (hop : ∀ {f s}, Blackmagic.Stays P pre f s → Blackmagic.Stays P pre (op f s).2.1 (op f s).2.2)
    (i : Nat) : (t.onFlash i op).2.Stays P pre := by
  cases hf : t.flash[i]? with
  | none =>
    unfold Target.onFlash
    rw [hf]
    exact h
  | some f =>
    rw [Target.onFlash_of_getElem? hf]
    exact h.set (hop ⟨h.buffers f (List.mem_of_getElem? hf), h.told⟩)

/-- The same where the buffer can be overrun. -/
theorem Target.Stays.onFlashBuf (h : t.Stays P pre)
    {op : TargetFlash → δ × List FlashEvent →
      Except BufFault (Bool × TargetFlash × (δ × List FlashEvent))}
    (hop : ∀ {f s r f' s'}, op f s = .ok (r, f', s') → Blackmagic.Stays P pre f s →
      Blackmagic.Stays P pre f' s')
    {i : Nat} {r : Bool} (hrun : t.onFlashBuf i op = .ok (r, t')) : t'.Stays P pre := by
  unfold Target.onFlashBuf at hrun
  split at hrun
  · cases hrun
    exact h
  · next f hf =>
    obtain ⟨⟨r', f', s'⟩, hcall, hrun⟩ := Run.bind_eq_ok.1 hrun
    cases hrun
    exact h.set (hop hcall ⟨h.buffers f (List.mem_of_getElem? hf), h.told⟩)

/-- Entering flash mode programs nothing. -/
theorem targetEnterFlashMode_stays (h : t.Stays P pre) :
    (targetEnterFlashMode drv.logged t).2.Stays P pre := by
  have hsession := targetEnterFlashMode_logged drv t
  refine ⟨?_, ?_⟩
  · rw [targetEnterFlashMode_flash]
    exact h.buffers
  · rw [show (targetEnterFlashMode drv.logged t).2.dev.2 = t.dev.2 from
      congrArg Session.log hsession]
    exact h.told

/-- Leaving flash mode programs nothing. -/
theorem targetExitFlashMode_stays (h : t.Stays P pre) :
    (targetExitFlashMode drv.logged t).2.Stays P pre := by
  have hsession := targetExitFlashMode_logged drv t
  refine ⟨?_, ?_⟩
  · rw [targetExitFlashMode_flash]
    exact h.buffers
  · rw [show (targetExitFlashMode drv.logged t).2.dev.2 = t.dev.2 from
      congrArg Session.log hsession]
    exact h.told

/-- The erase loop programs nothing. -/
theorem eraseLoop_stays :
    ∀ {fuel : Nat} {t : Target (δ × List FlashEvent)} {active addr len : Nat} {result : Bool},
      t.Stays P pre → (eraseLoop drv.logged fuel t active addr len result).2.Stays P pre := by
  intro fuel
  induction fuel with
  | zero =>
    intro t active addr len result h
    cases len with
    | zero => exact h.onFlash (flashDone_stays drv) active
    | succ len => exact h
  | succ fuel ih =>
    intro t active addr len result h
    cases len with
    | zero => exact h.onFlash (flashDone_stays drv) active
    | succ len =>
      rw [eraseLoop]
      split
      · exact h
      next i hi =>
      have hswitch : (switchErase drv.logged t active i).2.Stays P pre := by
        unfold switchErase
        split
        · exact h.onFlash (flashDone_stays drv) active
        · exact h
      generalize switchErase drv.logged t active i = x at hswitch ⊢
      obtain ⟨switched, t₁⟩ := x
      dsimp only at hswitch ⊢
      split
      · exact hswitch
      next f hf =>
      have hprep := hswitch.onFlash (flashPrepare_stays drv .erase) i
      generalize t₁.onFlash i (fun f d => flashPrepare drv.logged f .erase d) = x at hprep ⊢
      obtain ⟨prepared, t₂⟩ := x
      dsimp only at hprep ⊢
      split
      · have herase := hprep.onFlash (flashErase_stays drv (alignDown addr f.blocksize) f.blocksize)
          i
        generalize t₂.onFlash i (flashErase drv.logged (alignDown addr f.blocksize) f.blocksize) = x
          at herase ⊢
        obtain ⟨ok, t₃⟩ := x
        dsimp only at herase ⊢
        split
        · exact ih herase
        · exact herase.onFlash (flashDone_stays drv) i
      · exact hprep

/-- `target_flash_erase` programs nothing. -/
theorem targetFlashErase_stays (h : t.Stays P pre) (addr len : Nat) :
    (targetFlashErase drv.logged t addr len).2.Stays P pre := by
  have henter := targetEnterFlashMode_stays drv h
  unfold targetFlashErase
  generalize targetEnterFlashMode drv.logged t = x at henter ⊢
  obtain ⟨entered, t₁⟩ := x
  dsimp only at henter ⊢
  split
  · split
    · exact henter
    · exact eraseLoop_stays drv henter
  · exact henter

/-- The loop that settles the other regions programs what they hold. -/
theorem settleLoop_stays {dest : Nat} :
    ∀ {fs fs' : List TargetFlash} {i : Nat} {active active' : Option Nat} {result r : Bool}
      {s s' : δ × List FlashEvent},
      settleLoop drv.logged dest fs i active result s = .ok (r, active', fs', s') →
        (∀ f ∈ fs, f.Buffers P) → Told P pre s.2 →
        (∀ f ∈ fs', f.Buffers P) ∧ Told P pre s'.2 := by
  intro fs
  induction fs with
  | nil =>
    intro fs' i active active' result r s s' h hfs htold
    cases h
    exact ⟨hfs, htold⟩
  | cons f fs ih =>
    intro fs' i active active' result r s s' h hfs htold
    obtain ⟨hf, hfs⟩ := List.forall_mem_cons.1 hfs
    rw [settleLoop] at h
    split at h
    · obtain ⟨⟨r₁, a₁, fs₁, s₁⟩, hrest, h⟩ := Run.bind_eq_ok.1 h
      cases h
      obtain ⟨hall, htold'⟩ := ih hrest hfs htold
      exact ⟨List.forall_mem_cons.2 ⟨hf, hall⟩, htold'⟩
    · split at h
      · obtain ⟨⟨ok, f₁, s₁⟩, hclose, h⟩ := Run.bind_eq_ok.1 h
        obtain ⟨⟨r₂, a₂, fs₂, s₂⟩, hrest, h⟩ := Run.bind_eq_ok.1 h
        cases h
        have hone := flashFlushDone_stays drv hclose ⟨hf, htold⟩
        obtain ⟨hall, htold'⟩ := ih hrest hfs hone.told
        exact ⟨List.forall_mem_cons.2 ⟨hone.buffers, hall⟩, htold'⟩
      · obtain ⟨⟨r₁, a₁, fs₁, s₁⟩, hrest, h⟩ := Run.bind_eq_ok.1 h
        cases h
        obtain ⟨hall, htold'⟩ := ih hrest hfs htold
        exact ⟨List.forall_mem_cons.2 ⟨hf, hall⟩, htold'⟩

/-- Going over to another region programs what the old one holds. -/
theorem switchWrite_stays {active i : Nat} {r : Bool}
    (hrun : switchWrite drv.logged t active i = .ok (r, t')) (h : t.Stays P pre) :
    t'.Stays P pre := by
  unfold switchWrite at hrun
  split at hrun
  · exact h.onFlashBuf (flashFlushDone_stays drv) hrun
  · cases hrun
    exact h

/-- The region at an address takes a part of the bytes, and the rest follows behind it. -/
theorem FlashGeometry.localEndAddr_eq (g : FlashGeometry) {dest len : Nat} (hdest : dest < 2 ^ 32) :
    g.localEndAddr dest len = add32 dest (g.localLength dest len) := by
  have hlt : g.localEndAddr dest len < 2 ^ 32 :=
    Nat.lt_of_le_of_lt (Nat.min_le_left _ _) (add32_lt _ _)
  unfold FlashGeometry.localLength
  generalize g.localEndAddr dest len = e at hlt ⊢
  unfold add32 sub32
  omega

/-- The write loop programs what the buffers hold, and its own bytes. -/
theorem writeLoop_stays :
    ∀ {fuel : Nat} {t t' : Target (δ × List FlashEvent)} {active dest : Nat} {src : List UInt8}
      {r : Bool}, (∀ i v, src[i]? = some v → P (add32 dest i) v) →
      writeLoop drv.logged fuel t active dest src = .ok (r, t') → t.Stays P pre →
      t'.Stays P pre := by
  intro fuel
  induction fuel with
  | zero =>
    intro t t' active dest src r hsrc h ht
    cases src <;> cases h <;> exact ht
  | succ fuel ih =>
    intro t t' active dest src r hsrc h ht
    cases src with
    | nil =>
      cases h
      exact ht
    | cons c cs =>
      rw [writeLoop] at h
      split at h
      · cases h
        exact ht
      next i hi =>
      have hdest : dest < 2 ^ 32 := by
        obtain ⟨g, -, hc⟩ := targetFlashForAddr_some hi
        have := hc.succ_lt
        omega
      obtain ⟨⟨closed, t₁⟩, hclose, h⟩ := Run.bind_eq_ok.1 h
      have hready := (switchWrite_stays drv hclose ht).onFlash (flashBufferEnsure_stays drv) i
      rcases hens : t₁.onFlash i (flashBufferEnsure drv.logged) with ⟨ready, t₂⟩
      simp only [hens] at hready h
      split at h
      · split at h
        · cases h
          exact hready
        next f hf =>
        obtain ⟨⟨ok, t₃⟩, hbuf, h⟩ := Run.bind_eq_ok.1 h
        change t₂.onFlashBuf i (fun f' s => flashBufferedWrite drv.logged f' dest
          ((c :: cs).take (f.localLength dest (c :: cs).length)) s) = .ok (ok, t₃) at hbuf
        have hwrite := hready.onFlashBuf (fun hrun hs => bufferedWriteLoop_stays drv hdest
          (fun j v hv => by
            rw [List.getElem?_take] at hv
            split at hv
            · exact hsrc j v hv
            · cases hv) hrun hs) hbuf
        dsimp only at h
        split at h
        · refine ih (fun j v hv => ?_) h hwrite
          change ((c :: cs).drop (f.localLength dest (c :: cs).length))[j]? = some v at hv
          rw [List.getElem?_drop] at hv
          rw [f.localEndAddr_eq hdest, add32_add32]
          exact hsrc _ v hv
        · cases h
          exact hwrite
      · cases h
        exact hready

/-- So does `target_flash_write`. -/
theorem targetFlashWrite_stays {dest : Nat} {src : List UInt8} {r : Bool}
    (hsrc : ∀ i v, src[i]? = some v → P (add32 dest i) v)
    (hrun : targetFlashWrite drv.logged t dest src = .ok (r, t')) (h : t.Stays P pre) :
    t'.Stays P pre := by
  have henter := targetEnterFlashMode_stays drv h
  unfold targetFlashWrite at hrun
  generalize targetEnterFlashMode drv.logged t = x at henter hrun
  obtain ⟨entered, t₁⟩ := x
  dsimp only at henter hrun
  split at hrun
  · obtain ⟨⟨r₁, active, fs, s⟩, hsettle, hrun⟩ := Run.bind_eq_ok.1 hrun
    obtain ⟨hfs, htold⟩ := settleLoop_stays drv hsettle henter.buffers henter.told
    have hsettled : Target.Stays P pre { t₁ with flash := fs, dev := s } := ⟨hfs, htold⟩
    cases active with
    | none =>
      cases hrun
      exact hsettled
    | some active =>
      dsimp only at hrun
      split at hrun
      · exact writeLoop_stays drv hsrc hrun hsettled
      · cases hrun
        exact hsettled
  · cases hrun
    exact henter

/-- The loop over all regions programs what they hold. -/
theorem completeLoop_stays :
    ∀ {fs fs' : List TargetFlash} {result r : Bool} {s s' : δ × List FlashEvent},
      completeLoop drv.logged fs result s = .ok (r, fs', s') →
        (∀ f ∈ fs, f.Buffers P) → Told P pre s.2 →
        (∀ f ∈ fs', f.Buffers P) ∧ Told P pre s'.2 := by
  intro fs
  induction fs with
  | nil =>
    intro fs' result r s s' h hfs htold
    cases h
    exact ⟨hfs, htold⟩
  | cons f fs ih =>
    intro fs' result r s s' h hfs htold
    obtain ⟨hf, hfs⟩ := List.forall_mem_cons.1 hfs
    obtain ⟨⟨ok, f₁, s₁⟩, hclose, h⟩ := Run.bind_eq_ok.1 h
    obtain ⟨⟨r₂, fs₂, s₂⟩, hrest, h⟩ := Run.bind_eq_ok.1 h
    cases h
    have hone := flashFlushDone_stays drv hclose ⟨hf, htold⟩
    obtain ⟨hall, htold'⟩ := ih hrest hfs hone.told
    exact ⟨List.forall_mem_cons.2 ⟨hone.buffers, hall⟩, htold'⟩

/-- So does `target_flash_complete`. -/
theorem targetFlashComplete_stays {r : Bool}
    (hrun : targetFlashComplete drv.logged t = .ok (r, t')) (h : t.Stays P pre) :
    t'.Stays P pre := by
  unfold targetFlashComplete at hrun
  split at hrun
  · obtain ⟨⟨r₁, fs, s⟩, hloop, hrun⟩ := Run.bind_eq_ok.1 hrun
    obtain ⟨hfs, htold⟩ := completeLoop_stays drv hloop h.buffers h.told
    have hclosed : Target.Stays P pre { t with flash := fs, dev := s } := ⟨hfs, htold⟩
    have hexit := targetExitFlashMode_stays drv hclosed
    rcases hx : targetExitFlashMode drv.logged { t with flash := fs, dev := s } with ⟨left, t₁⟩
    simp only [hx, Except.ok.injEq, Prod.mk.injEq] at hexit hrun
    obtain ⟨-, rfl⟩ := hrun
    exact hexit
  · cases hrun
    exact h

/-! ## Runs -/

/-- A call programs nothing but `P`, when `P` holds of what it hands over and of what the buffers
have. -/
theorem flashStep_stays {c : FlashCall} {r : Bool} (hc : ∀ a v, c.Sends a v → P a v)
    (hrun : flashStep drv.logged t c = .ok (r, t')) (h : t.Stays P pre) : t'.Stays P pre := by
  cases c with
  | erase addr len =>
    have hstays := targetFlashErase_stays drv h addr len
    rw [Except.ok.inj hrun] at hstays
    exact hstays
  | write dest src =>
    exact targetFlashWrite_stays drv (fun i v hv => hc _ v ⟨i, hv, rfl⟩) hrun h
  | complete => exact targetFlashComplete_stays drv hrun h

end

section
variable {δ : Type} {P : Nat → UInt8 → Prop} {pre : List FlashEvent}

/-- Calls that send such bytes program no others. -/
theorem flashRun_stays :
    ∀ {cs : List (FlashDriver δ × FlashCall)} {t t' : Target (δ × List FlashEvent)} {rs : List
      Bool},
      (∀ c ∈ cs, ∀ a v, c.2.Sends a v → P a v) → flashRun t (loggedCalls cs) = .ok (rs, t') →
      t.Stays P pre → t'.Stays P pre
  | [], _, _, _, _, h, ht => by
    cases h
    exact ht
  | (drv, c) :: cs, t, t', _, hcs, h, ht => by
    obtain ⟨hc, hcs⟩ := List.forall_mem_cons.1 hcs
    obtain ⟨r, t₁, rs', hstep, hrun, -⟩ := flashRun_cons.1 h
    exact flashRun_stays hcs hrun (flashStep_stays drv hc hstep ht)

/-- From regions without a buffer, whatever the drivers answer and whether or not the calls succeed,
every byte that a run programs is the erased value or was handed over for its address by a
`target_flash_write` of this run. -/
theorem flashRun_programs {cs : List (FlashDriver δ × FlashCall)}
    {t t' : Target (δ × List FlashEvent)} {rs : List Bool}
    (hbuf : ∀ f ∈ t.flash, f.toFlashGeometry.Wf ∧ f.buf = none)
    (h : flashRun t (loggedCalls cs) = .ok (rs, t')) :
    ∃ evs, t'.dev.2 = t.dev.2 ++ evs ∧
      ∀ ev ∈ evs, ev.Programs fun a v => ∃ c ∈ cs, c.2.Sends a v :=
  (flashRun_stays (fun c hc _ _ hv => ⟨c, hc, hv⟩) h
    ⟨fun f hf => .of_none (hbuf f hf).1 (hbuf f hf).2, .refl _⟩).told

end

end Blackmagic
