import Blackmagic.Flash.Buffer

/-!
# Accesses to the write buffer

Which runs of `target_flash_erase`, `target_flash_write` and `target_flash_complete` keep every
access to `flash->buf` inside an allocated buffer, with callbacks and `malloc` that may fail at any
point (`flashRun_no_fault`). `BufInv` is the invariant; every call keeps it, and the calls that can
fault are the ones `StepOk` excludes. Both exclusions are real: `flashRun_faults` has a run that
faults for each.
-/

namespace Blackmagic

open Word

section
variable {δ : Type} (drv : FlashDriver δ)

/-- `flash->prepare` does not fail when it is called to prepare a write. -/
def FlashDriver.PreparesWrites : Prop :=
  ∀ (f : TargetFlash) (d : δ), f.operation = .write → (drv.callPrepare f d).1 = true

/-- The `len` bytes from `dest` stay in one page of the buffer, and in the page that is pending if
there is one: buffering them flushes nothing. -/
def TargetFlash.OnePage (f : TargetFlash) (dest len : Nat) : Prop :=
  dest % f.writebufsize + len ≤ f.writebufsize ∧
    (f.Pending → f.bufAddrBase = dest - dest % f.writebufsize)

instance (f : TargetFlash) (dest len : Nat) : Decidable (f.OnePage dest len) :=
  inferInstanceAs (Decidable (_ ∧ (_ → _)))

/-- A region whose buffer can be filled and flushed. -/
structure TargetFlash.Open (f : TargetFlash) : Prop where
  inv : f.BufInv
  buf : f.buf.isSome
  operation : f.operation ≠ .erase

/-! ## Buffered writes -/

/-- Starting the page of `dest` accesses only the allocated buffer, unless a pending page has to be
flushed first and its `prepare` fails. -/
theorem flashBufferRebase_safe {f : TargetFlash} (h : f.Open) {dest : Nat} (hdest : dest < 2 ^ 32)
    (hok : drv.PreparesWrites ∨ f.operation = .write ∨
      (f.Pending → f.bufAddrBase = dest - dest % f.writebufsize)) (d : δ) :
    ∃ ok f' d', flashBufferRebase drv f (alignDown dest f.writebufsize) d = .ok (ok, f', d') ∧
      f'.Open ∧ f'.toFlashGeometry = f.toFlashGeometry ∧
      f'.bufAddrBase = dest - dest % f.writebufsize ∧
      (f.operation = .write → f'.operation = .write) := by
  have halign := h.inv.wf.writebufsize_pow2.alignDown hdest
  unfold flashBufferRebase
  rw [halign]
  by_cases hbase : dest - dest % f.writebufsize = f.bufAddrBase
  · exact ⟨true, f, d, by simp [hbase], h, rfl, hbase.symm, id⟩
  simp only [ne_eq, hbase, not_false_eq_true, if_true]
  obtain ⟨b, hb⟩ := Option.isSome_iff_exists.1 h.buf
  rcases flashBufferedFlush_cases drv h.inv h.operation d with
    ⟨hp, heq⟩ | ⟨hp, hop, d', hc, -⟩ | ⟨hp, d', r, d'', hop, -, heq⟩
  · refine ⟨true, _, d, ?_, ⟨h.inv.fill h.buf hp _, rfl, h.operation⟩, rfl, rfl, id⟩
    simp [heq, bind, Except.bind, TargetFlash.bufFill, hb]
  · -- the failed `prepare` is what `hok` excludes
    rcases hok with hprep | hwr | hpage
    · have := hprep { f with operation := .write } d rfl
      rw [hc] at this
      cases this
    · rw [hwr] at hop
      cases hop
    · exact absurd (hpage hp).symm hbase
  · have hinv : { f with operation := FlashOperation.write }.clearSpan.BufInv :=
      (h.inv.setOperation .write).clearSpan
    have hempty : ¬ { f with operation := FlashOperation.write }.clearSpan.Pending := by
      simp [TargetFlash.Pending, TargetFlash.clearSpan]
    refine ⟨r, _, d'', ?_, ⟨hinv.fill h.buf hempty _, rfl, nofun⟩, rfl, rfl, fun _ => rfl⟩
    simp [heq, bind, Except.bind, TargetFlash.bufFill, TargetFlash.clearSpan, hb]

/-- `flash_buffered_write` accesses only the allocated buffer, unless a page change fails to
prepare the flush. -/
theorem bufferedWriteLoop_safe :
    ∀ (fuel : Nat) (f : TargetFlash) (dest : Nat) (src : List UInt8) (result : Bool) (d : δ),
      f.Open → dest < 2 ^ 32 → src.length ≤ fuel →
      (drv.PreparesWrites ∨ f.operation = .write ∨ f.OnePage dest src.length) →
      ∃ r f' d', bufferedWriteLoop drv fuel f dest src result d = .ok (r, f', d') ∧ f'.Open ∧
        f'.toFlashGeometry = f.toFlashGeometry ∧ (f.operation = .write → f'.operation = .write) ∧
        (src ≠ [] → dest % f.writebufsize + src.length ≤ f.writebufsize →
          f'.bufAddrBase = dest - dest % f.writebufsize)
  | fuel, f, dest, [], result, d, h, _, _, _ =>
    ⟨result, f, d, by cases fuel <;> rfl, h, rfl, id, fun hne => absurd rfl hne⟩
  | 0, _, _, _ :: _, _, _, _, _, hfuel, _ => by simp at hfuel
  | fuel + 1, f, dest, c :: cs, result, d, h, hdest, hfuel, hok => by
    have hwbs := h.inv.wf.writebufsize_pos
    have hmod := Nat.mod_lt dest hwbs
    generalize hsrc : c :: cs = src at hfuel hok ⊢
    have hne : src ≠ [] := by rw [← hsrc]; exact nofun
    have hpos : 0 < src.length := List.length_pos_iff.2 hne
    obtain ⟨ok, f₁, d₁, hrebase, h₁, hgeom, hbase, hwr⟩ := flashBufferRebase_safe drv h hdest
      (hok.imp_right (Or.imp_right And.right)) d
    have hsize : f₁.writebufsize = f.writebufsize := by rw [hgeom]
    have hlocal : f.localLen dest src.length =
        min (f.writebufsize - dest % f.writebufsize) src.length := rfl
    have htake : (src.take (f.localLen dest src.length)).length = f.localLen dest src.length := by
      rw [List.length_take]
      omega
    obtain ⟨b, hb⟩ := Option.isSome_iff_exists.1 h₁.buf
    obtain ⟨f₂, hchunk, h₂, hf₂⟩ := flashBufferChunk_spec h₁.inv hb dest
      (src.take (f.localLen dest src.length)) hdest (by rw [hsize]; exact hbase)
      (by rw [hsize, htake]; omega) (by rw [← List.length_pos_iff, htake]; omega)
    have hopen : f₂.Open := ⟨h₂, by rw [hf₂]; rfl, by rw [hf₂]; exact h₁.operation⟩
    have hgeom₂ : f₂.toFlashGeometry = f.toFlashGeometry := by rw [hf₂]; exact hgeom
    have hwr₂ : f.operation = .write → f₂.operation = .write := by rw [hf₂]; exact hwr
    rw [bufferedWriteLoop_step drv hwbs hne hgeom hrebase hchunk]
    by_cases hall : src.length ≤ f.localLen dest src.length
    · -- the page takes everything
      rw [List.drop_eq_nil_of_le hall]
      refine ⟨result && ok, f₂, d₁, by cases fuel <;> rfl, hopen, hgeom₂, hwr₂, fun _ _ => ?_⟩
      rw [hf₂]
      exact hbase
    · -- there is a page change to come, so a failing `prepare` is excluded
      have hok' : drv.PreparesWrites ∨ f.operation = .write := by
        rcases hok with hp | hw | hone
        · exact .inl hp
        · exact .inr hw
        · have := hone.1
          omega
      obtain ⟨r, f', d', heq, h', hg', hw', -⟩ := bufferedWriteLoop_safe fuel f₂
        (add32 dest (f.localLen dest src.length)) (src.drop (f.localLen dest src.length))
        (result && ok) d₁ hopen (add32_lt _ _) (by rw [List.length_drop]; omega)
        (hok'.elim .inl fun hw => .inr (.inl (hwr₂ hw)))
      exact ⟨r, f', d', heq, h', hg'.trans hgeom₂, fun hw => hw' (hwr₂ hw), fun _ hone => by omega⟩

/-! ## Region operations that do not read the buffer -/

/-- `flash_done` leaves an idle region of the same geometry, without a buffer unless it was idle
before. -/
theorem flashDone_spec (f : TargetFlash) (d : δ) :
    (flashDone drv f d).2.1.toFlashGeometry = f.toFlashGeometry ∧
      (flashDone drv f d).2.1.operation = .none ∧
      ((flashDone drv f d).2.1.buf = none ∨ f.operation = .none ∧
        flashDone drv f d = (true, f, d)) := by
  unfold flashDone
  split
  · next h => exact ⟨rfl, h, .inr ⟨h, rfl⟩⟩
  · exact ⟨rfl, rfl, .inl rfl⟩

/-- Closing a region keeps the invariant of its buffer. -/
theorem flashDone_inv {f : TargetFlash} (h : f.BufInv) (d : δ) :
    (flashDone drv f d).2.1.BufInv := by
  obtain ⟨hg, -, hb | ⟨-, heq⟩⟩ := flashDone_spec drv f d
  · exact .of_none (hg ▸ h.wf) hb
  · rw [heq]
    exact h

/-- So does opening it. -/
theorem flashPrepare_inv {f : TargetFlash} (h : f.BufInv) (op : FlashOperation) (d : δ) :
    (flashPrepare drv f op d).2.1.BufInv := by
  unfold flashPrepare
  split
  · exact h
  have hdone : (if f.operation ≠ .none then flashDone drv f d else (true, f, d)).2.1.BufInv := by
    split
    · exact flashDone_inv drv h d
    · exact h
  generalize (if f.operation ≠ .none then flashDone drv f d else (true, f, d)) = x at hdone ⊢
  obtain ⟨r, f', d'⟩ := x
  dsimp only
  split
  · split
    · exact hdone.setOperation op
    · exact hdone.setOperation .none
  · exact hdone

/-- A new buffer is empty, and an old one stays. -/
theorem flashBufferEnsure_spec {f : TargetFlash} (h : f.BufInv) (d : δ) :
    (flashBufferEnsure drv f d).2.1.BufInv ∧
      (flashBufferEnsure drv f d).2.1.toFlashGeometry = f.toFlashGeometry ∧
      (flashBufferEnsure drv f d).2.1.operation = f.operation ∧
      ((flashBufferEnsure drv f d).1 = true → (flashBufferEnsure drv f d).2.1.buf.isSome) ∧
      ((flashBufferEnsure drv f d).2.1 = f ∨ ¬ (flashBufferEnsure drv f d).2.1.Pending) := by
  unfold flashBufferEnsure
  split
  · next hb => exact ⟨h, rfl, rfl, fun _ => hb, .inl rfl⟩
  unfold flashBufferAlloc
  rcases drv.malloc f.writebufsize d with ⟨got, d'⟩
  cases got with
  | false => exact ⟨.of_none h.wf rfl, rfl, rfl, nofun, .inr (by simp [TargetFlash.Pending])⟩
  | true =>
    refine ⟨⟨h.wf, ?_, fun _ => .empty rfl ?_ ?_⟩, rfl, rfl, fun _ => rfl,
      .inr (by simp [TargetFlash.Pending, TargetFlash.clearSpan])⟩
    · rintro b ⟨⟩
      exact List.length_replicate
    · have := h.wf.writebufsize_pos
      change 2 ^ 32 ≤ maxU32 + f.writebufsize
      unfold maxU32
      omega
    · change maxU32 < _
      decide

/-- A flush that does not fault is followed by the close. -/
theorem flashFlushDone_of_flush {f f₁ : TargetFlash} {d d₁ : δ} {r : Bool}
    (h : flashBufferedFlush drv f d = .ok (r, f₁, d₁)) :
    flashFlushDone drv f d = .ok (r && (flashDone drv f₁ d₁).1, (flashDone drv f₁ d₁).2.1,
      (flashDone drv f₁ d₁).2.2) := by
  simp only [flashFlushDone, h, bind, Except.bind]

/-- Closing a region: unless it is in operation `ERASE` with data pending, it is flushed inside its
buffer, and left idle. -/
theorem flashFlushDone_safe {f : TargetFlash} (h : f.BufInv)
    (hop : f.operation = .erase → ¬ f.Pending) (d : δ) :
    ∃ r f' d', flashFlushDone drv f d = .ok (r, f', d') ∧ f'.BufInv ∧
      f'.toFlashGeometry = f.toFlashGeometry ∧ f'.operation = .none ∧
      (r = true → ¬ f'.Pending) := by
  by_cases hp : f.Pending
  · rcases flashBufferedFlush_cases drv h (fun he => hop he hp) d with
      ⟨hn, -⟩ | ⟨-, hn, d', -, heq⟩ | ⟨-, d', r, d'', -, -, heq⟩
    · exact absurd hp hn
    · refine ⟨false, f, d', ?_, h, rfl, hn, nofun⟩
      simp [flashFlushDone, heq, flashDone, hn, bind, Except.bind]
    · -- the flush left the region in operation `WRITE`, so `flash_done` frees the buffer
      refine ⟨_, _, _, flashFlushDone_of_flush drv heq, ?_, ?_, ?_, fun _ => ?_⟩
      · exact flashDone_inv drv (h.setOperation .write).clearSpan d''
      · exact (flashDone_spec drv _ d'').1
      · exact (flashDone_spec drv _ d'').2.1
      · simp [flashDone, TargetFlash.clearSpan, TargetFlash.Pending]
  · have heq : flashBufferedFlush drv f d = .ok (true, f, d) := by simp [flashBufferedFlush, hp]
    obtain ⟨hg, hn, hb⟩ := flashDone_spec drv f d
    refine ⟨_, _, _, flashFlushDone_of_flush drv heq, flashDone_inv drv h d, hg, hn,
      fun _ hp' => ?_⟩
    rcases hb with hb | ⟨-, hsame⟩
    · rw [TargetFlash.Pending, hb] at hp'
      exact absurd hp'.1 (by simp)
    · rw [hsame] at hp'
      exact hp hp'

/-! ## The map -/

/-- Every region of the map satisfies the representation invariant. -/
def Target.BufInv (t : Target δ) : Prop := ∀ f ∈ t.flash, f.BufInv

/-- A property of regions that an operation keeps is kept when the operation runs on one region of
the map. -/
theorem Target.onFlash_forall {P : TargetFlash → Prop} {t : Target δ}
    {op : TargetFlash → δ → Bool × TargetFlash × δ} (hop : ∀ f d, P f → P (op f d).2.1)
    (h : ∀ f ∈ t.flash, P f) (i : Nat) : ∀ f ∈ (t.onFlash i op).2.flash, P f := by
  unfold Target.onFlash
  split
  · exact h
  · next f hf =>
    intro g hg
    rcases List.mem_or_eq_of_mem_set hg with hg | rfl
    · exact h g hg
    · exact hop f t.dev (h f (List.mem_of_getElem? hf))

/-- Entering flash mode leaves the regions. -/
theorem targetEnterFlashMode_flash (t : Target δ) :
    (targetEnterFlashMode drv t).2.flash = t.flash := by
  unfold targetEnterFlashMode
  split <;> rfl

/-- So does leaving it. -/
theorem targetExitFlashMode_flash (t : Target δ) :
    (targetExitFlashMode drv t).2.flash = t.flash := by
  unfold targetExitFlashMode
  split <;> rfl

/-- The walk of `target_flash_erase` keeps the invariant of every region. -/
theorem eraseLoop_inv :
    ∀ (fuel : Nat) (t : Target δ) (active addr len : Nat) (result : Bool), t.BufInv →
      (eraseLoop drv fuel t active addr len result).2.BufInv
  | fuel, t, active, _, 0, _, h => by
    have hdone := Target.onFlash_forall (fun f d hf => flashDone_inv drv hf d) h active
    cases fuel <;> exact hdone
  | 0, _, _, _, _ + 1, _, h => h
  | fuel + 1, t, active, addr, len + 1, result, h => by
    have hdone (t : Target δ) (i : Nat) (h : t.BufInv) : (t.onFlash i (flashDone drv)).2.BufInv :=
      Target.onFlash_forall (fun f d hf => flashDone_inv drv hf d) h i
    have hprep (t : Target δ) (i : Nat) (h : t.BufInv) :
        (t.onFlash i (fun f d => flashPrepare drv f .erase d)).2.BufInv :=
      Target.onFlash_forall (fun f d hf => flashPrepare_inv drv hf .erase d) h i
    have herase (t : Target δ) (i a n : Nat) (h : t.BufInv) :
        (t.onFlash i (flashErase drv a n)).2.BufInv :=
      Target.onFlash_forall (fun f d hf => hf) h i
    unfold eraseLoop
    split
    · exact h
    · next i _ =>
      have hswitch : (switchErase drv t active i).2.BufInv := by
        unfold switchErase
        split
        · exact hdone t active h
        · exact h
      dsimp only
      split
      · exact hswitch
      · next f _ =>
        split
        · split
          · exact eraseLoop_inv fuel _ _ _ _ _ (herase _ _ _ _ (hprep _ _ hswitch))
          · exact hdone _ _ (herase _ _ _ _ (hprep _ _ hswitch))
        · exact hprep _ _ hswitch

/-! ## `target_flash_write` -/

/-- What the first loop of `target_flash_write` does to a region: it keeps the ones that contain
`dest` or hold no buffer, and closes the others. -/
def Settled (dest : Nat) (r : Bool) (f f' : TargetFlash) : Prop :=
  f' = f ∧ (f.Contains dest ∨ f.buf = none) ∨
    ¬ f.Contains dest ∧ f'.toFlashGeometry = f.toFlashGeometry ∧ f'.operation = .none ∧
      (r = true → ¬ f'.Pending)

/-- The loop that settles the other regions does not fault. -/
theorem settleLoop_safe (dest : Nat) :
    ∀ (fs : List TargetFlash) (i : Nat) (active : Option Nat) (result : Bool) (d : δ),
      (∀ f ∈ fs, f.BufInv ∧ (f.operation = .erase → ¬ f.Pending)) →
      ∃ r active' fs' d', settleLoop drv dest fs i active result d = .ok (r, active', fs', d') ∧
        (r = true → result = true) ∧ (∀ f ∈ fs', f.BufInv) ∧
        List.Forall₂ (Settled dest r) fs fs'
  | [], _, active, result, d, _ => ⟨result, active, [], d, rfl, id, nofun, .nil⟩
  | f :: fs, i, active, result, d, h => by
    obtain ⟨⟨hf, hop⟩, hfs⟩ := List.forall_mem_cons.1 h
    unfold settleLoop
    split
    · next hc =>
      obtain ⟨r, a, fs', d', heq, hr, hall, hset⟩ :=
        settleLoop_safe dest fs (i + 1) (some i) result d hfs
      exact ⟨r, a, f :: fs', d', by simp only [heq, bind, Except.bind], hr,
        List.forall_mem_cons.2 ⟨hf, hall⟩, .cons (.inl ⟨rfl, .inl hc⟩) hset⟩
    next hc =>
    split
    · next hb =>
      obtain ⟨ok, f', d₁, hclose, hf', hg, hn, hp⟩ := flashFlushDone_safe drv hf hop d
      obtain ⟨r, a, fs', d', heq, hr, hall, hset⟩ :=
        settleLoop_safe dest fs (i + 1) active (result && ok) d₁ hfs
      refine ⟨r, a, f' :: fs', d', by simp only [hclose, heq, bind, Except.bind], fun h => ?_,
        List.forall_mem_cons.2 ⟨hf', hall⟩, .cons (.inr ⟨hc, hg, hn, fun h => hp ?_⟩) hset⟩
      · exact (Bool.and_eq_true_iff.1 (hr h)).1
      · exact (Bool.and_eq_true_iff.1 (hr h)).2
    · next hb =>
      obtain ⟨r, a, fs', d', heq, hr, hall, hset⟩ :=
        settleLoop_safe dest fs (i + 1) active result d hfs
      exact ⟨r, a, f :: fs', d', by simp only [heq, bind, Except.bind], hr,
        List.forall_mem_cons.2 ⟨hf, hall⟩, .cons (.inl ⟨rfl, .inr (by simpa using hb)⟩) hset⟩

/-- A region found for an address is a region of the list that contains it. -/
theorem targetFlashForAddr_some {t : Target δ} {addr i : Nat}
    (h : targetFlashForAddr t addr = some i) :
    ∃ f, t.flash[i]? = some f ∧ f.Contains addr := by
  unfold targetFlashForAddr at h
  obtain ⟨hi, hp, -⟩ := List.findIdx?_eq_some_iff_getElem.1 h
  exact ⟨t.flash[i], List.getElem?_eq_getElem hi, by simpa using hp⟩

/-- The region found for an address depends on the geometry of the map only. -/
theorem targetFlashForAddr_congr {t t' : Target δ}
    (h : t'.flash.map (·.toFlashGeometry) = t.flash.map (·.toFlashGeometry)) (addr : Nat) :
    targetFlashForAddr t' addr = targetFlashForAddr t addr := by
  have key (t : Target δ) : targetFlashForAddr t addr =
      (t.flash.map (·.toFlashGeometry)).findIdx? (fun g => decide (g.Contains addr)) := by
    rw [List.findIdx?_map]
    rfl
  rw [key, key, h]

/-- The invariant of the second loop of `target_flash_write` at `dest`, with `len` bytes to go. A
region that one of these bytes is in stays on one page, or `prepare` is not going to be called for
it (it is the region at `dest` and it is prepared), or `prepare` does not fail. -/
structure WriteReady (t : Target δ) (dest len : Nat) : Prop where
  inv : t.BufInv
  noErase : ∀ f ∈ t.flash, f.operation = .erase → ¬ f.Pending ∧ ∀ k < len, ¬ f.Contains (dest + k)
  page : drv.PreparesWrites ∨ ∀ j f, t.flash[j]? = some f → (∃ k < len, f.Contains (dest + k)) →
    (f.operation = .write ∧ targetFlashForAddr t dest = some j) ∨ f.OnePage dest len

/-- Replacing a region by one of the same geometry. -/
theorem map_geometry_set {fs : List TargetFlash} {i : Nat} {f f' : TargetFlash}
    (hf : fs[i]? = some f) (hg : f'.toFlashGeometry = f.toFlashGeometry) :
    (fs.set i f').map (·.toFlashGeometry) = fs.map (·.toFlashGeometry) := by
  rw [List.map_set, hg]
  apply List.ext_getElem?
  intro j
  rw [List.getElem?_set]
  split
  · next h =>
    subst h
    rw [List.getElem?_map, hf]
    split
    · rfl
    · next hlt =>
      rw [List.getElem?_eq_none (by simpa using hlt)] at hf
      cases hf
  · rfl

/-- A region can be replaced while a write is prepared. -/
theorem WriteReady.set {t : Target δ} {dest len i : Nat} {f f' : TargetFlash}
    (h : WriteReady drv t dest len) (hf : t.flash[i]? = some f)
    (hg : f'.toFlashGeometry = f.toFlashGeometry) (hinv : f'.BufInv)
    (herase : f'.operation = .erase → ¬ f'.Pending ∧ ∀ k < len, ¬ f'.Contains (dest + k))
    (hpage : (∃ k < len, f.Contains (dest + k)) →
      ((f.operation = .write ∧ targetFlashForAddr t dest = some i) ∨ f.OnePage dest len) →
      (f'.operation = .write ∧ targetFlashForAddr t dest = some i) ∨ f'.OnePage dest len) (d : δ) :
    WriteReady drv { t with flash := t.flash.set i f', dev := d } dest len := by
  refine ⟨fun g hmem => ?_, fun g hmem => ?_, h.page.imp_right fun hp j g hj hk => ?_⟩
  · rcases List.mem_or_eq_of_mem_set hmem with hmem | rfl
    exacts [h.inv g hmem, hinv]
  · rcases List.mem_or_eq_of_mem_set hmem with hmem | rfl
    exacts [h.noErase g hmem, herase]
  · have hcongr : targetFlashForAddr { t with flash := t.flash.set i f', dev := d } dest =
        targetFlashForAddr t dest := targetFlashForAddr_congr (map_geometry_set hf hg) dest
    rw [hcongr]
    simp only [List.getElem?_set] at hj
    split at hj
    · next hij =>
      subst hij
      split at hj
      · cases hj
        have hk' : ∃ k < len, f.Contains (dest + k) := by rwa [hg] at hk
        exact hpage hk' (hp i f hf hk')
      · cases hj
    · exact hp j g hj hk

/-- Going on behind bytes that were written in the same page. -/
theorem TargetFlash.OnePage.advance {f : TargetFlash} {dest len n : Nat}
    (h : f.OnePage dest len) (hn : n < len) : f.OnePage (dest + n) (len - n) := by
  have hlt := h.1
  have hdm := Nat.div_add_mod dest f.writebufsize
  have hmod : (dest + n) % f.writebufsize = dest % f.writebufsize + n := by
    rw [Nat.add_mod, Nat.mod_eq_of_lt (show n < f.writebufsize by omega)]
    exact Nat.mod_eq_of_lt (by omega)
  have hle := Nat.mod_le dest f.writebufsize
  refine ⟨by omega, fun hp => ?_⟩
  have := h.2 hp
  omega

/-- Going on behind the bytes that the region at `dest` took: that region has no more of them. -/
theorem WriteReady.advance {t : Target δ} {dest len n i : Nat} {f : TargetFlash}
    (h : WriteReady drv t dest len) (hn : n < len) (hi : targetFlashForAddr t dest = some i)
    (hf : t.flash[i]? = some f) (hend : ∀ k, ¬ f.Contains (dest + n + k)) :
    WriteReady drv t (dest + n) (len - n) := by
  refine ⟨h.inv, fun g hg he => ?_, h.page.imp_right fun hp j g hj hk => ?_⟩
  · obtain ⟨hb, hc⟩ := h.noErase g hg he
    refine ⟨hb, fun k hk => ?_⟩
    rw [Nat.add_assoc]
    exact hc (n + k) (by omega)
  · obtain ⟨k, hk, hc⟩ := hk
    have htouch : ∃ k < len, g.Contains (dest + k) :=
      ⟨n + k, by omega, by rwa [Nat.add_assoc] at hc⟩
    rcases hp j g hj htouch with ⟨-, hj'⟩ | hone
    · rw [hi] at hj'
      cases hj'
      rw [hf] at hj
      cases hj
      exact absurd hc (hend k)
    · exact .inr (hone.advance hn)

/-- The number of bytes that the region at `dest` takes of a write. -/
def FlashGeometry.localLength (g : FlashGeometry) (dest len : Nat) : Nat :=
  sub32 (g.localEndAddr dest len) dest

/-- The part of a write that the region at `dest` takes: all that is left, or what is left up to
the end of the region. -/
theorem FlashGeometry.localEndAddr_cases {g : FlashGeometry} {dest len : Nat}
    (hc : g.Contains dest) (hpos : 0 < len) (hlen : len < 2 ^ 32) :
    g.localLength dest len = len ∨
      (0 < g.localLength dest len ∧ g.localLength dest len < len ∧
        g.localEndAddr dest len = dest + g.localLength dest len ∧
        g.localEndAddr dest len = add32 g.start g.length) := by
  obtain ⟨-, hlt⟩ := hc
  have hend := add32_lt g.start g.length
  unfold FlashGeometry.localLength FlashGeometry.localEndAddr sub32
  generalize add32 g.start g.length = e at *
  unfold add32
  omega

/-- Closing the region that a write has left. -/
theorem WriteReady.close {t : Target δ} {dest len i : Nat} (h : WriteReady drv t dest len)
    (hi : targetFlashForAddr t dest = some i) (active : Nat) :
    ∃ closed t', switchWrite drv t active i = .ok (closed, t') ∧ t'.BufInv ∧
      (closed = true → WriteReady drv t' dest len) ∧
      targetFlashForAddr t' dest = some i ∧ t'.flash[i]? = t.flash[i]? := by
  unfold switchWrite
  split
  · next hne =>
    unfold Target.onFlashBuf
    cases ha : t.flash[active]? with
    | none => exact ⟨false, t, rfl, h.inv, fun _ => h, hi, rfl⟩
    | some f =>
      have hmem := List.mem_of_getElem? ha
      obtain ⟨r, f', d', heq, hinv, hg, hn, hp⟩ := flashFlushDone_safe drv (h.inv f hmem)
        (fun he => (h.noErase f hmem he).1) t.dev
      refine ⟨r, { t with flash := t.flash.set active f', dev := d' },
        by simp only [heq, bind, Except.bind], fun g hmem => ?_, fun hr => ?_, ?_, ?_⟩
      · rcases List.mem_or_eq_of_mem_set hmem with hmem | rfl
        exacts [h.inv g hmem, hinv]
      · -- the closed region is not the one at `dest`, so it was to stay on one page
        refine h.set drv ha hg hinv (fun he => by rw [hn] at he; cases he) (fun _ hpage => ?_) d'
        rcases hpage with ⟨-, hact⟩ | hone
        · rw [hi] at hact
          exact absurd (Option.some.inj hact) hne
        · exact .inr ⟨by rw [hg]; exact hone.1, fun hpend => absurd hpend (hp hr)⟩
      · rw [← hi]
        exact targetFlashForAddr_congr (map_geometry_set ha hg) dest
      · exact List.getElem?_set_ne (Ne.symm hne)
  · exact ⟨true, t, rfl, h.inv, fun _ => h, hi, rfl⟩

/-- A call on a region that is there. -/
theorem Target.onFlash_of_getElem? {t : Target δ} {i : Nat} {f : TargetFlash}
    (hf : t.flash[i]? = some f) (op : TargetFlash → δ → Bool × TargetFlash × δ) :
    t.onFlash i op = ((op f t.dev).1,
      { t with flash := t.flash.set i (op f t.dev).2.1, dev := (op f t.dev).2.2 }) := by
  simp only [Target.onFlash, hf]

/-- The same where the buffer can be overrun. -/
theorem Target.onFlashBuf_of_getElem? {t : Target δ} {i : Nat} {f f' : TargetFlash} {r : Bool}
    {d' : δ} {op : TargetFlash → δ → Except BufFault (Bool × TargetFlash × δ)}
    (hf : t.flash[i]? = some f) (hop : op f t.dev = .ok (r, f', d')) :
    t.onFlashBuf i op = .ok (r, { t with flash := t.flash.set i f', dev := d' }) := by
  simp only [Target.onFlashBuf, hf, hop, bind, Except.bind]

/-- One iteration of the second loop of `target_flash_write`, once the region at `dest` is open. -/
theorem writeLoop_step {t t₁ t₂ t₃ : Target δ} {active dest i fuel : Nat} {src : List UInt8}
    {f : TargetFlash} {r : Bool} (hne : src ≠ []) (hi : targetFlashForAddr t dest = some i)
    (h₁ : switchWrite drv t active i = .ok (true, t₁))
    (h₂ : t₁.onFlash i (flashBufferEnsure drv) = (true, t₂)) (hf : t₂.flash[i]? = some f)
    (h₃ : t₂.onFlashBuf i (fun f' d =>
      flashBufferedWrite drv f' dest (src.take (f.localLength dest src.length)) d) = .ok (r, t₃)) :
    writeLoop drv (fuel + 1) t active dest src =
      if r then writeLoop drv fuel t₃ i (f.localEndAddr dest src.length)
        (src.drop (f.localLength dest src.length))
      else .ok (false, t₃) := by
  cases src with
  | nil => exact absurd rfl hne
  | cons c cs =>
    unfold FlashGeometry.localLength at h₃ ⊢
    simp only [writeLoop, hi, h₁, h₂, hf, h₃, bind, Except.bind, Bool.and_self, if_true]

/-- The second loop of `target_flash_write` gives up: a region could not be closed, or there was no
room for a buffer. -/
theorem writeLoop_stop {t t₁ t₂ : Target δ} {active dest i fuel : Nat} {src : List UInt8}
    {closed ready : Bool} (hne : src ≠ []) (hi : targetFlashForAddr t dest = some i)
    (h₁ : switchWrite drv t active i = .ok (closed, t₁))
    (h₂ : t₁.onFlash i (flashBufferEnsure drv) = (ready, t₂)) (h : (closed && ready) = false) :
    writeLoop drv (fuel + 1) t active dest src = .ok (false, t₂) := by
  cases src with
  | nil => exact absurd rfl hne
  | cons c cs =>
    simp only [writeLoop, hi, h₁, h₂, h, bind, Except.bind, if_false, Bool.false_eq_true]

/-- Making sure that the region at `dest` has a buffer. -/
theorem WriteReady.ensure {t : Target δ} {dest len i : Nat} (h : WriteReady drv t dest len)
    (hpos : 0 < len) (hi : targetFlashForAddr t dest = some i) :
    ∃ ready t', t.onFlash i (flashBufferEnsure drv) = (ready, t') ∧ WriteReady drv t' dest len ∧
      targetFlashForAddr t' dest = some i ∧
      (ready = true → ∃ f, t'.flash[i]? = some f ∧ f.Open ∧ f.Contains dest) := by
  obtain ⟨f, hf, hc⟩ := targetFlashForAddr_some hi
  have hmem := List.mem_of_getElem? hf
  obtain ⟨hinv, hg, hop, hbuf, hpend⟩ := flashBufferEnsure_spec drv (h.inv f hmem) t.dev
  have hne : f.operation ≠ .erase := fun he => (h.noErase f hmem he).2 0 hpos hc
  refine ⟨_, _, Target.onFlash_of_getElem? hf _, ?_, ?_, fun hr => ?_⟩
  · refine h.set drv hf hg hinv (fun he => absurd (hop ▸ he) hne) (fun _ hp => ?_) _
    rcases hp with ⟨hw, ha⟩ | hone
    · exact .inl ⟨hop.trans hw, ha⟩
    · refine .inr ⟨by rw [hg]; exact hone.1, fun hp' => ?_⟩
      rcases hpend with hsame | hn
      · rw [hsame] at hp' ⊢
        exact hone.2 hp'
      · exact absurd hp' hn
  · rw [← hi]
    exact targetFlashForAddr_congr (map_geometry_set hf hg) dest
  · refine ⟨_, List.getElem?_set_self ?_, ⟨hinv, hbuf hr, by rw [hop]; exact hne⟩,
      by rw [hg]; exact hc⟩
    exact (List.getElem?_eq_some_iff.1 hf).1

/-- Buffering the bytes that the region at `dest` takes. -/
theorem WriteReady.buffer {t : Target δ} {dest i : Nat} {src : List UInt8} {f : TargetFlash}
    (h : WriteReady drv t dest src.length) (hpos : 0 < src.length) (hlen : src.length < 2 ^ 32)
    (hdest : dest < 2 ^ 32) (hi : targetFlashForAddr t dest = some i) (hf : t.flash[i]? = some f)
    (hopen : f.Open) (hc : f.Contains dest) :
    ∃ r t', t.onFlashBuf i (fun f' d => flashBufferedWrite drv f' dest
        (src.take (f.localLength dest src.length)) d) = .ok (r, t') ∧ t'.BufInv ∧
      (f.localLength dest src.length = src.length ∨
        f.localEndAddr dest src.length = dest + f.localLength dest src.length ∧
        WriteReady drv t' (dest + f.localLength dest src.length)
          (src.drop (f.localLength dest src.length)).length) := by
  have hcases := FlashGeometry.localEndAddr_cases hc hpos hlen
  generalize hn : f.localLength dest src.length = n at hcases ⊢
  have hchunk : (src.take n).length = min n src.length := List.length_take
  have hok : drv.PreparesWrites ∨ f.operation = .write ∨ f.OnePage dest (src.take n).length := by
    refine h.page.imp_right fun hp => ?_
    rcases hp i f hf ⟨0, hpos, hc⟩ with ⟨hw, -⟩ | hone
    · exact .inl hw
    · exact .inr ⟨by have := hone.1; omega, hone.2⟩
  obtain ⟨r, f', d', heq, hopen', hg, hw, hbase⟩ := bufferedWriteLoop_safe drv
    (src.take n).length f dest (src.take n) true t.dev hopen hdest le_rfl hok
  have hready : WriteReady drv { t with flash := t.flash.set i f', dev := d' } dest src.length := by
    refine h.set drv hf hg hopen'.inv (fun he => absurd he hopen'.operation) (fun _ hp => ?_) d'
    rcases hp with ⟨hw', ha⟩ | hone
    · exact .inl ⟨hw hw', ha⟩
    · have hne : src.take n ≠ [] := by
        rw [← List.length_pos_iff, hchunk]
        omega
      refine .inr ⟨by rw [hg]; exact hone.1, fun _ => ?_⟩
      rw [hg]
      exact hbase hne (by have := hone.1; omega)
  refine ⟨r, _, Target.onFlashBuf_of_getElem? hf heq, hready.inv, ?_⟩
  rcases hcases with hall | ⟨-, hlt, hend, hend'⟩
  · exact .inl hall
  · -- the region took its bytes up to its end
    refine .inr ⟨hend, ?_⟩
    have hi' : targetFlashForAddr { t with flash := t.flash.set i f', dev := d' } dest =
        some i := by
      rw [← hi]
      exact targetFlashForAddr_congr (map_geometry_set hf hg) dest
    have hget : (t.flash.set i f')[i]? = some f' :=
      List.getElem?_set_self (List.getElem?_eq_some_iff.1 hf).1
    rw [List.length_drop]
    refine hready.advance drv hlt hi' hget fun k hcon => ?_
    have := hcon.2
    rw [hg, ← hend', hend] at this
    omega

/-- The second loop of `target_flash_write` accesses only allocated buffers. -/
theorem writeLoop_safe :
    ∀ (fuel : Nat) (t : Target δ) (active dest : Nat) (src : List UInt8),
      WriteReady drv t dest src.length → dest < 2 ^ 32 → src.length < 2 ^ 32 →
      ∃ r t', writeLoop drv fuel t active dest src = .ok (r, t') ∧ t'.BufInv
  | fuel, t, _, _, [], h, _, _ => ⟨true, t, by cases fuel <;> rfl, h.inv⟩
  | 0, t, _, _, _ :: _, h, _, _ => ⟨false, t, rfl, h.inv⟩
  | fuel + 1, t, active, dest, c :: cs, h, hdest, hlen => by
    cases hi : targetFlashForAddr t dest with
    | none => exact ⟨false, t, by simp only [writeLoop, hi], h.inv⟩
    | some i =>
      have hpos : 0 < (c :: cs).length := Nat.succ_pos _
      obtain ⟨closed, t₁, hclose, hinv₁, hready₁, hi₁, -⟩ := h.close drv hi active
      cases closed with
      | false =>
        rcases hens : t₁.onFlash i (flashBufferEnsure drv) with ⟨ready, t₂⟩
        refine ⟨false, t₂, writeLoop_stop drv nofun hi hclose hens rfl, ?_⟩
        have := Target.onFlash_forall (fun f d hf => (flashBufferEnsure_spec drv hf d).1) hinv₁ i
        rwa [hens] at this
      | true =>
        obtain ⟨ready, t₂, hens, hready₂, hi₂, hopen⟩ := (hready₁ rfl).ensure drv hpos hi₁
        cases ready with
        | false => exact ⟨false, t₂, writeLoop_stop drv nofun hi hclose hens rfl, hready₂.inv⟩
        | true =>
          obtain ⟨f, hf, hf_open, hc⟩ := hopen rfl
          obtain ⟨r, t₃, hbuf, hinv₃, hrest⟩ :=
            hready₂.buffer drv hpos hlen hdest hi₂ hf hf_open hc
          rw [writeLoop_step drv (List.cons_ne_nil c cs) hi hclose hens hf hbuf]
          cases r with
          | false => exact ⟨false, t₃, rfl, hinv₃⟩
          | true =>
            rw [if_pos rfl]
            rcases hrest with hall | ⟨hend, hready₃⟩
            · rw [hall, List.drop_length]
              exact ⟨true, t₃, by cases fuel <;> rfl, hinv₃⟩
            · rw [hend]
              refine writeLoop_safe fuel t₃ i _ _ hready₃ ?_ (by rw [List.length_drop]; omega)
              rw [← hend]
              exact lt_of_le_of_lt (Nat.min_le_left _ _) (add32_lt _ _)

/-! ## Calls and runs -/

/-- When a `target_flash_write` of `len` bytes at `dest` stays inside its buffers. `noErase`: no
region that holds pending data or that the write reaches is in operation `ERASE`. `page`: a region
that the write reaches and that it leaves on another page, so that a page has to be flushed, is
prepared already or its `prepare` does not fail. -/
structure WriteOk (t : Target δ) (dest len : Nat) : Prop where
  noErase : ∀ f ∈ t.flash, f.operation = .erase → ¬ f.Pending ∧ ∀ k < len, ¬ f.Contains (dest + k)
  page : drv.PreparesWrites ∨ ∀ j f, t.flash[j]? = some f → (∃ k < len, f.Contains (dest + k)) →
    (f.operation = .write ∧ targetFlashForAddr t dest = some j) ∨
      (dest % f.writebufsize + len ≤ f.writebufsize ∧
        (f.Contains dest → f.Pending → f.bufAddrBase = dest - dest % f.writebufsize))

/-- The condition on a call, in the state it is made in: an erase is always safe, a
`target_flash_complete` must not meet pending data in operation `ERASE`. -/
def StepOk (t : Target δ) : FlashCall → Prop
  | .erase _ _ => True
  | .write dest src => WriteOk drv t dest src.length
  | .complete => ∀ f ∈ t.flash, f.operation = .erase → ¬ f.Pending

/-- The arguments of a call are 32-bit words. -/
def FlashCall.InRange : FlashCall → Prop
  | .erase addr len => addr < 2 ^ 32 ∧ len < 2 ^ 32
  | .write dest src => dest < 2 ^ 32 ∧ src.length < 2 ^ 32
  | .complete => True

/-- What the first loop of `target_flash_write` leaves is what the second one needs. -/
theorem WriteOk.settled {t : Target δ} {dest len : Nat} (h : WriteOk drv t dest len)
    {fs : List TargetFlash} (hinv : ∀ f ∈ fs, f.BufInv)
    (hset : List.Forall₂ (Settled dest true) t.flash fs) (d : δ) :
    WriteReady drv { t with flash := fs, dev := d } dest len := by
  have hgeom : fs.map (·.toFlashGeometry) = t.flash.map (·.toFlashGeometry) := by
    rw [← List.forall₂_eq_eq_eq, List.forall₂_map_left_iff, List.forall₂_map_right_iff]
    refine hset.flip.imp fun f' f hs => ?_
    rcases hs with ⟨rfl, -⟩ | ⟨-, hg, -⟩
    exacts [rfl, hg]
  refine ⟨hinv, fun f' hf' he => ?_, h.page.imp_right fun hp j f' hj hk => ?_⟩
  · obtain ⟨j, hj⟩ := List.mem_iff_getElem?.1 hf'
    obtain ⟨f, hf, ⟨rfl, -⟩ | ⟨-, -, hn, -⟩⟩ := Bytes.getElem?_of_forall₂ hset hj
    · exact h.noErase f' (List.mem_of_getElem? hf) he
    · rw [hn] at he
      cases he
  · have hfor : targetFlashForAddr { t with flash := fs, dev := d } dest =
        targetFlashForAddr t dest := targetFlashForAddr_congr hgeom dest
    rw [hfor]
    obtain ⟨f, hf, hs⟩ := Bytes.getElem?_of_forall₂ hset hj
    have hg : f'.toFlashGeometry = f.toFlashGeometry := by
      rcases hs with ⟨rfl, -⟩ | ⟨-, hg, -⟩
      exacts [rfl, hg]
    rcases hp j f hf (by rwa [hg] at hk) with ⟨hw, ha⟩ | ⟨hlen, hbase⟩
    · -- the region at `dest` is kept as it is
      obtain ⟨g, hg', hc⟩ := targetFlashForAddr_some ha
      rw [hf] at hg'
      cases hg'
      rcases hs with ⟨rfl, -⟩ | ⟨hnc, -⟩
      · exact .inl ⟨hw, ha⟩
      · exact absurd hc hnc
    · refine .inr ⟨by rw [hg]; exact hlen, fun hpend => ?_⟩
      rcases hs with ⟨rfl, hc | hb⟩ | ⟨-, -, -, hp'⟩
      · exact hbase hc hpend
      · rw [TargetFlash.Pending, hb] at hpend
        exact absurd hpend.1 (by simp)
      · exact absurd hpend (hp' rfl)

/-- `target_flash_write` accesses only allocated buffers. -/
theorem targetFlashWrite_safe {t : Target δ} {dest : Nat} {src : List UInt8} (hinv : t.BufInv)
    (h : WriteOk drv t dest src.length) (hdest : dest < 2 ^ 32) (hlen : src.length < 2 ^ 32) :
    ∃ r t', targetFlashWrite drv t dest src = .ok (r, t') ∧ t'.BufInv := by
  have hflash := targetEnterFlashMode_flash drv t
  unfold targetFlashWrite
  rcases henter : targetEnterFlashMode drv t with ⟨entered, t₁⟩
  rw [henter] at hflash
  dsimp only at hflash
  have hinv₁ : t₁.BufInv := by rwa [Target.BufInv, hflash]
  have hfor : targetFlashForAddr t₁ dest = targetFlashForAddr t dest :=
    targetFlashForAddr_congr (by rw [hflash]) dest
  have h₁ : WriteOk drv t₁ dest src.length := by
    refine ⟨by rw [hflash]; exact h.noErase, ?_⟩
    rw [hflash, hfor]
    exact h.page
  cases entered with
  | false => exact ⟨false, t₁, rfl, hinv₁⟩
  | true =>
    obtain ⟨r, active, fs, d, heq, -, hall, hset⟩ := settleLoop_safe drv dest t₁.flash 0 none true
      t₁.dev (fun f hf => ⟨hinv₁ f hf, fun he => (h₁.noErase f hf he).1⟩)
    simp only [heq, bind, Except.bind, if_true]
    cases active with
    | none => exact ⟨false, _, rfl, hall⟩
    | some i =>
      cases r with
      | false => exact ⟨false, _, rfl, hall⟩
      | true => exact writeLoop_safe drv _ _ i dest src (h₁.settled drv hall hset d) hdest hlen

/-- The loop over all regions does not fault. -/
theorem completeLoop_safe :
    ∀ (fs : List TargetFlash) (result : Bool) (d : δ),
      (∀ f ∈ fs, f.BufInv ∧ (f.operation = .erase → ¬ f.Pending)) →
      ∃ r fs' d', completeLoop drv fs result d = .ok (r, fs', d') ∧ ∀ f ∈ fs', f.BufInv
  | [], result, d, _ => ⟨result, [], d, rfl, nofun⟩
  | f :: fs, result, d, h => by
    obtain ⟨⟨hf, hop⟩, hfs⟩ := List.forall_mem_cons.1 h
    obtain ⟨ok, f', d₁, hclose, hf', -⟩ := flashFlushDone_safe drv hf hop d
    obtain ⟨r, fs', d', heq, hall⟩ := completeLoop_safe fs (result && ok) d₁ hfs
    exact ⟨r, f' :: fs', d', by simp only [completeLoop, hclose, heq, bind, Except.bind],
      List.forall_mem_cons.2 ⟨hf', hall⟩⟩

/-- `target_flash_erase` keeps the invariant; it accesses no buffer. -/
theorem targetFlashErase_inv {t : Target δ} (hinv : t.BufInv) (addr len : Nat) :
    (targetFlashErase drv t addr len).2.BufInv := by
  have hflash := targetEnterFlashMode_flash drv t
  unfold targetFlashErase
  rcases henter : targetEnterFlashMode drv t with ⟨entered, t₁⟩
  rw [henter] at hflash
  dsimp only at hflash
  have hinv₁ : t₁.BufInv := by rwa [Target.BufInv, hflash]
  cases entered with
  | false => exact hinv₁
  | true =>
    simp only [if_true]
    split
    · exact hinv₁
    · exact eraseLoop_inv drv _ _ _ _ _ _ hinv₁

/-- `target_flash_complete` accesses only allocated buffers, unless it meets pending data in
operation `ERASE`. -/
theorem targetFlashComplete_safe {t : Target δ} (hinv : t.BufInv)
    (h : ∀ f ∈ t.flash, f.operation = .erase → ¬ f.Pending) :
    ∃ r t', targetFlashComplete drv t = .ok (r, t') ∧ t'.BufInv := by
  unfold targetFlashComplete
  split
  · obtain ⟨r, fs, d, heq, hall⟩ := completeLoop_safe drv t.flash true t.dev
      (fun f hf => ⟨hinv f hf, h f hf⟩)
    refine ⟨r, (targetExitFlashMode drv { t with flash := fs, dev := d }).2,
      by simp only [heq, bind, Except.bind], fun f hf => ?_⟩
    rw [targetExitFlashMode_flash] at hf
    exact hall f hf
  · exact ⟨false, t, rfl, hinv⟩

/-- One call: an access outside an allocated buffer needs a call that `StepOk` excludes, and the
invariant is kept. -/
theorem flashStep_safe {t : Target δ} {c : FlashCall} (hinv : t.BufInv) (hc : c.InRange)
    (h : StepOk drv t c) : ∃ r t', flashStep drv t c = .ok (r, t') ∧ t'.BufInv := by
  cases c with
  | erase addr len =>
    exact ⟨(targetFlashErase drv t addr len).1, (targetFlashErase drv t addr len).2, rfl,
      targetFlashErase_inv drv hinv addr len⟩
  | write dest src => exact targetFlashWrite_safe drv hinv h hc.1 hc.2
  | complete => exact targetFlashComplete_safe drv hinv h

end

/-- Every call of a run meets `StepOk` in the state it is made in. -/
def RunOk {δ : Type} (t : Target δ) : List (FlashDriver δ × FlashCall) → Prop
  | [] => True
  | (drv, c) :: cs => c.InRange ∧ StepOk drv t c ∧
    ∀ r t', flashStep drv t c = .ok (r, t') → RunOk t' cs

/-- A map as the probes leave it: every region well-formed, idle and without a buffer. -/
def Target.Fresh {δ : Type} (t : Target δ) : Prop :=
  ∀ f ∈ t.flash, f.toFlashGeometry.Wf ∧ f.operation = .none ∧ f.buf = none

/-- A run of calls that are fit for their regions does not fault. -/
theorem flashRun_safe {δ : Type} :
    ∀ (cs : List (FlashDriver δ × FlashCall)) (t : Target δ), t.BufInv → RunOk t cs →
      ∃ rs t', flashRun t cs = .ok (rs, t') ∧ t'.BufInv
  | [], t, hinv, _ => ⟨[], t, rfl, hinv⟩
  | (drv, c) :: cs, t, hinv, ⟨hc, hok, hrest⟩ => by
    obtain ⟨r, t₁, hstep, hinv₁⟩ := flashStep_safe drv hinv hc hok
    obtain ⟨rs, t', hrun, hinv'⟩ := flashRun_safe cs t₁ hinv₁ (hrest r t₁ hstep)
    exact ⟨r :: rs, t', by simp only [flashRun, hstep, hrun, bind, Except.bind], hinv'⟩

/-- **Accesses to the write buffer.** From a fresh map, in every run whose calls meet `StepOk` in
the state they are made in, with drivers whose callbacks and `malloc` may fail at any point, every
access to `flash->buf` is to an allocated buffer and stays inside `writebufsize`. -/
theorem flashRun_no_fault {δ : Type} (t : Target δ) (cs : List (FlashDriver δ × FlashCall))
    (hfresh : t.Fresh) (hok : RunOk t cs) :
    ∃ rs t', flashRun t cs = .ok (rs, t') :=
  have hinv : t.BufInv := fun f hf => .of_none (hfresh f hf).1 (hfresh f hf).2.2
  let ⟨rs, t', h, _⟩ := flashRun_safe cs t hinv hok
  ⟨rs, t', h⟩

/-! ## A one-region map -/

/-- A driver whose callbacks all succeed and do nothing. -/
def quietDriver : FlashDriver Unit where
  enterFlashMode := none
  exitFlashMode := none
  reset := id
  prepare := none
  done := none
  erase := fun _ _ _ d => (true, d)
  write := fun _ _ _ d => (true, d)
  malloc := fun _ d => (true, d)

/-- A driver whose `prepare` fails. -/
def unpreparedDriver : FlashDriver Unit :=
  { quietDriver with prepare := some fun _ d => (false, d) }

/-- `length` bytes of flash at `0x08000000` in 1 KiB blocks and 1 KiB write units. -/
def oneRegion {δ : Type} (length : Nat) (d : δ) : Target δ :=
  targetAddFlash
    { flashMode := false, flash := [], ram := [], dev := d }
    { start := 0x08000000, length := length, blocksize := 1024, writesize := 1024,
      writebufsize := 0, erased := 0xff, operation := .none, buf := none,
      bufAddrBase := 0, bufAddrLow := 0, bufAddrHigh := 0 }

/-- The map with one region is fresh. -/
theorem oneRegion_fresh {δ : Type} (length : Nat) (d : δ) : (oneRegion length d).Fresh := by
  intro f hf
  rw [oneRegion, targetAddFlash, List.mem_singleton] at hf
  subst hf
  exact ⟨⟨⟨10, by decide, rfl⟩, ⟨10, by decide, rfl⟩, rfl⟩, rfl, rfl⟩

/-- A write that a page change does not interrupt, in a map without a region in operation
`ERASE`. -/
theorem flashRun_no_fault_oneRegion :
    ∃ rs t', flashRun (oneRegion 2048 ()) [(quietDriver, .write 0x08000000 [1])] =
      .ok (rs, t') := by
  refine flashRun_no_fault (oneRegion 2048 ()) _ (oneRegion_fresh 2048 ())
    ⟨⟨by decide, by decide⟩, ⟨fun f hf he => ?_, .inl fun _ _ _ => rfl⟩, fun _ _ _ => trivial⟩
  rw [(oneRegion_fresh 2048 () f hf).2.1] at he
  cases he

/-- Two runs with arguments in range that leave the allocated buffer. In the first an erase runs
off the end of the map and returns with the region still in operation `ERASE`; the flush of
`target_flash_complete` then frees the buffer in `flash_prepare` and reads it. In the second
`prepare` fails in the flush of a page change; the span of the old page stays behind with the base
of the new one, and the next flush reads below the buffer. -/
theorem flashRun_faults :
    (oneRegion 1024 ()).Fresh ∧
    flashRun (oneRegion 1024 ())
      [(quietDriver, .erase 0x08000000 2048), (quietDriver, .write 0x08000000 [1]),
        (quietDriver, .complete)] = .error .null ∧
    (oneRegion 2048 ()).Fresh ∧
    flashRun (oneRegion 2048 ())
      [(quietDriver, .write 0x08000000 [1]), (unpreparedDriver, .write 0x08000400 [2]),
        (quietDriver, .complete)] = .error .outOfRange :=
  ⟨oneRegion_fresh 1024 (), rfl, oneRegion_fresh 2048 (), rfl⟩

end Blackmagic
