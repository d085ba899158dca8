import Blackmagic.Flash.Map
import Blackmagic.Load.Rules
import Blackmagic.Load.Verbs

/-!
# Images for another chip

A file can have a segment that is not in the memory map of the target. The sink of `v_flash` has no
`in_flash`, so the loader erases the union span of all segments before anything can tell that one of
them is outside of the map. The load of such a file leaves the flash alone when the erase does not
come to its first block: flash mode is refused, the span does not begin in flash, or the region it
begins in cannot be prepared.
-/

namespace Blackmagic

open Word Effect

section
variable {δ : Type}

/-- An address of the memory map. -/
def Target.Maps (t : Target δ) (a : Nat) : Prop :=
  (∃ g ∈ t.flash, g.start ≤ a ∧ a < g.start + g.length) ∨
    ∃ r ∈ t.ram, r.start ≤ a ∧ a < r.start + r.length

/-- The file has a segment to load that is not all in the memory map. -/
def OutOfMap (f : File) (t : Target δ) : Prop :=
  ∃ eh i ph, f.ehdr = some eh ∧ i < eh.phnum ∧ f.phdr eh i = some ph ∧ ph.Loads ∧
    ∃ k < ph.filesz, ¬ t.Maps (ph.paddr + k)

/-- `target_mem_read` beside a log of the driver. -/
def loggedRead (memRead : (addr len : Nat) → δ → Option (List UInt8) × δ) (addr len : Nat)
    (s : δ × List FlashEvent) : Option (List UInt8) × δ × List FlashEvent :=
  ((memRead addr len s.1).1, (memRead addr len s.1).2, s.2)

variable (memRead : (addr len : Nat) → δ → Option (List UInt8) × δ) (drv : FlashDriver δ) (f : File)

/-- The load returns false, and nothing was erased or programmed. -/
def FailsClean (t : Target (δ × List FlashEvent)) : Prop :=
  Ends (bmpLoadElf (uiSink (loggedRead memRead) drv.logged) f) t (fun _ _ => False)
    fun e t' => (∃ err, e = .fail err) ∧ t'.dev.2 = t.dev.2

/-- The erase of a span does not come to its first block. -/
def EraseRefused (t : Target δ) (sp : LoadSpan) : Prop :=
  (targetEnterFlashMode drv t).1 = false ∨ targetFlashForAddr t sp.lo = none ∨
    (sp.lo ≠ sp.hi ∧ ∃ i g, targetFlashForAddr t sp.lo = some i ∧ t.flash[i]? = some g ∧
      (flashPrepare drv g .erase (targetEnterFlashMode drv t).2.dev).1 = false)

/-- The load is over before something is erased: the headers of the file are not taken, or the erase
of the union span is refused. -/
def LoadRefused (t : Target δ) : Prop :=
  ∀ eh phs, f.ehdr = some eh → f.phdrs eh = some phs → EraseRefused drv t (loadSpan phs)

/-! ## The union span -/

/-- What the loop over the headers keeps, by induction on them. -/
theorem loadSpan_fold {phs : List Elf32Phdr} :
    ∀ {sp : LoadSpan}, sp.lo < 2 ^ 32 → sp.hi < 2 ^ 32 →
      (phs.foldl (fun sp ph => if ph.Loads then sp.add ph else sp) sp).lo < 2 ^ 32 ∧
        (phs.foldl (fun sp ph => if ph.Loads then sp.add ph else sp) sp).hi < 2 ^ 32 ∧
        sp.nLoad ≤ (phs.foldl (fun sp ph => if ph.Loads then sp.add ph else sp) sp).nLoad ∧
        ((∃ ph ∈ phs, ph.Loads) →
          sp.nLoad < (phs.foldl (fun sp ph => if ph.Loads then sp.add ph else sp) sp).nLoad) := by
  induction phs with
  | nil =>
    intro sp hlo hhi
    exact ⟨hlo, hhi, Nat.le_refl _, by simp⟩
  | cons ph phs ih =>
    intro sp hlo hhi
    rw [List.foldl_cons]
    split
    · obtain ⟨h1, h2, h3, -⟩ := @ih (sp.add ph) (Nat.lt_of_le_of_lt (Nat.min_le_left _ _) hlo)
        (Nat.max_lt.2 ⟨hhi, add32_lt _ _⟩)
      have h3 : sp.nLoad + 1 ≤ _ := h3
      exact ⟨h1, h2, by omega, fun _ => h3⟩
    · next hno =>
      obtain ⟨h1, h2, h3, h4⟩ := ih hlo hhi
      refine ⟨h1, h2, h3, fun ⟨ph', hmem, hloads⟩ => h4 ?_⟩
      rcases List.mem_cons.1 hmem with rfl | hmem
      · exact absurd hloads hno
      · exact ⟨ph', hmem, hloads⟩

/-- The span is made of words, and counts a segment when one is loaded. -/
theorem loadSpan_spec (phs : List Elf32Phdr) :
    (loadSpan phs).lo < 2 ^ 32 ∧ (loadSpan phs).hi < 2 ^ 32 ∧
      ((∃ ph ∈ phs, ph.Loads) → (loadSpan phs).nLoad ≠ 0) := by
  obtain ⟨h1, h2, -, h4⟩ := @loadSpan_fold phs ⟨maxU32, 0, 0⟩ (by decide) (by decide)
  exact ⟨h1, h2, fun h => Nat.ne_of_gt (h4 h)⟩

/-- A difference of words is zero for equal words only. -/
theorem sub32_eq_zero {a b : Nat} (ha : a < 2 ^ 32) (hb : b < 2 ^ 32) : sub32 a b = 0 ↔ b = a := by
  unfold sub32
  omega

variable {f} in
/-- A file with a segment outside of the map has a segment to load. -/
theorem OutOfMap.nLoad {t : Target δ} (h : OutOfMap f t) {eh : Elf32Ehdr} {phs : List Elf32Phdr}
    (heh : f.ehdr = some eh) (hphs : f.phdrs eh = some phs) : (loadSpan phs).nLoad ≠ 0 := by
  obtain ⟨eh', i, ph, heh', hi, hph, hloads, -⟩ := h
  rw [heh] at heh'
  cases heh'
  exact (loadSpan_spec phs).2.2 ⟨ph, File.mem_phdrs hphs (List.mem_range.2 hi) hph, hloads⟩

/-! ## The erase -/

/-- The log of a driver only grows. -/
theorem logged_respects : drv.logged.Respects fun s s' => s.2.length ≤ s'.2.length where
  refl := fun _ => Nat.le_refl _
  trans := Nat.le_trans
  enterFlashMode := by
    intro k hk d
    obtain ⟨k', -, rfl⟩ := Option.map_eq_some_iff.1 hk
    simp [logCall]
  exitFlashMode := by
    intro k hk d
    obtain ⟨k', -, rfl⟩ := Option.map_eq_some_iff.1 hk
    simp [logCall]
  reset := fun _ => Nat.le_refl _
  prepare := fun f s => (congrArg List.length (logged_callPrepare drv f s)).ge
  done := fun f s => (congrArg List.length (logged_callDone drv f s)).ge
  erase := by simp [FlashDriver.logged, logCall]
  write := by simp [FlashDriver.logged, logCall]
  malloc := by simp [FlashDriver.logged, logCall]

variable {drv}

/-- One iteration of `target_flash_erase` from the region it starts in. -/
theorem eraseLoop_first {drv : FlashDriver δ} {t : Target δ} {i lo len : Nat} {g : TargetFlash}
    (hi : targetFlashForAddr t lo = some i) (hg : t.flash[i]? = some g) :
    eraseLoop drv (len + 1) t i lo (len + 1) true =
      let t₁ := t.onFlash i (fun f d => flashPrepare drv f .erase d)
      if t₁.1 then
        let t₂ := t₁.2.onFlash i (flashErase drv (alignDown lo g.blocksize) g.blocksize)
        if t₂.1 then
          eraseLoop drv len t₂.2 i (add32 (alignDown lo g.blocksize) g.blocksize)
            (len + 1 - min (sub32 (add32 (alignDown lo g.blocksize) g.blocksize) lo) (len + 1)) true
        else (false, (t₂.2.onFlash i (flashDone drv)).2)
      else (false, t₁.2) := by
  rw [eraseLoop, hi]
  simp only [switchErase, ne_eq, not_true_eq_false, if_false, hg, Bool.true_and]

/-- An erase that is refused returns false and calls nothing that is logged. -/
theorem targetFlashErase_refused {t : Target (δ × List FlashEvent)} {sp : LoadSpan}
    (hlo : sp.lo < 2 ^ 32) (hhi : sp.hi < 2 ^ 32) (h : EraseRefused drv.logged t sp) :
    (targetFlashErase drv.logged t sp.lo (sub32 sp.hi sp.lo)).1 = false ∧
      (targetFlashErase drv.logged t sp.lo (sub32 sp.hi sp.lo)).2.dev.2 = t.dev.2 := by
  have hflash := targetEnterFlashMode_flash drv.logged t
  have hlog : (targetEnterFlashMode drv.logged t).2.dev.2 = t.dev.2 :=
    congrArg Session.log (targetEnterFlashMode_logged drv t)
  unfold EraseRefused at h
  unfold targetFlashErase
  generalize targetEnterFlashMode drv.logged t = x at hflash hlog h ⊢
  obtain ⟨entered, t₁⟩ := x
  have hfor : targetFlashForAddr t₁ sp.lo = targetFlashForAddr t sp.lo :=
    targetFlashForAddr_congr (by rw [hflash]) sp.lo
  dsimp only at hflash hlog h ⊢
  rw [hfor]
  cases entered with
  | false => exact ⟨rfl, hlog⟩
  | true =>
    rcases h with h | h | ⟨hne, i, g, hi, hg, hprep⟩
    · cases h
    · simp only [h, if_true]
      exact ⟨trivial, hlog⟩
    · obtain ⟨len, hlen⟩ := Nat.exists_eq_succ_of_ne_zero fun h0 =>
        hne ((sub32_eq_zero hhi hlo).1 h0)
      rw [← hflash] at hg
      have hcall := Target.onFlash_of_getElem? hg (fun f d => flashPrepare drv.logged f .erase d)
      rw [hprep] at hcall
      simp only [hi, hlen, Nat.succ_eq_add_one, if_true]
      rw [eraseLoop_first (hfor.trans hi) hg, hcall]
      exact ⟨rfl, (flashPrepare_log drv g .erase t₁.dev).trans hlog⟩

/-- An erase that is not refused, of a span that is not empty, calls `flash->erase`. -/
theorem targetFlashErase_reaches {t : Target (δ × List FlashEvent)} {sp : LoadSpan}
    (hlo : sp.lo < 2 ^ 32) (hhi : sp.hi < 2 ^ 32) (hne : sp.lo ≠ sp.hi)
    (h : ¬ EraseRefused drv.logged t sp) :
    t.dev.2.length < (targetFlashErase drv.logged t sp.lo (sub32 sp.hi sp.lo)).2.dev.2.length := by
  have hflash := targetEnterFlashMode_flash drv.logged t
  have hlog : (targetEnterFlashMode drv.logged t).2.dev.2 = t.dev.2 :=
    congrArg Session.log (targetEnterFlashMode_logged drv t)
  unfold EraseRefused at h
  unfold targetFlashErase
  generalize targetEnterFlashMode drv.logged t = x at hflash hlog h ⊢
  obtain ⟨entered, t₁⟩ := x
  have hfor : targetFlashForAddr t₁ sp.lo = targetFlashForAddr t sp.lo :=
    targetFlashForAddr_congr (by rw [hflash]) sp.lo
  dsimp only at hflash hlog h ⊢
  rw [hfor]
  obtain ⟨hentered, h⟩ := not_or.1 h
  obtain ⟨hfound, hprep⟩ := not_or.1 h
  obtain ⟨i, hi⟩ := Option.ne_none_iff_exists'.1 hfound
  obtain ⟨g, hg, -⟩ := targetFlashForAddr_some hi
  have hprep : (flashPrepare drv.logged g .erase t₁.dev).1 = true := by
    by_contra hfail
    exact hprep ⟨hne, i, g, hi, hg, Bool.eq_false_iff.2 hfail⟩
  obtain ⟨len, hlen⟩ := Nat.exists_eq_succ_of_ne_zero fun h0 =>
    hne ((sub32_eq_zero hhi hlo).1 h0)
  rw [← hflash] at hg
  have hentered : entered = true := by simpa using hentered
  simp only [hentered, hi, hlen, Nat.succ_eq_add_one, if_true]
  rw [eraseLoop_first (hfor.trans hi) hg]
  -- the region is prepared, and its `erase` adds to the log
  have hcall := Target.onFlash_of_getElem? hg (fun f d => flashPrepare drv.logged f .erase d)
  have hplog := (flashPrepare_log drv g .erase t₁.dev).trans hlog
  rw [hprep] at hcall
  simp only [hcall, if_true]
  generalize flashPrepare drv.logged g .erase t₁.dev = y at hplog
  obtain ⟨r, g₁, s₁⟩ := y
  have hi' : i < t₁.flash.length := (List.getElem?_eq_some_iff.1 hg).1
  have hg₁ : (t₁.flash.set i g₁)[i]? = some g₁ := List.getElem?_set_self hi'
  have hmore : t.dev.2.length <
      ((⟨t₁.flashMode, t₁.flash.set i g₁, t₁.ram, s₁⟩ : Target _).onFlash i
      (flashErase drv.logged (alignDown sp.lo g.blocksize) g.blocksize)).2.dev.2.length := by
    rw [Target.onFlash_of_getElem? (by exact hg₁), ← hplog]
    simp [flashErase, FlashDriver.logged, logCall]
  dsimp only
  generalize Target.onFlash _ i (flashErase drv.logged (alignDown sp.lo g.blocksize) g.blocksize) =
    z
    at hmore ⊢
  obtain ⟨ok, t₃⟩ := z
  have hR := logged_respects drv
  split
  · exact Nat.lt_of_lt_of_le hmore (eraseLoop_keeps hR).dev
  · exact Nat.lt_of_lt_of_le hmore (Target.onFlash_keeps hR (flashDone_step hR) t₃ i).dev

/-! ## The load -/

/-- The log has not become shorter. -/
def LogLe (t t' : Target (δ × List FlashEvent)) : Prop := t.dev.2.length ≤ t'.dev.2.length

/-- A log is as long as itself. -/
theorem LogLe.refl (t : Target (δ × List FlashEvent)) : LogLe t t := Nat.le_refl _

/-- Two steps that lengthen the log. -/
theorem LogLe.trans (t₁ t₂ t₃ : Target (δ × List FlashEvent)) (h : LogLe t₁ t₂) (h' : LogLe t₂ t₃) :
    LogLe t₁ t₃ := Nat.le_trans h h'

variable {memRead f}

/-- The load of the segments only lengthens it. -/
theorem keeps_loadSegments_logged (eh : Elf32Ehdr) :
    Keeps LogLe (loadSegments (uiSink (loggedRead memRead) drv.logged) f eh) := by
  refine keeps_loadSegments LogLe.refl LogLe.trans eh ?_ ?_ ?_
  · intro addr data t ok t' h
    exact (targetFlashWrite_moves (logged_respects drv) h).dev
  · intro t ok t' h
    exact (targetFlashComplete_moves (logged_respects drv) h).dev
  · intro read h addr len t
    cases h
    exact Nat.le_refl _

/-- A load that is refused fails and leaves the flash alone. -/
theorem failsClean_of_refused {t : Target (δ × List FlashEvent)}
    (h : LoadRefused drv.logged f t) : FailsClean memRead drv f t := by
  refine ends_bmpLoadElf rfl (fun eh phs heh hphs _ => ?_) fun _ err => ⟨⟨err, rfl⟩, rfl⟩
  obtain ⟨hlo, hhi, -⟩ := loadSpan_spec phs
  obtain ⟨hfalse, hlog⟩ := targetFlashErase_refused hlo hhi (h eh phs heh hphs)
  refine ends_callSink (fun erased t₁ herase => ?_) fun e herr => nomatch herr
  rw [Except.ok.inj herase] at hfalse hlog
  dsimp only at hfalse hlog
  subst hfalse
  exact ⟨⟨_, rfl⟩, hlog⟩

/-- A load that is not refused, of a file whose span is not empty, changes the flash. -/
theorem not_failsClean {t : Target (δ × List FlashEvent)} {eh : Elf32Ehdr} {phs : List Elf32Phdr}
    (heh : f.ehdr = some eh) (hphs : f.phdrs eh = some phs) (hload : (loadSpan phs).nLoad ≠ 0)
    (hne : (loadSpan phs).lo ≠ (loadSpan phs).hi)
    (h : ¬ EraseRefused drv.logged t (loadSpan phs)) : ¬ FailsClean memRead drv f t := by
  obtain ⟨hlo, hhi, -⟩ := loadSpan_spec phs
  have hmore := targetFlashErase_reaches hlo hhi hne h
  have hrun : Ends (bmpLoadElf (uiSink (loggedRead memRead) drv.logged) f) t
      (fun _ _ => True) fun _ t' => t.dev.2.length < t'.dev.2.length := by
    refine ends_bmpLoadElf rfl (fun eh' phs' heh' hphs' _ => ?_) fun hnone _ =>
      absurd (hnone eh phs heh hphs) hload
    rw [heh] at heh'
    cases heh'
    rw [hphs] at hphs'
    cases hphs'
    refine ends_callSink (fun erased t₁ herase => ?_) fun e herr => nomatch herr
    rw [Except.ok.inj herase] at hmore
    have hrest : Keeps LogLe (failUnless erased "erase failed" >>= fun _ =>
        loadSegments (uiSink (loggedRead memRead) drv.logged) f eh) :=
      (keeps_failUnless LogLe.refl _ _).bind LogLe.trans fun _ => keeps_loadSegments_logged eh
    exact (hrest t₁).imp (fun _ _ _ => trivial) fun _ _ h => Nat.lt_of_lt_of_le hmore h
  intro hclean
  have hboth := hrun.and hclean
  refine (hboth.imp (fun _ _ h => h.2) fun _ t' h => ?_).elim
  rw [h.2.2] at h
  exact Nat.lt_irrefl _ h.1

/-- A file with a segment outside of the map fails cleanly when the load is refused, and, if the
union span of its segments is not empty, only then. -/
theorem outOfMap_failsClean_iff (memRead : (addr len : Nat) → δ → Option (List UInt8) × δ)
    (drv : FlashDriver δ) (f : File) (t : Target (δ × List FlashEvent)) :
    ((OutOfMap f t → LoadRefused drv.logged f t) → (OutOfMap f t → FailsClean memRead drv f t)) ∧
    ((OutOfMap f t → FailsClean memRead drv f t) →
      (∀ eh phs, f.ehdr = some eh → f.phdrs eh = some phs →
        (loadSpan phs).lo ≠ (loadSpan phs).hi) →
      (OutOfMap f t → LoadRefused drv.logged f t)) := by
  constructor
  · intro hrefused hout
    exact failsClean_of_refused (hrefused hout)
  · intro hclean hspan hout eh phs heh hphs
    by_contra h
    exact not_failsClean heh hphs (hout.nLoad heh hphs) (hspan eh phs heh hphs) h (hclean hout)

end

/-! ## A chip that is too small -/

/-- A word in a header. -/
def le32 (n : Nat) : List UInt8 :=
  [UInt8.ofNat n, UInt8.ofNat (n / 2 ^ 8), UInt8.ofNat (n / 2 ^ 16), UInt8.ofNat (n / 2 ^ 24)]

/-- The header of an executable for ARM, with `phnum` program headers behind it. -/
def armEhdr (phnum : UInt8) : List UInt8 :=
  [0x7f, 0x45, 0x4c, 0x46, 1, 1, 1, 0, 0, 0, 0, 0, 0, 0, 0, 0, 2, 0, 40, 0] ++ le32 1 ++ le32 0 ++
    le32 52 ++ le32 0 ++ le32 0 ++ [52, 0, 32, 0, phnum, 0, 0, 0, 0, 0, 0, 0]

/-- The header of a segment to load. -/
def loadPhdr (offset paddr filesz : Nat) : List UInt8 :=
  le32 1 ++ le32 offset ++ le32 paddr ++ le32 paddr ++ le32 filesz ++ le32 filesz ++ le32 5 ++
    le32 4

/-- An image of four bytes at the bottom of the flash and four bytes a kilobyte above. -/
def twoPages : File :=
  plainFile (armEhdr 2 ++ loadPhdr 116 0x08000000 4 ++ loadPhdr 120 0x08000400 4 ++
    [1, 2, 3, 4, 5, 6, 7, 8])

/-- A chip with one kilobyte of flash. -/
def smallChip : Target (Unit × List FlashEvent) := oneRegion 1024 ((), [])

/-- What a load has told the driver at its end. -/
def loadLog {δ : Type} (x : EStateM.Result LoadStop (Target (δ × List FlashEvent)) LoadResult) :
    List FlashEvent :=
  match x with
  | .ok _ t => t.dev.2
  | .error _ t => t.dev.2

/-- A load that fails clean leaves the log as it was. -/
theorem FailsClean.loadLog_eq {δ : Type} {memRead : (addr len : Nat) → δ → Option (List UInt8) × δ}
    {drv : FlashDriver δ} {f : File} {t : Target (δ × List FlashEvent)}
    (h : FailsClean memRead drv f t) :
    loadLog (bmpLoadElf (uiSink (loggedRead memRead) drv.logged) f t) = t.dev.2 := by
  unfold FailsClean Ends at h
  unfold loadLog
  split at h
  · exact h.elim
  · next e t' hrun =>
    rw [hrun]
    exact h.2

/-- The load of the two pages has erased the first. -/
theorem loadLog_twoPages :
    loadLog (bmpLoadElf (uiSink (loggedRead fun _ _ d => (none, d)) quietDriver.logged) twoPages
      smallChip) = [.erase ⟨0x08000000, 1024, 1024, 1024, 1024, 0xff⟩ 0x08000000 1024] := by
  decide +kernel

/-- On a chip with one kilobyte of flash the image fails, with the flash erased. -/
theorem outOfMap_erases :
    OutOfMap twoPages smallChip ∧
      ¬ FailsClean (fun _ _ d => (none, d)) quietDriver twoPages smallChip := by
  constructor
  · refine ⟨⟨[0x7f, 0x45, 0x4c, 0x46, 1, 1, 1, 0, 0, 0, 0, 0, 0, 0, 0, 0], 40, 0, 52, 32, 2⟩, 1,
      ⟨1, 120, 0x08000400, 4⟩, by decide +kernel, by decide, by decide +kernel, by decide, 0,
      by decide, ?_⟩
    rintro (⟨g, hg, -, hlt⟩ | ⟨r, hr, -⟩)
    · rw [List.mem_singleton.1 hg] at hlt
      exact absurd hlt (by decide)
    · cases hr
  · refine mt FailsClean.loadLog_eq ?_
    rw [loadLog_twoPages]
    exact nofun

end Blackmagic
