import Blackmagic.Load.Image
import Blackmagic.Load.Reject
import Blackmagic.Stm32f1.Emulated

/-!
# A load to the emulated target

The loader, the flash layer, the driver, the block accesses of `adiv5.c` and the emulated target
together. The target is read as its flash is (`emuTargetMemRead_reads`), its controller never
reports an error (`emuRun_sound`), and so a load leaves the file in the flash, `0xff` in the rest of
the pages that it erases and what was there in the others (`bmpLoad_emulated`). Sessions of
`target_flash_*`, one after the other, leave in the flash what each of them makes of what the ones
before it left (`sessions_emulated`).
-/

namespace Blackmagic

open Word Bytes Effect

/-- `target_mem_read` of the emulated target. -/
def emuTargetMemRead (ap : Adiv5AccessPort) (addr len : Nat) (s : EmuShim) :
    Option (List UInt8) × EmuShim :=
  match advi5MemReadBytes true ap (UInt32.ofNat addr) len s with
  | .ok b s' => (some b, s')
  | .error _ s' => (none, s')

section
variable {m m' : EmuTarget} {ap : Adiv5AccessPort} {x : Nat}

/-- The addresses of the window fit a word. -/
theorem toNat_ofNat_window (h : x < 0x08020000) : (UInt32.ofNat x).toNat = x := by
  rw [UInt32.toNat_ofNat', Nat.mod_eq_of_lt (by omega)]

/-- In the window of the flash, a byte is one of the flash. -/
theorem byte_eq_flash (hlow : 0x08000000 ≤ x) (hlt : x < 0x08020000) :
    m.byte (UInt32.ofNat x) = m.flash x := by
  rw [EmuTarget.flash, if_pos ⟨hlow, hlt⟩]
  exact if_pos (inFlash_iff.2 (by rw [toNat_ofNat_window hlt]; exact ⟨hlow, hlt⟩))

/-- A byte of the flash is loaded. -/
theorem emuTargetLoad_flash (hlow : 0x08000000 ≤ x) (hlt : x < 0x08020000) :
    emuTargetLoad m (UInt32.ofNat x) 1 = .ok (m.flash x).toUInt32 := by
  have hwin : InWindow (UInt32.ofNat x) 1 :=
    inWindow_iff.2 (.inl (by rw [toNat_ofNat_window hlt]; omega))
  obtain ⟨v, hload, hval⟩ := @emuTargetLoad_window m _ 1 (by decide) (by decide) hwin
  have hbytes : m.bytes (UInt32.ofNat x) 1 = [m.flash x] := by
    have hzero : UInt32.ofNat x + UInt32.ofNat 0 = UInt32.ofNat x := UInt32.add_zero _
    change [m.byte (UInt32.ofNat x + UInt32.ofNat 0)] = _
    rw [hzero, byte_eq_flash hlow hlt]
  rw [hload]
  congr 1
  rw [← UInt32.toNat_inj, hval, hbytes]
  simp [leNat]

/-- The target is read as its flash is. -/
theorem emuTargetMemRead_reads (hap : MemAp ap) (sram : Vector UInt8 emuSramSize) :
    ReadsFlash (emuTargetMemRead ap) emuRegion.toFlashGeometry
    (fun s => s.target.flash) fun s => s.target.Keeps sram where
  read := by
    intro addr len s hlen hlow hend hs
    have hlow : 0x08000000 ≤ addr := hlow
    have hend : addr + len ≤ 0x08000000 + 0x20000 := hend
    have hnat : (UInt32.ofNat addr).toNat = addr := toNat_ofNat_window (by omega)
    obtain ⟨s', hread, htarget⟩ :=
      @advi5MemReadBytes_window true ap s (UInt32.ofNat addr) hap len (by omega)
      (inWindow_iff.2 (.inl (by rw [hnat]; omega)))
    have hbytes : s.target.bytes (UInt32.ofNat addr) len = (List.range len).map fun i =>
        s.target.flash (addr + i) := by
      refine List.map_congr_left fun i hi => ?_
      have hi := List.mem_range.1 hi
      rw [← UInt32.ofNat_add, byte_eq_flash (by omega) (by omega)]
    rw [hbytes] at hread
    refine ⟨s', ?_, ?_, ?_⟩
    · simp only [emuTargetMemRead, hread]
    · rwa [htarget]
    · rw [htarget]

/-! ## The status of the controller -/

/-- A store to the flash controller keeps the target sound. -/
theorem fpecWrite_sound (hm : m.Sound) (addr v : UInt32) : (fpecWrite m addr v).Sound := by
  unfold fpecWrite
  repeat' split
  all_goals first
    | exact hm
    | exact sound_srDone hm
    | exact and_srErrorMask_of hm

/-- So does one to the system control space. -/
theorem scsWrite_sound (hm : m.Sound) (off v : UInt32) : (scsWrite m off v).Sound := by
  unfold scsWrite coreRegTransfer
  repeat' split
  all_goals exact hm

/-- No store makes the controller report an error. -/
theorem emuTargetStore_sound {malloc : Bool} {st : EmuStore} (hm : m.Sound)
    (h : emuTargetStore malloc m st = .ok m') : m'.Sound := by
  unfold emuTargetStore at h
  split at h
  · split at h
    · cases h
      exact sound_srDone hm
    · cases h
      exact hm
  split at h
  · cases hstore : storeSram st m.sram with
    | error e =>
      rw [hstore] at h
      cases h
    | ok sram =>
      rw [hstore] at h
      cases h
      exact hm
  split at h
  · cases h
    exact scsWrite_sound hm _ _
  split at h
  · cases h
    exact fpecWrite_sound hm _ _
  · cases h
    exact hm

/-- So does every sequence of stores. -/
theorem run_sound {malloc : Bool} : ∀ {stores : List EmuStore} {m : EmuTarget}, m.Sound →
    Machine.run (emuTargetStore malloc) m stores = .ok m' → m'.Sound := by
  intro stores
  induction stores with
  | nil =>
    intro m hm h
    cases h
    exact hm
  | cons st stores ih =>
    intro m hm h
    cases hstore : emuTargetStore malloc m st with
    | error e =>
      rw [Machine.run_cons_error hstore] at h
      cases h
    | ok m₁ =>
      rw [Machine.run_cons hstore] at h
      exact ih (emuTargetStore_sound hm hstore) h

/-- However the emulated target has been used, its controller reports no error. -/
theorem emuRun_sound {stores : List EmuStore} (h : emuRun stores = .ok m) : m.Sound :=
  run_sound (show (emuTargetReset true).Sound from rfl) h

end

/-! ## Loads -/

/-- A load of bytes from an address on, to the pages that `[lo, hi)` meets: the bytes are loaded
back, the rest of the pages is blank, and the other pages are as they were. -/
structure Programmed (m m' : EmuTarget) (lo hi : Nat) (parts : List (Nat × List UInt8)) : Prop where
  stored : ∀ p ∈ parts, ∀ i v, p.2[i]? = some v → emuTargetLoad m' (UInt32.ofNat (p.1 + i)) 1 =
    .ok v.toUInt32
  blank : ∀ x, 0x08000000 ≤ x → x < 0x08020000 → (∃ y, lo ≤ y ∧ y < hi ∧ y / 0x400 = x / 0x400) →
    (∀ p ∈ parts, ¬ (p.1 ≤ x ∧ x < p.1 + p.2.length)) → emuTargetLoad m' (UInt32.ofNat x) 1 =
      .ok 0xff
  kept : ∀ x, 0x08000000 ≤ x → x < 0x08020000 → (¬ ∃ y, lo ≤ y ∧ y < hi ∧ y / 0x400 = x / 0x400) →
    emuTargetLoad m' (UInt32.ofNat x) 1 = emuTargetLoad m (UInt32.ofNat x) 1

/-- A page that the range of an erase meets. -/
theorem eraseBlocks_page {image : FlashImage} {lo hi x : Nat}
    (h : ∃ y, lo ≤ y ∧ y < hi ∧ y / 0x400 = x / 0x400) :
    image.eraseBlocks 0x400 lo (hi - lo) x = 0xff := by
  obtain ⟨y, hlo, hhi, hy⟩ := h
  exact if_pos (by omega)

/-- A page that it does not meet. -/
theorem eraseBlocks_other {image : FlashImage} {lo hi x : Nat} (hlt : lo < hi)
    (h : ¬ ∃ y, lo ≤ y ∧ y < hi ∧ y / 0x400 = x / 0x400) :
    image.eraseBlocks 0x400 lo (hi - lo) x = image x := by
  refine if_neg fun hx => h ⟨max lo (x / 0x400 * 0x400), ?_⟩
  omega

/-- What an erase of the pages and the stores of the parts leave. -/
theorem programmed_of_flash {m m' : EmuTarget} {lo hi : Nat} {parts : List (Nat × List UInt8)}
    (hlt : lo < hi) {image : FlashImage} (hflash : m'.flash = image)
    (hin : ∀ p ∈ parts, 0x08000000 ≤ p.1 ∧ p.1 + p.2.length ≤ 0x08020000 ∧ lo ≤ p.1 ∧
      p.1 + p.2.length ≤ hi)
    (hshows : ∀ p ∈ parts, image.Shows p.1 p.2)
    (hout : ∀ x, (∀ p ∈ parts, ¬ (p.1 ≤ x ∧ x < p.1 + p.2.length)) →
      image x = m.flash.eraseBlocks 0x400 lo (hi - lo) x) : Programmed m m' lo hi parts where
  stored := by
    intro p hp i v hv
    obtain ⟨hi, -⟩ := List.getElem?_eq_some_iff.1 hv
    obtain ⟨hlow, hend, -⟩ := hin p hp
    have hx := hshows p hp i hi
    rw [hv] at hx
    rw [emuTargetLoad_flash (by omega) (by omega), hflash, ← Option.some.inj hx]
  blank := by
    intro x hlow hend hpage hx
    rw [emuTargetLoad_flash hlow hend, hflash, hout x hx, eraseBlocks_page hpage]
    rfl
  kept := by
    intro x hlow hend hpage
    have hx : ∀ p ∈ parts, ¬ (p.1 ≤ x ∧ x < p.1 + p.2.length) := fun p hp hx => by
      obtain ⟨-, -, hlo, hhi⟩ := hin p hp
      exact hpage ⟨x, by omega, by omega, rfl⟩
    rw [emuTargetLoad_flash hlow hend, emuTargetLoad_flash hlow hend, hflash, hout x hx,
      eraseBlocks_other hlt hpage]

/-- The segments of a file with their bytes. -/
def segmentParts (contents : List UInt8) (phs : List Elf32Phdr) : List (Nat × List UInt8) :=
  (loading phs).map fun ph => (ph.paddr, ph.bytes contents)

/-- An ELF file for the emulated flash: disjoint segments in any order, from `lo` to `hi`. -/
structure ElfImage (contents : List UInt8) (phs : List Elf32Phdr) (lo hi : Nat) : Prop where
  headers : ∃ eh, (plainFile contents).ehdr = some eh ∧ (plainFile contents).phdrs eh = some phs
  loads : loading phs ≠ []
  fits : ∀ ph ∈ loading phs, ph.Fits emuRegion.toFlashGeometry contents
  apart : (loading phs).Pairwise Elf32Phdr.Apart
  lo : IsLeast {a | ∃ ph ∈ loading phs, a = ph.paddr} lo
  hi : IsGreatest {a | ∃ ph ∈ loading phs, a = ph.paddr + ph.filesz} hi

section
variable {ap : Adiv5AccessPort} {contents : List UInt8} {t : Target EmuShim}
  {sram : Vector UInt8 emuSramSize}
  (hap : MemAp ap)
include hap

/-- A load of an ELF image to the emulated target. -/
theorem bmpLoadElf_emulated {phs : List Elf32Phdr} {lo hi : Nat}
    (himage : ElfImage contents phs lo hi)
    (h : NorIdle emuRegion.toFlashGeometry (fun s : EmuShim => s.target.Keeps sram) t)
    (fuel : Nat) :
    ∃ r t', bmpLoadElf (uiSink (emuTargetMemRead ap) (emuDriver ap (fuel + 1))) (plainFile contents)
      t = .ok r t' ∧
      NorIdle emuRegion.toFlashGeometry (fun s : EmuShim => s.target.Keeps sram) t' ∧
      Programmed t.dev.target t'.dev.target lo hi (segmentParts contents phs) := by
  obtain ⟨eh, hehdr, hphs⟩ := himage.headers
  obtain ⟨r, t', hrun, h', hmem⟩ :=
    bmpLoadElf_nor (emuDriver_nor hap sram fuel) (emuTargetMemRead_reads hap sram)
    emuRegion_nor hehdr hphs himage.loads himage.fits himage.apart h
  obtain ⟨hlo, hhi, -⟩ := loadSpan_fits emuRegion_nor himage.fits himage.loads
  rw [← himage.lo.unique hlo, ← himage.hi.unique hhi] at hmem
  obtain ⟨ph, hph⟩ := List.exists_mem_of_ne_nil _ himage.loads
  have hspan : ∀ ph ∈ loading phs, lo ≤ ph.paddr ∧ ph.paddr + ph.filesz ≤ hi := fun ph hph =>
    ⟨himage.lo.2 ⟨ph, hph, rfl⟩, himage.hi.2 ⟨ph, hph, rfl⟩⟩
  have hpos := (of_decide_eq_true (List.mem_filter.1 hph).2).2
  have hparts : ∀ p ∈ segmentParts contents phs, ∃ ph ∈ loading phs, p.1 = ph.paddr ∧
      p.2 = ph.bytes contents ∧
      p.2.length = ph.filesz := by
    intro p hp
    obtain ⟨ph, hph, rfl⟩ := List.mem_map.1 hp
    exact ⟨ph, hph, rfl, rfl, (himage.fits ph hph).length_bytes⟩
  refine ⟨r, t', hrun, h', programmed_of_flash (by have := hspan ph hph; omega) hmem ?_ ?_
    fun x hx => ?_⟩
  · intro p hp
    obtain ⟨ph, hph, hbase, -, hlen⟩ := hparts p hp
    have hlow : 0x08000000 ≤ ph.paddr := (himage.fits ph hph).start_le
    have hend : ph.paddr + ph.filesz ≤ 0x08000000 + 0x20000 := (himage.fits ph hph).le_end
    have := hspan ph hph
    omega
  · intro p hp
    obtain ⟨ph, hph, hbase, hbytes, -⟩ := hparts p hp
    rw [hbase, hbytes]
    exact FlashImage.storeSegments_shows himage.fits himage.apart ph hph
  · refine FlashImage.storeSegments_of_out himage.fits fun ph hph hin => ?_
    refine hx (ph.paddr, ph.bytes contents) (List.mem_map.2 ⟨ph, hph, rfl⟩) ?_
    rwa [(himage.fits ph hph).length_bytes]

/-- A load of a raw image to it. -/
theorem bmpLoadBin_emulated {base : Nat} (hne : contents ≠ []) (hlow : 0x08000000 ≤ base)
    (hend : base + contents.length ≤ 0x08020000)
    (h : NorIdle emuRegion.toFlashGeometry (fun s : EmuShim => s.target.Keeps sram) t)
    (fuel : Nat) :
    ∃ r t', bmpLoadBin (uiSink (emuTargetMemRead ap) (emuDriver ap (fuel + 1))) (plainFile contents)
        base t =
        .ok r t' ∧
      NorIdle emuRegion.toFlashGeometry (fun s : EmuShim => s.target.Keeps sram) t' ∧
      Programmed t.dev.target t'.dev.target base (base + contents.length) [(base, contents)] := by
  have hpos := List.length_pos_iff.2 hne
  obtain ⟨r, t', hrun, h', hmem⟩ :=
    bmpLoadBin_nor (emuDriver_nor hap sram fuel) (emuTargetMemRead_reads hap sram)
    emuRegion_nor hne hlow hend (by omega) h
  have hlen : base + contents.length - base = contents.length := by omega
  refine ⟨r, t', hrun, h', programmed_of_flash (by omega) hmem ?_ ?_ fun x hx => ?_⟩
  · intro p hp
    obtain rfl := List.mem_singleton.1 hp
    exact ⟨hlow, hend, Nat.le_refl _, Nat.le_refl _⟩
  · intro p hp
    obtain rfl := List.mem_singleton.1 hp
    exact FlashImage.shows_store _ _ _
  · rw [hlen]
    exact FlashImage.store_of_out (hx _ (List.mem_singleton.2 rfl))

end

/-- A load to the emulated target succeeds, whatever its flash had and in whatever order the
segments come. -/
theorem bmpLoad_emulated {ap : Adiv5AccessPort} (hap : NewAp0 ap) (sram : Vector UInt8 emuSramSize)
    (t : Target EmuShim)
    (h : NorIdle emuRegion.toFlashGeometry (fun s : EmuShim => s.target.Keeps sram) t)
    (fuel : Nat) :
    (∀ contents phs lo hi, ElfImage contents phs lo hi →
      ∃ r t', bmpLoadElf (uiSink (emuTargetMemRead ap) (emuDriver ap (fuel + 1)))
          (plainFile contents) t =
          .ok r t' ∧
        NorIdle emuRegion.toFlashGeometry (fun s : EmuShim => s.target.Keeps sram) t' ∧
        Programmed t.dev.target t'.dev.target lo hi (segmentParts contents phs)) ∧
    (∀ contents base, contents ≠ [] → 0x08000000 ≤ base → base + contents.length ≤ 0x08020000 →
      ∃ r t', bmpLoadBin (uiSink (emuTargetMemRead ap) (emuDriver ap (fuel + 1)))
          (plainFile contents) base t =
          .ok r t' ∧
        NorIdle emuRegion.toFlashGeometry (fun s : EmuShim => s.target.Keeps sram) t' ∧
        Programmed t.dev.target t'.dev.target base (base + contents.length) [(base, contents)]) :=
  ⟨fun _ _ _ _ himage => bmpLoadElf_emulated hap.memAp himage h fuel,
    fun _ _ hne hlow hend => bmpLoadBin_emulated hap.memAp hne hlow hend h fuel⟩

/-- After the scan the emulated target is between sessions. -/
theorem emuScanned_idle {s : EmuShim} (h : s.target.Sound) :
    NorIdle emuRegion.toFlashGeometry (fun s' : EmuShim => s'.target.Keeps s.target.sram)
      (emuScanned s) where
  region := ⟨emuRegion, emuScanned_flash s, rfl, rfl, rfl⟩
  usable := ⟨h, rfl⟩

/-- A file whose second segment lies before its first, and ends in the same page. -/
def turnedFile : List UInt8 :=
  armEhdr 2 ++ loadPhdr 116 0x08000404 4 ++ loadPhdr 120 0x080003fe 4 ++ [1, 2, 3, 4, 5, 6, 7, 8]

/-- Its program headers. -/
def turnedPhdrs : List Elf32Phdr := [⟨1, 116, 0x08000404, 4⟩, ⟨1, 120, 0x080003fe, 4⟩]

/-- The file is an image of two segments in descending order. -/
theorem turnedFile_image : ElfImage turnedFile turnedPhdrs 0x080003fe 0x08000408 where
  headers := ⟨⟨turnedFile.take 16, 40, 0, 52, 32, 2⟩, by decide +kernel, by decide +kernel⟩
  loads := by decide
  fits := by
    intro ph hph
    have hmem : ph ∈ turnedPhdrs := (List.mem_filter.1 hph).1
    rcases List.mem_pair.1 hmem with rfl | rfl
    · exact ⟨by decide, by decide +kernel, by decide, by decide⟩
    · exact ⟨by decide, by decide +kernel, by decide, by decide⟩
  apart := by
    have hall : loading turnedPhdrs = turnedPhdrs := by decide
    rw [hall]
    exact List.pairwise_pair.2 (.inr (by decide))
  lo := by
    have hall : loading turnedPhdrs = turnedPhdrs := by decide
    rw [hall]
    refine ⟨⟨⟨1, 120, 0x080003fe, 4⟩, by decide, rfl⟩, ?_⟩
    rintro a ⟨ph, hph, rfl⟩
    rcases List.mem_pair.1 hph with rfl | rfl <;> decide
  hi := by
    have hall : loading turnedPhdrs = turnedPhdrs := by decide
    rw [hall]
    refine ⟨⟨⟨1, 116, 0x08000404, 4⟩, by decide, rfl⟩, ?_⟩
    rintro a ⟨ph, hph, rfl⟩
    rcases List.mem_pair.1 hph with rfl | rfl <;> decide

/-- Both loads of that file, after a reset. -/
theorem bmpLoad_emulated_turned :
    (∃ r t', bmpLoadElf (uiSink (emuTargetMemRead ap0) (emuDriver ap0 1)) (plainFile turnedFile)
        (emuScanned .reset) = .ok r t' ∧
      NorIdle emuRegion.toFlashGeometry
        (fun s : EmuShim => s.target.Keeps (emuTargetReset true).sram) t' ∧
      Programmed (emuTargetReset true) t'.dev.target 0x080003fe 0x08000408
        [(0x08000404, [1, 2, 3, 4]), (0x080003fe, [5, 6, 7, 8])]) ∧
    (∃ r t', bmpLoadBin (uiSink (emuTargetMemRead ap0) (emuDriver ap0 1)) (plainFile [0x12])
      0x08000001
        (emuScanned .reset) = .ok r t' ∧
      NorIdle emuRegion.toFlashGeometry
        (fun s : EmuShim => s.target.Keeps (emuTargetReset true).sram) t' ∧
      Programmed (emuTargetReset true) t'.dev.target 0x08000001 0x08000002
        [(0x08000001, [0x12])]) := by
  obtain ⟨helf, hbin⟩ := bmpLoad_emulated newAp0_ap0 _ (emuScanned .reset) (emuScanned_idle rfl) 0
  have hparts : segmentParts turnedFile turnedPhdrs =
      [(0x08000404, [1, 2, 3, 4]), (0x080003fe, [5, 6, 7, 8])] := by decide +kernel
  have hload := helf turnedFile turnedPhdrs _ _ turnedFile_image
  rw [hparts] at hload
  exact ⟨hload, hbin [0x12] 0x08000001 (List.cons_ne_nil _ _) (by decide) (by decide)⟩

/-! ## Sessions -/

/-- Whatever the flash of the emulated target has, sessions of erases and writes to what is blank
succeed, and leave what they make of it, one after the other. -/
theorem sessions_emulated {ap : Adiv5AccessPort} (hap : NewAp0 ap) (sram : Vector UInt8 emuSramSize)
    (t : Target EmuShim)
    (h : NorIdle emuRegion.toFlashGeometry (fun s : EmuShim => s.target.Keeps sram) t) (fuel : Nat)
    (sessions : List FlashSession)
    (hfit : SessionsFit emuRegion.toFlashGeometry t.dev.target.flash sessions) :
    ∃ t', RunsTo (emuDriver ap (fuel + 1)) t (sessions.flatMap FlashSession.calls) t' ∧
      NorIdle emuRegion.toFlashGeometry (fun s : EmuShim => s.target.Keeps sram) t' ∧
      t'.dev.target.flash =
        sessions.foldl (fun image s => s.apply emuRegion.blocksize image) t.dev.target.flash :=
  sessions_nor (emuDriver_nor hap.memAp sram fuel) emuRegion_nor sessions t h hfit

/-- Two sessions on one page. The second one erases what the first one wrote. -/
def pageTwice : List FlashSession :=
  [⟨[(0x08000000, 0x400)], [(0x08000010, [1, 2, 3]), (0x08000002, [4])]⟩,
    ⟨[(0x08000005, 1)], [(0x08000010, [5])]⟩]

/-- The two sessions fit the region. -/
theorem pageTwice_fit (image : FlashImage) :
    SessionsFit emuRegion.toFlashGeometry image pageTwice := by
  refine ⟨⟨List.cons_ne_nil _ _, ?_, ⟨List.cons_ne_nil _ _, by decide, by decide, ?_⟩,
    ⟨List.cons_ne_nil _ _, by decide, by decide, ?_⟩, trivial⟩,
    ⟨List.cons_ne_nil _ _, ?_, ⟨List.cons_ne_nil _ _, by decide, by decide, ?_⟩, trivial⟩, trivial⟩
  · exact List.forall_mem_singleton.2 ⟨by decide, by decide, by decide⟩
  · intro x hlow hlt
    have hlt : x < 0x08000010 + 3 := hlt
    exact if_pos (show 0x08000000 / 0x400 ≤ x / 0x400 ∧
      x / 0x400 * 0x400 < 0x08000000 + 0x400 by omega)
  · intro x hlow hlt
    have hlt : x < 0x08000002 + 1 := hlt
    refine (FlashImage.store_of_out (by omega)).trans (if_pos ?_)
    exact (show 0x08000000 / 0x400 ≤ x / 0x400 ∧ x / 0x400 * 0x400 < 0x08000000 + 0x400 by omega)
  · exact List.forall_mem_singleton.2 ⟨by decide, by decide, by decide⟩
  · intro x hlow hlt
    have hlt : x < 0x08000010 + 1 := hlt
    exact if_pos (show 0x08000005 / 0x400 ≤ x / 0x400 ∧ x / 0x400 * 0x400 < 0x08000005 + 1 by omega)

/-- One page written in two sessions. -/
theorem sessions_emulated_pageTwice :
    ∃ t', RunsTo (emuDriver ap0 1) (emuScanned .reset) (pageTwice.flatMap FlashSession.calls) t' ∧
      NorIdle emuRegion.toFlashGeometry
        (fun s : EmuShim => s.target.Keeps (emuTargetReset true).sram) t' ∧
      t'.dev.target.flash =
        pageTwice.foldl (fun image s => s.apply emuRegion.blocksize image)
          (emuTargetReset true).flash :=
  sessions_emulated newAp0_ap0 _ (emuScanned .reset) (emuScanned_idle rfl) 0 pageTwice
    (pageTwice_fit _)

end Blackmagic
