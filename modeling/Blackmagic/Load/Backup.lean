import Mathlib
import Blackmagic.Flash.Map
import Blackmagic.Load.Rules
import Blackmagic.Load.Verbs

/-!
# Dumping the whole flash and flashing the dump back

A `read` without a range writes the regions of the map to a file, in the order of the list that
`target_add_flash` builds, which is the reverse of the order of registration. A `flash` of that file
writes it upwards from one address, and verifies it. What is dumped is restored exactly when the
regions in the list's order, laid end to end from the lowest address, put every byte at its own
address (`InOrder`); for every content that is a list in ascending order without gaps (`Stacked`).
`v_read` ignores the result of its `fclose`, which has no step here: the file holds what `fwrite`
took.
-/

namespace Blackmagic

open Word Effect

/-! ## Memories -/

/-- The bytes of an address range. -/
def contentsAt (m : Nat → UInt8) (addr len : Nat) : List UInt8 :=
  (List.range len).map fun k => m (add32 addr k)

@[simp] theorem length_contentsAt (m : Nat → UInt8) (addr len : Nat) :
    (contentsAt m addr len).length = len := by
  simp [contentsAt]

/-- Each byte of a range is the byte at its address. -/
theorem getElem?_contentsAt {m : Nat → UInt8} {addr len k : Nat} (h : k < len) :
    (contentsAt m addr len)[k]? = some (m (add32 addr k)) := by
  simp [contentsAt, h]

/-- A range in two parts. -/
theorem contentsAt_append (m : Nat → UInt8) (addr n k : Nat) :
    contentsAt m addr n ++ contentsAt m (add32 addr n) k = contentsAt m addr (n + k) := by
  simp only [contentsAt, List.range_add, List.map_append, List.map_map, Function.comp_def,
    add32_add32]

/-- `target_mem_read` answers with the bytes of the memory that the state stands for, and leaves
that memory as it is. -/
def Reads {δ : Type} (memRead : (addr len : Nat) → δ → Option (List UInt8) × δ)
    (mem : δ → Nat → UInt8) : Prop :=
  ∀ a n d bs d', memRead a n d = (some bs, d') → bs = contentsAt (mem d) a n ∧ mem d' = mem d

/-- The regions of a list, one after the other. -/
def flashListing (fs : List TargetFlash) (m : Nat → UInt8) : List UInt8 :=
  fs.flatMap fun f => contentsAt m f.start f.length

/-- The size of a map. -/
def flashSize (fs : List TargetFlash) : Nat := (fs.map (·.length)).sum

/-- The listing is as long as the flash regions together. -/
theorem length_flashListing (fs : List TargetFlash) (m : Nat → UInt8) :
    (flashListing fs m).length = flashSize fs := by
  simp [flashListing, flashSize, List.length_flatMap]

section
variable {δ : Type} {memRead : (addr len : Nat) → δ → Option (List UInt8) × δ}
  {mem : δ → Nat → UInt8} {accepts : (pos len : Nat) → Bool}

/-! ## The dump -/

/-- A dump in progress has appended `bytes` and left the target's map and memory as they were. -/
structure Dumped (mem : δ → Nat → UInt8) (s s' : Dump δ) (bytes : List UInt8) : Prop where
  file : s'.file = s.file ++ bytes
  flash : s'.target.flash = s.target.flash
  memory : mem s'.target.dev = mem s.target.dev

/-- Bytes written after bytes written. -/
theorem Dumped.trans {s s₁ s₂ : Dump δ} {bs bs' : List UInt8} (h : Dumped mem s s₁ bs)
    (h' : Dumped mem s₁ s₂ bs') : Dumped mem s s₂ (bs ++ bs') :=
  ⟨by rw [h'.file, h.file, List.append_assoc], h'.flash.trans h.flash, h'.memory.trans h.memory⟩

/-- The loop over the chunks of a range writes its bytes, by induction on the chunks. -/
theorem ends_readLoop (hmem : Reads memRead mem) :
    ∀ {ns : List Nat} {addr : Nat} {s : Dump δ},
      Ends (readLoop memRead accepts ns addr) s
        (fun _ s' => Dumped mem s s' (contentsAt (mem s.target.dev) addr ns.sum))
        fun _ _ => True := by
  intro ns
  induction ns with
  | nil =>
    intro addr s
    exact ⟨by simp [contentsAt], rfl, rfl⟩
  | cons n ns ih =>
    intro addr s
    rw [readLoop]
    simp only [ends_bind, ends_get]
    rcases hread : memRead addr n s.target.dev with ⟨got, d⟩
    simp only [targetMemRead, hread, ends_set]
    cases got with
    | none => trivial
    | some bytes =>
      obtain ⟨rfl, hsame⟩ := hmem _ _ _ _ _ hread
      dsimp only
      split
      · simp only [ends_bind, ends_set]
        refine ih.imp (fun _ s' h => ?_) fun _ _ _ => trivial
        rw [hsame] at h
        have hone : Dumped mem s ⟨{ s.target with dev := d },
            s.file ++ contentsAt (mem s.target.dev) addr n⟩
            (contentsAt (mem s.target.dev) addr n) := ⟨rfl, rfl, hsame⟩
        rw [List.sum_cons, ← contentsAt_append]
        exact hone.trans h
      · trivial

/-- The loop over the regions writes them one after the other. -/
theorem ends_readRanges (hmem : Reads memRead mem) :
    ∀ {fs : List TargetFlash} {s : Dump δ},
      Ends (readRanges memRead accepts (fs.map fun f => (f.start, f.length))) s
        (fun _ s' => Dumped mem s s' (flashListing fs (mem s.target.dev))) fun _ _ => True := by
  intro fs
  induction fs with
  | nil =>
    intro s
    exact ⟨by simp [flashListing], rfl, rfl⟩
  | cons f fs ih =>
    intro s
    rw [List.map_cons, readRanges, ends_bind, vReadRange]
    refine (ends_readLoop hmem).imp (fun _ s₁ h => ?_) fun _ _ _ => trivial
    rw [Bytes.sum_chunks] at h
    refine ih.imp (fun _ s' h' => ?_) fun _ _ _ => trivial
    rw [h.memory] at h'
    exact h.trans h'

/-- A `read` of the whole flash that succeeds has appended the regions in the list's order. -/
theorem ends_vRead (hmem : Reads memRead mem) {s : Dump δ}
    (hwords : ∀ f ∈ s.target.flash, f.Words) :
    Ends (vRead memRead accepts none) s
      (fun _ s' => Dumped mem s s' (flashListing s.target.flash (mem s.target.dev)))
      fun _ _ => True := by
  simp only [vRead, ends_bind, ends_get]
  split
  · trivial
  · trivial
  · next text htext =>
    rw [flashRanges_memMap hwords htext]
    simp only [ends_bind]
    refine (ends_readRanges hmem).imp (fun _ s' h => ?_) fun _ _ _ => trivial
    split
    · trivial
    · exact h

/-! ## The restore -/

variable {drv : FlashDriver δ} {f : File}

/-- Programming through the sink of `v_flash` stays in the map, unless it leaves the address
space. -/
theorem ends_programLoop {short : String} :
    ∀ {ns : List Nat} {pos addr : Nat} {t : Target δ},
      Ends (programLoop (uiSink memRead drv) f short ns pos addr) t
        (fun _ t' => t'.geometry = t.geometry ∧ (addr + ns.sum < 2 ^ 32 →
          ∀ k < ns.sum, ∃ g ∈ t.geometry, g.Contains (addr + k)))
        fun _ _ => True := by
  intro ns
  induction ns with
  | nil =>
    intro pos addr t
    exact ⟨rfl, fun _ k hk => absurd hk (Nat.not_lt_zero k)⟩
  | cons n ns ih =>
    intro pos addr t
    rw [programLoop]
    simp only [ends_bind, ends_getOrFail]
    refine ⟨fun data hdata => ends_callSink (fun ok t₁ hwrite => ?_) fun _ _ => trivial,
      fun _ => trivial⟩
    change targetFlashWrite drv t addr data = .ok (ok, t₁) at hwrite
    rw [ends_failUnless]
    refine ⟨fun hok => ?_, fun _ => trivial⟩
    subst hok
    have hgeom := (targetFlashWrite_moves drv.respects_true hwrite).geometry
    have hlen := (File.length_fread hdata).1
    refine ih.imp (fun _ t' h => ⟨h.1.trans hgeom, fun hsum k hk => ?_⟩) fun _ _ _ => trivial
    rw [List.sum_cons] at hsum hk
    rcases Nat.lt_or_ge k n with hlt | hge
    · exact targetFlashWrite_covers drv (by omega) hwrite k (by omega)
    · rw [add32_of_lt (by omega)] at h
      obtain ⟨g, hg, hc⟩ := h.2 (by omega) (k - n) (by omega)
      rw [hgeom] at hg
      refine ⟨g, hg, ?_⟩
      rwa [Nat.add_assoc, Nat.add_sub_cancel' hge] at hc

/-- What was verified is in the memory. -/
theorem ends_verifyLoop (hmem : Reads memRead mem) :
    ∀ {ns : List Nat} {pos addr : Nat} {t : Target δ},
      Ends (verifyLoop f (fun addr len t => targetMemRead memRead t addr len) ns pos addr) t
        (fun _ t' => mem t'.dev = mem t.dev ∧
          Bytes.slice f.contents pos ns.sum = contentsAt (mem t.dev) addr ns.sum)
        fun _ _ => True := by
  intro ns
  induction ns with
  | nil =>
    intro pos addr t
    exact ⟨rfl, by simp [Bytes.slice, contentsAt]⟩
  | cons n ns ih =>
    intro pos addr t
    rw [verifyLoop]
    simp only [ends_bind, ends_getOrFail]
    refine ⟨fun want hwant => ends_callSink (fun got t₁ hread => ?_) fun _ _ => trivial,
      fun _ => trivial⟩
    refine ⟨fun bytes hgot => ?_, fun _ => trivial⟩
    rw [ends_failUnless]
    refine ⟨fun hsame => ?_, fun _ => trivial⟩
    subst hgot
    rcases hcall : memRead addr n t.dev with ⟨got, d⟩
    simp only [targetMemRead, hcall, Except.ok.injEq, Prod.mk.injEq] at hread
    obtain ⟨rfl, rfl⟩ := hread
    obtain ⟨hbytes, hkeep⟩ := hmem _ _ _ _ _ hcall
    refine ih.imp (fun _ t' h => ?_) fun _ _ _ => trivial
    dsimp only at h
    rw [hkeep] at h
    refine ⟨h.1, ?_⟩
    rw [List.sum_cons, ← Bytes.slice_add, ← contentsAt_append, h.2, ← (File.length_fread hwant).2,
      of_decide_eq_true hsame, hbytes]

/-- A raw image that was loaded is in the memory from the base on, and all of it went to addresses
of the map, unless it left the address space. -/
theorem ends_bmpLoadBin (hmem : Reads memRead mem) {base : Nat} {t : Target δ} :
    Ends (bmpLoadBin (uiSink memRead drv) f base) t
      (fun _ t' => f.contents = contentsAt (mem t'.dev) base f.contents.length ∧
        (base + f.contents.length < 2 ^ 32 →
          ∀ k < f.contents.length, ∃ g ∈ t.geometry, g.Contains (base + k)))
      fun _ _ => True := by
  unfold bmpLoadBin
  simp only [ends_bind, ends_failUnless, uiSink]
  refine ⟨fun _ => ⟨fun _ => ?_, fun _ => trivial⟩, fun _ => trivial⟩
  refine ends_callSink (fun erased t₁ herase => ?_) fun _ _ => trivial
  refine ⟨fun _ => ⟨fun _ => ?_, fun _ => trivial⟩, fun _ => trivial⟩
  have hgeom := (targetFlashErase_moves drv.respects_true t base f.contents.length).geometry
  rw [Except.ok.inj herase] at hgeom
  refine ends_programLoop.imp (fun _ t₂ hprogram => ?_) fun _ _ _ => trivial
  refine ends_callSink (fun completed t₃ _ => ?_) fun _ _ => trivial
  refine ⟨fun _ => ?_, fun _ => trivial⟩
  unfold verifyRange
  simp only [ends_bind, ends_failUnless]
  refine ⟨fun _ => ?_, fun _ => trivial⟩
  refine (ends_verifyLoop hmem).imp (fun _ t₄ hverify => ?_) fun _ _ _ => trivial
  rw [Bytes.sum_chunks] at hprogram hverify
  dsimp only at hgeom
  rw [hgeom] at hprogram
  refine ⟨?_, hprogram.2⟩
  rw [hverify.1, ← hverify.2, Bytes.slice, List.drop_zero, List.take_length]

/-! ## Back and forth -/

/-- Dump the whole flash to a file, and flash the file at an address. The medium that holds the file
can fail to read, but what it reads is what was written. -/
def backupRestore (memRead : (addr len : Nat) → δ → Option (List UInt8) × δ)
    (accepts : (pos len : Nat) → Bool) (seeks : (off : Nat) → Bool) (reads : (off len : Nat) → Bool)
    (drv : FlashDriver δ) (lo : Nat) (t : Target δ) : Option (Target δ) :=
  match vRead memRead accepts none ⟨t, []⟩ with
  | .error _ _ => none
  | .ok _ s =>
    match vFlash memRead drv ⟨s.file, seeks, reads⟩ (some lo) s.target with
    | .error _ _ => none
    | .ok _ t' => some t'

/-- A region lies in the address space. -/
structure FlashGeometry.InSpace (g : FlashGeometry) : Prop extends g.Words where
  end_le : g.start + g.length ≤ 2 ^ 32

/-- The addresses of a list of regions. -/
def flashAddresses (fs : List TargetFlash) : List Nat :=
  fs.flatMap fun f => List.range' f.start f.length

/-- There are as many addresses as bytes of flash. -/
theorem length_flashAddresses (fs : List TargetFlash) :
    (flashAddresses fs).length = flashSize fs := by
  simp [flashAddresses, flashSize, List.length_flatMap]

/-- The addresses are those of the regions. -/
theorem mem_flashAddresses {fs : List TargetFlash} {a : Nat} :
    a ∈ flashAddresses fs ↔ ∃ f ∈ fs, f.start ≤ a ∧ a < f.start + f.length := by
  simp [flashAddresses, List.mem_flatMap, List.mem_range'_1]

/-- An address in a region lies before its end. -/
theorem FlashGeometry.Contains.lt_end {g : FlashGeometry} {a : Nat} (h : g.Contains a) :
    a < g.start + g.length :=
  Nat.lt_of_lt_of_le h.2 (Nat.mod_le _ _)

/-- A map as large as a range that lies in it has no address outside of the range. -/
theorem flash_within {fs : List TargetFlash} {lo : Nat}
    (h : ∀ k < flashSize fs, ∃ g ∈ fs.map (·.toFlashGeometry), g.Contains (lo + k)) :
    ∀ f ∈ fs, ∀ k < f.length, f.start + k < lo + flashSize fs := by
  have hsub : List.range' lo (flashSize fs) ⊆ flashAddresses fs := by
    intro a ha
    rw [List.mem_range'_1] at ha
    obtain ⟨g, hg, hc⟩ := h (a - lo) (by omega)
    rw [Nat.add_sub_cancel' ha.1] at hc
    obtain ⟨f, hf, rfl⟩ := List.mem_map.1 hg
    exact mem_flashAddresses.2 ⟨f, hf, hc.1, hc.lt_end⟩
  have hperm : (List.range' lo (flashSize fs)).Perm (flashAddresses fs) := by
    refine (List.subperm_of_subset List.nodup_range' hsub).perm_of_length_le ?_
    rw [length_flashAddresses, List.length_range']
  intro f hf k hk
  have hmem : f.start + k ∈ flashAddresses fs := mem_flashAddresses.2 ⟨f, hf, by omega, by omega⟩
  have := List.mem_range'_1.1 (hperm.mem_iff.2 hmem)
  omega

/-- The regions of the list, laid end to end from `lo`, put every byte at its own address. -/
def InOrder (fs : List TargetFlash) (lo : Nat) (m : Nat → UInt8) : Prop :=
  ∀ f ∈ fs, ∀ k < f.length, (flashListing fs m)[f.start + k - lo]? = some (m (f.start + k))

/-- A dump that was flashed back at the lowest address of the flash, as a raw image, restores the
flash exactly when the regions were listed in order. -/
theorem backupRestore_restores_iff {seeks : (off : Nat) → Bool} {reads : (off len : Nat) → Bool}
    {lo : Nat} {t t' : Target δ} (hmem : Reads memRead mem) (hspace : ∀ f ∈ t.flash, f.InSpace)
    (hlo : IsLeast {a | ∃ f ∈ t.flash, f.start = a} lo)
    (hraw : (flashListing t.flash (mem t.dev)).take 4 ≠ elfMagic)
    (h : backupRestore memRead accepts seeks reads drv lo t = some t') :
    (∀ f ∈ t.flash, ∀ k < f.length, mem t'.dev (f.start + k) = mem t.dev (f.start + k)) ↔
      InOrder t.flash lo (mem t.dev) := by
  unfold backupRestore at h
  split at h
  · cases h
  next s hread =>
  have hdump := (ends_vRead hmem fun f hf => (hspace f hf).toWords).ok hread
  have hfile : s.file = flashListing t.flash (mem t.dev) := hdump.file
  have hgeom : s.target.geometry = t.flash.map (·.toFlashGeometry) := by
    rw [Target.geometry, hdump.flash]
  generalize hf : (⟨s.file, seeks, reads⟩ : File) = f at h
  have hcontents : f.contents = flashListing t.flash (mem t.dev) := by rw [← hf, ← hfile]
  have hsize : f.contents.length = flashSize t.flash := by rw [hcontents, length_flashListing]
  split at h
  · cases h
  next r t₂ hflash =>
  cases h
  have hbin : vFlash memRead drv f (some lo) = bmpLoadBin (uiSink memRead drv) f lo := by
    refine if_neg fun hmagic => hraw ?_
    rw [← hcontents, (File.length_fread hmagic).2]
    rfl
  rw [hbin] at hflash
  obtain ⟨hin, hcover⟩ := (ends_bmpLoadBin hmem).ok hflash
  rw [hsize] at hin hcover
  rw [hgeom] at hcover
  -- every byte of the flash is in the range that was flashed, at its own distance from the base
  have hback : ∀ g ∈ t.flash, ∀ k < g.length,
      (flashListing t.flash (mem t.dev))[g.start + k - lo]? = some (mem t'.dev (g.start + k)) := by
    intro g hg k hk
    have hge : lo ≤ g.start := hlo.2 ⟨g, hg, rfl⟩
    have htop := (hspace g hg).end_le
    have hlt : g.start + k - lo < flashSize t.flash := by
      rcases Nat.lt_or_ge (lo + flashSize t.flash) (2 ^ 32) with hfit | hwrap
      · have := flash_within (hcover hfit) g hg k hk
        omega
      · omega
    rw [← hcontents, hin, getElem?_contentsAt hlt, add32_of_lt (by omega)]
    congr 2
    omega
  constructor
  · intro hsame g hg k hk
    rw [hback g hg k hk, hsame g hg k hk]
  · intro horder g hg k hk
    exact Option.some.inj ((hback g hg k hk).symm.trans (horder g hg k hk))

/-! ## Maps in order -/

/-- Each region begins where the ones listed before it end, the first at `lo`. -/
def Stacked (fs : List TargetFlash) (lo : Nat) : Prop :=
  ∀ pre f post, fs = pre ++ f :: post → 0 < f.length → f.start = lo + flashSize pre

/-- A range that does not wrap holds the bytes of its addresses. -/
theorem contentsAt_eq_map {m : Nat → UInt8} {addr len : Nat} (h : addr + len ≤ 2 ^ 32) :
    contentsAt m addr len = (List.range' addr len).map m := by
  rw [List.range'_eq_map_range, List.map_map]
  refine List.map_congr_left fun k hk => ?_
  rw [List.mem_range] at hk
  rw [add32_of_lt (by omega)]
  rfl

/-- So does the listing of the regions. -/
theorem flashListing_eq_map {m : Nat → UInt8} :
    ∀ {fs : List TargetFlash}, (∀ f ∈ fs, f.InSpace) →
      flashListing fs m = (flashAddresses fs).map m := by
  intro fs hspace
  simp only [flashListing, flashAddresses, List.map_flatMap]
  exact List.flatMap_congr fun f hf => contentsAt_eq_map (hspace f hf).end_le

/-- Where an address of a region stands among the addresses of the list. -/
theorem getElem?_flashAddresses {pre post : List TargetFlash} {f : TargetFlash} {k : Nat}
    (hk : k < f.length) :
    (flashAddresses (pre ++ f :: post))[flashSize pre + k]? = some (f.start + k) := by
  have hlen := length_flashAddresses pre
  simp only [flashAddresses, List.flatMap_append, List.flatMap_cons] at hlen ⊢
  rw [List.getElem?_append_right (by omega), hlen, Nat.add_sub_cancel_left,
    List.getElem?_append_left (by simpa using hk)]
  simp [hk]

/-- For a map without overlaps, the listing puts the bytes of every content at their addresses
exactly when the list is in ascending order and has no gaps. -/
theorem inOrder_iff_stacked {fs : List TargetFlash} {lo : Nat} (hspace : ∀ f ∈ fs, f.InSpace)
    (hlo : IsLeast {a | ∃ f ∈ fs, f.start = a} lo) (hnodup : (flashAddresses fs).Nodup) :
    (∀ m, InOrder fs lo m) ↔ Stacked fs lo := by
  constructor
  · rintro horder pre f post rfl hpos
    have hge : lo ≤ f.start := hlo.2 ⟨f, by simp, rfl⟩
    have hpre := @getElem?_flashAddresses pre post f 0 hpos
    -- a memory that tells the first address of the region from all others
    have hat := horder (fun a => if a = f.start then 1 else 0) f (by simp) 0 hpos
    rw [flashListing_eq_map hspace, List.getElem?_map, Option.map_eq_some_iff] at hat
    obtain ⟨a, ha, hone⟩ := hat
    have hsame : a = f.start := by
      by_contra hne
      rw [if_neg hne] at hone
      simp at hone
    rw [hsame] at ha
    rw [Nat.add_zero] at ha hpre
    have := (List.getElem?_inj (List.getElem?_eq_some_iff.1 ha).1 hnodup).1 (ha.trans hpre.symm)
    omega
  · intro hstack m f hf k hk
    obtain ⟨pre, post, rfl⟩ := List.append_of_mem hf
    have hstart := hstack pre f post rfl (by omega)
    rw [flashListing_eq_map hspace, List.getElem?_map,
      show f.start + k - lo = flashSize pre + k by omega, getElem?_flashAddresses hk]
    rfl

end

/-! ## A flash bank -/

/-- A flash from `0x08000000` on that takes every command; a bit is programmed from one to zero. -/
def bankDriver : FlashDriver (List UInt8) where
  enterFlashMode := none
  exitFlashMode := none
  reset := id
  prepare := none
  done := none
  erase := fun _ addr len d =>
    (true, Bytes.overwrite d (addr - 0x08000000) (List.replicate len 0xff))
  write := fun _ dest src d =>
    (true, Bytes.overwrite d (dest - 0x08000000)
      (List.zipWith (· &&& ·) (Bytes.slice d (dest - 0x08000000) src.length) src))
  malloc := fun _ d => (true, d)

/-- The memory that a bank is. -/
def bankMem (d : List UInt8) (a : Nat) : UInt8 := d.getD (a - 0x08000000) 0

/-- `target_mem_read` of a bank. -/
def bankRead (addr len : Nat) (d : List UInt8) : Option (List UInt8) × List UInt8 :=
  (some (contentsAt (bankMem d) addr len), d)

/-- The bank's memory can be read. -/
theorem bankRead_reads : Reads bankRead bankMem := by
  intro a n d bs d' h
  cases h
  exact ⟨rfl, rfl⟩

/-- A region of four blocks of 16 bytes, as a probe registers it. -/
def bankRegion (start : Nat) : TargetFlash where
  start := start
  length := 64
  blocksize := 16
  writesize := 4
  writebufsize := 0
  erased := 0xff
  operation := .none
  buf := none
  bufAddrBase := 0
  bufAddrLow := 0
  bufAddrHigh := 0

/-- A target with the regions that a probe adds one after the other. -/
def bankTarget (starts : List Nat) (d : List UInt8) : Target (List UInt8) :=
  starts.foldl (fun t start => targetAddFlash t (bankRegion start)) ⟨false, [], [], d⟩

/-- What a bank of two regions holds: ones in the lower region, twos in the upper one. -/
def bankBytes : List UInt8 := List.replicate 64 1 ++ List.replicate 64 2

/-- A dump of `bankBytes`, flashed back on a medium that does not fail. -/
def bankRun (starts : List Nat) : Option (Target (List UInt8)) :=
  backupRestore bankRead (fun _ _ => true) (fun _ => true) (fun _ _ => true) bankDriver 0x08000000
    (bankTarget starts bankBytes)

/-- Registered from the top down, the bank comes back. -/
theorem backupRestore_restores_iff_bank :
    ∃ t', bankRun [0x08000040, 0x08000000] = some t' ∧
      ((∀ f ∈ (bankTarget [0x08000040, 0x08000000] bankBytes).flash, ∀ k < f.length,
        bankMem t'.dev (f.start + k) = bankMem bankBytes (f.start + k)) ↔
      InOrder (bankTarget [0x08000040, 0x08000000] bankBytes).flash 0x08000000
        (bankMem bankBytes)) := by
  have hrun : (bankRun [0x08000040, 0x08000000]).isSome = true := by decide +kernel
  obtain ⟨t', ht'⟩ := Option.isSome_iff_exists.1 hrun
  refine ⟨t', ht', ?_⟩
  refine backupRestore_restores_iff bankRead_reads ?_ ⟨⟨_, List.mem_cons_self, rfl⟩, ?_⟩ ?_ ht'
  · intro f hf
    refine ⟨⟨?_, ?_⟩, ?_⟩ <;> revert f <;> decide
  · rintro a ⟨f, hf, rfl⟩
    revert f
    decide
  · decide +kernel

/-- Registered from the bottom up, as the STM32F4 probes do it, the two regions come back
swapped. -/
theorem backupRestore_swaps :
    ∃ t', bankRun [0x08000000, 0x08000040] = some t' ∧
      ¬ ∀ f ∈ (bankTarget [0x08000000, 0x08000040] bankBytes).flash, ∀ k < f.length,
        bankMem t'.dev (f.start + k) = bankMem bankBytes (f.start + k) := by
  have hrun : (bankRun [0x08000000, 0x08000040]).map (·.dev) =
      some (List.replicate 64 2 ++ List.replicate 64 1) := by decide +kernel
  obtain ⟨t', ht', hdev⟩ := Option.map_eq_some_iff.1 hrun
  refine ⟨t', ht', fun h => ?_⟩
  rw [hdev] at h
  revert h
  decide +kernel

end Blackmagic
