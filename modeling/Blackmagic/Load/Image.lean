import Blackmagic.Flash.Nor
import Blackmagic.Load.Span
import Blackmagic.Load.Verbs

/-!
# Loading an image to NOR flash

The loader through the sink of `v_flash`, over a driver of NOR flash. The programming loop stores
the bytes of the file in the image that the session is going to leave (`programLoop_nor`), the
segments are stored one after the other (`segmentLoop_nor`), and what the verification reads back is
there (`verifyLoop_nor`). So a load of segments that are disjoint returns true, whatever the flash
had before and in whatever order they come (`bmpLoadElf_nor`, `bmpLoadBin_nor`).
-/

namespace Blackmagic

open Word Bytes Effect

/-- The target is read as its flash is. -/
structure ReadsFlash {δ : Type} (memRead : (addr len : Nat) → δ → Option (List UInt8) × δ)
    (g : FlashGeometry) (mem : δ → FlashImage) (usable : δ → Prop) : Prop where
  read : ∀ addr len d, 0 < len → g.start ≤ addr → addr + len ≤ g.start + g.length → usable d →
    ∃ d', memRead addr len d = (some ((List.range len).map fun i => mem d (addr + i)), d') ∧
      usable d' ∧
      mem d' = mem d

/-- An image has bytes at an address. -/
def FlashImage.Shows (image : FlashImage) (addr : Nat) (b : List UInt8) : Prop :=
  ∀ i < b.length, b[i]? = some (image (addr + i))

/-- A stored image shows what was stored. -/
theorem FlashImage.shows_store (image : FlashImage) (addr : Nat) (b : List UInt8) :
    (image.store addr b).Shows addr b := by
  intro i hi
  have hget := List.getElem?_eq_getElem hi
  rw [store_eq (Nat.le_add_right addr i) (by rwa [Nat.add_sub_cancel_left]), hget]

/-- What is stored elsewhere leaves bytes as they are. -/
theorem FlashImage.Shows.store {image : FlashImage} {addr addr' : Nat} {b b' : List UInt8}
    (h : image.Shows addr b) (hout : addr + b.length ≤ addr' ∨ addr' + b'.length ≤ addr) :
    (image.store addr' b').Shows addr b := by
  intro i hi
  rw [store_of_out (by omega)]
  exact h i hi

/-- What is read of a range that shows bytes. -/
theorem FlashImage.Shows.map_range {image : FlashImage} {addr : Nat} {b : List UInt8}
    (h : image.Shows addr b) :
    ((List.range b.length).map fun i => image (addr + i)) = b := by
  refine List.ext_getElem? fun i => ?_
  rcases Nat.lt_or_ge i b.length with hlt | hge
  · rw [List.getElem?_map, List.getElem?_range hlt, h i hlt]
    rfl
  · rw [List.getElem?_eq_none hge, List.getElem?_eq_none (by simpa using hge)]

/-- It shows every part of it. -/
theorem FlashImage.Shows.slice {image : FlashImage} {addr : Nat} {b : List UInt8} {n k : Nat}
    (h : image.Shows addr b) (hn : n + k ≤ b.length) : image.Shows (addr + n) (slice b n k) := by
  intro i hi
  rw [length_slice hn] at hi
  rw [Bytes.slice, List.getElem?_take_of_lt hi, List.getElem?_drop, h (n + i) (by omega),
    Nat.add_assoc]

section
variable {δ : Type} {drv : FlashDriver δ} {g : FlashGeometry} {mem : δ → FlashImage}
  {usable opened : δ → Prop}
  {memRead : (addr len : Nat) → δ → Option (List UInt8) × δ} {contents : List UInt8}
    {image : FlashImage}
  {t : Target δ}

/-- A read within a plain file. -/
theorem plainFile_fread {pos len : Nat} (h : pos + len ≤ contents.length) :
    (plainFile contents).fread pos len = some (slice contents pos len) := if_pos ⟨h, rfl⟩

/-- A seek within the range of a `long`. -/
theorem plainFile_fseek {pos : Nat} (h : pos < 2 ^ 31) : (plainFile contents).fseek pos = true := by
  rw [File.fseek, decide_eq_true h]
  rfl

/-- A call of the sink that returns. -/
theorem callSink_ok {σ α : Type} {k : σ → Except BufFault (α × σ)} {s s' : σ} {a : α}
    (h : k s = .ok (a, s')) :
    callSink k s = .ok a s' := by
  rw [callSink, h]

/-- A test that passes. -/
theorem failUnless_true {σ : Type} {err : String} {s : σ} :
    (failUnless true err : LoadM σ Unit) s = .ok () s := rfl

/-- A value that is there. -/
theorem getOrFail_some {σ α : Type} {a : α} {err : String} {s : σ} :
    (getOrFail (some a) err : LoadM σ α) s = .ok a s := rfl

/-! ## Programming -/

section
variable (hdrv : NorDriver drv g mem usable opened) (hg : g.Nor)
include hdrv hg

/-- The programming loop stores the bytes of the file in the image. -/
theorem programLoop_nor (short : String) :
    ∀ (ns : List Nat) (pos addr : Nat) {t : Target δ} {image : FlashImage},
    (∀ n ∈ ns, 0 < n) → pos + ns.sum ≤ contents.length → NorSession g mem opened image t →
      g.start ≤ addr →
    addr + ns.sum ≤ g.start + g.length → image.Blank addr ns.sum →
    ∃ t', programLoop (uiSink memRead drv) (plainFile contents) short ns pos addr t = .ok () t' ∧
      NorSession g mem opened (image.store addr (slice contents pos ns.sum)) t' := by
  intro ns
  induction ns with
  | nil =>
    intro pos addr t image _ _ h _ _ _
    refine ⟨t, rfl, ?_⟩
    have hnil : slice contents pos ([] : List Nat).sum = [] := List.take_zero
    rwa [hnil, FlashImage.store_nil]
  | cons n ns ih =>
    intro pos addr t image hpos hfile h hstart hend hblank
    obtain ⟨hn, hns⟩ := List.forall_mem_cons.1 hpos
    rw [List.sum_cons] at hfile hend hblank ⊢
    have hend32 := hg.end_lt
    have hlen : (slice contents pos n).length = n := length_slice (by omega)
    obtain ⟨t₁, hwrite, h₁⟩ :=
        targetFlashWrite_nor hdrv hg h addr (slice contents pos n)
        (by rw [← List.length_pos_iff, hlen]; exact hn) hstart (by omega) (by
        rw [hlen]
        exact fun x hle hlt => hblank x hle (by omega))
    obtain ⟨t', hrest, h'⟩ := ih (pos + n) (addr + n) hns (by omega) h₁ (by omega) (by omega)
      (FlashImage.Blank.store (fun x hle hlt => hblank x (by omega) (by omega)) (.inl (by omega)))
    refine ⟨t', ?_, ?_⟩
    · rw [programLoop, plainFile_fread (by omega), run_bind_ok getOrFail_some,
        run_bind_ok (callSink_ok hwrite), run_bind_ok failUnless_true, add32_of_lt (by omega)]
      exact hrest
    · have happ := image.store_append addr (slice contents pos n) (slice contents (pos + n) ns.sum)
      rw [hlen, slice_add] at happ
      rwa [← happ]

end

/-! ## Verification -/

section
variable (hread : ReadsFlash memRead g mem usable) (hg : g.Nor)
include hread hg

/-- What the loop of `verify_range` reads back is what the file has. -/
theorem verifyLoop_nor : ∀ (ns : List Nat) (pos addr : Nat) {t : Target δ}, (∀ n ∈ ns, 0 < n) →
    pos + ns.sum ≤ contents.length → g.start ≤ addr → addr + ns.sum ≤ g.start + g.length →
      NorIdle g usable t →
    (mem t.dev).Shows addr (slice contents pos ns.sum) →
    ∃ t', verifyLoop (plainFile contents) (fun addr len t => targetMemRead memRead t addr len) ns
      pos addr t =
      .ok () t' ∧ NorIdle g usable t' ∧ mem t'.dev = mem t.dev := by
  intro ns
  induction ns with
  | nil => exact fun _ _ _ _ _ _ _ h _ => ⟨_, rfl, h, rfl⟩
  | cons n ns ih =>
    intro pos addr t hpos hfile hstart hend h hshows
    obtain ⟨hn, hns⟩ := List.forall_mem_cons.1 hpos
    rw [List.sum_cons] at hfile hend hshows
    have hend32 := hg.end_lt
    have hlen : (slice contents pos (n + ns.sum)).length = n + ns.sum := length_slice hfile
    have hfirst : slice (slice contents pos (n + ns.sum)) 0 n = slice contents pos n := by
      rw [← slice_add]
      have hn : (slice contents pos n).length = n := length_slice (by omega)
      exact List.take_left' hn
    have hrest : slice (slice contents pos (n + ns.sum)) n ns.sum =
        slice contents (pos + n) ns.sum := by
      rw [slice, slice, slice, List.drop_take, List.take_take, List.drop_drop,
        Nat.add_sub_cancel_left, Nat.min_self]
    have hshows₁ := hshows.slice (n := 0) (k := n) (by omega)
    have hshows₂ := hshows.slice (n := n) (k := ns.sum) (by omega)
    rw [hfirst, Nat.add_zero] at hshows₁
    rw [hrest] at hshows₂
    obtain ⟨d', hread', husable', hmem'⟩ := hread.read addr n t.dev hn hstart (by omega) h.usable
    have hbytes := hshows₁.map_range
    rw [length_slice (by omega)] at hbytes
    rw [hbytes] at hread'
    obtain ⟨t', hloop, h', hmem''⟩ :=
      @ih (pos + n) (addr + n) { t with dev := d' } hns (by omega) (by omega)
      (by omega) ⟨h.region, husable'⟩ (by rw [hmem']; exact hshows₂)
    refine ⟨t', ?_, h', hmem''.trans hmem'⟩
    have hcall : callSink (fun t : Target δ => .ok (targetMemRead memRead t addr n)) t =
        .ok (some (slice contents pos n)) { t with dev := d' } := by
      refine callSink_ok ?_
      simp only [targetMemRead, hread']
    rw [verifyLoop, plainFile_fread (by omega), run_bind_ok getOrFail_some, run_bind_ok hcall,
      run_bind_ok getOrFail_some, decide_eq_true rfl, run_bind_ok failUnless_true,
      add32_of_lt (by omega)]
    exact hloop

/-- A range that shows the file's bytes is verified. -/
theorem verifyRange_nor {pos addr len : Nat} (hpos : pos < 2 ^ 31)
    (hfile : pos + len ≤ contents.length) (hstart : g.start ≤ addr)
    (hend : addr + len ≤ g.start + g.length) (h : NorIdle g usable t)
    (hshows : (mem t.dev).Shows addr (slice contents pos len)) :
    ∃ t', verifyRange (plainFile contents) (fun addr len t => targetMemRead memRead t addr len) pos
      addr len t =
      .ok () t' ∧ NorIdle g usable t' ∧ mem t'.dev = mem t.dev := by
  have hsum := sum_chunks 256 len
  obtain ⟨t', hloop, h', hmem'⟩ :=
    @verifyLoop_nor _ g mem usable memRead contents hread hg (chunks 256 len) pos addr
    t (fun n hn => (mem_chunks (by decide) hn).1) (by omega) hstart (by omega) h (by rwa [hsum])
  refine ⟨t', ?_, h', hmem'⟩
  rw [verifyRange, plainFile_fseek hpos, run_bind_ok failUnless_true]
  exact hloop

end

/-! ## Segments -/

/-- The segments of a file that load. -/
def loading (phs : List Elf32Phdr) : List Elf32Phdr := phs.filter fun ph => decide ph.Loads

/-- What a segment has in the file. -/
def Elf32Phdr.bytes (contents : List UInt8) (ph : Elf32Phdr) : List UInt8 :=
  slice contents ph.offset ph.filesz

/-- A segment that is in the file, at an offset that can be sought, and loads to the region. -/
structure Elf32Phdr.Fits (g : FlashGeometry) (contents : List UInt8) (ph : Elf32Phdr) : Prop where
  offset_lt : ph.offset < 2 ^ 31
  inFile : ph.offset + ph.filesz ≤ contents.length
  start_le : g.start ≤ ph.paddr
  le_end : ph.paddr + ph.filesz ≤ g.start + g.length

/-- Two segments load to different addresses. -/
def Elf32Phdr.Apart (ph ph' : Elf32Phdr) : Prop :=
  ph.paddr + ph.filesz ≤ ph'.paddr ∨ ph'.paddr + ph'.filesz ≤ ph.paddr

/-- Segments are stored, one after the other. -/
def FlashImage.storeSegments (image : FlashImage) (contents : List UInt8) (segs : List Elf32Phdr) :
    FlashImage :=
  segs.foldl (fun image ph => image.store ph.paddr (ph.bytes contents)) image

/-- A segment that fits has all its bytes in the file. -/
theorem Elf32Phdr.Fits.length_bytes {ph : Elf32Phdr} (h : ph.Fits g contents) :
    (ph.bytes contents).length = ph.filesz := length_slice h.inFile

/-- Bytes that no segment is stored over. -/
theorem FlashImage.storeSegments_of_out {x : Nat} : ∀ {segs : List Elf32Phdr} {image : FlashImage},
    (∀ ph ∈ segs, ph.Fits g contents) → (∀ ph ∈ segs, ¬ (ph.paddr ≤ x ∧ x < ph.paddr + ph.filesz)) →
    image.storeSegments contents segs x = image x := by
  intro segs
  induction segs with
  | nil => exact fun _ _ => rfl
  | cons ph segs ih =>
    intro image hfits hout
    obtain ⟨hfit, hfits⟩ := List.forall_mem_cons.1 hfits
    obtain ⟨hx, hout⟩ := List.forall_mem_cons.1 hout
    change (image.store ph.paddr (ph.bytes contents)).storeSegments contents segs x = _
    rw [ih hfits hout, store_of_out (by rwa [hfit.length_bytes])]

/-- Each of the segments is in the image. -/
theorem FlashImage.storeSegments_shows : ∀ {segs : List Elf32Phdr} {image : FlashImage},
    (∀ ph ∈ segs, ph.Fits g contents) → segs.Pairwise Elf32Phdr.Apart →
    ∀ ph ∈ segs, (image.storeSegments contents segs).Shows ph.paddr (ph.bytes contents) := by
  intro segs
  induction segs with
  | nil => exact fun _ _ _ h => absurd h List.not_mem_nil
  | cons ph segs ih =>
    intro image hfits hapart ph' hmem
    obtain ⟨hfit, hfits'⟩ := List.forall_mem_cons.1 hfits
    obtain ⟨hhead, hapart'⟩ := List.pairwise_cons.1 hapart
    change ((image.store ph.paddr (ph.bytes contents)).storeSegments contents segs).Shows _ _
    rcases List.mem_cons.1 hmem with rfl | hmem
    · intro i hi
      rw [storeSegments_of_out hfits' fun ph hph hx => ?_]
      · exact shows_store image _ _ i hi
      · have := hhead ph hph
        rw [hfit.length_bytes] at hi
        unfold Elf32Phdr.Apart at this
        omega
    · exact ih hfits' hapart' ph' hmem

/-- A program header that can be read. -/
theorem readPhdr_ok {σ : Type} {f : File} {eh : Elf32Ehdr} {i : Nat} {ph : Elf32Phdr}
    {short : String} {s : σ} (h : f.phdr eh i = some ph) :
    (readPhdr f eh i short : LoadM σ Elf32Phdr) s = .ok ph s := by
  obtain ⟨b, hb, rfl⟩ := Option.map_eq_some_iff.1 h
  rw [readPhdr, hb, run_bind_ok getOrFail_some]
  rfl

section
variable (hdrv : NorDriver drv g mem usable opened) (hg : g.Nor)
include hdrv hg

/-- A segment programmed to blank flash is stored in the image. -/
theorem programSegment_nor {ph : Elf32Phdr} (hfit : ph.Fits g contents)
    (h : NorSession g mem opened image t) (hblank : image.Blank ph.paddr ph.filesz) :
    ∃ t', programSegment (uiSink memRead drv) (plainFile contents) ph t = .ok () t' ∧
      NorSession g mem opened (image.store ph.paddr (ph.bytes contents)) t' := by
  have hsum := sum_chunks chunkSize ph.filesz
  have hend := hfit.le_end
  have hfile := hfit.inFile
  obtain ⟨t', hloop, h'⟩ :=
    @programLoop_nor _ drv g mem usable opened memRead contents hdrv hg "short read (segment)"
    (chunks chunkSize ph.filesz) ph.offset ph.paddr t image
      (fun n hn => (mem_chunks (by decide) hn).1) (by omega) h
    hfit.start_le (by omega) (by rwa [hsum])
  rw [hsum] at h'
  refine ⟨t', ?_, h'⟩
  rw [programSegment, plainFile_fseek hfit.offset_lt, run_bind_ok failUnless_true]
  exact hloop

/-- Pass 2 stores the segments in the image. -/
theorem segmentLoop_nor {eh : Elf32Ehdr} :
    ∀ {is : List Nat} {phs : List Elf32Phdr} (done total : Nat)
    {t : Target δ} {image : FlashImage}, is.mapM ((plainFile contents).phdr eh) = some phs →
    (∀ ph ∈ loading phs, ph.Fits g contents) → (loading phs).Pairwise Elf32Phdr.Apart →
    NorSession g mem opened image t → (∀ ph ∈ loading phs, image.Blank ph.paddr ph.filesz) →
    ∃ x t', segmentLoop (uiSink memRead drv) (plainFile contents) eh is done total t = .ok x t' ∧
      NorSession g mem opened (image.storeSegments contents (loading phs)) t' := by
  intro is
  induction is with
  | nil =>
    intro phs done total t image hphs _ _ h _
    cases hphs
    exact ⟨_, t, rfl, h⟩
  | cons i is ih =>
    intro phs done total t image hphs hfits hapart h hblank
    rw [List.mapM_cons] at hphs
    obtain ⟨ph, hph, hphs⟩ := Option.bind_eq_some_iff.1 hphs
    obtain ⟨phs', hphs', hphs⟩ := Option.bind_eq_some_iff.1 hphs
    cases hphs
    rw [segmentLoop, run_bind_ok (readPhdr_ok hph)]
    change ∃ x t', (if segFlashable (uiSink memRead drv) ph t then _ else _ : LoadM _ _) t = _ ∧ _
    rw [segFlashable_eq rfl]
    by_cases hloads : ph.Loads
    · have hcons : loading (ph :: phs') = ph :: loading phs' :=
        List.filter_cons_of_pos (decide_eq_true hloads)
      rw [hcons] at hfits hapart hblank ⊢
      obtain ⟨hfit, hfits⟩ := List.forall_mem_cons.1 hfits
      obtain ⟨hhead, hapart⟩ := List.pairwise_cons.1 hapart
      obtain ⟨hblank₀, hblank⟩ := List.forall_mem_cons.1 hblank
      obtain ⟨t₁, hsegment, h₁⟩ := programSegment_nor hdrv hg hfit h hblank₀
      obtain ⟨x, t', hloop, h'⟩ :=
          ih (done + 1) (add32 total ph.filesz) hphs' hfits hapart h₁ fun ph' hmem =>
        (hblank ph' hmem).store (by rw [hfit.length_bytes]; exact hhead ph' hmem)
      refine ⟨x, t', ?_, h'⟩
      rw [decide_eq_true hloads, if_pos rfl, run_bind_ok hsegment]
      exact hloop
    · have hcons : loading (ph :: phs') = loading phs' :=
        List.filter_cons_of_neg (by simpa using hloads)
      rw [hcons] at hfits hapart hblank ⊢
      obtain ⟨x, t', hloop, h'⟩ := ih done total hphs' hfits hapart h hblank
      refine ⟨x, t', ?_, h'⟩
      rw [decide_eq_false hloads, if_neg Bool.false_ne_true]
      exact hloop

end

section
variable (hread : ReadsFlash memRead g mem usable) (hg : g.Nor)
include hread hg

/-- The verification finds the segments. -/
theorem verifySegments_nor {eh : Elf32Ehdr} :
    ∀ {is : List Nat} {phs : List Elf32Phdr} {t : Target δ},
    is.mapM ((plainFile contents).phdr eh) = some phs → (∀ ph ∈ loading phs, ph.Fits g contents) →
    NorIdle g usable t → (∀ ph ∈ loading phs, (mem t.dev).Shows ph.paddr (ph.bytes contents)) →
    ∃ t', verifySegments (uiSink memRead drv) (plainFile contents) eh
        (fun addr len t => targetMemRead memRead t addr len) is t = .ok () t' ∧
      NorIdle g usable t' ∧ mem t'.dev = mem t.dev := by
  intro is
  induction is with
  | nil =>
    intro phs t _ _ h _
    exact ⟨t, rfl, h, rfl⟩
  | cons i is ih =>
    intro phs t hphs hfits h hshows
    rw [List.mapM_cons] at hphs
    obtain ⟨ph, hph, hphs⟩ := Option.bind_eq_some_iff.1 hphs
    obtain ⟨phs', hphs', hphs⟩ := Option.bind_eq_some_iff.1 hphs
    cases hphs
    rw [verifySegments, run_bind_ok (readPhdr_ok hph)]
    change ∃ t', (if segFlashable (uiSink memRead drv) ph t then _ else _ : LoadM _ _) t = _ ∧ _
    rw [segFlashable_eq rfl]
    by_cases hloads : ph.Loads
    · have hcons : loading (ph :: phs') = ph :: loading phs' :=
        List.filter_cons_of_pos (decide_eq_true hloads)
      rw [hcons] at hfits hshows
      obtain ⟨hfit, hfits⟩ := List.forall_mem_cons.1 hfits
      obtain ⟨hshow, hshows⟩ := List.forall_mem_cons.1 hshows
      obtain ⟨t₁, hrange, h₁, hmem₁⟩ :=
        verifyRange_nor hread hg hfit.offset_lt hfit.inFile hfit.start_le hfit.le_end
        h hshow
      rw [← hmem₁] at hshows ⊢
      obtain ⟨t', hloop, h', hmem'⟩ := ih hphs' hfits h₁ hshows
      refine ⟨t', ?_, h', hmem'⟩
      rw [decide_eq_true hloads, if_pos rfl, run_bind_ok hrange]
      exact hloop
    · have hcons : loading (ph :: phs') = loading phs' :=
        List.filter_cons_of_neg (by simpa using hloads)
      rw [hcons] at hfits hshows
      obtain ⟨t', hloop, h', hmem'⟩ := ih hphs' hfits h hshows
      refine ⟨t', ?_, h', hmem'⟩
      rw [decide_eq_false hloads, if_neg Bool.false_ne_true]
      exact hloop

end

/-! ## Whole loads -/

/-- The union span of segments of the region: from the first address that is loaded to the last. -/
theorem loadSpan_fits {phs : List Elf32Phdr} (hg : g.Nor)
    (hfits : ∀ ph ∈ loading phs, ph.Fits g contents) (hne : loading phs ≠ []) :
    IsLeast {a | ∃ ph ∈ loading phs, a = ph.paddr} (loadSpan phs).lo ∧
      IsGreatest {a | ∃ ph ∈ loading phs, a = ph.paddr + ph.filesz} (loadSpan phs).hi ∧
      (loadSpan phs).nLoad ≠ 0 := by
  have hend32 := hg.end_lt
  have hadd : ∀ ph ∈ loading phs, add32 ph.paddr ph.filesz = ph.paddr + ph.filesz := by
    intro ph hph
    have := (hfits ph hph).le_end
    exact add32_of_lt (by omega)
  have hloads : ∀ ph ∈ loading phs, ph.filesz ≠ 0 :=
    fun ph hph => (of_decide_eq_true (List.mem_filter.1 hph).2).2
  obtain ⟨ph, hph⟩ := List.exists_mem_of_ne_nil _ hne
  obtain ⟨⟨-, hlo⟩, ⟨-, hhi⟩, hlo', hhi'⟩ := foldl_add_spec (loading phs) ⟨maxU32, 0, 0⟩
  have hload := nLoad_foldl_add (loading phs) ⟨maxU32, 0, 0⟩
  have hspan : loadSpan phs = (loading phs).foldl LoadSpan.add ⟨maxU32, 0, 0⟩ := loadSpan_eq phs
  rw [← hspan] at hlo hhi hlo' hhi' hload
  have hfit := hfits ph hph
  have hstart := hfit.start_le
  have hend := hfit.le_end
  refine ⟨⟨?_, ?_⟩, ⟨?_, ?_⟩, ?_⟩
  · rcases hlo' with hmax | hlo'
    · have hmax : (loadSpan phs).lo = 2 ^ 32 - 1 := hmax
      have hle := hlo ph hph
      have := hloads ph hph
      omega
    · exact hlo'
  · rintro a ⟨ph, hph, rfl⟩
    exact hlo ph hph
  · rcases hhi' with hzero | ⟨ph', hph', hhi'⟩
    · have hzero : (loadSpan phs).hi = 0 := hzero
      have hle := hhi ph hph
      rw [hadd ph hph] at hle
      have := hloads ph hph
      omega
    · exact ⟨ph', hph', hhi'.trans (hadd ph' hph')⟩
  · rintro a ⟨ph, hph, rfl⟩
    rw [← hadd ph hph]
    exact hhi ph hph
  · rw [hload]
    have := List.length_pos_iff.2 hne
    omega

section
variable (hdrv : NorDriver drv g mem usable opened) (hread : ReadsFlash memRead g mem usable)
  (hg : g.Nor)
include hdrv hread hg

/-- A load of an ELF file erases the blocks of the union span and stores the segments. -/
theorem bmpLoadElf_nor {eh : Elf32Ehdr} {phs : List Elf32Phdr}
    (hehdr : (plainFile contents).ehdr = some eh) (hphs : (plainFile contents).phdrs eh = some phs)
    (hne : loading phs ≠ []) (hfits : ∀ ph ∈ loading phs, ph.Fits g contents)
    (hapart : (loading phs).Pairwise Elf32Phdr.Apart) (h : NorIdle g usable t) :
    ∃ r t', bmpLoadElf (uiSink memRead drv) (plainFile contents) t = .ok r t' ∧
      NorIdle g usable t' ∧
      mem t'.dev = ((mem t.dev).eraseBlocks g.blocksize (loadSpan phs).lo
        ((loadSpan phs).hi - (loadSpan phs).lo)).storeSegments contents (loading phs) := by
  obtain ⟨⟨⟨phlo, hphlo, hlo⟩, hlow⟩, ⟨⟨phhi, hphhi, hhi⟩, hhigh⟩, hload⟩ :=
    loadSpan_fits hg hfits hne
  have hend32 := hg.end_lt
  have hloads := (of_decide_eq_true (List.mem_filter.1 hphlo).2).2
  have hle := hhigh ⟨phlo, hphlo, rfl⟩
  have hstart := (hfits phlo hphlo).start_le
  have hend := (hfits phhi hphhi).le_end
  have hsub : sub32 (loadSpan phs).hi (loadSpan phs).lo = (loadSpan phs).hi - (loadSpan phs).lo :=
    sub32_of_le (by omega) (by omega)
  obtain ⟨t₁, herase, -, hmem₁, h₁⟩ := targetFlashErase_nor hdrv hg h (loadSpan phs).lo
    ((loadSpan phs).hi - (loadSpan phs).lo) (by omega) (by omega) (by omega)
  have hblank : ∀ ph ∈ loading phs, (mem t₁.dev).Blank ph.paddr ph.filesz := by
    intro ph hph x hle hlt
    have h1 := hlow ⟨ph, hph, rfl⟩
    have h2 := hhigh ⟨ph, hph, rfl⟩
    rw [hmem₁]
    exact (mem t.dev).blank_eraseBlocks _ _ x (by omega) (by omega)
  obtain ⟨x, t₂, hloop, h₂⟩ :=
    @segmentLoop_nor _ drv g mem usable opened memRead contents hdrv hg eh _ phs 0 0
    t₁ (mem t₁.dev) hphs hfits hapart h₁ hblank
  obtain ⟨t₃, hcomplete, h₃, hmem₃⟩ := targetFlashComplete_nor hdrv h₂
  obtain ⟨t', hverify, h', hmem'⟩ :=
    @verifySegments_nor _ drv g mem usable memRead contents hread hg eh _ phs t₃
    hphs hfits h₃ (by
    rw [hmem₃]
    exact FlashImage.storeSegments_shows hfits hapart)
  have hends : Ends (bmpLoadElf (uiSink memRead drv) (plainFile contents)) t
      (fun _ t'' => t'' = t') fun _ _ => False := by
    refine ends_bmpLoadElf rfl (fun eh' phs' hehdr' hphs' _ => ?_) fun hbad =>
      absurd (hbad eh phs hehdr hphs) hload
    rw [hehdr] at hehdr'
    cases hehdr'
    rw [hphs] at hphs'
    cases hphs'
    have hcall : callSink ((uiSink memRead drv).erase (loadSpan phs).lo
        (sub32 (loadSpan phs).hi (loadSpan phs).lo)) t = .ok true t₁ := by
      rw [hsub]
      exact callSink_ok (congrArg Except.ok herase)
    unfold Ends
    rw [hcall]
    change Ends (failUnless true "erase failed" >>= fun _ =>
      loadSegments (uiSink memRead drv) (plainFile contents) eh)
      t₁ _ _
    rw [ends_bind_of_ok failUnless_true]
    unfold loadSegments
    rw [ends_bind_of_ok hloop, uiSink_complete, ends_bind_of_ok (callSink_ok hcomplete),
      ends_bind_of_ok failUnless_true, uiSink_read]
    dsimp only
    rw [ends_bind_of_ok hverify]
    rfl
  unfold Ends at hends
  cases hrun : bmpLoadElf (uiSink memRead drv) (plainFile contents) t with
  | ok r t'' =>
    rw [hrun] at hends
    cases hends
    exact ⟨r, t', rfl, h', by rw [hmem', hmem₃, hmem₁]⟩
  | error e t'' =>
    rw [hrun] at hends
    exact hends.elim

/-- A load of a raw image erases the blocks that it meets and stores its bytes. -/
theorem bmpLoadBin_nor {base : Nat} (hne : contents ≠ []) (hstart : g.start ≤ base)
    (hend : base + contents.length ≤ g.start + g.length) (hsize : contents.length < 2 ^ 31)
    (h : NorIdle g usable t) :
    ∃ r t', bmpLoadBin (uiSink memRead drv) (plainFile contents) base t = .ok r t' ∧
      NorIdle g usable t' ∧
      mem t'.dev = ((mem t.dev).eraseBlocks g.blocksize base contents.length).store base
        contents := by
  have hpos := List.length_pos_iff.2 hne
  have hall : slice contents 0 contents.length = contents := List.take_of_length_le (by simp)
  have hsum := sum_chunks chunkSize contents.length
  obtain ⟨t₁, herase, -, hmem₁, h₁⟩ :=
    targetFlashErase_nor hdrv hg h base contents.length hpos hstart hend
  obtain ⟨t₂, hloop, h₂⟩ := @programLoop_nor _ drv g mem usable opened memRead contents hdrv hg
    "short read (data)" (chunks chunkSize contents.length) 0 base t₁ (mem t₁.dev)
      (fun n hn => (mem_chunks (by decide) hn).1) (by omega) h₁ hstart
    (by omega) (by
      rw [hsum, hmem₁]
      exact (mem t.dev).blank_eraseBlocks _ _)
  rw [hsum, hall] at h₂
  obtain ⟨t₃, hcomplete, h₃, hmem₃⟩ := targetFlashComplete_nor hdrv h₂
  obtain ⟨t', hverify, h', hmem'⟩ :=
    @verifyRange_nor _ g mem usable memRead contents t₃ hread hg 0 base
    contents.length (by decide) (by omega) hstart hend h₃ (by
      rw [hmem₃, hall]
      exact FlashImage.shows_store _ _ _)
  refine ⟨⟨1, contents.length, base⟩, t', ?_, h', by rw [hmem', hmem₃, hmem₁]⟩
  have hseek : (plainFile contents).seeks (plainFile contents).contents.length = true := rfl
  have hlen : (plainFile contents).contents.length = contents.length := rfl
  have herase : (uiSink memRead drv).erase base contents.length t = .ok (true, t₁) :=
    congrArg Except.ok herase
  unfold bmpLoadBin
  rw [hseek, run_bind_ok failUnless_true, hlen, decide_eq_true ⟨hpos, hsize⟩,
    run_bind_ok failUnless_true]
  change (callSink ((uiSink memRead drv).erase base contents.length) >>= fun _ => _) t = _
  rw [run_bind_ok (callSink_ok herase), run_bind_ok failUnless_true, plainFile_fseek (by decide),
    run_bind_ok failUnless_true, run_bind_ok hloop, uiSink_complete,
    run_bind_ok (callSink_ok hcomplete),
    run_bind_ok failUnless_true, uiSink_read]
  dsimp only
  rw [run_bind_ok hverify]
  rfl

end

end

end Blackmagic
