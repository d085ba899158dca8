import Blackmagic.Load.Calls

/-!
# The erased span and the writes

A load erases one range, the union span of the segments, whose ends are folded in 32-bit arithmetic.
Every write lies in that range (`EraseCovers`) exactly when the segments, as far as the file
delivers them, end below the end of the span, or all of them run over the top of the address space
and none begins a chunk beyond it (`SpanFits`).
-/

namespace Blackmagic

open Word Effect

/-- Every write comes behind the one erase, and as integers its bytes lie in the erased range. -/
def EraseCovers (calls : List SinkCall) : Prop :=
  ∀ addr data ok, .write addr data ok ∈ calls →
    ∃ lo len rest, calls = .erase lo len true :: rest ∧ (∀ a n b, .erase a n b ∉ rest) ∧
      lo ≤ addr ∧ addr + data.length ≤ lo + len

/-- The condition on the segments of a file: each one that is written, as far as the file delivers
it, ends at or below the 32-bit end of some segment; or the 32-bit ends of all segments lie below
the starts of all segments, and no chunk begins at the top of the address space or beyond. -/
def SpanFits (f : File) (segs : List Elf32Phdr) : Prop :=
  (∀ x ∈ f.reached segs, x.2 ≠ [] →
      ∃ ph ∈ segs, x.1.paddr + x.2.sum ≤ add32 ph.paddr ph.filesz) ∨
    (∀ ph ∈ segs, ∀ ph' ∈ segs, add32 ph.paddr ph.filesz < ph'.paddr) ∧
      ∀ x ∈ f.reached segs, x.2 ≠ [] →
        x.1.paddr + chunkSize * ((x.2.sum - 1) / chunkSize) < 2 ^ 32

section
variable {f : File} {b : List UInt8} {lo hi : Nat}

/-! ## Pieces and ranges -/

/-- The chunks that the file delivers are the first ones. -/
theorem File.delivered_prefix : ∀ (ns : List Nat) (pos : Nat), f.delivered ns pos <+: ns := by
  intro ns
  induction ns with
  | nil => exact fun _ => List.prefix_refl _
  | cons n ns ih =>
    intro pos
    rw [File.delivered]
    split
    · exact (List.prefix_cons_inj n).2 (ih _)
    · exact List.nil_prefix

/-- Asked for these, it delivers all. -/
theorem File.delivered_delivered :
    ∀ (ns : List Nat) (pos : Nat), f.delivered (f.delivered ns pos) pos = f.delivered ns pos := by
  intro ns
  induction ns with
  | nil => exact fun _ => rfl
  | cons n ns ih =>
    intro pos
    rw [File.delivered]
    split
    · next h => rw [File.delivered, if_pos h, ih]
    · rfl

/-- A piece, by the chunks in front of it. -/
theorem mem_pieces_split {p : Nat × List UInt8} :
    ∀ {ns : List Nat} {pos addr : Nat}, addr < 2 ^ 32 → p ∈ pieces b ns pos addr →
      ∃ pre n, pre ++ [n] <+: ns ∧ p = (add32 addr pre.sum, Bytes.slice b (pos + pre.sum) n) := by
  intro ns
  induction ns with
  | nil => exact fun _ h => nomatch h
  | cons n ns ih =>
    intro pos addr haddr h
    rcases List.mem_cons.1 h with rfl | h
    · refine ⟨[], n, by simp, ?_⟩
      rw [List.sum_nil, add32_of_lt (by omega)]
      rfl
    · obtain ⟨pre, m, hpre, rfl⟩ := ih (add32_lt _ _) h
      refine ⟨n :: pre, m, by simpa using hpre, ?_⟩
      rw [List.sum_cons, add32_add32, Nat.add_assoc]

/-- The last chunk has a piece. -/
theorem piece_of_split :
    ∀ {pre : List Nat} {n pos addr : Nat}, addr < 2 ^ 32 →
      (add32 addr pre.sum, Bytes.slice b (pos + pre.sum) n) ∈ pieces b (pre ++ [n]) pos addr := by
  intro pre
  induction pre with
  | nil =>
    intro n pos addr haddr
    rw [List.sum_nil, add32_of_lt (by omega)]
    exact List.mem_cons_self
  | cons m pre ih =>
    intro n pos addr haddr
    refine List.mem_cons_of_mem _ ?_
    rw [List.sum_cons, ← add32_add32, ← Nat.add_assoc]
    exact ih (add32_lt _ _)

/-- Pieces that end below a word do not run over the top of the address space. -/
theorem sum_le_of_pieces (hhi : hi < 2 ^ 32) :
    ∀ {ns : List Nat} {pos addr : Nat}, pos + ns.sum ≤ b.length → ns ≠ [] →
      (∀ p ∈ pieces b ns pos addr, p.1 + p.2.length ≤ hi) → addr + ns.sum ≤ hi := by
  intro ns
  induction ns with
  | nil => exact fun _ h => absurd rfl h
  | cons n ns ih =>
    intro pos addr hlen _ h
    rw [List.sum_cons] at hlen ⊢
    have hfirst := h _ List.mem_cons_self
    rw [Bytes.length_slice (by omega)] at hfirst
    cases ns with
    | nil => exact hfirst
    | cons m ms =>
      have hrest := ih (by omega) (List.cons_ne_nil m ms) fun p hp =>
        h p (List.mem_cons_of_mem _ hp)
      rw [add32_of_lt (by omega)] at hrest
      omega

/-! ## One segment -/

/-- Chunks of a segment that the file delivers. -/
structure Delivers (f : File) (ph : Elf32Phdr) (ns : List Nat) : Prop where
  isPrefix : ns <+: Bytes.chunks chunkSize ph.filesz
  inFile : ns ≠ [] → ph.offset + ns.sum ≤ f.contents.length

/-- What a segment is delivered is delivered. -/
theorem File.delivers_deliveredChunks (ph : Elf32Phdr) : Delivers f ph (f.deliveredChunks ph) := by
  unfold File.deliveredChunks
  split
  · exact ⟨File.delivered_prefix _ _, File.sum_le_of_delivered (File.delivered_delivered _ _)⟩
  · exact ⟨List.nil_prefix, fun h => absurd rfl h⟩

/-- What is reached are segments and their chunks. -/
theorem File.mem_reached {x : Elf32Phdr × List Nat} :
    ∀ {segs : List Elf32Phdr}, x ∈ f.reached segs → x.1 ∈ segs ∧ Delivers f x.1 x.2 := by
  intro segs
  induction segs with
  | nil => exact fun h => nomatch h
  | cons ph segs ih =>
    intro h
    rw [File.reached] at h
    rcases List.mem_cons.1 h with rfl | h
    · exact ⟨List.mem_cons_self, File.delivers_deliveredChunks ph⟩
    · split at h
      · exact ⟨List.mem_cons_of_mem _ (ih h).1, (ih h).2⟩
      · cases h

/-- The numbers of a header are words. -/
structure Elf32Phdr.Words (ph : Elf32Phdr) : Prop where
  paddr_lt : ph.paddr < 2 ^ 32
  filesz_lt : ph.filesz < 2 ^ 32

section
variable {ph : Elf32Phdr} {ns : List Nat}

/-- No more is delivered than the segment holds. -/
theorem Delivers.sum_le (hd : Delivers f ph ns) : ns.sum ≤ ph.filesz := by
  obtain ⟨post, hpost⟩ := hd.isPrefix
  have hsum := congrArg List.sum hpost
  rw [List.sum_append_nat, Bytes.sum_chunks] at hsum
  omega

variable (hw : ph.Words) (hd : Delivers f ph ns)
include hw hd

/-- A piece of a segment begins at a multiple of the chunk size, inside of what is delivered. -/
theorem Delivers.mem_piecesOf {p : Nat × List UInt8} (hp : p ∈ f.piecesOf (ph, ns)) :
    ∃ k, chunkSize ∣ k ∧ p.1 = add32 ph.paddr k ∧ 0 < p.2.length ∧ k + p.2.length ≤ ns.sum := by
  obtain ⟨pre, n, hpre, rfl⟩ := mem_pieces_split hw.paddr_lt hp
  have hchunks := hpre.trans hd.isPrefix
  have hn : 0 < n := (Bytes.mem_chunks (by decide) (hchunks.subset (by simp))).1
  have hfile := hd.inFile fun h => by simp [h] at hpre
  obtain ⟨post, hpost⟩ := hpre
  have hsum : pre.sum + n + post.sum = ns.sum := by
    change pre ++ [n] ++ post = ns at hpost
    rw [← hpost, List.sum_append_nat, List.sum_append_nat, List.sum_singleton]
  refine ⟨pre.sum, Bytes.dvd_sum_of_prefix_chunks hchunks, rfl, ?_⟩
  dsimp only
  rw [Bytes.length_slice (by omega)]
  omega

/-- What is delivered of a segment has a last piece. -/
theorem Delivers.last_piece (hne : ns ≠ []) :
    ∃ p ∈ f.piecesOf (ph, ns), p.1 = add32 ph.paddr (chunkSize * ((ns.sum - 1) / chunkSize)) ∧
      chunkSize * ((ns.sum - 1) / chunkSize) < ns.sum := by
  obtain ⟨pre, n, rfl⟩ : ∃ pre n, ns = pre ++ [n] :=
    ⟨_, _, (List.dropLast_append_getLast hne).symm⟩
  obtain ⟨q, hq⟩ := Bytes.dvd_sum_of_prefix_chunks hd.isPrefix
  have hn := Bytes.mem_chunks (by decide)
    (hd.isPrefix.subset (List.mem_append_right pre List.mem_cons_self))
  have hlast : chunkSize * (((pre ++ [n]).sum - 1) / chunkSize) = pre.sum := by
    rw [List.sum_append_nat, List.sum_singleton, hq]
    have hdiv : (chunkSize * q + n - 1) / chunkSize = q := by
      rw [Nat.add_sub_assoc hn.1, Nat.mul_add_div (by decide), Nat.div_eq_of_lt (by omega),
        Nat.add_zero]
    rw [hdiv]
  refine ⟨_, piece_of_split hw.paddr_lt, ?_⟩
  rw [hlast]
  refine ⟨rfl, ?_⟩
  rw [List.sum_append_nat, List.sum_singleton]
  omega

/-- In a span that does not wrap, a segment lies in it when it ends there. -/
theorem Delivers.within_iff (hne : ns ≠ []) (hlo : lo ≤ ph.paddr) (hhi : hi < 2 ^ 32) :
    (∀ p ∈ f.piecesOf (ph, ns), lo ≤ p.1 ∧ p.1 + p.2.length ≤ hi) ↔ ph.paddr + ns.sum ≤ hi := by
  constructor
  · exact fun h => sum_le_of_pieces hhi (hd.inFile hne) hne fun p hp => (h p hp).2
  · intro h p hp
    obtain ⟨k, -, haddr, -, hk⟩ := hd.mem_piecesOf hw hp
    rw [haddr, add32_of_lt (by omega)]
    omega

/-- In a span that wraps, a segment that wraps lies in it when no chunk begins beyond the top of the
address space. -/
theorem Delivers.within_wrapped_iff (hne : ns ≠ []) (hlo : lo ≤ ph.paddr) (hhi : hi < lo)
    (hend : add32 ph.paddr ph.filesz ≤ hi) :
    (∀ p ∈ f.piecesOf (ph, ns), lo ≤ p.1 ∧ p.1 + p.2.length ≤ hi + 2 ^ 32) ↔
      ph.paddr + chunkSize * ((ns.sum - 1) / chunkSize) < 2 ^ 32 := by
  have hsum := hd.sum_le
  have hp := hw.paddr_lt
  have hf := hw.filesz_lt
  unfold add32 at hend
  constructor
  · intro h
    obtain ⟨p, hp, haddr, hlt⟩ := hd.last_piece hw hne
    have hge := (h p hp).1
    rw [haddr, add32] at hge
    omega
  · intro h p hp
    obtain ⟨k, ⟨q, rfl⟩, haddr, hpos, hk⟩ := hd.mem_piecesOf hw hp
    have hq : q ≤ (ns.sum - 1) / chunkSize := by
      rw [Nat.le_div_iff_mul_le (by decide), Nat.mul_comm]
      omega
    have hmul := Nat.mul_le_mul_left chunkSize hq
    rw [haddr, add32_of_lt (by omega)]
    omega

end

/-! ## The union span -/

/-- What the span of a list of segments is, by induction on them. -/
theorem foldl_add_spec :
    ∀ (segs : List Elf32Phdr) (sp : LoadSpan),
      ((segs.foldl LoadSpan.add sp).lo ≤ sp.lo ∧
        ∀ ph ∈ segs, (segs.foldl LoadSpan.add sp).lo ≤ ph.paddr) ∧
      (sp.hi ≤ (segs.foldl LoadSpan.add sp).hi ∧
        ∀ ph ∈ segs, add32 ph.paddr ph.filesz ≤ (segs.foldl LoadSpan.add sp).hi) ∧
      ((segs.foldl LoadSpan.add sp).lo = sp.lo ∨
        ∃ ph ∈ segs, (segs.foldl LoadSpan.add sp).lo = ph.paddr) ∧
      ((segs.foldl LoadSpan.add sp).hi = sp.hi ∨
        ∃ ph ∈ segs, (segs.foldl LoadSpan.add sp).hi = add32 ph.paddr ph.filesz) := by
  intro segs
  induction segs with
  | nil => simp
  | cons ph segs ih =>
    intro sp
    obtain ⟨⟨hlo, hlos⟩, ⟨hhi, hhis⟩, hlo', hhi'⟩ := ih (sp.add ph)
    rw [List.foldl_cons]
    generalize segs.foldl LoadSpan.add (sp.add ph) = r at *
    have haddlo : (sp.add ph).lo = min sp.lo ph.paddr := rfl
    have haddhi : (sp.add ph).hi = max sp.hi (add32 ph.paddr ph.filesz) := rfl
    rw [haddlo] at hlo hlo'
    rw [haddhi] at hhi hhi'
    simp only [List.forall_mem_cons, List.exists_mem_cons_iff]
    obtain ⟨hlo₁, hlo₂⟩ := le_min_iff.1 hlo
    obtain ⟨hhi₁, hhi₂⟩ := max_le_iff.1 hhi
    refine ⟨⟨hlo₁, hlo₂, hlos⟩, ⟨hhi₁, hhi₂, hhis⟩, ?_, ?_⟩
    · rcases hlo' with h | h
      · rcases min_choice sp.lo ph.paddr with hm | hm
        · exact .inl (h.trans hm)
        · exact .inr (.inl (h.trans hm))
      · exact .inr (.inr h)
    · rcases hhi' with h | h
      · rcases max_choice sp.hi (add32 ph.paddr ph.filesz) with hm | hm
        · exact .inl (h.trans hm)
        · exact .inr (.inl (h.trans hm))
      · exact .inr (.inr h)

/-- The ends of the union span are the least start and the greatest 32-bit end. -/
theorem unionSpan_spec {segs : List Elf32Phdr} (hne : segs ≠ []) (hw : ∀ ph ∈ segs, ph.Words) :
    IsLeast {a | ∃ ph ∈ segs, ph.paddr = a} (unionSpan segs).lo ∧
      IsGreatest {a | ∃ ph ∈ segs, add32 ph.paddr ph.filesz = a} (unionSpan segs).hi := by
  obtain ⟨⟨-, hlos⟩, ⟨-, hhis⟩, hlo, hhi⟩ := foldl_add_spec segs ⟨maxU32, 0, 0⟩
  obtain ⟨ph₀, hph₀⟩ := List.exists_mem_of_ne_nil segs hne
  refine ⟨⟨?_, ?_⟩, ?_, ?_⟩
  · rcases hlo with hlo | ⟨ph, hph, hlo⟩
    · have hmax : (unionSpan segs).lo = 2 ^ 32 - 1 := hlo
      have hle : (unionSpan segs).lo ≤ ph₀.paddr := hlos ph₀ hph₀
      have := (hw ph₀ hph₀).paddr_lt
      exact ⟨ph₀, hph₀, by omega⟩
    · exact ⟨ph, hph, hlo.symm⟩
  · rintro a ⟨ph, hph, rfl⟩
    exact hlos ph hph
  · rcases hhi with hhi | ⟨ph, hph, hhi⟩
    · have hzero : (unionSpan segs).hi = 0 := hhi
      have hle : add32 ph₀.paddr ph₀.filesz ≤ (unionSpan segs).hi := hhis ph₀ hph₀
      exact ⟨ph₀, hph₀, by omega⟩
    · exact ⟨ph, hph, hhi.symm⟩
  · rintro a ⟨ph, hph, rfl⟩
    exact hhis ph hph

/-- The pieces of the segments that pass 2 gets to lie in the erased range. -/
def PiecesErased (f : File) (segs : List Elf32Phdr) : Prop :=
  ∀ x ∈ f.reached segs, ∀ p ∈ f.piecesOf x, (unionSpan segs).lo ≤ p.1 ∧
    p.1 + p.2.length ≤ (unionSpan segs).lo + sub32 (unionSpan segs).hi (unionSpan segs).lo

/-- The pieces lie in the erased range exactly when the span does not wrap. -/
theorem piecesErased_iff {segs : List Elf32Phdr} (hne : segs ≠ []) (hw : ∀ ph ∈ segs, ph.Words) :
    PiecesErased f segs ↔ SpanFits f segs := by
  obtain ⟨⟨⟨phlo, hphlo, hloeq⟩, hlo⟩, ⟨phhi, hphhi, hhieq⟩, hhi⟩ := unionSpan_spec hne hw
  unfold PiecesErased SpanFits
  generalize (unionSpan segs).lo = lo at *
  generalize (unionSpan segs).hi = hi at *
  have hlo : ∀ ph ∈ segs, lo ≤ ph.paddr := fun ph hph => hlo ⟨ph, hph, rfl⟩
  have hhi : ∀ ph ∈ segs, add32 ph.paddr ph.filesz ≤ hi := fun ph hph => hhi ⟨ph, hph, rfl⟩
  have hlo32 : lo < 2 ^ 32 := hloeq ▸ (hw phlo hphlo).paddr_lt
  have hhi32 : hi < 2 ^ 32 := hhieq ▸ add32_lt _ _
  -- the range ends at `hi`, or one address space above
  have htop : (lo ≤ hi ∧ lo + sub32 hi lo = hi) ∨ (hi < lo ∧ lo + sub32 hi lo = hi + 2 ^ 32) := by
    unfold sub32
    omega
  have hnil : ∀ x ∈ f.reached segs, x.2 = [] → f.piecesOf x = [] := by
    rintro ⟨ph, ns⟩ - rfl
    rfl
  rcases htop with ⟨hle, htop⟩ | ⟨hgt, htop⟩
  · rw [htop]
    constructor
    · refine fun h => .inl fun x hx hx2 => ⟨phhi, hphhi, ?_⟩
      obtain ⟨hmem, hd⟩ := File.mem_reached hx
      rw [hhieq]
      exact (hd.within_iff (hw _ hmem) hx2 (hlo _ hmem) hhi32).1 (h x hx)
    · intro h x hx
      by_cases hx2 : x.2 = []
      · rw [hnil x hx hx2]
        simp
      obtain ⟨hmem, hd⟩ := File.mem_reached hx
      refine (hd.within_iff (hw _ hmem) hx2 (hlo _ hmem) hhi32).2 ?_
      rcases h with h | ⟨h, -⟩
      · obtain ⟨ph, hph, hend⟩ := h x hx hx2
        exact hend.trans (hhi ph hph)
      · have := h phhi hphhi phlo hphlo
        omega
  · rw [htop]
    constructor
    · refine fun h => .inr ⟨fun ph hph ph' hph' => ?_, fun x hx hx2 => ?_⟩
      · have := hhi ph hph
        have := hlo ph' hph'
        omega
      · obtain ⟨hmem, hd⟩ := File.mem_reached hx
        exact (hd.within_wrapped_iff (hw _ hmem) hx2 (hlo _ hmem) hgt (hhi _ hmem)).1 (h x hx)
    · intro h x hx
      by_cases hx2 : x.2 = []
      · rw [hnil x hx hx2]
        simp
      obtain ⟨hmem, hd⟩ := File.mem_reached hx
      refine (hd.within_wrapped_iff (hw _ hmem) hx2 (hlo _ hmem) hgt (hhi _ hmem)).2 ?_
      rcases h with h | ⟨-, h⟩
      · obtain ⟨ph, hph, hend⟩ := h x hx hx2
        have := hhi ph hph
        have := hlo x.1 hmem
        omega
      · exact h x hx hx2

/-! ## The headers of a file -/

/-- The fields of a program header are words. -/
theorem File.words_phdr {eh : Elf32Ehdr} {i : Nat} {ph : Elf32Phdr} (h : f.phdr eh i = some ph) :
    ph.Words := by
  obtain ⟨b, -, rfl⟩ := Option.map_eq_some_iff.1 h
  exact ⟨Bytes.leNat_slice_lt b 12 4, Bytes.leNat_slice_lt b 16 4⟩

/-- So are those of all headers. -/
theorem File.words_phdrs {eh : Elf32Ehdr} :
    ∀ {is : List Nat} {phs : List Elf32Phdr}, is.mapM (f.phdr eh) = some phs →
      ∀ ph ∈ phs, ph.Words := by
  intro is
  induction is with
  | nil =>
    intro phs h
    cases h
    simp
  | cons i is ih =>
    intro phs h
    rw [List.mapM_cons] at h
    obtain ⟨ph, hph, h⟩ := Option.bind_eq_some_iff.1 h
    obtain ⟨phs', hphs', h⟩ := Option.bind_eq_some_iff.1 h
    cases h
    exact List.forall_mem_cons.2 ⟨File.words_phdr hph, ih hphs'⟩

/-- The span counts its segments. -/
theorem nLoad_foldl_add :
    ∀ (segs : List Elf32Phdr) (sp : LoadSpan),
      (segs.foldl LoadSpan.add sp).nLoad = sp.nLoad + segs.length := by
  intro segs
  induction segs with
  | nil => exact fun _ => rfl
  | cons ph segs ih =>
    intro sp
    rw [List.foldl_cons, ih, List.length_cons]
    change sp.nLoad + 1 + segs.length = _
    omega

/-- It counts none exactly when there are none. -/
theorem nLoad_unionSpan (segs : List Elf32Phdr) : (unionSpan segs).nLoad ≠ 0 ↔ segs ≠ [] := by
  rw [unionSpan, nLoad_foldl_add, Nat.zero_add, ne_eq, List.length_eq_zero_iff]

/-! ## The calls of every run -/

/-- A call that can come behind the erase. -/
def SinkCall.Later (f : File) (segs : List Elf32Phdr) : SinkCall → Prop
  | .erase _ _ _ => False
  | .write addr data _ => ∃ x ∈ f.reached segs, (addr, data) ∈ f.piecesOf x
  | .complete _ => True
  | .read _ _ _ => True

/-- The calls of a load: none, or the erase of the union span and, if it succeeds, later calls. -/
def Made (f : File) (inFlash : Option ((addr len : Nat) → Bool)) (calls : List SinkCall) : Prop :=
  calls = [] ∨ ∃ eh phs ok rest, f.ehdr = some eh ∧ f.phdrs eh = some phs ∧
    phs.filter (·.flashable inFlash) ≠ [] ∧
    calls = .erase (unionSpan (phs.filter (·.flashable inFlash))).lo
      (sub32 (unionSpan (phs.filter (·.flashable inFlash))).hi
        (unionSpan (phs.filter (·.flashable inFlash))).lo) ok :: rest ∧
    (ok = false → rest = []) ∧ ∀ c ∈ rest, c.Later f (phs.filter (·.flashable inFlash))

variable {σ : Type} {sink : FlashSink σ} {inFlash : Option ((addr len : Nat) → Bool)}

/-- When every chunk is delivered, all segments are reached in full. -/
theorem File.reached_of_delivered :
    ∀ {segs : List Elf32Phdr},
      (∀ ph ∈ segs, f.deliveredChunks ph = Bytes.chunks chunkSize ph.filesz) →
      f.reached segs = segs.map fun ph => (ph, Bytes.chunks chunkSize ph.filesz) := by
  intro segs
  induction segs with
  | nil => exact fun _ => rfl
  | cons ph segs ih =>
    intro h
    obtain ⟨hph, hsegs⟩ := List.forall_mem_cons.1 h
    rw [File.reached, hph, if_pos rfl, ih hsegs, List.map_cons]

/-- The verification adds only reads. -/
theorem keeps_verifySegments_logged (segs : List Elf32Phdr)
    {read : (addr len : Nat) → σ → Option (List UInt8) × σ} (eh : Elf32Ehdr) (is : List Nat) :
    Keeps (fun s s' : σ × List SinkCall => ∃ cs, s'.2 = s.2 ++ cs ∧ ∀ c ∈ cs, c.Later f segs)
      (verifySegments sink.logged f eh (loggedSinkRead read) is) := by
  refine keeps_verifySegments (fun s => ⟨[], (List.append_nil _).symm, by simp⟩) ?_ ?_ eh is
  · rintro s₁ s₂ s₃ ⟨cs, h, hcs⟩ ⟨cs', h', hcs'⟩
    refine ⟨cs ++ cs', by rw [h', h, List.append_assoc], fun c hc => ?_⟩
    exact (List.mem_append.1 hc).elim (hcs c) (hcs' c)
  · intro addr len s
    exact ⟨_, rfl, by simp [SinkCall.Later]⟩

/-- Every run of a load calls the sink as `Made` says. -/
theorem ends_bmpLoadElf_made (hin : sink.inFlash = inFlash.map fun p addr len _ => p addr len)
    {s : σ} :
    Ends (bmpLoadElf sink.logged f) (s, []) (fun _ s' => Made f inFlash s'.2)
      fun _ s' => Made f inFlash s'.2 := by
  unfold bmpLoadElf
  rw [ends_bind]
  refine ends_readEhdr (fun eh heh => ?_) fun _ _ => .inl rfl
  rw [ends_bind]
  refine ends_spanLoop (p := (·.flashable inFlash)) (fun ph => ?_) (fun phs hphs => ?_)
    fun _ _ => .inl rfl
  · rw [segFlashable_logged, segFlashable_of_inFlash hin]
  simp only [ends_bind, ends_failUnless, decide_eq_true_eq]
  refine ⟨fun hload => ?_, fun _ => .inl rfl⟩
  have hne := (nLoad_unionSpan _).1 hload
  refine ends_callSink (fun erased s₁ herase => ?_) fun _ _ => .inl rfl
  have h₁ := (loggedCall_ok herase).2
  refine ⟨fun hok => ?_, fun hfail => ?_⟩
  swap
  · refine .inr ⟨eh, phs, erased, [], heh, hphs, hne, h₁, fun _ => rfl, by simp⟩
  subst hok
  have hmade : ∀ {s' : σ × List SinkCall} {cs : List SinkCall}, s'.2 = s₁.2 ++ cs →
      (∀ c ∈ cs, c.Later f (phs.filter (·.flashable inFlash))) → Made f inFlash s'.2 := by
    intro s' cs hs' hcs
    exact .inr ⟨eh, phs, true, cs, heh, hphs, hne, by rw [hs', h₁]; rfl, (fun h => by cases h), hcs⟩
  refine (ends_segmentLoop_logged hin hphs (by decide)).imp (fun x s₂ h₂ => ?_) fun _ s₂ h₂ => ?_
  swap
  · obtain ⟨cs, hcs, hmem⟩ := h₂
    refine hmade hcs fun c hc => ?_
    obtain ⟨x, hx, p, hp, ok, rfl⟩ := hmem c hc
    exact ⟨x, hx, hp⟩
  obtain ⟨hdel, -, -, h₂⟩ := h₂
  have hlater : ∀ c ∈ (phs.filter (·.flashable inFlash)).flatMap fun ph =>
      (f.piecesOf (ph, Bytes.chunks chunkSize ph.filesz)).map wrote,
      c.Later f (phs.filter (·.flashable inFlash)) := by
    intro c hc
    obtain ⟨ph, hph, hc⟩ := List.mem_flatMap.1 hc
    obtain ⟨p, hp, rfl⟩ := List.mem_map.1 hc
    refine ⟨(ph, Bytes.chunks chunkSize ph.filesz), ?_, hp⟩
    rw [File.reached_of_delivered hdel]
    exact List.mem_map_of_mem hph
  refine ends_callSink (fun completed s₃ hcomplete => ?_) fun _ _ => hmade h₂ hlater
  have h₃ := (loggedCall_ok hcomplete).2
  rw [h₂, List.append_assoc] at h₃
  have hlater₃ : ∀ c ∈ _ ++ [SinkCall.complete completed],
      c.Later f (phs.filter (·.flashable inFlash)) := fun c hc =>
    (List.mem_append.1 hc).elim (hlater c) fun hc => by rw [List.mem_singleton.1 hc]; trivial
  refine ⟨fun _ => ?_, fun _ => hmade h₃ hlater₃⟩
  rw [show sink.logged.read = sink.read.map loggedSinkRead from rfl]
  cases sink.read with
  | none => exact hmade h₃ hlater₃
  | some read =>
    have hdone : ∀ s₄ : σ × List SinkCall, (∃ cs, s₄.2 = s₃.2 ++ cs ∧
        ∀ c ∈ cs, c.Later f (phs.filter (·.flashable inFlash))) → Made f inFlash s₄.2 := by
      rintro s₄ ⟨cs, hcs, hmem⟩
      rw [h₃, List.append_assoc] at hcs
      exact hmade hcs fun c hc => (List.mem_append.1 hc).elim (hlater₃ c) (hmem c)
    change Ends (_ >>= _) _ _ _
    rw [ends_bind]
    exact (keeps_verifySegments_logged _ eh _ s₃).imp (fun _ => hdone) fun _ => hdone

/-! ## A sink that takes everything -/

/-- A sink that takes what it is given, and reads nothing back. -/
def acceptingSink (inFlash : Option ((addr len : Nat) → Bool)) : FlashSink Unit where
  erase := fun _ _ s => .ok (true, s)
  write := fun _ _ s => .ok (true, s)
  complete := fun s => .ok (true, s)
  read := none
  inFlash := inFlash.map fun p addr len _ => p addr len

/-- It is given every piece that the file delivers. -/
theorem ends_programLoop_accepting {short : String} :
    ∀ {ns : List Nat} {pos addr : Nat} {s : Unit × List SinkCall},
      Ends (programLoop (acceptingSink inFlash).logged f short ns pos addr) s
        (fun _ s' => f.delivered ns pos = ns ∧
          s'.2 = s.2 ++ (pieces f.contents (f.delivered ns pos) pos addr).map wrote)
        fun _ s' => f.delivered ns pos ≠ ns ∧
          s'.2 = s.2 ++ (pieces f.contents (f.delivered ns pos) pos addr).map wrote := by
  intro ns
  induction ns with
  | nil =>
    intro pos addr s
    exact ⟨rfl, (List.append_nil _).symm⟩
  | cons n ns ih =>
    intro pos addr s
    rw [programLoop, File.delivered]
    simp only [ends_bind, ends_getOrFail]
    refine ⟨fun data hdata => ?_, fun hnone => ?_⟩
    · obtain rfl := (File.length_fread hdata).2
      rw [if_pos (by rw [hdata]; rfl), pieces]
      refine ends_callSink (fun ok s₁ hcall => ?_) fun e herr => by cases herr
      obtain ⟨rfl, rfl⟩ := Prod.mk.inj (Except.ok.inj hcall)
      refine ih.imp (fun _ s' h => ⟨by rw [h.1], ?_⟩) fun _ s' h => ⟨fun heq => ?_, ?_⟩
      · rw [h.2, List.map_cons, List.append_assoc]
        rfl
      · exact h.1 (List.cons.inj heq).2
      · rw [h.2, List.map_cons, List.append_assoc]
        rfl
    · rw [hnone]
      exact ⟨(List.cons_ne_nil n ns).symm, (List.append_nil _).symm⟩

/-- It is given the pieces of all segments that pass 2 gets to. -/
theorem ends_segmentLoop_accepting {eh : Elf32Ehdr} :
    ∀ {is : List Nat} {phs : List Elf32Phdr} {done total : Nat} {s : Unit × List SinkCall},
      is.mapM (f.phdr eh) = some phs →
      Ends (segmentLoop (acceptingSink inFlash).logged f eh is done total) s
        (fun _ s' => s'.2 = s.2 ++ (f.reached (phs.filter (·.flashable inFlash))).flatMap fun x =>
          (f.piecesOf x).map wrote)
        fun _ s' => s'.2 = s.2 ++ (f.reached (phs.filter (·.flashable inFlash))).flatMap fun x =>
          (f.piecesOf x).map wrote := by
  intro is
  induction is with
  | nil =>
    intro phs done total s h
    cases h
    exact (List.append_nil _).symm
  | cons i is ih =>
    intro phs done total s h
    rw [List.mapM_cons] at h
    obtain ⟨ph, hph, h⟩ := Option.bind_eq_some_iff.1 h
    obtain ⟨phs', hphs', h⟩ := Option.bind_eq_some_iff.1 h
    cases h
    rw [segmentLoop]
    simp only [ends_bind, ends_readPhdr, ends_get, segFlashable_logged]
    refine ⟨fun ph' hph' => ?_, fun hnone => by rw [hph] at hnone; cases hnone⟩
    rw [hph] at hph'
    cases hph'
    rw [segFlashable_of_inFlash rfl, List.filter_cons]
    split
    · next hflash =>
      rw [Elf32Phdr.flashable, Bool.and_eq_true, decide_eq_true_eq] at hflash
      have hnil : ([] : List Nat) ≠ Bytes.chunks chunkSize ph.filesz := by
        intro hnil
        have hsum := Bytes.sum_chunks chunkSize ph.filesz
        rw [← hnil] at hsum
        exact hflash.1.2 hsum.symm
      rw [ends_bind, programSegment, ends_bind, ends_failUnless, File.reached, File.deliveredChunks]
      refine ⟨fun hseek => ?_, fun hseek => ?_⟩
      · rw [if_pos hseek]
        refine ends_programLoop_accepting.imp (fun _ s₁ h₁ => ?_) fun _ s₁ h₁ => ?_
        · rw [if_pos h₁.1]
          refine (ih hphs').imp (fun _ s' h => ?_) fun _ s' h => ?_
          all_goals
            rw [h, h₁.2, List.flatMap_cons, List.append_assoc]
            rfl
        · rw [if_neg h₁.1, h₁.2, List.flatMap_cons, List.flatMap_nil, List.append_nil]
          rfl
      · rw [if_neg (by simp [hseek]), if_neg hnil]
        exact (List.append_nil _).symm
    · exact ih hphs'

/-- The erase of the union span, and the pieces of all segments that pass 2 gets to. -/
def TakesAll (f : File) (segs : List Elf32Phdr) (calls : List SinkCall) : Prop :=
  ∃ rest, calls = .erase (unionSpan segs).lo
    (sub32 (unionSpan segs).hi (unionSpan segs).lo) true ::
      (f.reached segs).flatMap (fun x => (f.piecesOf x).map wrote) ++ rest

/-- The calls of a load through it. -/
theorem ends_bmpLoadElf_accepting {eh : Elf32Ehdr} {phs : List Elf32Phdr} (heh : f.ehdr = some eh)
    (hphs : f.phdrs eh = some phs) (hne : phs.filter (·.flashable inFlash) ≠ []) :
    Ends (bmpLoadElf (acceptingSink inFlash).logged f) ((), [])
      (fun _ s' => TakesAll f (phs.filter (·.flashable inFlash)) s'.2)
      fun _ s' => TakesAll f (phs.filter (·.flashable inFlash)) s'.2 := by
  unfold bmpLoadElf
  rw [ends_bind]
  refine ends_readEhdr (fun eh' heh' => ?_) fun hnone => by rw [heh] at hnone; cases hnone
  rw [heh] at heh'
  cases heh'
  rw [ends_bind]
  refine ends_spanLoop (p := (·.flashable inFlash)) (fun ph => ?_) (fun phs' hphs' => ?_)
    fun hnone => by rw [File.phdrs, hnone] at hphs; cases hphs
  · rw [segFlashable_logged, segFlashable_of_inFlash rfl]
  rw [File.phdrs, hphs'] at hphs
  cases hphs
  simp only [ends_bind, ends_failUnless, decide_eq_true_eq]
  refine ⟨fun _ => ?_, fun hload => absurd (of_decide_eq_false hload) ?_⟩
  swap
  · exact not_not_intro ((nLoad_unionSpan _).2 hne)
  refine ends_callSink (fun erased s₁ herase => ?_) fun e herr => by cases herr
  obtain ⟨rfl, rfl⟩ := Prod.mk.inj (Except.ok.inj herase)
  refine ⟨fun _ => ?_, fun h => by cases h⟩
  refine (ends_segmentLoop_accepting hphs').imp (fun x s₂ h₂ => ?_) fun _ s₂ h₂ => ?_
  · refine ends_callSink (fun completed s₃ hcomplete => ?_) fun e herr => by cases herr
    obtain ⟨rfl, rfl⟩ := Prod.mk.inj (Except.ok.inj hcomplete)
    have hlog : TakesAll f (phs.filter (·.flashable inFlash)) (s₂.2 ++ [.complete true]) :=
      ⟨[.complete true], by rw [h₂]; rfl⟩
    exact ⟨fun _ => hlog, fun _ => hlog⟩
  · refine ⟨[], ?_⟩
    rw [h₂, List.append_nil]
    rfl

end

/-! ## The erase and the writes of every run -/

/-- The calls of a load, however it ends. -/
def callsOf {σ α : Type} (x : EStateM.Result LoadStop (σ × List SinkCall) α) : List SinkCall :=
  match x with
  | .ok _ s => s.2
  | .error _ s => s.2

/-- What holds of the log at every end holds of the calls. -/
theorem callsOf_of_ends {σ α : Type} {m : LoadM (σ × List SinkCall) α} {s : σ × List SinkCall}
    {P : List SinkCall → Prop} (h : Ends m s (fun _ s' => P s'.2) fun _ s' => P s'.2) :
    P (callsOf (m s)) := by
  unfold Ends at h
  unfold callsOf
  cases hm : m s with
  | ok a s' =>
    rw [hm] at h
    exact h
  | error e s' =>
    rw [hm] at h
    exact h

/-- In every run with a file, whatever the sink answers, the erased range covers the writes exactly
when the segments that the sink takes fit the span. -/
theorem eraseCovers_iff_spanFits (f : File) (inFlash : Option ((addr len : Nat) → Bool)) :
    (∀ (σ : Type) (sink : FlashSink σ) (s : σ),
        sink.inFlash = (inFlash.map fun p addr len _ => p addr len) →
        EraseCovers (callsOf (bmpLoadElf sink.logged f (s, [])))) ↔
      ∀ eh phs, f.ehdr = some eh → f.phdrs eh = some phs →
        SpanFits f (phs.filter (·.flashable inFlash)) := by
  constructor
  · intro h eh phs heh hphs
    by_cases hne : phs.filter (·.flashable inFlash) = []
    · rw [hne]
      exact .inl fun x hx => nomatch hx
    refine (piecesErased_iff hne fun ph hph =>
      File.words_phdrs hphs ph (List.mem_filter.1 hph).1).1 fun x hx p hp => ?_
    obtain ⟨rest, hcalls⟩ := callsOf_of_ends (ends_bmpLoadElf_accepting heh hphs hne)
    have hmem : SinkCall.write p.1 p.2 true ∈
        callsOf (bmpLoadElf (acceptingSink inFlash).logged f ((), [])) := by
      rw [hcalls]
      refine List.mem_append_left _ (List.mem_cons_of_mem _ ?_)
      exact List.mem_flatMap.2 ⟨x, hx, List.mem_map.2 ⟨p, hp, rfl⟩⟩
    obtain ⟨lo, len, rest', heq, -, hin⟩ := h Unit (acceptingSink inFlash) () rfl _ _ _ hmem
    rw [hcalls] at heq
    cases (List.cons.inj heq).1
    exact hin
  · intro h σ sink s hin addr data ok hmem
    have hmade := callsOf_of_ends (ends_bmpLoadElf_made hin (f := f) (s := s))
    generalize callsOf (bmpLoadElf sink.logged f (s, [])) = calls at hmem hmade
    rcases hmade with rfl | ⟨eh, phs, erased, rest, heh, hphs, hne, rfl, hrest, hlater⟩
    · cases hmem
    have hlate : SinkCall.write addr data ok ∈ rest :=
      (List.mem_cons.1 hmem).resolve_left fun h => by cases h
    cases erased with
    | false =>
      rw [hrest rfl] at hlate
      cases hlate
    | true =>
      obtain ⟨x, hx, hp⟩ := hlater _ hlate
      have hfits := (piecesErased_iff hne fun ph hph =>
        File.words_phdrs hphs ph (List.mem_filter.1 hph).1).2 (h eh phs heh hphs)
      exact ⟨_, _, rest, rfl, fun a n b he => hlater _ he, hfits x hx _ hp⟩

/-- An image of four bytes at the bottom of the flash, and eight bytes that run over the top of the
address space. -/
def overTheTop : File :=
  plainFile (armEhdr 2 ++ loadPhdr 116 0x08000000 4 ++ loadPhdr 120 0xfffffffc 8 ++
    [1, 2, 3, 4, 5, 6, 7, 8, 9, 10, 11, 12])

/-- Only the bottom of the flash is erased. -/
theorem eraseCovers_fails :
    callsOf (bmpLoadElf (acceptingSink none).logged overTheTop ((), [])) =
        [.erase 0x08000000 4 true, .write 0x08000000 [1, 2, 3, 4] true,
          .write 0xfffffffc [5, 6, 7, 8, 9, 10, 11, 12] true, .complete true] ∧
      ¬ EraseCovers (callsOf (bmpLoadElf (acceptingSink none).logged overTheTop ((), []))) := by
  have hcalls : callsOf (bmpLoadElf (acceptingSink none).logged overTheTop ((), [])) =
      [.erase 0x08000000 4 true, .write 0x08000000 [1, 2, 3, 4] true,
        .write 0xfffffffc [5, 6, 7, 8, 9, 10, 11, 12] true, .complete true] := by decide +kernel
  refine ⟨hcalls, fun h => ?_⟩
  rw [hcalls] at h
  obtain ⟨lo, len, rest, heq, -, -, hle⟩ := h 0xfffffffc [5, 6, 7, 8, 9, 10, 11, 12] true (by simp)
  cases (List.cons.inj heq).1
  exact absurd hle (by decide)

end Blackmagic
