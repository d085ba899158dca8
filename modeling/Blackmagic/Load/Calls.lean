import Blackmagic.Load.Reject

/-!
# The calls of a load

`FlashSink.logged` writes down each call of a sink that returns. Around any sink it changes nothing
of a load (`bmpLoadElf_logged`). A load hands a segment over in the chunks the file delivers, each
where the ones before it end (`pieces`), and a load that succeeds has called the sink with one
erase, the pieces of every segment in the order of the headers, `complete`, and reads that answered
with the pieces of every segment once more (`LoadCalls`).
-/

namespace Blackmagic

open Word Effect

/-- A call of a sink that returned, with its arguments and what it answered. -/
inductive SinkCall
  | erase (addr len : Nat) (ok : Bool)
  | write (addr : Nat) (data : List UInt8) (ok : Bool)
  | complete (ok : Bool)
  | read (addr len : Nat) (got : Option (List UInt8))
  deriving DecidableEq, Repr

section
variable {σ α : Type}

/-- Make a call and write it down when it returns. -/
def loggedCall (k : σ → Except BufFault (α × σ)) (c : α → SinkCall) (s : σ × List SinkCall) :
    Except BufFault (α × (σ × List SinkCall)) :=
  match k s.1 with
  | .ok (a, s') => .ok (a, (s', s.2 ++ [c a]))
  | .error e => .error e

/-- Read and write it down. -/
def loggedSinkRead (read : (addr len : Nat) → σ → Option (List UInt8) × σ) (addr len : Nat)
    (s : σ × List SinkCall) : Option (List UInt8) × (σ × List SinkCall) :=
  ((read addr len s.1).1, ((read addr len s.1).2, s.2 ++ [.read addr len (read addr len s.1).1]))

/-- A sink that writes down its calls. -/
def FlashSink.logged (sink : FlashSink σ) : FlashSink (σ × List SinkCall) where
  erase := fun addr len => loggedCall (sink.erase addr len) (.erase addr len)
  write := fun addr data => loggedCall (sink.write addr data) (.write addr data)
  complete := loggedCall sink.complete .complete
  read := sink.read.map loggedSinkRead
  inFlash := sink.inFlash.map fun inFlash addr len s => inFlash addr len s.1

/-! ## The log changes nothing -/

variable {sink : FlashSink σ} {f : File}

/-- A call that was written down is the call. -/
theorem loggedCall_ok {k : σ → Except BufFault (α × σ)} {c : α → SinkCall} {s : σ × List SinkCall}
    {a : α} {s' : σ × List SinkCall} (h : loggedCall k c s = .ok (a, s')) :
    k s.1 = .ok (a, s'.1) ∧ s'.2 = s.2 ++ [c a] := by
  unfold loggedCall at h
  split at h
  · next a' s₁ hk =>
    cases h
    exact ⟨hk, rfl⟩
  · cases h

/-- The log adds no faults. -/
theorem loggedCall_error {k : σ → Except BufFault (α × σ)} {c : α → SinkCall}
    {s : σ × List SinkCall} {e : BufFault} (h : loggedCall k c s = .error e) :
    k s.1 = .error e := by
  unfold loggedCall at h
  split at h
  · cases h
  · next e' hk =>
    cases h
    exact hk

/-- Without the log, a logged call is the call. -/
theorem projects_callSink (k : σ → Except BufFault (α × σ)) (c : α → SinkCall) :
    Projects Prod.fst (callSink (loggedCall k c)) (callSink k) := by
  intro s
  refine ends_callSink (fun a s' h => ?_) fun e h => ?_
  · rw [callSink, (loggedCall_ok h).1]
  · rw [callSink, loggedCall_error h]

/-- A test does not see the log. -/
theorem projects_failUnless {τ : Type} {π : τ → σ} (ok : Bool) (err : String) :
    Projects π (failUnless ok err) (failUnless ok err) := by
  cases ok with
  | false => exact projects_throw _
  | true => exact projects_pure ()

/-- Nor does an optional value. -/
theorem projects_getOrFail {τ : Type} {π : τ → σ} (x : Option α) (err : String) :
    Projects π (getOrFail x err) (getOrFail x err) := by
  cases x with
  | none => exact projects_throw _
  | some a => exact projects_pure a

/-- The test on a segment does not see it. -/
theorem segFlashable_logged (ph : Elf32Phdr) (s : σ × List SinkCall) :
    segFlashable sink.logged ph s = segFlashable sink ph s.1 := by
  unfold segFlashable FlashSink.logged
  cases sink.inFlash <;> rfl

/-- Nor does reading a program header. -/
theorem projects_readPhdr {τ : Type} {π : τ → σ} (eh : Elf32Ehdr) (i : Nat) (short : String) :
    Projects π (readPhdr f eh i short) (readPhdr f eh i short) :=
  (projects_getOrFail _ _).bind fun _ => projects_pure _

/-- Nor does reading the ELF header. -/
theorem projects_readEhdr {τ : Type} {π : τ → σ} : Projects π (readEhdr f) (readEhdr f) := by
  unfold readEhdr
  refine (projects_getOrFail _ _).bind fun b => ?_
  refine (projects_failUnless _ _).bind fun _ => ?_
  refine (projects_failUnless _ _).bind fun _ => ?_
  refine (projects_failUnless _ _).bind fun _ => ?_
  refine (projects_failUnless _ _).bind fun _ => ?_
  exact (projects_failUnless _ _).bind fun _ => projects_pure _

/-- The loop for the span of the segments does not see the log. -/
theorem projects_spanLoop (eh : Elf32Ehdr) :
    ∀ (is : List Nat) (sp : LoadSpan),
      Projects Prod.fst (spanLoop sink.logged f eh is sp) (spanLoop sink f eh is sp) := by
  intro is
  induction is with
  | nil => exact fun sp => projects_pure sp
  | cons i is ih =>
    intro sp
    simp only [spanLoop, segFlashable_logged]
    exact (projects_readPhdr eh i _).bind fun ph => projects_get_bind fun s => ih _

/-- Nor does the loop over the chunks of a segment. -/
theorem projects_programLoop (short : String) :
    ∀ (ns : List Nat) (pos addr : Nat), Projects Prod.fst
      (programLoop sink.logged f short ns pos addr) (programLoop sink f short ns pos addr) := by
  intro ns
  induction ns with
  | nil => exact fun _ _ => projects_pure ()
  | cons n ns ih =>
    intro pos addr
    rw [programLoop, programLoop]
    refine (projects_getOrFail _ _).bind fun data => ?_
    refine (projects_callSink _ _).bind fun ok => ?_
    exact (projects_failUnless _ _).bind fun _ => ih _ _

/-- Nor does the loop over the segments. -/
theorem projects_segmentLoop (eh : Elf32Ehdr) :
    ∀ (is : List Nat) (done total : Nat), Projects Prod.fst
      (segmentLoop sink.logged f eh is done total) (segmentLoop sink f eh is done total) := by
  intro is
  induction is with
  | nil => exact fun _ _ => projects_pure _
  | cons i is ih =>
    intro done total
    simp only [segmentLoop, segFlashable_logged]
    refine (projects_readPhdr eh i _).bind fun ph => projects_get_bind fun s => ?_
    split
    · have hsegment : Projects Prod.fst (programSegment sink.logged f ph)
          (programSegment sink f ph) :=
        (projects_failUnless _ _).bind fun _ => projects_programLoop _ _ _ _
      exact hsegment.bind fun _ => ih _ _
    · exact ih _ _

variable {read : (addr len : Nat) → σ → Option (List UInt8) × σ}

/-- Nor does the loop that reads a range back. -/
theorem projects_verifyLoop :
    ∀ (ns : List Nat) (pos addr : Nat), Projects Prod.fst
      (verifyLoop f (loggedSinkRead read) ns pos addr) (verifyLoop f read ns pos addr) := by
  intro ns
  induction ns with
  | nil => exact fun _ _ => projects_pure ()
  | cons n ns ih =>
    intro pos addr
    rw [verifyLoop, verifyLoop]
    refine (projects_getOrFail _ _).bind fun want => ?_
    have hread : Projects Prod.fst (callSink fun s => .ok (loggedSinkRead read addr n s))
        (callSink fun s => .ok (read addr n s)) := fun s => rfl
    refine hread.bind fun got => ?_
    refine (projects_getOrFail _ _).bind fun bytes => ?_
    exact (projects_failUnless _ _).bind fun _ => ih _ _

/-- Nor does the loop that reads the segments back. -/
theorem projects_verifySegments (eh : Elf32Ehdr) :
    ∀ is : List Nat, Projects Prod.fst (verifySegments sink.logged f eh (loggedSinkRead read) is)
      (verifySegments sink f eh read is) := by
  intro is
  induction is with
  | nil => exact projects_pure ()
  | cons i is ih =>
    simp only [verifySegments, segFlashable_logged]
    refine (projects_readPhdr eh i _).bind fun ph => projects_get_bind fun s => ?_
    split
    · have hrange : Projects Prod.fst
          (verifyRange f (loggedSinkRead read) ph.offset ph.paddr ph.filesz)
          (verifyRange f read ph.offset ph.paddr ph.filesz) :=
        (projects_failUnless _ _).bind fun _ => projects_verifyLoop _ _ _
      exact hrange.bind fun _ => ih
    · exact ih

/-- A load with the log is the load. -/
theorem projects_bmpLoadElf : Projects Prod.fst (bmpLoadElf sink.logged f) (bmpLoadElf sink f) := by
  unfold bmpLoadElf
  refine projects_readEhdr.bind fun eh => ?_
  refine (projects_spanLoop eh _ _).bind fun sp => ?_
  refine (projects_failUnless _ _).bind fun _ => ?_
  refine (projects_callSink _ _).bind fun erased => ?_
  refine (projects_failUnless _ _).bind fun _ => ?_
  refine (projects_segmentLoop eh _ _ _).bind fun x => ?_
  refine (projects_callSink _ _).bind fun completed => ?_
  refine (projects_failUnless _ _).bind fun _ => ?_
  rw [show sink.logged.read = sink.read.map loggedSinkRead from rfl]
  cases sink.read with
  | none => exact projects_pure _
  | some read => exact (projects_verifySegments eh _).bind fun _ => projects_pure _

/-! ## The chunks of a segment -/

/-- The chunks that a file delivers from a position on, up to the first that it does not. -/
def File.delivered (f : File) : List Nat → (pos : Nat) → List Nat
  | [], _ => []
  | n :: ns, pos => if (f.fread pos n).isSome then n :: f.delivered ns (pos + n) else []

/-- Chunks of a content, each with the address at which the ones before it end. -/
def pieces (b : List UInt8) : List Nat → (pos addr : Nat) → List (Nat × List UInt8)
  | [], _, _ => []
  | n :: ns, pos, addr => (addr, Bytes.slice b pos n) :: pieces b ns (pos + n) (add32 addr n)

/-- Bytes from an address on, each with its own. -/
def addressed (addr : Nat) (data : List UInt8) : List (Nat × UInt8) :=
  data.mapIdx fun i b => (add32 addr i, b)

/-- The addresses of bytes in two parts. -/
theorem addressed_append (addr : Nat) (a b : List UInt8) :
    addressed addr (a ++ b) = addressed addr a ++ addressed (add32 addr a.length) b := by
  unfold addressed
  rw [List.mapIdx_append]
  congr 1
  refine List.mapIdx_eq_mapIdx_iff.2 fun i hi => ?_
  unfold add32
  congr 1
  omega

/-- A read that succeeds gives the bytes of the file. -/
theorem File.fread_isSome {pos n : Nat} (h : (f.fread pos n).isSome) :
    pos + n ≤ f.contents.length ∧ f.fread pos n = some (Bytes.slice f.contents pos n) := by
  unfold File.fread at h ⊢
  split
  · next hin => exact ⟨hin.1, rfl⟩
  · next hout =>
    rw [if_neg hout] at h
    cases h

/-- Chunks that are all delivered lie in the file. -/
theorem File.sum_le_of_delivered :
    ∀ {ns : List Nat} {pos : Nat}, f.delivered ns pos = ns → ns ≠ [] →
      pos + ns.sum ≤ f.contents.length := by
  intro ns
  induction ns with
  | nil => exact fun _ h => absurd rfl h
  | cons n ns ih =>
    intro pos h _
    rw [File.delivered] at h
    split at h
    · next hread =>
      rw [List.sum_cons]
      cases ns with
      | nil => exact (File.fread_isSome hread).1
      | cons m ms =>
        have := ih (List.cons.inj h).2 (List.cons_ne_nil m ms)
        omega
    · cases h

/-- The pieces of a content spell it out. -/
theorem flatMap_pieces (b : List UInt8) :
    ∀ (ns : List Nat) (pos addr : Nat), pos + ns.sum ≤ b.length →
      (pieces b ns pos addr).flatMap (fun p => addressed p.1 p.2) =
        addressed addr (Bytes.slice b pos ns.sum) := by
  intro ns
  induction ns with
  | nil =>
    intro pos addr _
    simp [pieces, addressed, Bytes.slice]
  | cons n ns ih =>
    intro pos addr h
    rw [List.sum_cons] at h ⊢
    rw [pieces, List.flatMap_cons, ih _ _ (by omega), ← Bytes.slice_add, addressed_append,
      Bytes.length_slice (by omega)]

/-! ## The calls of the loops -/

/-- The sink took a piece. -/
def wrote (p : Nat × List UInt8) : SinkCall := .write p.1 p.2 true

/-- The sink answered with a piece. -/
def readBack (p : Nat × List UInt8) : SinkCall := .read p.1 p.2.length (some p.2)

/-- The programming loop has called `write` with pieces that the file delivers, and with all of them
if it returns. -/
theorem ends_programLoop_logged {short : String} :
    ∀ {ns : List Nat} {pos addr : Nat} {s : σ × List SinkCall},
      Ends (programLoop sink.logged f short ns pos addr) s
        (fun _ s' => f.delivered ns pos = ns ∧
          s'.2 = s.2 ++ (pieces f.contents ns pos addr).map wrote)
        fun _ s' => ∃ cs, s'.2 = s.2 ++ cs ∧ ∀ c ∈ cs,
          ∃ p ∈ pieces f.contents (f.delivered ns pos) pos addr, ∃ ok, c = .write p.1 p.2 ok := by
  intro ns
  induction ns with
  | nil =>
    intro pos addr s
    exact ⟨rfl, (List.append_nil _).symm⟩
  | cons n ns ih =>
    intro pos addr s
    rw [programLoop]
    simp only [ends_bind, ends_getOrFail]
    refine ⟨fun data hdata => ?_, fun _ => ⟨[], (List.append_nil _).symm, by simp⟩⟩
    have hread : (f.fread pos n).isSome := by rw [hdata]; rfl
    obtain rfl := (File.length_fread hdata).2
    have hdel : f.delivered (n :: ns) pos = n :: f.delivered ns (pos + n) := by
      rw [File.delivered, if_pos hread]
    rw [hdel, pieces, pieces]
    refine ends_callSink (fun ok s₁ hcall => ?_) fun e _ => ⟨[], (List.append_nil _).symm, by simp⟩
    have hlog := (loggedCall_ok hcall).2
    rw [ends_failUnless]
    refine ⟨fun hok => ?_, fun _ => ⟨_, hlog, by simp⟩⟩
    subst hok
    refine ih.imp (fun _ s' h => ⟨by rw [h.1], ?_⟩) fun _ s' h => ?_
    · rw [h.2, hlog, List.map_cons, List.append_assoc]
      rfl
    · obtain ⟨cs, hcs, hmem⟩ := h
      refine ⟨_ :: cs, by rw [hcs, hlog, List.append_assoc]; rfl, ?_⟩
      intro c hc
      rcases List.mem_cons.1 hc with rfl | hc
      · exact ⟨_, List.mem_cons_self, true, rfl⟩
      · obtain ⟨p, hp, hok⟩ := hmem c hc
        exact ⟨p, List.mem_cons_of_mem _ hp, hok⟩

/-- A verification that returns has read every piece back. -/
theorem ends_verifyLoop_logged :
    ∀ {ns : List Nat} {pos addr : Nat} {s : σ × List SinkCall},
      Ends (verifyLoop f (loggedSinkRead read) ns pos addr) s
        (fun _ s' => f.delivered ns pos = ns ∧
          s'.2 = s.2 ++ (pieces f.contents ns pos addr).map readBack)
        fun _ _ => True := by
  intro ns
  induction ns with
  | nil =>
    intro pos addr s
    exact ⟨rfl, (List.append_nil _).symm⟩
  | cons n ns ih =>
    intro pos addr s
    rw [verifyLoop]
    simp only [ends_bind, ends_getOrFail]
    refine ⟨fun want hwant => ?_, fun _ => trivial⟩
    have hread : (f.fread pos n).isSome := by rw [hwant]; rfl
    obtain ⟨hlen, hslice⟩ := File.length_fread hwant
    refine ends_callSink (fun got s₁ hcall => ?_) fun _ _ => trivial
    refine ⟨fun bytes hgot => ?_, fun _ => trivial⟩
    rw [ends_failUnless]
    refine ⟨fun hsame => ?_, fun _ => trivial⟩
    have hlog : s₁.2 = s.2 ++ [.read addr n got] := by
      cases hcall
      rfl
    obtain rfl := of_decide_eq_true hsame
    rw [hgot] at hlog
    refine ih.imp (fun _ s' h => ⟨?_, ?_⟩) fun _ _ _ => trivial
    · rw [File.delivered, if_pos hread, h.1]
    · rw [h.2, hlog, pieces, List.map_cons, readBack, ← hslice, hlen, List.append_assoc]
      rfl

/-! ## The segments that a sink takes -/

/-- `seg_flashable`, with an `in_flash` that is a function of its arguments. -/
def Elf32Phdr.flashable (inFlash : Option ((addr len : Nat) → Bool)) (ph : Elf32Phdr) : Bool :=
  decide ph.Loads && inFlash.all fun p => p ph.paddr ph.filesz

variable {inFlash : Option ((addr len : Nat) → Bool)}

/-- Under the map of the sink the test on a segment is the one on its header. -/
theorem segFlashable_of_inFlash (hin : sink.inFlash = inFlash.map fun p addr len _ => p addr len)
    (ph : Elf32Phdr) (s : σ) : segFlashable sink ph s = ph.flashable inFlash := by
  unfold segFlashable Elf32Phdr.flashable Elf32Phdr.Loads
  rw [hin]
  by_cases h1 : ph.type = 1
  · by_cases h2 : ph.filesz = 0
    · simp [h1, h2]
    · cases inFlash <;> simp [h1, h2]
  · simp [h1]

/-- The chunks of a segment that the file delivers. -/
def File.deliveredChunks (f : File) (ph : Elf32Phdr) : List Nat :=
  if f.fseek ph.offset then f.delivered (Bytes.chunks chunkSize ph.filesz) ph.offset else []

/-- The segments that pass 2 gets to, each with the chunks that the file delivers: a segment with
others behind it is delivered as a whole. -/
def File.reached (f : File) : List Elf32Phdr → List (Elf32Phdr × List Nat)
  | [] => []
  | ph :: phs => (ph, f.deliveredChunks ph) ::
    if f.deliveredChunks ph = Bytes.chunks chunkSize ph.filesz then f.reached phs else []

/-- The pieces of the chunks of a segment. -/
def File.piecesOf (f : File) (x : Elf32Phdr × List Nat) : List (Nat × List UInt8) :=
  pieces f.contents x.2 x.1.offset x.1.paddr

/-- The pieces that the file delivers of a segment. -/
theorem ends_programSegment_logged {ph : Elf32Phdr} {s : σ × List SinkCall} :
    Ends (programSegment sink.logged f ph) s
      (fun _ s' => f.deliveredChunks ph = Bytes.chunks chunkSize ph.filesz ∧
        s'.2 = s.2 ++ (f.piecesOf (ph, Bytes.chunks chunkSize ph.filesz)).map wrote)
      fun _ s' => ∃ cs, s'.2 = s.2 ++ cs ∧ ∀ c ∈ cs,
        ∃ p ∈ f.piecesOf (ph, f.deliveredChunks ph), ∃ ok, c = .write p.1 p.2 ok := by
  unfold programSegment File.deliveredChunks
  rw [ends_bind, ends_failUnless]
  refine ⟨fun hseek => ?_, fun _ => ⟨[], (List.append_nil _).symm, by simp⟩⟩
  rw [if_pos hseek]
  exact ends_programLoop_logged

/-- The union span of segments. -/
def unionSpan (segs : List Elf32Phdr) : LoadSpan := segs.foldl LoadSpan.add ⟨maxU32, 0, 0⟩

/-- The bytes that segments take up. -/
def totalSize (segs : List Elf32Phdr) : Nat := (segs.map (·.filesz)).sum

/-- Pass 2 has called `write` with pieces of the segments that it gets to, and with all pieces of
all segments if it returns. -/
theorem ends_segmentLoop_logged (hin : sink.inFlash = inFlash.map fun p addr len _ => p addr len)
    {eh : Elf32Ehdr} :
    ∀ {is : List Nat} {phs : List Elf32Phdr} {done total : Nat} {s : σ × List SinkCall},
      is.mapM (f.phdr eh) = some phs → total < 2 ^ 32 →
      Ends (segmentLoop sink.logged f eh is done total) s
        (fun x s' => (∀ ph ∈ phs.filter (·.flashable inFlash),
            f.deliveredChunks ph = Bytes.chunks chunkSize ph.filesz) ∧
          x.1 = done + (phs.filter (·.flashable inFlash)).length ∧
          x.2 = add32 total (totalSize (phs.filter (·.flashable inFlash))) ∧
          s'.2 = s.2 ++ (phs.filter (·.flashable inFlash)).flatMap fun ph =>
            (f.piecesOf (ph, Bytes.chunks chunkSize ph.filesz)).map wrote)
        fun _ s' => ∃ cs, s'.2 = s.2 ++ cs ∧ ∀ c ∈ cs,
          ∃ x ∈ f.reached (phs.filter (·.flashable inFlash)), ∃ p ∈ f.piecesOf x,
            ∃ ok, c = .write p.1 p.2 ok := by
  intro is
  induction is with
  | nil =>
    intro phs done total s h htotal
    cases h
    refine ⟨by simp, rfl, ?_, (List.append_nil _).symm⟩
    change total = add32 total 0
    rw [add32_of_lt (by omega), Nat.add_zero]
  | cons i is ih =>
    intro phs done total s h htotal
    rw [List.mapM_cons] at h
    obtain ⟨ph, hph, h⟩ := Option.bind_eq_some_iff.1 h
    obtain ⟨phs', hphs', h⟩ := Option.bind_eq_some_iff.1 h
    cases h
    rw [segmentLoop]
    simp only [ends_bind, ends_readPhdr, ends_get, segFlashable_logged, segFlashable_of_inFlash hin]
    refine ⟨fun ph' hph' => ?_, fun hnone => by rw [hph] at hnone; cases hnone⟩
    rw [hph] at hph'
    cases hph'
    rw [List.filter_cons]
    split
    · rw [ends_bind]
      refine ends_programSegment_logged.imp (fun _ s₁ h₁ => ?_) fun _ s₁ h₁ => ?_
      · refine (ih hphs' (add32_lt _ _)).imp (fun x s' h => ?_) fun _ s' h => ?_
        · obtain ⟨hdel, hdone, hbytes, hlog⟩ := h
          refine ⟨List.forall_mem_cons.2 ⟨h₁.1, hdel⟩, ?_, ?_, ?_⟩
          · rw [hdone, List.length_cons]
            omega
          · rw [hbytes, add32_add32]
            simp [totalSize]
          · rw [hlog, h₁.2, List.flatMap_cons, List.append_assoc]
        · obtain ⟨cs, hcs, hmem⟩ := h
          refine ⟨(f.piecesOf (ph, Bytes.chunks chunkSize ph.filesz)).map wrote ++ cs,
            by rw [hcs, h₁.2, List.append_assoc], fun c hc => ?_⟩
          rw [File.reached, if_pos h₁.1, h₁.1]
          rcases List.mem_append.1 hc with hc | hc
          · obtain ⟨p, hp, rfl⟩ := List.mem_map.1 hc
            exact ⟨_, List.mem_cons_self, p, hp, true, rfl⟩
          · obtain ⟨x, hx, hp⟩ := hmem c hc
            exact ⟨x, List.mem_cons_of_mem _ hx, hp⟩
      · obtain ⟨cs, hcs, hmem⟩ := h₁
        refine ⟨cs, hcs, fun c hc => ?_⟩
        rw [File.reached]
        exact ⟨_, List.mem_cons_self, hmem c hc⟩
    · exact ih hphs' htotal

/-- A verification of the segments that returns has read all their pieces back. -/
theorem ends_verifySegments_logged (hin : sink.inFlash = inFlash.map fun p addr len _ => p addr len)
    {eh : Elf32Ehdr} :
    ∀ {is : List Nat} {phs : List Elf32Phdr} {s : σ × List SinkCall},
      is.mapM (f.phdr eh) = some phs →
      Ends (verifySegments sink.logged f eh (loggedSinkRead read) is) s
        (fun _ s' => s'.2 = s.2 ++ (phs.filter (·.flashable inFlash)).flatMap fun ph =>
          (f.piecesOf (ph, Bytes.chunks 256 ph.filesz)).map readBack)
        fun _ _ => True := by
  intro is
  induction is with
  | nil =>
    intro phs s h
    cases h
    exact (List.append_nil _).symm
  | cons i is ih =>
    intro phs s h
    rw [List.mapM_cons] at h
    obtain ⟨ph, hph, h⟩ := Option.bind_eq_some_iff.1 h
    obtain ⟨phs', hphs', h⟩ := Option.bind_eq_some_iff.1 h
    cases h
    rw [verifySegments]
    simp only [ends_bind, ends_readPhdr, ends_get, segFlashable_logged, segFlashable_of_inFlash hin]
    refine ⟨fun ph' hph' => ?_, fun _ => trivial⟩
    rw [hph] at hph'
    cases hph'
    rw [List.filter_cons]
    split
    · rw [ends_bind, verifyRange, ends_bind, ends_failUnless]
      refine ⟨fun _ => ?_, fun _ => trivial⟩
      refine ends_verifyLoop_logged.imp (fun _ s₁ h₁ => ?_) fun _ _ _ => trivial
      refine (ih hphs').imp (fun _ s' h => ?_) fun _ _ _ => trivial
      rw [h, h₁.2, List.flatMap_cons, List.append_assoc]
      rfl
    · exact ih hphs'

/-! ## A load that succeeds -/

/-- The bytes that a call hands to the sink, each with its address. -/
def SinkCall.written : SinkCall → List (Nat × UInt8)
  | .write addr data _ => addressed addr data
  | _ => []

/-- The bytes that a call gets from the sink, each with its address. -/
def SinkCall.returned : SinkCall → List (Nat × UInt8)
  | .read addr _ (some data) => addressed addr data
  | _ => []

/-- The bytes of a segment in the file, each with its address. -/
def File.segment (f : File) (ph : Elf32Phdr) : List (Nat × UInt8) :=
  addressed ph.paddr (Bytes.slice f.contents ph.offset ph.filesz)

/-- Calls that program a segment: writes that were taken, of `CHUNK` bytes at most, that make up the
segment. -/
structure Programs (f : File) (ph : Elf32Phdr) (calls : List SinkCall) : Prop where
  write : ∀ c ∈ calls, ∃ addr data, c = .write addr data true ∧ 0 < data.length ∧ data.length ≤ 2048
  bytes : calls.flatMap SinkCall.written = f.segment ph

/-- Calls that verify a segment: reads that were answered, and that make up the segment. -/
structure Verifies (f : File) (ph : Elf32Phdr) (calls : List SinkCall) : Prop where
  read : ∀ c ∈ calls, ∃ addr data, c = .read addr data.length (some data)
  bytes : calls.flatMap SinkCall.returned = f.segment ph

/-- The calls of a load of segments: an erase, the calls that program each segment, `complete`, and
the calls that verify each segment. -/
def LoadCalls (f : File) (segs : List Elf32Phdr) (calls : List SinkCall) : Prop :=
  ∃ lo len programs verifies,
    calls = .erase lo len true :: programs.flatten ++ .complete true :: verifies.flatten ∧
      List.Forall₂ (Programs f) segs programs ∧ List.Forall₂ (Verifies f) segs verifies

/-- The pieces of a segment are as long as the chunks asked for. -/
theorem mem_pieces {b : List UInt8} {p : Nat × List UInt8} :
    ∀ {ns : List Nat} {pos addr : Nat}, p ∈ pieces b ns pos addr → pos + ns.sum ≤ b.length →
      p.2.length ∈ ns := by
  intro ns
  induction ns with
  | nil => exact fun h => nomatch h
  | cons n ns ih =>
    intro pos addr h hle
    rw [List.sum_cons] at hle
    rcases List.mem_cons.1 h with rfl | h
    · rw [Bytes.length_slice (by omega)]
      exact List.mem_cons_self
    · exact List.mem_cons_of_mem _ (ih h (by omega))

section
variable {ph : Elf32Phdr} (hfile : ph.offset + ph.filesz ≤ f.contents.length)
include hfile

/-- Put together, the pieces are the segment. -/
theorem flatMap_piecesOf (size : Nat) :
    (f.piecesOf (ph, Bytes.chunks size ph.filesz)).flatMap (fun p => addressed p.1 p.2) =
      f.segment ph := by
  have hsum := Bytes.sum_chunks size ph.filesz
  rw [File.piecesOf, flatMap_pieces _ _ _ _ (by dsimp only; omega), hsum]
  rfl

/-- The pieces of a segment, written, program it. -/
theorem programs_piecesOf :
    Programs f ph ((f.piecesOf (ph, Bytes.chunks chunkSize ph.filesz)).map wrote) where
  write := by
    intro c hc
    obtain ⟨p, hp, rfl⟩ := List.mem_map.1 hc
    have hlen := mem_pieces hp (by rw [Bytes.sum_chunks]; exact hfile)
    exact ⟨p.1, p.2, rfl, Bytes.mem_chunks (by decide) hlen⟩
  bytes := by
    rw [List.flatMap_map]
    exact flatMap_piecesOf hfile chunkSize

/-- The pieces of a segment, read back, verify it. -/
theorem verifies_piecesOf :
    Verifies f ph ((f.piecesOf (ph, Bytes.chunks 256 ph.filesz)).map readBack) where
  read := by
    intro c hc
    obtain ⟨p, -, rfl⟩ := List.mem_map.1 hc
    exact ⟨p.1, p.2, rfl⟩
  bytes := by
    rw [List.flatMap_map]
    exact flatMap_piecesOf hfile 256

end

/-- A segment that the file delivers lies in the file. -/
theorem File.le_of_deliveredChunks {ph : Elf32Phdr} (hne : ph.filesz ≠ 0)
    (h : f.deliveredChunks ph = Bytes.chunks chunkSize ph.filesz) :
    ph.offset + ph.filesz ≤ f.contents.length := by
  have hsum := Bytes.sum_chunks chunkSize ph.filesz
  have hnil : Bytes.chunks chunkSize ph.filesz ≠ [] := by
    intro hnil
    rw [hnil] at hsum
    exact hne hsum.symm
  unfold File.deliveredChunks at h
  split at h
  · have := File.sum_le_of_delivered h hnil
    omega
  · exact absurd h.symm hnil

/-- A relation along a list and its image. -/
theorem forall₂_map_right {β γ : Type} {R : β → γ → Prop} {g : β → γ} {l : List β}
    (h : ∀ x ∈ l, R x (g x)) : List.Forall₂ R l (l.map g) := by
  rw [List.forall₂_map_right_iff, List.forall₂_same]
  exact h

/-- A load that succeeds through a sink with a `read`: what the sink was called with. -/
theorem ends_bmpLoadElf_logged (hin : sink.inFlash = inFlash.map fun p addr len _ => p addr len)
    (hread : sink.read = some read) {s : σ} :
    Ends (bmpLoadElf sink.logged f) (s, [])
      (fun r s' => ∃ eh phs, f.ehdr = some eh ∧ f.phdrs eh = some phs ∧
        (∀ ph ∈ phs.filter (·.flashable inFlash), ph.offset + ph.filesz ≤ f.contents.length) ∧
        LoadCalls f (phs.filter (·.flashable inFlash)) s'.2 ∧
        r.segments = (phs.filter (·.flashable inFlash)).length ∧
        r.bytes = totalSize (phs.filter (·.flashable inFlash)) % 2 ^ 32)
      fun _ _ => True := by
  unfold bmpLoadElf
  rw [ends_bind]
  refine ends_readEhdr (fun eh heh => ?_) fun _ _ => trivial
  rw [ends_bind]
  refine ends_spanLoop (p := (·.flashable inFlash)) (fun ph => ?_) (fun phs hphs => ?_)
    fun _ _ => trivial
  · rw [segFlashable_logged, segFlashable_of_inFlash hin]
  simp only [ends_bind, ends_failUnless]
  refine ⟨fun _ => ?_, fun _ => trivial⟩
  refine ends_callSink (fun erased s₁ herase => ?_) fun _ _ => trivial
  refine ⟨fun hok => ?_, fun _ => trivial⟩
  subst hok
  have h₁ := (loggedCall_ok herase).2
  refine (ends_segmentLoop_logged hin hphs (by decide)).imp (fun x s₂ h₂ => ?_) fun _ _ _ => trivial
  obtain ⟨hdel, hdone, htotal, h₂⟩ := h₂
  refine ends_callSink (fun completed s₃ hcomplete => ?_) fun _ _ => trivial
  refine ⟨fun hok => ?_, fun _ => trivial⟩
  subst hok
  have h₃ := (loggedCall_ok hcomplete).2
  rw [show sink.logged.read = some (loggedSinkRead read) from congrArg (Option.map _) hread]
  rw [ends_bind]
  refine (ends_verifySegments_logged hin hphs).imp (fun _ s₄ h₄ => ?_) fun _ _ _ => trivial
  rw [ends_pure]
  have hfile : ∀ ph ∈ phs.filter (·.flashable inFlash),
      ph.offset + ph.filesz ≤ f.contents.length := by
    intro ph hph
    have hloads := (List.mem_filter.1 hph).2
    rw [Elf32Phdr.flashable, Bool.and_eq_true, decide_eq_true_eq] at hloads
    exact File.le_of_deliveredChunks hloads.1.2 (hdel ph hph)
  refine ⟨eh, phs, heh, hphs, hfile, ⟨(unionSpan (phs.filter (·.flashable inFlash))).lo,
    sub32 (unionSpan (phs.filter (·.flashable inFlash))).hi
      (unionSpan (phs.filter (·.flashable inFlash))).lo, _, _, ?_,
    forall₂_map_right fun ph hph => programs_piecesOf (hfile ph hph),
    forall₂_map_right fun ph hph => verifies_piecesOf (hfile ph hph)⟩, ?_, ?_⟩
  · rw [h₄, h₃, h₂, h₁]
    simp only [List.flatMap_def, List.nil_append, List.append_assoc, List.cons_append, unionSpan]
  · rw [hdone, Nat.zero_add]
  · rw [htotal, add32, Nat.zero_add]

/-- A load that succeeds through a sink with a `read` has programmed every segment that the sink
takes, and has read every one of them back after `complete`. -/
theorem bmpLoadElf_verified {s' : σ} {s : σ} {r : LoadResult} (hread : sink.read.isSome)
    (hin : sink.inFlash = inFlash.map fun p addr len _ => p addr len)
    (h : bmpLoadElf sink f s = .ok r s') :
    ∃ eh phs calls, f.ehdr = some eh ∧ eh.Valid ∧ f.phdrs eh = some phs ∧
      bmpLoadElf sink.logged f (s, []) = .ok r (s', calls) ∧
      (∀ ph ∈ phs.filter (·.flashable inFlash), ph.offset + ph.filesz ≤ f.contents.length) ∧
      LoadCalls f (phs.filter (·.flashable inFlash)) calls ∧
      r.segments = (phs.filter (·.flashable inFlash)).length ∧
      r.bytes = totalSize (phs.filter (·.flashable inFlash)) % 2 ^ 32 := by
  obtain ⟨read, hread⟩ := Option.isSome_iff_exists.1 hread
  obtain ⟨⟨s₁, calls⟩, hrun, rfl⟩ := Projects.ok projects_bmpLoadElf (t := (s, [])) h
  obtain ⟨eh, phs, heh, hphs, hfile, hcalls, hsegs, hbytes⟩ :=
    (ends_bmpLoadElf_logged hin hread).ok hrun
  have hvalid : eh.Valid := by
    rw [File.ehdr, Option.filter_eq_some_iff] at heh
    exact of_decide_eq_true heh.2
  exact ⟨eh, phs, calls, heh, hvalid, hphs, hrun, hfile, hcalls, hsegs, hbytes⟩

end

/-- A sink over a memory from `0x08000000` on. -/
def ramSink : FlashSink (List UInt8) where
  erase := fun addr len m =>
    .ok (true, Bytes.overwrite m (addr - 0x08000000) (List.replicate len 0xff))
  write := fun addr data m => .ok (true, Bytes.overwrite m (addr - 0x08000000) data)
  complete := fun m => .ok (true, m)
  read := some fun addr len m => (some (Bytes.slice m (addr - 0x08000000) len), m)
  inFlash := some fun addr _ _ => decide (0x08000000 ≤ addr)

/-- The load of two pages into a memory. -/
theorem bmpLoadElf_verified_twoPages :
    ∃ r s' eh phs calls, bmpLoadElf ramSink twoPages (List.replicate 2048 0) = .ok r s' ∧
      twoPages.ehdr = some eh ∧ twoPages.phdrs eh = some phs ∧ r.segments = 2 ∧
      LoadCalls twoPages (phs.filter (·.flashable (some fun addr _ => decide (0x08000000 ≤ addr))))
        calls := by
  have hrun : (match bmpLoadElf ramSink twoPages (List.replicate 2048 0) with
      | .ok r _ => r.segments
      | .error _ _ => 0) = 2 := by decide +kernel
  cases h : bmpLoadElf ramSink twoPages (List.replicate 2048 0) with
  | error e s' =>
    rw [h] at hrun
    cases hrun
  | ok r s' =>
    rw [h] at hrun
    have hin : ramSink.inFlash = (some fun addr _ => decide (0x08000000 ≤ addr)).map
        fun p addr len _ => p addr len := rfl
    obtain ⟨eh, phs, calls, heh, -, hphs, -, -, hcalls, -, -⟩ := bmpLoadElf_verified rfl hin h
    exact ⟨r, s', eh, phs, calls, rfl, heh, hphs, hrun, hcalls⟩

end Blackmagic
