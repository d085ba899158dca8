import Blackmagic.Load.Loader

/-!
# Rules for loads

What the parts of a load do, as postconditions. The header of a file and its program headers are
functions of the file (`File.ehdr`, `File.phdrs`), and up to the erase a load with a sink without
`in_flash` depends on them only (`ends_bmpLoadElf`). A preorder that the callbacks of a sink keep is
kept by the loops that call them (`keeps_segmentLoop`, `keeps_verifySegments`).
-/

namespace Blackmagic

open Word Effect

section
variable {σ α : Type} {s : σ} {f : File} {err : String} {E : LoadStop → σ → Prop}

/-! ## Single steps -/

/-- The rule for a call of the sink. -/
theorem ends_callSink {k : σ → Except BufFault (α × σ)} {Q : α → σ → Prop}
    (hok : ∀ a s', k s = .ok (a, s') → Q a s') (herr : ∀ e, k s = .error e → E (.fault e) s) :
    Ends (callSink k) s Q E := by
  unfold Ends callSink
  cases hk : k s with
  | error e => exact herr e hk
  | ok x => exact hok x.1 x.2 hk

@[simp] theorem ends_failWith {Q : α → σ → Prop} :
    Ends (failWith err) s Q E ↔ E (.fail err) s := Iff.rfl

/-- The rule for a test. -/
theorem ends_failUnless {ok : Bool} {Q : Unit → σ → Prop} :
    Ends (failUnless ok err) s Q E ↔ (ok = true → Q () s) ∧ (ok = false → E (.fail err) s) := by
  cases ok <;> simp [failUnless]

/-- The rule for an optional value. -/
theorem ends_getOrFail {x : Option α} {Q : α → σ → Prop} :
    Ends (getOrFail x err) s Q E ↔ (∀ a, x = some a → Q a s) ∧ (x = none → E (.fail err) s) := by
  cases x <;> simp [getOrFail]

/-- What a read gives is as long as asked for, and is the file's. -/
theorem File.length_fread {off len : Nat} {data : List UInt8} (h : f.fread off len = some data) :
    data.length = len ∧ data = Bytes.slice f.contents off len := by
  unfold File.fread at h
  split at h
  · next hin =>
    cases h
    refine ⟨?_, rfl⟩
    rw [Bytes.slice, List.length_take, List.length_drop]
    omega
  · cases h

/-! ## The headers of a file -/

/-- The checks of `bmp_load_elf` on a file header. -/
def Elf32Ehdr.Valid (eh : Elf32Ehdr) : Prop :=
  eh.ident.take 4 = elfMagic ∧ eh.ident.getD 4 0 = 1 ∧ eh.ident.getD 5 0 = 1 ∧ eh.machine = 40 ∧
    eh.phnum ≠ 0 ∧ 32 ≤ eh.phentsize

instance (eh : Elf32Ehdr) : Decidable eh.Valid :=
  inferInstanceAs (Decidable (_ ∧ _ ∧ _ ∧ _ ∧ _ ∧ _))

/-- The header of a file that is taken. -/
def File.ehdr (f : File) : Option Elf32Ehdr :=
  ((readAt f 0 52).map Elf32Ehdr.ofBytes).filter fun eh => decide eh.Valid

/-- A program header of a file. -/
def File.phdr (f : File) (eh : Elf32Ehdr) (i : Nat) : Option Elf32Phdr :=
  (readAt f (add32 eh.phoff (i * eh.phentsize)) 32).map Elf32Phdr.ofBytes

/-- The program headers of a file. -/
def File.phdrs (f : File) (eh : Elf32Ehdr) : Option (List Elf32Phdr) :=
  (List.range eh.phnum).mapM (f.phdr eh)

/-- A header that can be read is one of the headers. -/
theorem File.mem_phdrs {eh : Elf32Ehdr} {ph : Elf32Phdr} :
    ∀ {is : List Nat} {phs : List Elf32Phdr}, is.mapM (f.phdr eh) = some phs →
      ∀ {i : Nat}, i ∈ is → f.phdr eh i = some ph → ph ∈ phs := by
  intro is
  induction is with
  | nil => exact fun _ _ h => absurd h List.not_mem_nil
  | cons j is ih =>
    intro phs h i hi hph
    rw [List.mapM_cons] at h
    obtain ⟨ph', hph', h⟩ := Option.bind_eq_some_iff.1 h
    obtain ⟨phs', hphs', h⟩ := Option.bind_eq_some_iff.1 h
    cases h
    rcases List.mem_cons.1 hi with rfl | hi
    · rw [hph] at hph'
      cases hph'
      exact List.mem_cons_self
    · exact List.mem_cons_of_mem _ (ih hphs' hi hph)

/-- A `PT_LOAD` header with something in the file. -/
def Elf32Phdr.Loads (ph : Elf32Phdr) : Prop := ph.type = 1 ∧ ph.filesz ≠ 0

instance (ph : Elf32Phdr) : Decidable ph.Loads := inferInstanceAs (Decidable (_ ∧ _))

/-- The union span of the segments that load. -/
def loadSpan (phs : List Elf32Phdr) : LoadSpan :=
  phs.foldl (fun sp ph => if ph.Loads then sp.add ph else sp) ⟨maxU32, 0, 0⟩

/-- The rule for the ELF header. -/
theorem ends_readEhdr {Q : Elf32Ehdr → σ → Prop} (hok : ∀ eh, f.ehdr = some eh → Q eh s)
    (herr : f.ehdr = none → ∀ err, E (.fail err) s) : Ends (readEhdr f) s Q E := by
  unfold readEhdr
  simp only [ends_bind, ends_getOrFail, ends_failUnless, ends_pure, decide_eq_true_eq,
    decide_eq_false_iff_not]
  refine ⟨fun b hb => ?_, fun hnone => herr (by rw [File.ehdr, hnone]; rfl) _⟩
  have hehdr : f.ehdr = if (Elf32Ehdr.ofBytes b).Valid then some (.ofBytes b) else none := by
    simp only [File.ehdr, hb, Option.map_some, Option.filter_some, decide_eq_true_eq]
  have hbad : ¬ (Elf32Ehdr.ofBytes b).Valid → ∀ err, E (.fail err) s := fun h =>
    herr (by rw [hehdr, if_neg h])
  refine ⟨fun h1 => ⟨fun h2 => ⟨fun h3 => ⟨fun h4 => ⟨fun h5 => hok _ ?_, fun h => hbad ?_ _⟩,
    fun h => hbad ?_ _⟩, fun h => hbad ?_ _⟩, fun h => hbad ?_ _⟩, fun h => hbad ?_ _⟩
  · rw [hehdr, if_pos ⟨h1, h2, h3, h4, h5⟩]
  · exact fun hv => h hv.2.2.2.2
  · exact fun hv => h hv.2.2.2.1
  · exact fun hv => h hv.2.2.1
  · exact fun hv => h hv.2.1
  · exact fun hv => h hv.1

/-- The rule for a program header. -/
theorem ends_readPhdr {eh : Elf32Ehdr} {i : Nat} {Q : Elf32Phdr → σ → Prop} :
    Ends (readPhdr f eh i err) s Q E ↔
      (∀ ph, f.phdr eh i = some ph → Q ph s) ∧ (f.phdr eh i = none → E (.fail err) s) := by
  unfold readPhdr File.phdr
  simp only [ends_bind, ends_getOrFail, ends_pure]
  cases readAt f (add32 eh.phoff (i * eh.phentsize)) 32 with
  | none => simp
  | some b => simp

variable {sink : FlashSink σ}

/-- Without a map every segment that is loaded is programmed. -/
theorem segFlashable_eq (hin : sink.inFlash = none) (ph : Elf32Phdr) :
    segFlashable sink ph s = decide ph.Loads := by
  unfold segFlashable Elf32Phdr.Loads
  rw [hin]
  by_cases h1 : ph.type = 1
  · by_cases h2 : ph.filesz = 0
    · simp [h1, h2]
    · simp [h1, h2]
  · simp [h1]

/-- The span is folded over the segments that are loaded. -/
theorem loadSpan_eq (phs : List Elf32Phdr) :
    loadSpan phs = (phs.filter fun ph => decide ph.Loads).foldl LoadSpan.add ⟨maxU32, 0, 0⟩ := by
  simp only [loadSpan, List.foldl_filter, decide_eq_true_eq]

/-- Pass 1 widens the span by the segments that the sink takes. -/
theorem ends_spanLoop {p : Elf32Phdr → Bool} (hp : ∀ ph, segFlashable sink ph s = p ph)
    {eh : Elf32Ehdr} {Q : LoadSpan → σ → Prop} :
    ∀ {is : List Nat} {sp : LoadSpan},
      (∀ phs, is.mapM (f.phdr eh) = some phs → Q ((phs.filter p).foldl LoadSpan.add sp) s) →
      (is.mapM (f.phdr eh) = none → ∀ err, E (.fail err) s) →
      Ends (spanLoop sink f eh is sp) s Q E := by
  intro is
  induction is with
  | nil =>
    intro sp hok _
    exact hok [] rfl
  | cons i is ih =>
    intro sp hok herr
    rw [spanLoop]
    simp only [ends_bind, ends_readPhdr, ends_get, hp]
    rw [List.mapM_cons] at hok herr
    refine ⟨fun ph hph => ?_, fun hnone => herr (by rw [hnone]; rfl) _⟩
    rw [hph] at hok herr
    refine ih (fun phs hphs => ?_) fun hnone => ?_
    · rw [hphs] at hok
      have hspan := hok (ph :: phs) rfl
      rw [List.filter_cons] at hspan
      cases hph : p ph with
      | true =>
        rw [if_pos hph] at hspan
        exact hspan
      | false =>
        rw [if_neg (by simp [hph])] at hspan
        exact hspan
    · rw [hnone] at herr
      exact herr rfl

/-- The part of `bmp_load_elf` behind the union span. -/
def loadSegments (sink : FlashSink σ) (f : File) (eh : Elf32Ehdr) : LoadM σ LoadResult := do
  let x ← segmentLoop sink f eh (List.range eh.phnum) 0 0
  let completed ← callSink sink.complete
  failUnless completed "flash complete failed"
  if let some read := sink.read then
    verifySegments sink f eh read (List.range eh.phnum)
  pure ⟨x.1, x.2, eh.entry⟩

/-- A load through a sink without `in_flash`: the file is rejected before anything is called, or the
union span of the segments that load is erased first. -/
theorem ends_bmpLoadElf (hin : sink.inFlash = none) {Q : LoadResult → σ → Prop}
    (hok : ∀ eh phs, f.ehdr = some eh → f.phdrs eh = some phs → (loadSpan phs).nLoad ≠ 0 →
      Ends (callSink (sink.erase (loadSpan phs).lo (sub32 (loadSpan phs).hi (loadSpan phs).lo))) s
        (fun erased s => Ends (do failUnless erased "erase failed"; loadSegments sink f eh) s Q E)
          E)
    (herr : (∀ eh phs, f.ehdr = some eh → f.phdrs eh = some phs → (loadSpan phs).nLoad = 0) →
      ∀ err, E (.fail err) s) :
    Ends (bmpLoadElf sink f) s Q E := by
  unfold bmpLoadElf
  rw [ends_bind]
  refine ends_readEhdr (fun eh heh => ?_) fun hnone => herr fun eh phs heh => ?_
  · rw [ends_bind]
    refine ends_spanLoop (segFlashable_eq hin) (fun phs hphs => ?_) fun hnone =>
      herr fun eh' phs heh' hphs => ?_
    · rw [← loadSpan_eq, ends_bind, ends_failUnless, decide_eq_true_eq, decide_eq_false_iff_not]
      refine ⟨fun hload => ?_, fun hload => herr (fun eh' phs' heh' hphs' => ?_) _⟩
      · rw [ends_bind]
        exact hok eh phs heh hphs hload
      · rw [heh] at heh'
        cases heh'
        rw [File.phdrs, hphs] at hphs'
        cases hphs'
        exact Decidable.not_not.1 hload
    · rw [heh] at heh'
      cases heh'
      rw [File.phdrs, hnone] at hphs
      cases hphs
  · rw [hnone] at heh
    cases heh

/-! ## What the callbacks keep -/

variable {S : σ → σ → Prop} (hrefl : ∀ s, S s s)
include hrefl

/-- A test keeps every relation. -/
theorem keeps_failUnless (ok : Bool) (err : String) : Keeps S (failUnless ok err) := fun s =>
  ends_failUnless.2 ⟨fun _ => hrefl s, fun _ => hrefl s⟩

/-- So does an optional value. -/
theorem keeps_getOrFail (x : Option α) (err : String) : Keeps S (getOrFail x err) := fun s =>
  ends_getOrFail.2 ⟨fun _ _ => hrefl s, fun _ => hrefl s⟩

/-- A call of the sink keeps what its function keeps. -/
theorem keeps_callSink {k : σ → Except BufFault (α × σ)}
    (hk : ∀ s a s', k s = .ok (a, s') → S s s') : Keeps S (callSink k) := fun s =>
  ends_callSink (hk s) fun _ _ => hrefl s

/-- Reading a program header keeps every relation. -/
theorem keeps_readPhdr (eh : Elf32Ehdr) (i : Nat) (err : String) :
    Keeps S (readPhdr f eh i err) := fun s =>
  ends_readPhdr.2 ⟨fun _ _ => hrefl s, fun _ => hrefl s⟩

variable (htrans : ∀ s₁ s₂ s₃, S s₁ s₂ → S s₂ s₃ → S s₁ s₃)
include htrans

section
variable (hwrite : ∀ addr data s ok s', sink.write addr data s = .ok (ok, s') → S s s')
include hwrite

/-- The loop over the chunks of a segment keeps what a write keeps. -/
theorem keeps_programLoop (short : String) :
    ∀ (ns : List Nat) (pos addr : Nat), Keeps S (programLoop sink f short ns pos addr) := by
  intro ns
  induction ns with
  | nil => exact fun _ _ => hrefl
  | cons n ns ih =>
    intro pos addr
    rw [programLoop]
    refine (keeps_getOrFail hrefl _ _).bind htrans fun data => ?_
    refine (keeps_callSink hrefl (hwrite addr data)).bind htrans fun ok => ?_
    exact (keeps_failUnless hrefl _ _).bind htrans fun _ => ih _ _

/-- So does the loop over the segments. -/
theorem keeps_segmentLoop (eh : Elf32Ehdr) :
    ∀ (is : List Nat) (done total : Nat), Keeps S (segmentLoop sink f eh is done total) := by
  intro is
  induction is with
  | nil => exact fun _ _ => hrefl
  | cons i is ih =>
    intro done total
    rw [segmentLoop]
    refine (keeps_readPhdr hrefl _ _ _).bind htrans fun ph s => ?_
    rw [ends_bind, ends_get]
    dsimp only
    split
    · have hsegment : Keeps S (programSegment sink f ph) :=
        (keeps_failUnless hrefl _ _).bind htrans fun _ =>
          keeps_programLoop hrefl htrans hwrite _ _ _ _
      exact hsegment.bind htrans (fun _ => ih _ _) s
    · exact ih _ _ s

end

section
variable {read : (addr len : Nat) → σ → Option (List UInt8) × σ}
  (hread : ∀ addr len s, S s (read addr len s).2)
include hread

/-- The loop that reads a range back keeps what a read keeps. -/
theorem keeps_verifyLoop :
    ∀ (ns : List Nat) (pos addr : Nat), Keeps S (verifyLoop f read ns pos addr) := by
  intro ns
  induction ns with
  | nil => exact fun _ _ => hrefl
  | cons n ns ih =>
    intro pos addr
    rw [verifyLoop]
    refine (keeps_getOrFail hrefl _ _).bind htrans fun want => ?_
    refine (keeps_callSink hrefl fun s got s' h => ?_).bind htrans fun got => ?_
    · have := hread addr n s
      rw [Except.ok.inj h] at this
      exact this
    refine (keeps_getOrFail hrefl _ _).bind htrans fun bytes => ?_
    exact (keeps_failUnless hrefl _ _).bind htrans fun _ => ih _ _

/-- So does the read of a range. -/
theorem keeps_verifyRange (fileOff addr len : Nat) :
    Keeps S (verifyRange f read fileOff addr len) :=
  (keeps_failUnless hrefl _ _).bind htrans fun _ => keeps_verifyLoop hrefl htrans hread _ _ _

/-- So does the loop over the segments. -/
theorem keeps_verifySegments (eh : Elf32Ehdr) :
    ∀ is : List Nat, Keeps S (verifySegments sink f eh read is) := by
  intro is
  induction is with
  | nil => exact hrefl
  | cons i is ih =>
    rw [verifySegments]
    refine (keeps_readPhdr hrefl _ _ _).bind htrans fun ph s => ?_
    rw [ends_bind, ends_get]
    dsimp only
    split
    · exact (keeps_verifyRange hrefl htrans hread _ _ _).bind htrans (fun _ => ih) s
    · exact ih s

end

/-- What every callback of a sink keeps is kept by the load behind the erase. -/
theorem keeps_loadSegments (eh : Elf32Ehdr)
    (hwrite : ∀ addr data s ok s', sink.write addr data s = .ok (ok, s') → S s s')
    (hcomplete : ∀ s ok s', sink.complete s = .ok (ok, s') → S s s')
    (hread : ∀ read, sink.read = some read → ∀ addr len s, S s (read addr len s).2) :
    Keeps S (loadSegments sink f eh) := by
  unfold loadSegments
  refine (keeps_segmentLoop hrefl htrans hwrite _ _ _ _).bind htrans fun x => ?_
  refine (keeps_callSink hrefl hcomplete).bind htrans fun ok => ?_
  refine (keeps_failUnless hrefl _ _).bind htrans fun _ => ?_
  cases hr : sink.read with
  | none => exact hrefl
  | some read =>
    exact (keeps_verifySegments hrefl htrans (hread read hr) _ _).bind htrans fun _ => hrefl

end

end Blackmagic
