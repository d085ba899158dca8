import Blackmagic.Session.Exception

/-!
# Blocks that come to their end keep the chain of frames

A program keeps the discipline when it returns with the chain as it was, or jumps to the first frame
of the chain that takes the exception (`Disciplined`). `disciplined_inFunction` is the rule for a
function with a block whose body comes to its end; a body that is left by `break` has no such rule,
since nothing unlinks its frame.
-/

namespace Blackmagic

open Effect

/-! ## Chains of frames -/

/-- From a pointer, the outer pointers lead through the frames of a list. -/
def Linked (mem : Nat → ExceptionFrame) : Option Nat → List Nat → Prop
  | p, [] => p = none
  | p, a :: l => p = some a ∧ Linked mem (mem a).outer l

/-- A chain depends on the outer pointers of its frames only. -/
theorem Linked.congr {mem mem' : Nat → ExceptionFrame} : ∀ {l : List Nat} {p : Option Nat},
    Linked mem p l → (∀ a ∈ l, (mem' a).outer = (mem a).outer) → Linked mem' p l
  | [], _, h, _ => h
  | a :: _, _, h, hsame => by
    refine ⟨h.1, ?_⟩
    rw [hsame a List.mem_cons_self]
    exact Linked.congr h.2 fun b hb => hsame b (List.mem_cons_of_mem a hb)

/-- It starts at its pointer. -/
theorem Linked.head {mem : Nat → ExceptionFrame} {p : Option Nat} {l : List Nat}
    (h : Linked mem p l) :
    p = l.head? := by
  cases l with
  | nil => exact h
  | cons a l => exact h.1

/-- The frames of a chain are those that can be reached. -/
theorem Linked.reaches {f : Frames} {a : Nat} (ha : f.Reaches a) :
    ∀ {l : List Nat}, Linked f.mem f.innermost l → ∃ l₁ l₂, l = l₁ ++ a :: l₂ ∧
      Linked f.mem (f.mem a).outer l₂ := by
  induction ha with
  | innermost h =>
    intro l hl
    cases l with
    | nil =>
      rw [h] at hl
      cases hl
    | cons b l =>
      obtain ⟨hb, hl⟩ := hl
      rw [h] at hb
      cases hb
      exact ⟨[], l, rfl, hl⟩
  | @outer a _ _ h ih =>
    intro l hl
    obtain ⟨l₁, l₂, rfl, hl₂⟩ := ih hl
    cases l₂ with
    | nil =>
      rw [h] at hl₂
      cases hl₂
    | cons b l₂ =>
      obtain ⟨hb, hl₂⟩ := hl₂
      rw [h] at hb
      cases hb
      exact ⟨l₁ ++ [a], l₂, by simp, hl₂⟩

/-- The chain from `innermost_exception`: frames of functions that have not returned, in the order
they were called in. Frames called later stand higher. -/
structure Frames.Chained (f : Frames) (l : List Nat) : Prop where
  linked : Linked f.mem f.innermost l
  live : l.Sublist f.live
  sorted : f.live.Pairwise (· > ·)

/-- Frames in a chain are safe. -/
theorem Frames.Chained.safe {f : Frames} {l : List Nat} (h : f.Chained l) : f.Safe := by
  intro a ha
  obtain ⟨l₁, l₂, rfl, -⟩ := Linked.reaches ha h.linked
  exact h.live.subset (by simp)

/-- The search of `raise_exception` goes through the chain. -/
theorem findHandler_linked {mem : Nat → ExceptionFrame} {type : UInt32} :
    ∀ {fuel : Nat} {l : List Nat} {p : Option Nat} {a : Nat}, Linked mem p l →
      findHandler mem type fuel p = some (some a) →
      ∃ l₁ l₂, l = l₁ ++ a :: l₂ ∧ Linked mem (mem a).outer l₂ ∧
        (∀ b ∈ l₁, (mem b).mask &&& type = 0) ∧ (mem a).mask &&& type ≠ 0 := by
  intro fuel
  induction fuel with
  | zero =>
    intro l p a hl h
    cases p with
    | none => cases h
    | some b => cases h
  | succ fuel ih =>
    intro l p a hl h
    cases l with
    | nil =>
      rw [show p = none from hl] at h
      cases h
    | cons b l =>
      obtain ⟨rfl, hl⟩ := hl
      rw [findHandler] at h
      split at h
      · next hmask =>
        cases h
        exact ⟨[], l, rfl, hl, by simp, hmask⟩
      · next hmask =>
        obtain ⟨l₁, l₂, rfl, hl₂, hbefore, ha⟩ := ih hl h
        refine ⟨b :: l₁, l₂, rfl, hl₂, ?_, ha⟩
        intro c hc
        rcases List.mem_cons.1 hc with rfl | hc
        · exact Decidable.not_not.1 hmask
        · exact hbefore c hc

/-! ## What a program does to the frames -/

/-- A program that returns has put everything back. -/
structure Returns (f : Frames) (s' : ExcState) : Prop where
  live : s'.frames.live = f.live
  innermost : s'.frames.innermost = f.innermost
  frames : ∀ a ∈ f.live, s'.frames.mem a = f.mem a
  kept : Kept s'

/-- A program that jumps goes to the first frame of the chain `l` that takes the exception; what the
chain was behind that frame is the chain now. -/
structure Jumps (l : List Nat) (T : UInt32 → Prop) (a : Nat) (f : Frames) (s' : ExcState) :
    Prop where
  taken : ∃ type l₁ l₂, T type ∧ l = l₁ ++ a :: l₂ ∧ (∀ b ∈ l₁, (f.mem b).mask &&& type = 0) ∧
    (f.mem a).mask &&& type ≠ 0 ∧ Linked s'.frames.mem s'.frames.innermost l₂ ∧
    (s'.frames.mem a).type = type
  live : ∃ called, s'.frames.live = called ++ f.live
  sorted : s'.frames.live.Pairwise (· > ·)
  outer : ∀ b ∈ f.live, (s'.frames.mem b).outer = (f.mem b).outer
  frames : ∀ b ∈ f.live, b ≠ a → s'.frames.mem b = f.mem b

/-- However a program leaves, it never jumps to a dead frame. -/
def Leaves (l : List Nat) (T : UInt32 → Prop) (f : Frames) (u : Unwind) (s' : ExcState) : Prop :=
  Kept s' ∧ match u with
    | .jump a => Jumps l T a f s'
    | .deadFrame _ => False
    | .abort => True
    | .spins => True

/-- A program keeps the discipline. Where it returns it does so with a result in `P`, and where it
jumps the exception has a type in `T`. -/
def Disciplined {α : Type} (m : ExcM α) (P : α → Prop) (T : UInt32 → Prop) : Prop :=
  ∀ s l, s.frames.Chained l → Kept s →
    Ends m s (fun a s' => P a ∧ Returns s.frames s') fun u s' => Leaves l T s.frames u s'

section
variable {α β : Type} {m : ExcM α} {f : Frames} {s s' s₁ : ExcState} {l : List Nat}
  {P P' : α → Prop}
  {T T' : UInt32 → Prop}

/-- The rule for a change of the frames. -/
@[simp] theorem ends_onFrames {g : Frames → Frames} {Q : Unit → ExcState → Prop}
    {E : Unwind → ExcState → Prop} : Ends (onFrames g) s Q E ↔
      Q () { s with frames := g s.frames, seen := s.seen ++ [g s.frames] } := Iff.rfl

/-- The rule for output. -/
@[simp] theorem ends_say {o : ExcOut} {Q : Unit → ExcState → Prop} {E : Unwind → ExcState → Prop} :
    Ends (say o) s Q E ↔ Q () { s with out := s.out ++ [o] } := Iff.rfl

/-- A state of the frames that is a chain is noted. -/
theorem Kept.note (h : Kept s) (hf : f.Chained l) :
    Kept { s with frames := f, seen := s.seen ++ [f] } := by
  refine ⟨h.done, fun g hg => ?_⟩
  rcases List.mem_append.1 hg with hg | hg
  · exact h.seen g hg
  · rw [List.mem_singleton.1 hg]
    exact hf.safe

/-- Nothing was changed. -/
theorem Returns.refl (h : Kept s) : Returns s.frames s := ⟨rfl, rfl, fun _ _ => rfl, h⟩

/-- Two programs that put everything back. -/
theorem Returns.trans (h : Returns f s₁) (h' : Returns s₁.frames s') : Returns f s' where
  live := h'.live.trans h.live
  innermost := h'.innermost.trans h.innermost
  frames a ha := (h'.frames a (h.live ▸ ha)).trans (h.frames a ha)
  kept := h'.kept

/-- After a program has returned, the chain is what it was. -/
theorem Returns.chained (h : Returns f s') (hs : f.Chained l) : s'.frames.Chained l where
  linked := by
    rw [h.innermost]
    exact hs.linked.congr fun a ha => by rw [h.frames a (hs.live.subset ha)]
  live := h.live ▸ hs.live
  sorted := h.live ▸ hs.sorted

/-- A program that leaves after another one has returned. -/
theorem Leaves.after {u : Unwind} (h : Returns f s₁) (hs : f.Chained l)
    (h' : Leaves l T s₁.frames u s') : Leaves l T f u s' := by
  obtain ⟨hkept, h'⟩ := h'
  refine ⟨hkept, ?_⟩
  cases u with
  | jump a =>
    obtain ⟨⟨type, l₁, l₂, ht, rfl, hbefore, ha, hlink, htype⟩, ⟨called, hcalled⟩, hsort, hout,
      hfr⟩ := h'
    have hmem : ∀ b ∈ l₁ ++ a :: l₂, s₁.frames.mem b = f.mem b := fun b hb =>
      h.frames b (hs.live.subset hb)
    refine ⟨⟨type, l₁, l₂, ht, rfl, fun b hb => ?_, ?_, hlink, htype⟩, ⟨called, ?_⟩, hsort, ?_, ?_⟩
    · rw [← hmem b (List.mem_append_left _ hb)]
      exact hbefore b hb
    · rw [← hmem a (by simp)]
      exact ha
    · rw [hcalled, h.live]
    · intro b hb
      rw [hout b (h.live ▸ hb), h.frames b hb]
    · intro b hb hne
      rw [hfr b (h.live ▸ hb) hne, h.frames b hb]
  | deadFrame a => exact h'
  | abort => trivial
  | spins => trivial

/-- A weaker condition on the types. -/
theorem Leaves.imp {u : Unwind} (h : Leaves l T f u s') (ht : ∀ type, T type → T' type) :
    Leaves l T' f u s' := by
  refine ⟨h.1, ?_⟩
  cases u with
  | jump a =>
    obtain ⟨⟨type, l₁, l₂, htype, h⟩, hlive, hsort, hout, hfr⟩ := h.2
    exact ⟨⟨type, l₁, l₂, ht type htype, h⟩, hlive, hsort, hout, hfr⟩
  | deadFrame a => exact h.2
  | abort => trivial
  | spins => trivial

/-- Weaker conditions on results and types. -/
theorem Disciplined.imp (h : Disciplined m P T) (hp : ∀ a, P a → P' a)
    (ht : ∀ type, T type → T' type) :
    Disciplined m P' T' := fun s l hs hk =>
  (h s l hs hk).imp (fun a _ h => ⟨hp a h.1, h.2⟩) fun _ _ h => h.imp ht

/-- A value keeps the discipline. -/
theorem disciplined_pure {a : α} (h : P a) : Disciplined (pure a) P T := fun _ _ _ hk =>
  ⟨h, Returns.refl hk⟩

/-- So do two programs in a row. -/
theorem Disciplined.bind {k : α → ExcM β} {Q : β → Prop} (hm : Disciplined m P T)
    (hk : ∀ a, P a → Disciplined (k a) Q T) : Disciplined (m >>= k) Q T := by
  intro s l hs hkept
  rw [ends_bind]
  refine (hm s l hs hkept).imp (fun a s₁ h => ?_) fun _ _ h => h
  refine (hk a h.1 s₁ l (h.2.chained hs) h.2.kept).imp (fun b s' h' => ?_) fun u s' h' => ?_
  · exact ⟨h'.1, h.2.trans h'.2⟩
  · exact h'.after h.2 hs

/-- So does output. -/
theorem disciplined_say {o : ExcOut} : Disciplined (say o) (fun _ => True) T := fun _ _ _ hk =>
  ⟨trivial, rfl, rfl, fun _ _ => rfl, hk.done, hk.seen⟩

/-- A frame that takes an exception stays where it is in the chain. -/
theorem outer_update (mem : Nat → ExceptionFrame) (a b : Nat) (type : UInt32) (msg : String) :
    (Function.update mem a { mem a with type := type, msg := msg } b).outer = (mem b).outer := by
  by_cases hb : b = a
  · rw [hb, Function.update_self]
  · rw [Function.update_of_ne hb]

/-- An exception is taken by the first frame of the chain that has its type in the mask. -/
theorem disciplined_raise {fuel : Nat} {type : UInt32} {msg : String} (h : T type) :
    Disciplined (raiseException fuel type msg : ExcM α) P T := by
  intro s l hs hk
  simp only [raiseException, ends_bind, ends_get]
  split
  · exact ⟨hk, trivial⟩
  · exact ⟨hk, trivial⟩
  · next a hfind =>
    obtain ⟨l₁, l₂, rfl, hl₂, hbefore, ha⟩ := findHandler_linked hs.linked hfind
    have hlive : a ∈ s.frames.live := hs.live.subset (by simp)
    have hlink : ∀ {q l'}, Linked s.frames.mem q l' → Linked (Function.update s.frames.mem a
        { s.frames.mem a with type := type, msg := msg }) q l' := fun h =>
      h.congr fun b _ => outer_update _ a b type msg
    have hchain : Frames.Chained { s.frames with
        mem := Function.update s.frames.mem a { s.frames.mem a with type := type, msg := msg },
        innermost := (s.frames.mem a).outer } l₂ :=
      ⟨hlink hl₂, (List.sublist_cons_self a l₂).trans
        ((List.sublist_append_right l₁ _).trans hs.live),
        hs.sorted⟩
    simp only [ends_bind, ends_onFrames, if_pos hlive, ends_throw]
    refine ⟨hk.note hchain, ⟨type, l₁, l₂, h, rfl, hbefore, ha, hlink hl₂, ?_⟩, ⟨[], rfl⟩,
      hs.sorted,
      fun b _ => outer_update _ a b type msg, fun b _ hne => Function.update_of_ne hne _ _⟩
    dsimp only
    rw [Function.update_self]

end

section
variable {α β : Type} {fuel e gap : Nat} {mask : UInt32} {init : α} {s : ExcState} {l L : List Nat}
  {P : α → Prop} {T : UInt32 → Prop} {body : ExcM (BlockEnd × α)}

/-- The body of a block came to its end, with a value in `P`. -/
def Ended (P : α → Prop) (r : BlockEnd × α) : Prop := r.1 = .ends ∧ P r.2

/-- What holds after a block: its body came to the end, or an exception was caught. -/
def Caught (P : α → Prop) (T : UInt32 → Prop) (mask : UInt32) (init a : α) (type : UInt32) : Prop :=
  type = 0 ∧ P a ∨ a = init ∧ T type ∧ mask &&& type ≠ 0

/-- What a block leaves behind in the function that its frame belongs to. -/
structure Returned (L : List Nat) (f : Frames) (s' : ExcState) : Prop where
  live : s'.frames.live = f.live
  innermost : s'.frames.innermost = f.innermost
  frames : ∀ a ∈ L, s'.frames.mem a = f.mem a
  kept : Kept s'

/-- The top frame is called once. -/
theorem Frames.Chained.not_mem {f : Frames} (hf : f.Chained l) (hlive : f.live = e :: L) :
    e ∉ L := by
  intro h
  have hsort := hf.sorted
  rw [hlive] at hsort
  exact absurd ((List.pairwise_cons.1 hsort).1 e h) (lt_irrefl e)

/-- The state in which the body of a block starts: its frame is the head of the chain. -/
theorem Frames.Chained.enter {f : Frames} (hf : f.Chained l) (hlive : f.live = e :: L)
    (hl : l.Sublist L) : Frames.Chained { f with
      mem := Function.update f.mem e { f.mem e with type := 0, mask := mask, outer := f.innermost },
      innermost := some e } (e :: l) := by
  have hnot := hf.not_mem hlive
  refine ⟨⟨rfl, ?_⟩, ?_, hf.sorted⟩
  · dsimp only
    rw [Function.update_self]
    refine hf.linked.congr fun a ha => ?_
    rw [Function.update_of_ne (by rintro rfl; exact hnot (hl.subset ha))]
  · rw [hlive]
    exact hl.cons_cons e

/-- The loop of a block whose body comes to its end goes round once. -/
theorem ends_protectedLoop {s₁ : ExcState} (hbody : Disciplined body (Ended P) T)
    (hs : s.frames.Chained l) (hlive : s.frames.live = e :: L) (hl : l.Sublist L)
    (h₁ : s₁.frames = { s.frames with
      mem := Function.update s.frames.mem e
        { s.frames.mem e with type := 0, mask := mask, outer := s.frames.innermost },
      innermost := some e }) (hk : Kept s₁) :
    Ends (protectedLoop e body fuel init) s₁
      (fun a s' => ((s'.frames.mem e).type = 0 ∧ P a) ∧ Returned L s.frames s')
      fun u s' => Leaves (e :: l) T s₁.frames u s' := by
  have hnot := hs.not_mem hlive
  have hchain : s₁.frames.Chained (e :: l) := by
    rw [h₁]
    exact hs.enter hlive hl
  cases fuel with
  | zero => exact ⟨hk, trivial⟩
  | succ fuel =>
    have hin : s₁.frames.innermost = some e := by rw [h₁]
    simp only [protectedLoop, ends_bind, ends_get, hin, if_true]
    refine (hbody s₁ (e :: l) hchain hk).imp (fun r s₂ h => ?_) fun _ _ h => h
    obtain ⟨⟨hend, hP⟩, hret⟩ := h
    obtain ⟨kind, a⟩ := r
    obtain rfl : kind = .ends := hend
    have hframe : s₂.frames.mem e = s₁.frames.mem e := hret.frames e (by rw [h₁]; simp [hlive])
    have houter : (s₂.frames.mem e).outer = s.frames.innermost := by
      rw [hframe, h₁]
      simp
    have hchain₂ : Frames.Chained { s₂.frames with innermost := (s₂.frames.mem e).outer } l := by
      have h := hret.chained hchain
      exact ⟨h.linked.2, (List.sublist_cons_self e l).trans h.live, h.sorted⟩
    have hkept := hret.kept.note hchain₂
    simp only [ends_bind, ends_onFrames]
    cases fuel with
    | zero => exact ⟨hkept, trivial⟩
    | succ fuel =>
      -- the chain behind the frame does not begin with it
      have hout : s.frames.innermost ≠ some e := by
        rw [hs.linked.head]
        exact fun h => hnot (hl.subset (List.mem_of_mem_head? h))
      simp only [protectedLoop, ends_bind, ends_get, houter, if_neg hout, ends_pure]
      refine ⟨⟨?_, hP⟩, ?_, rfl, fun b hb => ?_, ?_⟩
      · rw [hframe, h₁]
        simp
      · rw [hret.live, h₁]
      · have hne : b ≠ e := by
          rintro rfl
          exact hnot hb
        rw [hret.frames b (by rw [h₁]; simp [hlive, hb]), h₁]
        exact Function.update_of_ne hne _ _
      · rw [houter] at hkept
        exact hkept

/-- A block whose body comes to its end, or raises an exception. -/
theorem ends_tryCatch (hbody : Disciplined body (Ended P) T)
    (hs : s.frames.Chained l) (hlive : s.frames.live = e :: L) (hl : l.Sublist L) (hk : Kept s) :
    Ends (tryCatch fuel e mask init body) s
      (fun a s' => Caught P T mask init a (s'.frames.mem e).type ∧ Returned L s.frames s')
      fun u s' => Leaves l (fun type => T type ∧ mask &&& type = 0)
        { s.frames with live := L } u s' := by
  have hnot := hs.not_mem hlive
  simp only [tryCatch, ends_bind, ends_onFrames]
  rw [ends_tryCatchThe]
  refine (ends_protectedLoop hbody hs hlive hl rfl (hk.note (hs.enter hlive hl))).imp
    (fun a s' h => ⟨.inl h.1, h.2⟩) fun u s' h => ?_
  obtain ⟨hkept, h⟩ := h
  cases u with
  | deadFrame a => exact h.elim
  | abort => exact ⟨hkept, trivial⟩
  | spins => exact ⟨hkept, trivial⟩
  | jump a =>
    obtain ⟨⟨type, l₁, l₂, ht, heq, hbefore, ha, hlink, htype⟩, ⟨called, hcalled⟩, hsort, hout,
      hfr⟩ := h
    dsimp only at hbefore ha hcalled hout hfr
    rw [hlive] at hcalled hout hfr
    have hsame : ∀ b ∈ L, Function.update s.frames.mem e { s.frames.mem e with
        type := 0, mask := mask, outer := s.frames.innermost } b = s.frames.mem b := fun b hb =>
      Function.update_of_ne (by rintro rfl; exact hnot hb) _ _
    cases l₁ with
    | nil =>
      -- the exception is for this frame
      cases heq
      rw [Function.update_self] at ha
      have hcut : s'.frames.live.dropWhile (· ≠ e) = e :: L := by
        rw [hcalled, List.dropWhile_append_of_pos, List.dropWhile_cons]
        · simp
        · intro b hb
          rw [hcalled] at hsort
          have := (List.pairwise_append.1 hsort).2.2 b hb e List.mem_cons_self
          exact decide_eq_true (Nat.ne_of_gt this)
      have hchain : Frames.Chained { s'.frames with live := s'.frames.live.dropWhile (· ≠ e) }
          l := by
        refine ⟨hlink, ?_, ?_⟩
        · rw [hcut]
          exact hl.cons e
        · rw [hcut, ← hlive]
          exact hs.sorted
      simp only [if_true, ends_bind, ends_onFrames, ends_pure]
      refine ⟨.inr ⟨rfl, ?_, ?_⟩, ?_, ?_, fun b hb => ?_, hkept.note hchain⟩
      · rw [htype]
        exact ht
      · rw [htype]
        exact ha
      · rw [hlive]
        exact hcut
      · rw [hs.linked.head]
        exact hlink.head
      · have hne : b ≠ e := by
          rintro rfl
          exact hnot hb
        rw [hfr b (List.mem_cons_of_mem e hb) hne, hsame b hb]
    | cons b l₁ =>
      -- the exception is for a frame further out
      obtain ⟨rfl, rfl⟩ := List.cons.inj heq
      have hlL : ∀ b ∈ l₁ ++ a :: l₂, b ∈ L := fun b hb => hl.subset hb
      have hne : a ≠ e := by
        rintro rfl
        exact hnot (hlL a (by simp))
      have hmask := hbefore e List.mem_cons_self
      rw [Function.update_self] at hmask
      rw [hsame a (hlL a (by simp))] at ha
      simp only [if_neg hne, ends_throw]
      refine ⟨hkept, ⟨type, l₁, l₂, ⟨ht, hmask⟩, rfl, fun b hb => ?_, ha, hlink, htype⟩,
        ⟨called ++ [e], by simp [hcalled]⟩, hsort, fun b hb => ?_, fun b hb hba => ?_⟩
      · rw [← hsame b (hlL b (List.mem_append_left _ hb))]
        exact hbefore b (List.mem_cons_of_mem e hb)
      · rw [hout b (List.mem_cons_of_mem e hb), hsame b hb]
      · rw [hfr b (List.mem_cons_of_mem e hb) hba, hsame b hb]

/-- A function with a block, and what it does once the block is over. -/
theorem disciplined_inFunction {k : Nat → α → ExcM β} {Q : β → Prop}
    (hbody : Disciplined body (Ended P) T)
    (hk : ∀ e a s, Kept s → Caught P T mask init a (s.frames.mem e).type →
      Ends (k e a) s (fun b s' => Q b ∧ s'.frames = s.frames ∧ Kept s') fun _ _ => False) :
    Disciplined (inFunction gap fun e => tryCatch fuel e mask init body >>= k e) Q
      fun type => T type ∧ mask &&& type = 0 := by
  intro s l hs hkept
  generalize he : s.frames.live.headD 0 + 1 + gap = e
  have habove : ∀ a ∈ s.frames.live, e > a := by
    have hsort := hs.sorted
    intro a ha
    cases hlive : s.frames.live with
    | nil => simp [hlive] at ha
    | cons b live =>
      rw [hlive] at ha hsort he
      simp only [List.headD_cons] at he
      rcases List.mem_cons.1 ha with rfl | ha
      · omega
      · have := (List.pairwise_cons.1 hsort).1 a ha
        omega
  have hnot : e ∉ s.frames.live := fun h => absurd (habove e h) (lt_irrefl e)
  have hpush : Frames.Chained { s.frames with live := e :: s.frames.live } l :=
    ⟨hs.linked, hs.live.cons e, List.pairwise_cons.2 ⟨habove, hs.sorted⟩⟩
  simp only [inFunction, ends_bind, ends_get, he, ends_onFrames, ends_pure]
  refine (ends_tryCatch hbody hpush rfl hs.live (hkept.note hpush)).imp (fun a s₁ h => ?_)
    fun u s' h => h
  obtain ⟨hcaught, hret⟩ := h
  refine (hk e a s₁ hret.kept hcaught).imp (fun b s₂ h => ?_) fun _ _ h => h.elim
  obtain ⟨hQ, hframes, hkept₂⟩ := h
  have hlive : s₂.frames.live = e :: s.frames.live := by rw [hframes, hret.live]
  have hchain : Frames.Chained { s₂.frames with live := s₂.frames.live.tail } l := by
    rw [hlive, hframes, List.tail_cons]
    refine ⟨?_, hs.live, hs.sorted⟩
    dsimp only
    rw [hret.innermost]
    exact hs.linked.congr fun a ha => by rw [hret.frames a (hs.live.subset ha)]
  refine ⟨hQ, ?_, ?_, fun a ha => ?_, hkept₂.note hchain⟩
  · rw [hlive, List.tail_cons]
  · rw [hframes, hret.innermost]
  · rw [hframes, hret.frames a ha]

end

/-! ## The commands keep the discipline -/

section
variable {T : UInt32 → Prop} {fuel gap : Nat}

/-- Programs that only read the frames. -/
theorem ends_reportScan {e : Nat} {s : ExcState} (hk : Kept s) :
    Ends (reportScan e) s (fun _ s' => s'.frames = s.frames ∧ Kept s') fun _ _ => False := by
  simp only [reportScan, ends_bind, ends_get]
  split
  · exact ⟨rfl, hk.done, hk.seen⟩
  · split
    · exact ⟨rfl, hk.done, hk.seen⟩
    · exact ⟨rfl, hk⟩

/-- The end of a scan puts everything back. -/
theorem ends_endScan {result : Bool} {failed : String} {s : ExcState} (hk : Kept s) :
    Ends (endScan result failed) s (fun _ s' => s'.frames = s.frames ∧ Kept s')
      fun _ _ => False := by
  cases result with
  | true => exact ⟨rfl, hk⟩
  | false => exact ⟨rfl, hk.done, hk.seen⟩

/-- A function that is called in a block ends as `Code.result` says. -/
theorem disciplined_eval (c : Code) :
    Disciplined (c.eval fuel) (fun b => c.result = .ok b) fun type => c.result = .error type := by
  induction c with
  | ret b => exact disciplined_pure rfl
  | raise type msg => exact disciplined_raise rfl
  | protect gap mask body next ihbody ihnext =>
    have hbody : Disciplined (body.eval fuel >>= fun _ => pure (BlockEnd.ends, ()))
        (Ended fun _ => ∃ b, body.result = .ok b) fun type => body.result = .error type :=
      ihbody.bind fun b hb => disciplined_pure ⟨rfl, b, hb⟩
    have hcalled : Disciplined (inFunction gap fun e => do
          tryCatch fuel e mask () do
            let _ ← body.eval fuel
            return (BlockEnd.ends, ())
          return ((← get).frames.mem e).type)
        (Caught (fun _ => ∃ b, body.result = .ok b) (fun type => body.result = .error type) mask
          () ())
        fun type => body.result = .error type ∧ mask &&& type = 0 :=
      disciplined_inFunction hbody fun e a s hk hcaught => ⟨hcaught, rfl, hk⟩
    unfold Code.eval
    refine (hcalled.imp (fun _ h => h) ?_).bind fun type htype => ?_
    · rintro type ⟨herr, hmask⟩
      simp [Code.result, herr, hmask]
    · have hresult : (Code.protect gap mask body next).result = (next type).result := by
        rcases htype with ⟨rfl, b, hb⟩ | ⟨-, herr, hmask⟩
        · simp [Code.result, hb]
        · simp [Code.result, herr, hmask]
      rw [hresult]
      exact ihnext type

/-- The exceptions that a command does not catch are those of its body that its mask leaves out. -/
theorem ExcCmd.uncaught_eq_some {c : ExcCmd} {type : UInt32} :
    c.uncaught = some type ↔ c.result = .error type ∧ c.mask &&& type = 0 := by
  unfold ExcCmd.uncaught
  split
  · next b hb => simp [hb]
  · next t ht =>
    rw [ht]
    split
    · next hmask =>
      constructor
      · rintro ⟨⟩
        exact ⟨rfl, hmask⟩
      · rintro ⟨⟨⟩, -⟩
        rfl
    · next hmask =>
      constructor
      · rintro ⟨⟩
      · rintro ⟨⟨⟩, h⟩
        exact absurd h hmask

/-- A command returns after the body did. -/
theorem ExcCmd.uncaught_of_ok {c : ExcCmd} (h : ∃ b, c.result = .ok b) : c.uncaught = none := by
  obtain ⟨b, hb⟩ := h
  rw [ExcCmd.uncaught, hb]

/-- A command returns after its block caught an exception. -/
theorem ExcCmd.uncaught_of_mask {c : ExcCmd} {type : UInt32} (h : c.result = .error type)
    (hmask : c.mask &&& type ≠ 0) : c.uncaught = none := by
  rw [ExcCmd.uncaught, h]
  exact if_neg hmask

/-- A command with a block whose body comes to its end. -/
theorem disciplined_block {α : Type} {c : ExcCmd} {init : α} {body : ExcM (BlockEnd × α)}
    {β : Type} {k : Nat → α → ExcM β}
    (hbody : Disciplined body (Ended fun _ => ∃ b, c.result = .ok b) fun type =>
      c.result = .error type)
    (hk : ∀ e a s, Kept s → Ends (k e a) s (fun _ s' => s'.frames = s.frames ∧ Kept s')
      fun _ _ => False) :
    Disciplined (inFunction gap fun e => tryCatch fuel e c.mask init body >>= k e)
      (fun _ => c.uncaught = none) fun type => c.uncaught = some type := by
  refine (disciplined_inFunction hbody fun e a s hkept hcaught => ?_).imp (fun _ h => h)
    fun _ h => ExcCmd.uncaught_eq_some.2 h
  have hreturns : c.uncaught = none := by
    rcases hcaught with ⟨-, hok⟩ | ⟨-, herr, hmask⟩
    · exact ExcCmd.uncaught_of_ok hok
    · exact ExcCmd.uncaught_of_mask herr hmask
  exact (hk e a s hkept).imp (fun _ _ h => ⟨hreturns, h⟩) fun _ _ h => h

/-- The block of a scan comes to its end. -/
theorem disciplined_scan (c : Code) : Disciplined (do
    let result ← c.eval fuel
    return (BlockEnd.ends, result)) (Ended fun _ => ∃ b, c.result = .ok b) fun type =>
      c.result = .error type :=
  (disciplined_eval c).bind fun b hb => disciplined_pure ⟨rfl, b, hb⟩

/-- The end of the commands that report every exception. -/
theorem ends_report {e : Nat} {result : Bool} {failed : String} {s : ExcState} (hk : Kept s) :
    Ends (reportScan e >>= fun _ => endScan result failed) s
      (fun _ s' => s'.frames = s.frames ∧ Kept s') fun _ _ => False := by
  rw [ends_bind]
  refine (ends_reportScan hk).imp (fun _ s' h => ?_) fun _ _ h => h
  rw [← h.1]
  exact ends_endScan h.2

/-- The commands that make one scan. -/
theorem disciplined_scanCommand {c : ExcCmd} {scan : Code} (failed : String)
    (hresult : c.result = scan.result) (hmask : c.mask = exceptionAll) :
    Disciplined (scanCommand failed fuel gap scan) (fun _ => c.uncaught = none)
      fun type => c.uncaught = some type := by
  have hbody : Disciplined (do
      let result ← scan.eval fuel
      return (BlockEnd.ends, result)) (Ended fun _ => ∃ b, c.result = .ok b) fun type =>
        c.result = .error type := by
    rw [hresult]
    exact disciplined_scan scan
  unfold scanCommand scanBlock
  rw [← hmask]
  exact disciplined_block hbody fun _ _ _ hk => ends_report hk

/-- `emulate` keeps the discipline. -/
theorem disciplined_cmdEmulate (c : Code) :
    Disciplined (cmdEmulate fuel gap c) (fun _ => (ExcCmd.emulate gap c).uncaught = none)
      fun type => (ExcCmd.emulate gap c).uncaught = some type := by
  refine disciplined_block (c := .emulate gap c) (disciplined_scan c) fun e a s hk => ?_
  simp only [ends_bind, ends_get]
  split
  · rw [ends_bind, ends_say]
    exact ends_endScan ⟨hk.done, hk.seen⟩
  · exact ends_endScan hk

/-- `cmd_auto_scan` when no scan finds anything. -/
theorem disciplined_cmdAutoScan {jtag swd : Code} (h : (ExcCmd.autoScan gap jtag swd).NoBreak) :
    Disciplined (cmdAutoScan fuel gap jtag swd)
      (fun _ => (ExcCmd.autoScan gap jtag swd).uncaught = none)
      fun type => (ExcCmd.autoScan gap jtag swd).uncaught = some type := by
  refine disciplined_block (c := .autoScan gap jtag swd) ?_ fun _ _ _ hk => ends_report hk
  refine ((disciplined_eval jtag).imp (fun _ h => h) fun type herr => ?_).bind fun b hb => ?_
  · rw [ExcCmd.result, herr]
  cases b with
  | true => exact absurd hb h.1
  | false =>
    have hresult : (ExcCmd.autoScan gap jtag swd).result = swd.result := by
      rw [ExcCmd.result, hb]
    rw [hresult]
    refine disciplined_say.bind fun _ _ => ?_
    refine (disciplined_eval swd).bind fun b' hb' => ?_
    cases b' with
    | true => exact absurd hb' (h.2 hb)
    | false => exact disciplined_say.bind fun _ _ => disciplined_pure ⟨rfl, false, hb'⟩

/-- So does a packet of the remote protocol. -/
theorem disciplined_remotePacketProcess (kind : UInt8) (c : Code) :
    Disciplined (remotePacketProcess fuel gap kind c)
      (fun _ => (ExcCmd.remote gap kind c).uncaught = none)
      fun type => (ExcCmd.remote gap kind c).uncaught = some type := by
  unfold remotePacketProcess
  split
  · next hkind =>
    have hmask : (ExcCmd.remote gap kind c).mask = exceptionAll := by
      rw [ExcCmd.mask, if_pos hkind]
    rw [← hmask]
    refine disciplined_block
      ((disciplined_eval c).bind fun b hb => disciplined_pure ⟨rfl, b, hb⟩) fun e a s hk => ?_
    simp only [ends_bind, ends_get]
    split
    · exact ⟨rfl, hk.done, hk.seen⟩
    · exact ⟨rfl, hk⟩
  · next hkind =>
    refine ((disciplined_eval c).imp (fun _ h => h) fun type herr => ?_).bind fun b hb =>
      disciplined_pure (ExcCmd.uncaught_of_ok ⟨b, hb⟩)
    refine ExcCmd.uncaught_eq_some.2 ⟨herr, ?_⟩
    rw [ExcCmd.mask, if_neg hkind, UInt32.zero_and]

/-- A command that is not left by `break` keeps the discipline. -/
theorem disciplined_exec {c : ExcCmd} (h : c.NoBreak) :
    Disciplined (c.exec fuel) (fun _ => c.uncaught = none) fun type => c.uncaught = some type := by
  cases c with
  | jtagScan gap scan =>
    exact (disciplined_scanCommand _ rfl rfl).bind fun _ h => disciplined_pure h
  | swdScan gap scan =>
    exact (disciplined_scanCommand _ rfl rfl).bind fun _ h => disciplined_pure h
  | emulate gap scan => exact (disciplined_cmdEmulate scan).bind fun _ h => disciplined_pure h
  | autoScan gap jtag swd => exact (disciplined_cmdAutoScan h).bind fun _ h => disciplined_pure h
  | remote gap kind process => exact disciplined_remotePacketProcess kind process
  | other code =>
    refine ((disciplined_eval code).imp (fun _ h => h) fun type herr => ?_).bind fun b hb =>
      disciplined_pure (ExcCmd.uncaught_of_ok ⟨b, hb⟩)
    exact ExcCmd.uncaught_eq_some.2 ⟨herr, UInt32.zero_and⟩

/-- Such a command leaves `innermost_exception` as it was. -/
theorem disciplined_excCommand {c : ExcCmd} (h : c.NoBreak) :
    Disciplined (excCommand fuel c) (fun _ => c.uncaught = none)
      fun type => c.uncaught = some type := by
  intro s l hs hk
  simp only [excCommand, ends_bind, ends_get, ends_modify]
  refine (disciplined_exec h s l hs hk).imp (fun _ s' h => ?_) fun _ _ h => h
  obtain ⟨hreturns, hret⟩ := h
  refine ⟨hreturns, hret.live, hret.innermost, hret.frames, fun p hp => ?_, hret.kept.seen⟩
  rcases List.mem_append.1 hp with hp | hp
  · exact hret.kept.done p hp
  · rw [List.mem_singleton.1 hp]
    exact hret.innermost

/-- The commands of a poll: those behind one that does not return are never entered. -/
theorem disciplined_forM {cmds : List ExcCmd} (h : ∀ c ∈ ranCommands cmds, c.NoBreak) :
    Disciplined (cmds.forM (excCommand fuel)) (fun _ => cmds.findSome? ExcCmd.uncaught = none)
      fun type => cmds.findSome? ExcCmd.uncaught = some type := by
  induction cmds with
  | nil => exact disciplined_pure rfl
  | cons c cmds ih =>
    change Disciplined (excCommand fuel c >>= fun _ => cmds.forM (excCommand fuel)) _ _
    rw [ranCommands] at h
    refine ((disciplined_excCommand (h c List.mem_cons_self)).imp (fun _ h => h)
      fun type herr => ?_).bind fun _ hreturns => ?_
    · rw [List.findSome?_cons, herr]
    · rw [List.findSome?_cons, hreturns]
      rw [if_pos hreturns] at h
      exact ih fun c hc => h c (List.mem_cons_of_mem _ hc)

end

/-! ## Runs -/

/-- Between items, no block is entered, and `main` has not returned. -/
structure AtTop (m : Nat) (s : ExcState) : Prop where
  innermost : s.frames.innermost = none
  live : s.frames.live = [m]
  kept : Kept s

/-- Between items the chain is empty. -/
theorem AtTop.chained {m : Nat} {s : ExcState} (h : AtTop m s) : s.frames.Chained [] :=
  ⟨h.innermost, List.nil_sublist _, by rw [h.live]; exact List.pairwise_singleton _ m⟩

/-- An item whose commands are not left by `break` ends between items, or the program ends. -/
theorem ends_item {fuel m : Nat} {item : ExcItem} {s : ExcState} (hs : AtTop m s)
    (h : ∀ c ∈ item.ran, c.NoBreak) :
    Ends (item.exec fuel m) s (fun _ s' => AtTop m s' ∧ item.uncaught = none)
      fun u s' => Kept s' ∧ ∀ a, u ≠ .deadFrame a := by
  have hleaves : ∀ {T f u s'}, Leaves [] T f u s' → Kept s' ∧ ∀ a, u ≠ .deadFrame a := by
    intro T f u s' h
    refine ⟨h.1, ?_⟩
    rintro a rfl
    exact h.2
  cases item with
  | poll cmds =>
    have hbody : Disciplined (cmds.forM (excCommand fuel) >>= fun _ => pure (BlockEnd.ends, ()))
        (Ended fun _ => cmds.findSome? ExcCmd.uncaught = none)
        fun type => cmds.findSome? ExcCmd.uncaught = some type :=
      (disciplined_forM h).bind fun _ hnone => disciplined_pure ⟨rfl, hnone⟩
    simp only [ExcItem.exec]
    rw [ends_bind]
    refine (ends_tryCatch hbody hs.chained hs.live (List.Sublist.refl []) hs.kept).imp
      (fun _ s₁ h => ?_) fun _ _ h => hleaves h
    have htop : AtTop m s₁ := ⟨h.2.innermost.trans hs.innermost, h.2.live.trans hs.live, h.2.kept⟩
    have hreturns : (ExcItem.poll cmds).uncaught = none := by
      rw [ExcItem.uncaught]
      rcases h.1 with ⟨-, hnone⟩ | ⟨-, hsome, hmask⟩
      · rw [hnone]
        rfl
      · rw [hsome, Option.filter_some, if_neg (by simpa using hmask)]
    simp only [ends_bind, ends_get]
    split
    · exact ⟨⟨htop.innermost, htop.live, htop.kept.done, htop.kept.seen⟩, hreturns⟩
    · exact ⟨htop, hreturns⟩
  | repl cmd =>
    refine (disciplined_excCommand (h cmd List.mem_cons_self) s [] hs.chained hs.kept).imp
      (fun _ s' h => ?_) fun _ _ h => hleaves h
    exact ⟨⟨h.2.innermost.trans hs.innermost, h.2.live.trans hs.live, h.2.kept⟩, h.1⟩

/-- In every run in which no `cmd_auto_scan` that runs leaves its block by `break`, every command
leaves `innermost_exception` as it was, the frames that can be reached belong to functions that have
not returned, and no exception jumps into a dead frame. -/
theorem excRun_disciplined (fuel m : Nat) (mem : Nat → ExceptionFrame) (items : List ExcItem)
    (h : ∀ c ∈ ranItems items, c.NoBreak) :
    Ends (excRun fuel m items) (ExcState.boot m mem) (fun _ s => Kept s)
      fun u s => Kept s ∧ ∀ a, u ≠ .deadFrame a := by
  have hrun : ∀ s, AtTop m s → Ends (excRun fuel m items) s (fun _ s => Kept s)
      fun u s => Kept s ∧ ∀ a, u ≠ .deadFrame a := by
    unfold excRun
    induction items with
    | nil => exact fun s hs => hs.kept
    | cons item items ih =>
      intro s hs
      rw [ranItems] at h
      change Ends (item.exec fuel m >>= fun _ => items.forM (ExcItem.exec fuel m)) s _ _
      rw [ends_bind]
      refine (ends_item hs fun c hc => h c (List.mem_append_left _ hc)).imp
        (fun _ s' h' => ?_) fun _ _ h => h
      obtain ⟨htop, hreturns⟩ := h'
      rw [if_pos hreturns] at h
      exact ih (fun c hc => h c (List.mem_append_right _ hc)) s' htop
  exact hrun _ ⟨rfl, rfl, by simp [ExcState.boot], by simp [ExcState.boot]⟩

/-- Scans that find nothing, after one that raises an exception. An exception in the last poll keeps
the `auto_scan` behind it from running, which would find a device. -/
theorem excRun_disciplined_failures :
    Ends (excRun 2 0 [.poll [.jtagScan 0 (.raise exceptionError "JTAG-DP invalid ACK")],
        .poll [.autoScan 0 (.ret false) (.ret false)], .repl (.swdScan 3 (.ret true)),
        .poll [.other (.raise exceptionError "SWD invalid ACK"),
          .autoScan 0 (.ret true) (.ret true)]])
      (ExcState.boot 0 fun _ => ⟨0, "", 0, none⟩) (fun _ s => Kept s)
      fun u s => Kept s ∧ ∀ a, u ≠ .deadFrame a :=
  excRun_disciplined 2 0 _ _ (by
    have hran : ranItems [.poll [.jtagScan 0 (.raise exceptionError "JTAG-DP invalid ACK")],
        .poll [.autoScan 0 (.ret false) (.ret false)], .repl (.swdScan 3 (.ret true)),
        .poll [.other (.raise exceptionError "SWD invalid ACK"),
        .autoScan 0 (.ret true) (.ret true)]] =
        [.jtagScan 0 (.raise exceptionError "JTAG-DP invalid ACK"),
          .autoScan 0 (.ret false) (.ret false), .swdScan 3 (.ret true),
          .other (.raise exceptionError "SWD invalid ACK")] := rfl
    rw [hran]
    simp [ExcCmd.NoBreak, Code.result])

/-- `auto_scan` finds a device. The frame of `cmd_auto_scan` stays the innermost one after it has
returned, and the next exception outside of a block jumps into it. -/
theorem excRun_deadFrame :
    ¬ Ends (excRun 2 0 [.poll [.autoScan 0 (.ret true) (.ret false)]])
        (ExcState.boot 0 fun _ => ⟨0, "", 0, none⟩) (fun _ s => Kept s)
        (fun u s => Kept s ∧ ∀ a, u ≠ .deadFrame a) ∧
      ∃ s, excRun 2 0 [.repl (.autoScan 0 (.ret true) (.ret false)),
          .repl (.other (.raise exceptionError "SWD invalid ACK"))]
        (ExcState.boot 0 fun _ => ⟨0, "", 0, none⟩) = .error (.deadFrame 1) s := by
  have hrun : ∃ s, excRun 2 0 [.poll [.autoScan 0 (.ret true) (.ret false)]]
      (ExcState.boot 0 fun _ => ⟨0, "", 0, none⟩) = .ok () s ∧ s.done = [(some 0, some 1)] :=
    ⟨_, rfl, rfl⟩
  refine ⟨fun h => ?_, _, rfl⟩
  obtain ⟨s, hok, hdone⟩ := hrun
  have := (h.ok hok).done (some 0, some 1) (by rw [hdone]; simp)
  cases this

end Blackmagic
