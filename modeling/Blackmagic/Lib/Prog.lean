import Mathlib
import Blackmagic.Lib.Machine

/-!
# Programs that share their world

A program asks for operations of a world, one after the other. Others change the world between two
operations, and an operation can fail. `Safe` says that a program keeps an invariant of the world at
each of its operations, whatever the others do within what it relies on, and that it ends with a
property. `along_safe` is the rule for runs in which a program is called again and again.
-/

/-- A program: its result, or an operation and what follows its answer. -/
inductive Prog (Op : Type) (Ans : Op → Type) (α : Type) : Type
  | ret (a : α)
  | ask (o : Op) (k : Ans o → Prog Op Ans α)

namespace Prog

variable {Op : Type} {Ans : Op → Type} {W α β σ E I : Type}

/-- One program after the other. -/
def andThen : Prog Op Ans α → (α → Prog Op Ans β) → Prog Op Ans β
  | ret a, f => f a
  | ask o k, f => ask o fun x => (k x).andThen f

instance : Monad (Prog Op Ans) where
  pure := ret
  bind := andThen

/-- An operation. -/
def op (o : Op) : Prog Op Ans (Ans o) := ask o ret

/-- A world in which programs run: what an operation does, what the others may do, the outcomes that
are considered, what has to hold when an operation is asked for, and the invariant. -/
structure Setting (Op : Type) (Ans : Op → Type) (W : Type) where
  perform : W → (o : Op) → Bool → Ans o × W
  rely : W → W → Prop
  allowed : W → Op → Bool → Prop
  guard : W → Op → Prop
  inv : W → Prop
  rely_refl : ∀ w, rely w w
  rely_trans : ∀ w₁ w₂ w₃, rely w₁ w₂ → rely w₂ w₃ → rely w₁ w₃

variable (S : Setting Op Ans W)

/-- The program keeps the invariant and ends with `Q`. -/
def Safe (Q : α → W → Prop) : Prog Op Ans α → W → Prop
  | ret a, w => Q a w
  | ask o k, w => ∀ w', S.rely w w' → S.guard w' o ∧ ∀ fails, S.allowed w' o fails →
      S.inv (S.perform w' o fails).2 ∧ Safe Q (k (S.perform w' o fails).1) (S.perform w' o fails).2

variable {S} {Q Q' : α → W → Prop} {p : Prog Op Ans α} {w w' : W}

@[simp] theorem safe_pure (a : α) : Safe S Q (pure a : Prog Op Ans α) w ↔ Q a w := Iff.rfl

@[simp] theorem safe_bind {f : α → Prog Op Ans β} {Q : β → W → Prop} :
    Safe S Q (p >>= f) w ↔ Safe S (fun a w => Safe S Q (f a) w) p w := by
  induction p generalizing w with
  | ret a => exact Iff.rfl
  | ask o k ih =>
    refine forall_congr' fun w' => forall_congr' fun _ => and_congr_right fun _ => ?_
    exact forall_congr' fun fails => forall_congr' fun _ => and_congr_right fun _ => ih _

/-- An operation is safe when it is allowed in every state that others may leave. -/
@[simp] theorem safe_op {o : Op} {Q : Ans o → W → Prop} :
    Safe S Q (op o : Prog Op Ans (Ans o)) w ↔
      ∀ w', S.rely w w' → S.guard w' o ∧ ∀ fails, S.allowed w' o fails →
        S.inv (S.perform w' o fails).2 ∧ Q (S.perform w' o fails).1 (S.perform w' o fails).2 :=
  Iff.rfl

/-- A weaker postcondition. -/
theorem Safe.imp (h : Safe S Q p w) (hQ : ∀ a w, Q a w → Q' a w) : Safe S Q' p w := by
  induction p generalizing w with
  | ret a => exact hQ a w h
  | ask o k ih =>
    intro w' hw
    obtain ⟨hguard, hk⟩ := h w' hw
    exact ⟨hguard, fun fails hf => ⟨(hk fails hf).1, ih _ (hk fails hf).2⟩⟩

/-- What the others do keeps a program safe. -/
theorem Safe.rely (h : Safe S Q p w) (hQ : ∀ a w w', Q a w → S.rely w w' → Q a w')
    (hw : S.rely w w') : Safe S Q p w' := by
  cases p with
  | ret a => exact hQ a w w' h hw
  | ask o k => exact fun w'' hw' => h w'' (S.rely_trans _ _ _ hw hw')

/-! ## Whatever the answers are -/

/-- Every operation of the program has `P` and every result `R`, whatever the answers are. -/
def Asks (P : Op → Prop) (R : α → Prop) : Prog Op Ans α → Prop
  | ret a => R a
  | ask o k => P o ∧ ∀ x, Asks P R (k x)

section
variable {P : Op → Prop} {R : α → Prop}

@[simp] theorem asks_pure (a : α) : Asks P R (pure a : Prog Op Ans α) ↔ R a := Iff.rfl

@[simp] theorem asks_op {o : Op} {R : Ans o → Prop} :
    Asks P R (op o : Prog Op Ans (Ans o)) ↔ P o ∧ ∀ x, R x := Iff.rfl

@[simp] theorem asks_bind {f : α → Prog Op Ans β} {R : β → Prop} :
    Asks P R (p >>= f) ↔ Asks P (fun a => Asks P R (f a)) p := by
  induction p with
  | ret a => exact Iff.rfl
  | ask o k ih => exact and_congr_right fun _ => forall_congr' ih

/-- A weaker condition on the result. -/
theorem Asks.imp {R' : α → Prop} (h : Asks P R p) (hR : ∀ a, R a → R' a) : Asks P R' p := by
  induction p with
  | ret a => exact hR a h
  | ask o k ih => exact ⟨h.1, fun x => ih x (h.2 x)⟩

/-- The result when the operations are answered one after the other. -/
def answered (x : Nat → (o : Op) → Ans o) : Prog Op Ans α → Nat → α
  | ret a, _ => a
  | ask o k, n => (k (x n o)).answered x (n + 1)

/-- The result of answers of any kind. -/
theorem Asks.answered (h : Asks P R p) (x : Nat → (o : Op) → Ans o) (n : Nat) :
    R (p.answered x n) := by
  induction p generalizing n with
  | ret a => exact h
  | ask o k ih => exact ih _ (h.2 _) (n + 1)

/-- A program whose operations do no more than the others may do. -/
theorem Asks.safe (h : Asks P R p)
    (hop : ∀ w o, S.inv w → P o → S.guard w o ∧ ∀ fails, S.rely w (S.perform w o fails).2)
    (hkeep : ∀ w w', S.inv w → S.rely w w' → S.inv w') (hinv : S.inv w) :
    Safe S (fun a w' => R a ∧ S.rely w w') p w := by
  induction p generalizing w with
  | ret a => exact ⟨h, S.rely_refl w⟩
  | ask o k ih =>
    intro w' hw
    have hinv' := hkeep w w' hinv hw
    obtain ⟨hguard, hrely⟩ := hop w' o hinv' h.1
    refine ⟨hguard, fun fails _ => ?_⟩
    have hinv'' := hkeep _ _ hinv' (hrely fails)
    refine ⟨hinv'', (ih _ (h.2 _) hinv'').imp fun a w'' ha => ⟨ha.1, ?_⟩⟩
    exact S.rely_trans _ _ _ hw (S.rely_trans _ _ _ (hrely fails) ha.2)

end

/-! ## Runs -/

/-- What happens next: a step of the others, the next operation, or a call of the program. -/
inductive Event (E I : Type)
  | env (e : E)
  | turn (fails : Bool)
  | call (i : I)

/-- The next state of the world and of the program. A call while the program runs has no effect. -/
def step (perform : W → (o : Op) → Bool → Ans o × W) (env : W → E → W)
    (body : I → σ → Prog Op Ans σ) :
    W × Prog Op Ans σ → Event E I → Except Empty (W × Prog Op Ans σ)
  | (w, p), .env e => .ok (env w e, p)
  | (w, .ask o k), .turn fails => .ok ((perform w o fails).2, k (perform w o fails).1)
  | (w, .ret s), .turn _ => .ok (w, .ret s)
  | (w, .ret s), .call i => .ok (w, body i s)
  | (w, .ask o k), .call _ => .ok (w, .ask o k)

/-- A condition on the operation of an event. -/
def AtTurn (P : W → Op → Bool → Prop) : W × Prog Op Ans σ → Event E I → Prop
  | (w, .ask o _), .turn fails => P w o fails
  | _, _ => True

section
variable {env : W → E → W} {body : I → σ → Prog Op Ans σ} {Q : σ → W → Prop}
  (henv : ∀ w e, S.inv w → S.inv (env w e) ∧ S.rely w (env w e))
  (hQ : ∀ s w w', Q s w → S.rely w w' → Q s w')
  (hbody : ∀ i s w, S.inv w → Q s w → Safe S Q (body i s) w)

include henv hQ hbody

/-- A step of a run keeps the invariant, and the rest of the program safe. -/
theorem step_safe {st st' : W × Prog Op Ans σ} {ev : Event E I}
    (h : S.inv st.1 ∧ Safe S Q st.2 st.1) (hallowed : AtTurn S.allowed st ev)
    (hstep : step S.perform env body st ev = .ok st') : S.inv st'.1 ∧ Safe S Q st'.2 st'.1 := by
  obtain ⟨w, p⟩ := st
  obtain ⟨hinv, hsafe⟩ := h
  cases ev with
  | env e =>
    cases hstep
    exact ⟨(henv w e hinv).1, hsafe.rely hQ (henv w e hinv).2⟩
  | turn fails =>
    cases p with
    | ret s =>
      cases hstep
      exact ⟨hinv, hsafe⟩
    | ask o k =>
      cases hstep
      exact (hsafe w (S.rely_refl w)).2 fails hallowed
  | call i =>
    cases p with
    | ret s =>
      cases hstep
      exact ⟨hinv, hbody i s w hinv hsafe⟩
    | ask o k =>
      cases hstep
      exact ⟨hinv, hsafe⟩

/-- In a run with the outcomes that are considered, every state has the invariant, the program stays
safe, and what has to hold at an operation holds. -/
theorem along_safe {events : List (Event E I)} : ∀ {st : W × Prog Op Ans σ},
    S.inv st.1 ∧ Safe S Q st.2 st.1 →
    Machine.Along (step S.perform env body) (AtTurn S.allowed) st events →
      Machine.Always (step S.perform env body) (fun st => S.inv st.1 ∧ Safe S Q st.2 st.1) st
        events ∧
        Machine.Along (step S.perform env body) (AtTurn fun w o _ => S.guard w o) st events := by
  induction events with
  | nil => exact fun h _ => ⟨Machine.always_nil.2 h, Machine.along_nil⟩
  | cons ev events ih =>
    intro st h hallowed
    cases hstep : step S.perform env body st ev with
    | error e => exact e.elim
    | ok st' =>
      obtain ⟨hev, hevents⟩ := (Machine.along_cons hstep).1 hallowed
      obtain ⟨halways, halong⟩ := ih (step_safe henv hQ hbody h hev hstep) hevents
      refine ⟨(Machine.always_cons hstep).2 ⟨h, halways⟩, (Machine.along_cons hstep).2 ⟨?_, halong⟩⟩
      obtain ⟨w, p⟩ := st
      cases p with
      | ret s =>
        cases ev with
        | env e => trivial
        | turn fails => trivial
        | call i => trivial
      | ask o k =>
        cases ev with
        | env e => trivial
        | turn fails => exact (h.2 w (S.rely_refl w)).1
        | call i => trivial

end

end Prog
