import Mathlib

/-!
# Fallible steps

Inversion of a sequence of computations in `Except`.
-/

namespace Run

variable {ε α β : Type}

@[simp] theorem ok_bind (a : α) (k : α → Except ε β) : ((Except.ok a : Except ε α) >>= k) = k a :=
  rfl

/-- A sequence that answers is a first step that answers and a second one that does. -/
theorem bind_eq_ok {x : Except ε α} {k : α → Except ε β} {b : β} :
    (x >>= k) = .ok b ↔ ∃ a, x = .ok a ∧ k a = .ok b := by
  cases x with
  | error e => simp [bind, Except.bind]
  | ok a => simp [bind, Except.bind]

end Run
