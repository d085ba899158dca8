import Blackmagic.Lib.Run

/-!
# Runs of a machine

A machine is a step function that can fail. `Along` says that every step of a run meets a condition
in the state before it, `Always` that every state of a run has a property. `always_iff_along` is the
rule for a property that holds exactly as long as the steps meet a condition.
-/

namespace Machine

variable {σ α ε : Type} (step : σ → α → Except ε σ)

/-- Take the steps of a list. -/
def run (s : σ) : List α → Except ε σ
  | [] => .ok s
  | a :: as => do
    let s ← step s a
    run s as

/-- Every step of the run meets `P` in the state before it. -/
def Along (P : σ → α → Prop) (s : σ) (as : List α) : Prop :=
  ∀ as₁ a as₂ s', as = as₁ ++ a :: as₂ → run step s as₁ = .ok s' → P s' a

/-- Every state of the run has the property `Q`. -/
def Always (Q : σ → Prop) (s : σ) (as : List α) : Prop :=
  ∀ as₁ as₂ s', as = as₁ ++ as₂ → run step s as₁ = .ok s' → Q s'

variable {step} {P : σ → α → Prop} {Q : σ → Prop} {s s₁ : σ} {a : α} {as : List α}

/-- A run whose first step is taken. -/
theorem run_cons (h : step s a = .ok s₁) : run step s (a :: as) = run step s₁ as := by
  rw [run, h]
  rfl

/-- A run whose first step fails. -/
theorem run_cons_error {e : ε} (h : step s a = .error e) : run step s (a :: as) = .error e := by
  rw [run, h]
  rfl

/-- A run in two parts. -/
theorem run_append (as as' : List α) : ∀ s : σ,
    run step s (as ++ as') = run step s as >>= fun s => run step s as' := by
  induction as with
  | nil =>
    intro s
    rfl
  | cons a as ih =>
    intro s
    cases h : step s a with
    | error e =>
      rw [List.cons_append, run_cons_error h, run_cons_error h]
      rfl
    | ok s₁ => rw [List.cons_append, run_cons h, run_cons h, ih]

/-- An empty run meets every condition. -/
theorem along_nil : Along step P s [] := by
  intro as₁ a as₂ s' h
  simp at h

/-- The first step meets the condition. -/
theorem Along.head (h : Along step P s (a :: as)) : P s a := h [] a as s rfl rfl

/-- A run meets a condition when its first step does and the rest does. -/
theorem along_cons (hstep : step s a = .ok s₁) :
    Along step P s (a :: as) ↔ P s a ∧ Along step P s₁ as := by
  constructor
  · intro h
    refine ⟨h.head, fun as₁ b as₂ s' has hrun => ?_⟩
    refine h (a :: as₁) b as₂ s' (by rw [has]; rfl) ?_
    rw [run_cons hstep]
    exact hrun
  · rintro ⟨hhead, htail⟩ as₁ b as₂ s' has hrun
    cases as₁ with
    | nil =>
      cases has
      cases hrun
      exact hhead
    | cons a₁ as₁ =>
      cases has
      rw [run_cons hstep] at hrun
      exact htail as₁ b as₂ s' rfl hrun

/-- An empty run reaches its first state only. -/
theorem always_nil : Always step Q s [] ↔ Q s := by
  constructor
  · intro h
    exact h [] [] s rfl rfl
  · intro hs as₁ as₂ s' has hrun
    rw [(List.append_eq_nil_iff.1 has.symm).1] at hrun
    cases hrun
    exact hs

/-- What holds always holds at first and in the rest. -/
theorem always_cons (hstep : step s a = .ok s₁) :
    Always step Q s (a :: as) ↔ Q s ∧ Always step Q s₁ as := by
  constructor
  · intro h
    refine ⟨h [] (a :: as) s rfl rfl, fun as₁ as₂ s' has hrun => ?_⟩
    refine h (a :: as₁) as₂ s' (by rw [has]; rfl) ?_
    rw [run_cons hstep]
    exact hrun
  · rintro ⟨hs, htail⟩ as₁ as₂ s' has hrun
    cases as₁ with
    | nil =>
      cases hrun
      exact hs
    | cons a₁ as₁ =>
      cases has
      rw [run_cons hstep] at hrun
      exact htail as₁ as₂ s' rfl hrun

/-- The rule for a property that holds as long as the steps meet a condition: an invariant gives it,
a step that meets the condition keeps the invariant, and a step that does not breaks the
property. -/
theorem always_iff_along {Inv : σ → Prop} (hinv : ∀ s, Inv s → Q s)
    (hkeep : ∀ s a s', Inv s → P s a → step s a = .ok s' → Inv s')
    (hbreak : ∀ s a, Inv s → ¬ P s a → ∃ s', step s a = .ok s' ∧ ¬ Q s') :
    ∀ {as : List α} {s : σ}, Inv s → (Always step Q s as ↔ Along step P s as) := by
  intro as
  induction as with
  | nil =>
    intro s h
    exact iff_of_true (always_nil.2 (hinv s h)) along_nil
  | cons a as ih =>
    intro s h
    by_cases hp : P s a
    · cases hstep : step s a with
      | error e =>
        refine iff_of_true (fun as₁ as₂ s' has hrun => ?_) fun as₁ b as₂ s' has hrun => ?_
        · cases as₁ with
          | nil =>
            cases hrun
            exact hinv s h
          | cons a₁ as₁ =>
            cases has
            rw [run_cons_error hstep] at hrun
            cases hrun
        · cases as₁ with
          | nil =>
            cases has
            cases hrun
            exact hp
          | cons a₁ as₁ =>
            cases has
            rw [run_cons_error hstep] at hrun
            cases hrun
      | ok s₁ =>
        rw [always_cons hstep, along_cons hstep, ih (hkeep s a s₁ h hp hstep)]
        exact ⟨fun hs => ⟨hp, hs.2⟩, fun hs => ⟨hinv s h, hs.2⟩⟩
    · obtain ⟨s₁, hstep, hq⟩ := hbreak s a h hp
      refine iff_of_false (fun hall => hq ?_) fun hall => hp hall.head
      exact hall [a] as s₁ rfl (by rw [run_cons hstep]; rfl)

/-- Two machines that take the same step as long as a condition is met take the same runs. -/
theorem run_eq_of_along {step' : σ → α → Except ε σ} (hstep : ∀ s a, P s a → step s a = step' s a) :
    ∀ {as : List α} {s : σ}, Along step P s as → run step s as = run step' s as := by
  intro as
  induction as with
  | nil =>
    intro s _
    rfl
  | cons a as ih =>
    intro s h
    have hsame := hstep s a h.head
    cases hs : step s a with
    | error e => rw [run_cons_error hs, run_cons_error (hsame ▸ hs)]
    | ok s₁ =>
      rw [run_cons hs, run_cons (hsame ▸ hs)]
      exact ih ((along_cons hs).1 h).2

/-- The steps of a part of a run meet the condition. -/
theorem Along.left {as' : List α} (h : Along step P s (as ++ as')) : Along step P s as := by
  intro as₁ a as₂ s' has hrun
  exact h as₁ a (as₂ ++ as') s' (by rw [has, List.append_assoc]; rfl) hrun

end Machine
