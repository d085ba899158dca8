import Mathlib

/-!
# Programs with a state that can be left early

A program in `EStateM ε σ` returns or leaves with an `ε`, and either way in a state. `Ends` is its
postcondition, one for each way, and the rules below run a program symbolically. `Keeps` is a
relation between the states before and after a program, however it ends. `Projects` is a program
that does on a part of its state what another one does.
-/

namespace Effect

variable {ε σ α β : Type}

/-- What holds when a program started in `s` returns, and when it leaves. -/
def Ends (m : EStateM ε σ α) (s : σ) (Q : α → σ → Prop) (E : ε → σ → Prop) : Prop :=
  match m s with
  | .ok a s' => Q a s'
  | .error e s' => E e s'

variable {m : EStateM ε σ α} {s : σ} {Q : α → σ → Prop} {E : ε → σ → Prop}

@[simp] theorem ends_pure (a : α) : Ends (pure a) s Q E ↔ Q a s := Iff.rfl

@[simp] theorem ends_throw (e : ε) : Ends (throw e : EStateM ε σ α) s Q E ↔ E e s := Iff.rfl

@[simp] theorem ends_get {Q : σ → σ → Prop} : Ends (get : EStateM ε σ σ) s Q E ↔ Q s s := Iff.rfl

@[simp] theorem ends_set {Q : PUnit → σ → Prop} (s' : σ) :
    Ends (set s' : EStateM ε σ PUnit) s Q E ↔ Q ⟨⟩ s' := Iff.rfl

@[simp] theorem ends_modify {Q : PUnit → σ → Prop} (f : σ → σ) :
    Ends (modify f : EStateM ε σ PUnit) s Q E ↔ Q ⟨⟩ (f s) := Iff.rfl

@[simp] theorem ends_bind {k : α → EStateM ε σ β} {Q : β → σ → Prop} :
    Ends (m >>= k) s Q E ↔ Ends m s (fun a s' => Ends (k a) s' Q E) E := by
  unfold Ends
  simp only [bind, EStateM.bind]
  cases m s with
  | ok a s' => rfl
  | error e s' => rfl

@[simp] theorem ends_map {g : α → β} {Q : β → σ → Prop} :
    Ends (g <$> m) s Q E ↔ Ends m s (fun a s' => Q (g a) s') E := by
  unfold Ends
  simp only [Functor.map, EStateM.map]
  cases m s with
  | ok a s' => rfl
  | error e s' => rfl

@[simp] theorem ends_tryCatchThe {h : ε → EStateM ε σ α} :
    Ends (tryCatchThe ε m h) s Q E ↔ Ends m s Q fun e s' => Ends (h e) s' Q E := by
  unfold Ends
  simp only [tryCatchThe, MonadExceptOf.tryCatch, EStateM.tryCatch]
  cases m s with
  | ok a s' => rfl
  | error e s' => rfl

/-- Every program ends somehow. -/
theorem ends_true (m : EStateM ε σ α) (s : σ) : Ends m s (fun _ _ => True) fun _ _ => True := by
  unfold Ends
  split
  · trivial
  · trivial

/-- A weaker postcondition. -/
theorem Ends.imp {Q' : α → σ → Prop} {E' : ε → σ → Prop} (h : Ends m s Q E)
    (hq : ∀ a s', Q a s' → Q' a s') (he : ∀ e s', E e s' → E' e s') : Ends m s Q' E' := by
  unfold Ends at h ⊢
  cases hm : m s with
  | ok a s' =>
    rw [hm] at h
    exact hq a s' h
  | error e s' =>
    rw [hm] at h
    exact he e s' h

/-- Two specifications of one program. -/
theorem Ends.and {Q' : α → σ → Prop} {E' : ε → σ → Prop} (h : Ends m s Q E) (h' : Ends m s Q' E') :
    Ends m s (fun a s' => Q a s' ∧ Q' a s') fun e s' => E e s' ∧ E' e s' := by
  unfold Ends at h h' ⊢
  cases hm : m s with
  | ok a s' =>
    rw [hm] at h h'
    exact ⟨h, h'⟩
  | error e s' =>
    rw [hm] at h h'
    exact ⟨h, h'⟩

/-- A program after one that returned. -/
theorem run_bind_ok {k : α → EStateM ε σ β} {a : α} {s' : σ} (hm : m s = .ok a s') :
    (m >>= k) s = k a s' := by
  change EStateM.bind m k s = k a s'
  rw [EStateM.bind, hm]

/-- A program that fails first. -/
theorem run_bind_error {k : α → EStateM ε σ β} {e : ε} {s' : σ} (hm : m s = .error e s') :
    (m >>= k) s = .error e s' := by
  change EStateM.bind m k s = .error e s'
  rw [EStateM.bind, hm]

/-- After a first program whose result is known. -/
theorem ends_bind_of_ok {k : α → EStateM ε σ β} {Q : β → σ → Prop} {a : α} {s' : σ}
    (hm : m s = .ok a s') : Ends (m >>= k) s Q E ↔ Ends (k a) s' Q E := by
  rw [ends_bind]
  unfold Ends
  rw [hm]

/-- A program after one that left. -/
theorem ends_bind_of_error {k : α → EStateM ε σ β} {Q : β → σ → Prop} {e : ε} {s' : σ}
    (hm : m s = .error e s') : Ends (m >>= k) s Q E ↔ E e s' := by
  rw [ends_bind]
  unfold Ends
  rw [hm]

/-- What holds when a program returns, for one that did. -/
theorem Ends.ok {a : α} {s' : σ} (h : Ends m s Q E) (hm : m s = .ok a s') : Q a s' := by
  unfold Ends at h
  rwa [hm] at h

/-- What holds when a program leaves, for one that did. -/
theorem Ends.error {e : ε} {s' : σ} (h : Ends m s Q E) (hm : m s = .error e s') : E e s' := by
  unfold Ends at h
  rwa [hm] at h

/-- A program ends in one way or the other. -/
theorem Ends.elim {P : Prop} (h : Ends m s (fun _ _ => P) fun _ _ => P) : P := by
  unfold Ends at h
  cases hm : m s with
  | ok a s' =>
    rw [hm] at h
    exact h
  | error e s' =>
    rw [hm] at h
    exact h

/-- However the program ends, the state it started in and the one it ends in are related. -/
def Keeps (S : σ → σ → Prop) (m : EStateM ε σ α) : Prop :=
  ∀ s, Ends m s (fun _ s' => S s s') fun _ s' => S s s'

/-- Two programs that keep a relation, one after the other. -/
theorem Keeps.bind {S : σ → σ → Prop} (htrans : ∀ s₁ s₂ s₃, S s₁ s₂ → S s₂ s₃ → S s₁ s₃)
    {k : α → EStateM ε σ β} (hm : Keeps S m) (hk : ∀ a, Keeps S (k a)) : Keeps S (m >>= k) := by
  intro s
  rw [ends_bind]
  refine (hm s).imp (fun a s₁ h => ?_) fun _ _ h => h
  exact (hk a s₁).imp (fun _ _ h' => htrans _ _ _ h h') fun _ _ h' => htrans _ _ _ h h'

/-- The program `m'` does on the part `π` of its state what `m` does. -/
def Projects {τ : Type} (π : τ → σ) (m' : EStateM ε τ α) (m : EStateM ε σ α) : Prop :=
  ∀ t, Ends m' t (fun a t' => m (π t) = .ok a (π t')) fun e t' => m (π t) = .error e (π t')

section
variable {τ : Type} {π : τ → σ}

/-- A program that only returns. -/
theorem projects_pure (a : α) : Projects π (pure a : EStateM ε τ α) (pure a) := fun _ => rfl

/-- A program that only fails. -/
theorem projects_throw (e : ε) : Projects π (throw e : EStateM ε τ α) (throw e) := fun _ => rfl

/-- Programs one after the other. -/
theorem Projects.bind {m' : EStateM ε τ α} {k' : α → EStateM ε τ β} {k : α → EStateM ε σ β}
    (hm : Projects π m' m) (hk : ∀ a, Projects π (k' a) (k a)) :
    Projects π (m' >>= k') (m >>= k) := by
  intro t
  rw [ends_bind]
  refine (hm t).imp (fun a t₁ h => ?_) fun e t₁ h => run_bind_error h
  rw [run_bind_ok h]
  exact hk a t₁

/-- A program that reads the state. -/
theorem projects_get_bind {k' : τ → EStateM ε τ β} {k : σ → EStateM ε σ β}
    (hk : ∀ t, Projects π (k' t) (k (π t))) : Projects π (get >>= k') (get >>= k) := fun t => hk t t

/-- A run of the part is the part of a run. -/
theorem Projects.ok {m' : EStateM ε τ α} (h : Projects π m' m) {t : τ} {a : α} {s' : σ}
    (hm : m (π t) = .ok a s') : ∃ t', m' t = .ok a t' ∧ π t' = s' := by
  have ht := h t
  unfold Ends at ht
  split at ht
  · next a' t' hrun =>
    rw [hm] at ht
    cases ht
    exact ⟨t', hrun, rfl⟩
  · rw [hm] at ht
    cases ht

end

end Effect
