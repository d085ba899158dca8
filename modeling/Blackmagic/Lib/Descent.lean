import Mathlib

/-!
# Recursion over a graph that is not known in advance

A recursion that goes from a node to its children keeps no record of where it has been. It ends
exactly when no node that it can reach is reachable from itself, and then a path it takes has no
more nodes than there are.
-/

namespace Descent

variable {α : Type} (children : α → List α)

/-- The recursion from a node ends within so many calls inside of each other. -/
def EndsWithin : Nat → α → Prop
  | 0, _ => False
  | depth + 1, a => ∀ b ∈ children a, EndsWithin depth b

/-- No node that can be reached from `a` can be reached from itself. -/
def NoCycle (a : α) : Prop :=
  ∀ c, Relation.ReflTransGen (fun a b => b ∈ children a) a c →
    ¬ Relation.TransGen (fun a b => b ∈ children a) c c

variable {children}

/-- A descent that ends has no cycle. -/
theorem EndsWithin.noCycle {depth : Nat} {a : α} (h : EndsWithin children depth a) :
    NoCycle children a := by
  induction depth generalizing a with
  | zero => exact h.elim
  | succ depth ih =>
    intro c hreach hcycle
    -- a cycle through `a` goes through one of its children as well
    rcases Relation.ReflTransGen.cases_head hreach with rfl | ⟨b, hb, hbc⟩
    · obtain ⟨b, hb, hba⟩ := Relation.TransGen.head'_iff.1 hcycle
      exact ih (h b hb) a hba hcycle
    · exact ih (h b hb) c hbc hcycle

/-- The calls above a node are all different, so there are no more of them than nodes. -/
theorem NoCycle.endsWithin {nodes : List α} (hnodes : ∀ a, ∀ b ∈ children a, b ∈ nodes) {a : α}
    (h : NoCycle children a) (ha : a ∈ nodes) : EndsWithin children (nodes.length + 1) a := by
  have hpath : ∀ (depth : Nat) (above : List α) (b : α),
      Relation.ReflTransGen (fun a b => b ∈ children a) a b →
      b ∈ nodes → above.Nodup →
        (∀ p ∈ above, p ∈ nodes ∧ Relation.TransGen (fun a b => b ∈ children a) p b) →
      nodes.length < depth + above.length → EndsWithin children depth b := by
    intro depth
    induction depth with
    | zero =>
      intro above b _ _ hnodup habove hlen
      have hle := hnodup.length_le_of_subset fun p hp => (habove p hp).1
      omega
    | succ depth ih =>
      intro above b hreach hb hnodup habove hlen c hc
      have hfresh : b ∉ above := fun hmem => h b hreach (habove b hmem).2
      refine ih (b :: above) c (hreach.tail hc) (hnodes b c hc)
        (List.nodup_cons.2 ⟨hfresh, hnodup⟩) ?_ ?_
      · intro p hp
        rcases List.mem_cons.1 hp with rfl | hp
        · exact ⟨hb, .single hc⟩
        · exact ⟨(habove p hp).1, (habove p hp).2.tail hc⟩
      · rw [List.length_cons]
        omega
  exact hpath (nodes.length + 1) [] a .refl ha .nil (fun p hp => by cases hp)
    (by rw [List.length_nil]; omega)

end Descent
