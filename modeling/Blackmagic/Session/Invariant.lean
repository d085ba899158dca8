import Blackmagic.Session.Attach
import Mathlib

/-!
# The invariant of a session's pointers

A pointer of the session stays on the list as long as the list lives, so the invariant is about who
clears it when the list is freed: the destroy callback of the controller that a target has. The one
of the UI clears `cur_target` whatever the target is, the one of GDB clears both pointers to its
target, and none of the UI clears `last_target`.
-/

namespace Blackmagic

/-- Addresses are used once, the pointers are on the list, and the current target has a
controller. -/
structure SessionInv (s : Targets) : Prop where
  valid : PointersValid s
  owned : ∀ id t, s.cur = some id → s.find id = some t → t.tc.isSome
  nodup : (s.list.map (·.id)).Nodup
  fresh : ∀ t ∈ s.list, t.id < s.nextId

/-- `last_target` points to a target that was freed. -/
structure Dangling (id : Nat) (s : Targets) : Prop where
  last : s.last = some id
  gone : ∀ t ∈ s.list, t.id ≠ id
  old : id < s.nextId

/-- The invariant at the start. -/
theorem sessionInv_boot : SessionInv Targets.boot :=
  ⟨⟨nofun, nofun⟩, nofun, List.nodup_nil, nofun⟩

/-- A target is found when it is on the list. -/
theorem find_isSome {s : Targets} {id : Nat} : (s.find id).isSome ↔ ∃ t ∈ s.list, t.id = id := by
  simp [Targets.find]

/-- A dangling pointer is not valid. -/
theorem Dangling.not_valid {id : Nat} {s : Targets} (h : Dangling id s) : ¬ PointersValid s := by
  intro hvalid
  obtain ⟨t, ht, hid⟩ := find_isSome.1 (hvalid.last id h.last)
  exact h.gone t ht hid

/-! ## Pointers and targets change -/

/-- The pointers of a session that keeps its list stay, or become NULL. -/
theorem SessionInv.of_pointers {s s' : Targets} (h : SessionInv s) (hlist : s'.list = s.list)
    (hnext : s'.nextId = s.nextId) (hcur : s'.cur = s.cur ∨ s'.cur = none)
    (hlast : s'.last = s.last ∨ s'.last = none) : SessionInv s' := by
  have hfind : ∀ id, s'.find id = s.find id := by
    intro id
    rw [Targets.find, hlist]
    rfl
  constructor
  · constructor
    · intro id hid
      rw [hfind]
      rcases hcur with hcur | hcur
      · exact h.valid.cur id (hcur ▸ hid)
      · rw [hcur] at hid
        cases hid
    · intro id hid
      rw [hfind]
      rcases hlast with hlast | hlast
      · exact h.valid.last id (hlast ▸ hid)
      · rw [hlast] at hid
        cases hid
  · intro id t hid ht
    rw [hfind] at ht
    rcases hcur with hcur | hcur
    · exact h.owned id t (hcur ▸ hid) ht
    · rw [hcur] at hid
      cases hid
  · rw [hlist]
    exact h.nodup
  · rw [hlist, hnext]
    exact h.fresh

/-- The destroy callback leaves each pointer or clears it. -/
theorem destroyTarget_pointers (s : Targets) (t : TargetRec) :
    ((destroyTarget s t).cur = s.cur ∨ (destroyTarget s t).cur = none) ∧
      ((destroyTarget s t).last = s.last ∨ (destroyTarget s t).last = none) := by
  unfold destroyTarget destroyCallback gdbTargetDestroyCallback uiCtrlDestroy
  split
  · split
    · dsimp only
      split <;> split <;> simp
    · exact ⟨.inr rfl, .inl rfl⟩
  · exact ⟨.inl rfl, .inl rfl⟩

/-- It keeps the invariant. -/
theorem SessionInv.destroyTarget {s : Targets} (h : SessionInv s) (t : TargetRec) :
    SessionInv (destroyTarget s t) :=
  h.of_pointers (destroyTarget_list s t) (destroyTarget_scans s t).2.2
    (destroyTarget_pointers s t).1
    (destroyTarget_pointers s t).2

/-- Changing a target keeps the invariant when the target keeps its address and a controller. -/
theorem SessionInv.modify {s : Targets} (h : SessionInv s) (id : Nat) {f : TargetRec → TargetRec}
    (hid : ∀ t, (f t).id = t.id) (htc : ∀ t, t.tc.isSome → (f t).tc.isSome) :
    SessionInv (s.modify id f) := by
  have hkeep : ∀ t, (if t.id = id then f t else t).id = t.id := by
    intro t
    split
    · exact hid t
    · rfl
  constructor
  · constructor
    · intro id' hcur
      rw [find_modify s id hid, Option.isSome_map]
      exact h.valid.cur id' hcur
    · intro id' hlast
      rw [find_modify s id hid, Option.isSome_map]
      exact h.valid.last id' hlast
  · intro id' t hcur ht
    rw [find_modify s id hid, Option.map_eq_some_iff] at ht
    obtain ⟨t', ht', rfl⟩ := ht
    have howned := h.owned id' t' hcur ht'
    split
    · exact htc t' howned
    · exact howned
  · have hids : (s.modify id f).list.map (·.id) = s.list.map (·.id) := by
      rw [Targets.modify, List.map_map]
      exact List.map_congr_left fun t _ => hkeep t
    rw [hids]
    exact h.nodup
  · intro t ht
    obtain ⟨t', ht', rfl⟩ := List.mem_map.1 ht
    rw [hkeep]
    exact h.fresh t' ht'

/-- So does a controller that takes a target over. -/
theorem SessionInv.takeOver {s : Targets} (h : SessionInv s) (t : TargetRec) (c : Controller) :
    SessionInv (s.takeOver t c) :=
  (h.destroyTarget t).modify t.id (fun _ => rfl) fun _ _ => rfl

/-- So does the mark on a target. -/
theorem SessionInv.attached {s : Targets} (h : SessionInv s) (id : Nat) (attached : Bool) :
    SessionInv (s.modify id fun t => { t with attached := attached }) :=
  h.modify id (fun _ => rfl) fun _ ht => ht

/-- So does attaching to a target with a controller. -/
theorem SessionInv.setCur {s : Targets} (h : SessionInv s) {id : Nat} {t : TargetRec}
    (hfind : s.find id = some t) (htc : t.tc.isSome) : SessionInv { s with cur := some id } := by
  refine ⟨⟨fun id' h' => ?_, h.valid.last⟩, fun id' t' h' ht' => ?_, h.nodup, h.fresh⟩
  · cases h'
    exact Option.isSome_iff_exists.2 ⟨t, hfind⟩
  · cases h'
    have hsame : some t' = some t := ht'.symm.trans hfind
    cases hsame
    exact htc

/-- So does clearing `cur_target`. -/
theorem SessionInv.clearCur {s : Targets} (h : SessionInv s) : SessionInv { s with cur := none } :=
  h.of_pointers rfl rfl (.inr rfl) (.inl rfl)

/-- So does detaching from a target of the list. -/
theorem SessionInv.detach {s : Targets} (h : SessionInv s) {id : Nat}
    (hfind : (s.find id).isSome) : SessionInv { s with last := some id, cur := none } := by
  refine ⟨⟨nofun, fun id' h' => ?_⟩, nofun, h.nodup, h.fresh⟩
  cases h'
  exact hfind

/-! ## The list is freed -/

/-- A target with a controller takes `cur_target` with it. -/
theorem destroyTarget_cur {s : Targets} {t : TargetRec} (hcur : s.cur = some t.id)
    (htc : t.tc.isSome) : (destroyTarget s t).cur = none := by
  obtain ⟨c, hc⟩ := Option.isSome_iff_exists.1 htc
  unfold destroyTarget
  rw [hc]
  cases c with
  | gdb =>
    simp only [destroyCallback, gdbTargetDestroyCallback, hcur, if_true]
    split <;> rfl
  | ui => rfl

/-- A target of GDB takes `last_target` with it. -/
theorem destroyTarget_last {s : Targets} {t : TargetRec} (hlast : s.last = some t.id)
    (htc : t.tc = some .gdb) : (destroyTarget s t).last = none := by
  unfold destroyTarget
  rw [htc]
  simp only [destroyCallback, gdbTargetDestroyCallback]
  split
  · simp
  · simp

/-- Any other target leaves `last_target`. -/
theorem destroyTarget_last_of_ne {s : Targets} {t : TargetRec} {id : Nat} (hlast : s.last = some id)
    (hne : t.id = id → t.tc ≠ some .gdb) : (destroyTarget s t).last = some id := by
  unfold destroyTarget
  cases htc : t.tc with
  | none => exact hlast
  | some c =>
    cases c with
    | ui => exact hlast
    | gdb =>
      have hid : some id ≠ some t.id := by
        rintro ⟨⟩
        exact hne rfl htc
      simp only [destroyCallback, gdbTargetDestroyCallback]
      split
      · simp [hlast, hid]
      · simp [hlast, hid]

/-- `target->detach` leaves the list and the pointers alone. -/
theorem callDetach_eq (s : Targets) (t : TargetRec) :
    (callDetach s t).list = s.list ∧ (callDetach s t).cur = s.cur ∧ (callDetach s t).last = s.last ∧
      (callDetach s t).nextId = s.nextId := by
  unfold callDetach
  split <;> exact ⟨rfl, rfl, rfl, rfl⟩

/-- The pointers when a target is freed stay, or become NULL. -/
theorem freeTarget_pointers (s : Targets) (t : TargetRec) (rest : List TargetRec) :
    ((freeTarget s t rest).cur = s.cur ∨ (freeTarget s t rest).cur = none) ∧
      ((freeTarget s t rest).last = s.last ∨ (freeTarget s t rest).last = none) := by
  have h := destroyTarget_pointers (callDetach s t) t
  rw [(callDetach_eq s t).2.1, (callDetach_eq s t).2.2.1] at h
  exact h

/-- Freeing a target gives out no number. -/
theorem freeTarget_nextId (s : Targets) (t : TargetRec) (rest : List TargetRec) :
    (freeTarget s t rest).nextId = s.nextId :=
  (destroyTarget_scans (callDetach s t) t).2.2.trans (callDetach_eq s t).2.2.2

section
variable {raises : Nat → Option Exc} {s : Targets} {t : TargetRec} {ts : List TargetRec}

/-- The first target of the list is freed, when it takes the last pointer with it. -/
theorem SessionInv.freeTarget (h : SessionInv s) (hlist : s.list = t :: ts)
    (hlast : s.last = some t.id → t.tc = some .gdb) : SessionInv (freeTarget s t ts) := by
  obtain ⟨hcur', hlast'⟩ := freeTarget_pointers s t ts
  obtain ⟨-, hcall, hcall', -⟩ := callDetach_eq s t
  -- the pointers do not point to the target any more
  have hcurNe : (Blackmagic.freeTarget s t ts).cur ≠ some t.id := by
    intro hcur
    have hs : s.cur = some t.id := by
      rcases hcur' with h' | h'
      · exact h'.symm.trans hcur
      · rw [h'] at hcur
        cases hcur
    have hfind : s.find t.id = some t := by simp [Targets.find, hlist]
    have hnone := destroyTarget_cur (hcall.trans hs) (h.owned t.id t hs hfind)
    rw [show (Blackmagic.freeTarget s t ts).cur = _ from hnone] at hcur
    cases hcur
  have hlastNe : (Blackmagic.freeTarget s t ts).last ≠ some t.id := by
    intro hl
    have hs : s.last = some t.id := by
      rcases hlast' with h' | h'
      · exact h'.symm.trans hl
      · rw [h'] at hl
        cases hl
    have hnone := destroyTarget_last (hcall'.trans hs) (hlast hs)
    rw [show (Blackmagic.freeTarget s t ts).last = _ from hnone] at hl
    cases hl
  -- and all other targets are found as before
  have hfind : ∀ id, some id ≠ some t.id → (Blackmagic.freeTarget s t ts).find id = s.find id := by
    intro id hne
    rw [Targets.find, Targets.find, hlist, List.find?_cons_of_neg]
    · rfl
    · simpa using fun heq : t.id = id => hne (congrArg some heq.symm)
  constructor
  · constructor
    · intro id hid
      rw [hfind id (hid ▸ hcurNe)]
      rcases hcur' with h' | h'
      · exact h.valid.cur id (h'.symm.trans hid)
      · rw [h'] at hid
        cases hid
    · intro id hid
      rw [hfind id (hid ▸ hlastNe)]
      rcases hlast' with h' | h'
      · exact h.valid.last id (h'.symm.trans hid)
      · rw [h'] at hid
        cases hid
  · intro id t' hid ht'
    rw [hfind id (hid ▸ hcurNe)] at ht'
    rcases hcur' with h' | h'
    · exact h.owned id t' (h'.symm.trans hid) ht'
    · rw [h'] at hid
      cases hid
  · have hnodup := h.nodup
    rw [hlist, List.map_cons, List.nodup_cons] at hnodup
    exact hnodup.2
  · intro t' ht'
    rw [freeTarget_nextId]
    refine h.fresh t' ?_
    rw [hlist]
    exact List.mem_cons_of_mem t ht'

/-- The loop keeps the invariant when the last target, if it is freed, is GDB's. -/
theorem freeTargets_inv : ∀ {s : Targets}, SessionInv s → s.list = ts →
    (∀ t ∈ ts.takeWhile fun t => (t.detachRaises raises).isNone,
      s.last = some t.id → t.tc = some .gdb) →
    SessionInv (freeTargets raises ts s).2 := by
  induction ts with
  | nil =>
    intro s h hlist _
    exact h.of_pointers hlist.symm rfl (.inl rfl) (.inl rfl)
  | cons t ts ih =>
    intro s h hlist hlast
    unfold freeTargets
    split
    · obtain ⟨hlist', hcur, hlast', hnext⟩ := callDetach_eq s t
      exact h.of_pointers hlist' hnext (.inl hcur) (.inl hlast')
    · next hnone =>
      rw [List.takeWhile_cons_of_pos (by rw [hnone]; rfl), List.forall_mem_cons] at hlast
      refine ih (h.freeTarget hlist hlast.1) rfl fun t' ht' hl => hlast.2 t' ht' ?_
      rcases (freeTarget_pointers s t ts).2 with h' | h'
      · exact h'.symm.trans hl
      · rw [h'] at hl
        cases hl

/-- Freeing the list keeps the invariant when `last_target`, where it is freed, is GDB's. -/
theorem targetListFree_inv (h : SessionInv s)
    (hlast : ∀ t ∈ s.freed raises, s.last = some t.id → t.tc = some .gdb) :
    SessionInv (targetListFree raises s).2 := freeTargets_inv h rfl hlast

/-- A pointer that dangles is not repaired. -/
theorem Dangling.freeTargets {id : Nat} : ∀ {s : Targets}, Dangling id s → s.list = ts →
    Dangling id (freeTargets raises ts s).2 := by
  induction ts with
  | nil =>
    intro s h _
    exact ⟨h.last, nofun, h.old⟩
  | cons t ts ih =>
    intro s h hlist
    obtain ⟨hlist', -, hlast', hnext⟩ := callDetach_eq s t
    have hne : t.id ≠ id := by
      refine h.gone t ?_
      rw [hlist]
      exact List.mem_cons_self
    unfold Blackmagic.freeTargets
    split
    · exact ⟨hlast'.trans h.last, by rw [hlist']; exact h.gone, by rw [hnext]; exact h.old⟩
    · refine ih ⟨?_, fun t' ht' => h.gone t' ?_, ?_⟩ rfl
      · exact destroyTarget_last_of_ne (hlast'.trans h.last) fun hid => absurd hid hne
      · rw [hlist]
        exact List.mem_cons_of_mem t ht'
      · rw [freeTarget_nextId]
        exact h.old

/-- When the last target is freed and not GDB's, `last_target` is left dangling. -/
theorem freeTargets_dangling : ∀ {s : Targets}, (ts.map (·.id)).Nodup →
    (∀ t' ∈ ts, t'.id < s.nextId) → s.list = ts →
    t ∈ (ts.takeWhile fun t => (t.detachRaises raises).isNone) → s.last = some t.id →
    t.tc ≠ some .gdb → Dangling t.id (freeTargets raises ts s).2 := by
  induction ts with
  | nil => exact fun _ _ _ ht => nomatch ht
  | cons t' ts ih =>
    intro s hnodup hfresh hlist ht hlast htc
    rw [List.map_cons, List.nodup_cons] at hnodup
    rw [List.forall_mem_cons] at hfresh
    obtain ⟨-, -, hcall, -⟩ := callDetach_eq s t'
    unfold Blackmagic.freeTargets
    split
    · next e he =>
      rw [List.takeWhile_cons_of_neg (by rw [he]; exact Bool.false_ne_true)] at ht
      cases ht
    · next hnone =>
      rw [List.takeWhile_cons_of_pos (by rw [hnone]; rfl)] at ht
      rcases List.mem_cons.1 ht with rfl | ht
      · have hgone : ∀ t' ∈ ts, t'.id ≠ t.id := fun t' ht' heq =>
          hnodup.1 (List.mem_map.2 ⟨t', ht', heq⟩)
        have hold : t.id < (freeTarget s t ts).nextId := by
          rw [freeTarget_nextId]
          exact hfresh.1
        exact Dangling.freeTargets
          ⟨destroyTarget_last_of_ne (hcall.trans hlast) fun _ => htc, hgone, hold⟩ rfl
      · have hmem : t ∈ ts := (List.takeWhile_sublist _).subset ht
        have hne : t'.id ≠ t.id := fun heq =>
          hnodup.1 (List.mem_map.2 ⟨t, hmem, heq.symm⟩)
        refine ih hnodup.2 ?_ rfl ht ?_ htc
        · rw [freeTarget_nextId]
          exact hfresh.2
        · exact destroyTarget_last_of_ne (hcall.trans hlast) fun heq => absurd heq hne

/-- Otherwise `last_target` dangles. -/
theorem targetListFree_dangling (h : SessionInv s) (ht : t ∈ s.freed raises)
    (hlast : s.last = some t.id) (htc : t.tc ≠ some .gdb) :
    Dangling t.id (targetListFree raises s).2 :=
  freeTargets_dangling h.nodup h.fresh rfl ht hlast htc

/-- It still does after the list is freed again. -/
theorem Dangling.targetListFree {id : Nat} (h : Dangling id s) :
    Dangling id (targetListFree raises s).2 := h.freeTargets rfl

end

/-! ## Targets are registered -/

/-- A new target keeps the invariant. -/
theorem SessionInv.targetNew {s : Targets} (h : SessionInv s) (transport : Transport) :
    SessionInv (targetNew transport s) := by
  have hfind : ∀ id t, s.find id = some t → (Blackmagic.targetNew transport s).find id =
      some t := by
    intro id t ht
    rw [Targets.find, Blackmagic.targetNew, List.find?_append]
    rw [Targets.find] at ht
    rw [ht]
    rfl
  have hsome : ∀ id, (s.find id).isSome → ((Blackmagic.targetNew transport s).find id).isSome := by
    intro id hid
    obtain ⟨t, ht⟩ := Option.isSome_iff_exists.1 hid
    exact Option.isSome_iff_exists.2 ⟨t, hfind id t ht⟩
  constructor
  · exact ⟨fun id hid => hsome id (h.valid.cur id hid), fun id hid =>
      hsome id (h.valid.last id hid)⟩
  · intro id t hid ht
    obtain ⟨t', ht'⟩ := Option.isSome_iff_exists.1 (h.valid.cur id hid)
    rw [hfind id t' ht'] at ht
    cases ht
    exact h.owned id t hid ht'
  · rw [Blackmagic.targetNew, List.map_append, List.nodup_append]
    refine ⟨h.nodup, List.nodup_singleton _, ?_⟩
    intro a ha b hb
    obtain ⟨t, ht, rfl⟩ := List.mem_map.1 ha
    rw [List.map_singleton, List.mem_singleton] at hb
    rw [hb]
    exact Nat.ne_of_lt (h.fresh t ht)
  · intro t ht
    rcases List.mem_append.1 ht with ht | ht
    · exact Nat.lt_succ_of_lt (h.fresh t ht)
    · rw [List.mem_singleton.1 ht]
      exact Nat.lt_succ_self _

/-- So do several. -/
theorem SessionInv.targetsNew {transport : Transport} (count : Nat) :
    ∀ {s : Targets}, SessionInv s →
    SessionInv (targetsNew transport count s) := by
  induction count with
  | zero =>
    intro s h
    exact h
  | succ count ih =>
    intro s h
    exact ih (h.targetNew transport)

/-- A pointer dangles on when targets are added. -/
theorem Dangling.targetsNew {transport : Transport} {id : Nat} (count : Nat) : ∀ {s : Targets},
    Dangling id s → Dangling id (targetsNew transport count s) := by
  induction count with
  | zero =>
    intro s h
    exact h
  | succ count ih =>
    intro s h
    refine ih ⟨h.last, ?_, Nat.lt_succ_of_lt h.old⟩
    intro t ht
    rcases List.mem_append.1 ht with ht | ht
    · exact h.gone t ht
    · rw [List.mem_singleton.1 ht]
      exact (Nat.ne_of_lt h.old).symm

end Blackmagic
