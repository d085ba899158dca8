import Blackmagic.Session.Invariant
import Blackmagic.Gdb.Frame
import Blackmagic.Lib.Machine

/-!
# No dangling pointers

The UI and GDB share `cur_target` and `last_target`, and commands of both come in any order. A
pointer dangles after a command that frees the last target while its controller is not GDB, and
after no other command.
-/

namespace Blackmagic

open Effect Scanf

/-! ## The targets that a command frees -/

/-- `target_list_free` frees all targets: the list can be followed, and no `detach` raises. -/
def Targets.FreesAll (s : Targets) (d : Driver) : Prop :=
  s.torn = none ∧ ∀ t ∈ s.list, t.detachRaises (d.raises .detach) = none

/-- A monitor command that returns frees a target: a scan over SWD or JTAG, which catches the
exception of a `detach`, and `reset`, which does not. -/
def MonitorFrees (d : Driver) (m : Monitor) (s : Targets) (t : TargetRec) : Prop :=
  m.raised = none ∧
    match m.effect with
    | .scan (.emulate _) => False
    | .scan _ => s.torn = none ∧ t ∈ s.freed (d.raises .detach)
    | .reset => s.FreesAll d ∧ t ∈ s.list
    | .other => False

/-- The attach of a target by a controller frees another one, or the same one when the controller is
the UI: the driver loses the target, and `target_list_free` comes to its end. A target that GDB
attaches is freed as GDB's. -/
def AttachFrees (d : Driver) (c : Controller) (id : Nat) (s : Targets) (t : TargetRec) : Prop :=
  d.raises .attach id = none ∧ d.attach id = .lost ∧ s.FreesAll d ∧ t ∈ s.list ∧
    (c = .gdb → t.id ≠ id)

section
variable {d : Driver} {s : Targets} {t : TargetRec}

/-- All targets of the list are freed. -/
theorem Targets.FreesAll.freed (h : s.FreesAll d) : s.freed (d.raises .detach) = s.list := by
  unfold Targets.freed
  rw [List.takeWhile_eq_self_iff]
  intro t ht
  rw [h.2 t ht]
  rfl

/-- No exception leaves `target_list_free`. -/
theorem Targets.FreesAll.raised (h : s.FreesAll d) :
    (targetListFree (d.raises .detach) s).1 = none :=
  (freeTargets_all h.2).1

/-- A list that is freed without an exception is freed wholly. -/
theorem freesAll_of_raised (htorn : s.torn = none)
    (h : (targetListFree (d.raises .detach) s).1 = none) : s.FreesAll d :=
  ⟨htorn, freeTargets_none h⟩

end

/-! ## Scans -/

section
variable {raises : Nat → Option Exc} {s : Targets}

/-- The start of a scan keeps the invariant. -/
theorem SessionInv.newScan (h : SessionInv s) (transport : Transport) :
    SessionInv (s.newScan transport) :=
  h.of_pointers rfl rfl (.inl rfl) (.inl rfl)

/-- So does a whole scan. -/
theorem SessionInv.scan (h : SessionInv s) (r : Scan) (transport : Transport)
    (found : Targets → Bool) : SessionInv (r.run transport found s).2 := by
  unfold Scan.run
  split
  · exact h
  · exact h.targetsNew r.targets

/-- A pointer dangles on through a scan. -/
theorem Dangling.scan {id : Nat} (h : Dangling id s) (r : Scan) (transport : Transport)
    (found : Targets → Bool) : Dangling id (r.run transport found s).2 := by
  unfold Scan.run
  split
  · exact h
  · exact h.targetsNew r.targets

/-- What comes of a scan that frees the list first is what it registers on the list that is left. -/
theorem freeScan_cases (r : Scan) (transport : Transport) (found : Targets → Bool) :
    (freeScan raises r transport found s).2 = (targetListFree raises (s.newScan transport)).2 ∨
      (freeScan raises r transport found s).2 =
        (r.run transport found (targetListFree raises (s.newScan transport)).2).2 := by
  unfold freeScan
  split
  · next he => exact .inl (by rw [he])
  · next he => exact .inr (by rw [he])

/-- A scan that frees the list keeps the invariant when the last target, if it is freed, is
GDB's. -/
theorem freeScan_inv (h : SessionInv s)
    (hlast : ∀ t ∈ s.freed raises, s.last = some t.id → t.tc = some .gdb) (r : Scan)
    (transport : Transport) (found : Targets → Bool) :
    SessionInv (freeScan raises r transport found s).2 := by
  have hfree := targetListFree_inv (h.newScan transport) hlast
  rcases freeScan_cases r transport found with heq | heq
  · rw [heq]
    exact hfree
  · rw [heq]
    exact hfree.scan r transport found

/-- A scan that frees the UI's last target leaves it dangling. -/
theorem freeScan_dangling {t : TargetRec} (h : SessionInv s) (ht : t ∈ s.freed raises)
    (hlast : s.last = some t.id) (htc : t.tc ≠ some .gdb) (r : Scan) (transport : Transport)
    (found : Targets → Bool) : Dangling t.id (freeScan raises r transport found s).2 := by
  have hfree := targetListFree_dangling (h.newScan transport) ht hlast htc
  rcases freeScan_cases r transport found with heq | heq
  · rw [heq]
    exact hfree
  · rw [heq]
    exact hfree.scan r transport found

/-- A scan does not repair a pointer that dangles. -/
theorem Dangling.freeScan {id : Nat} (h : Dangling id s) (r : Scan) (transport : Transport)
    (found : Targets → Bool) : Dangling id (freeScan raises r transport found s).2 := by
  have hscan : Dangling id (s.newScan transport) := ⟨h.last, h.gone, h.old⟩
  have hfree : Dangling id (Blackmagic.targetListFree raises (s.newScan transport)).2 :=
    hscan.targetListFree
  rcases freeScan_cases r transport found with heq | heq
  · rw [heq]
    exact hfree
  · rw [heq]
    exact hfree.scan r transport found

/-- A JTAG scan that finds nothing leaves an empty list. -/
theorem jtagScan_false {r : Scan} {s' : Targets} (h : jtagScan raises r s = (some false, s')) :
    s'.list = [] := by
  unfold jtagScan freeScan at h
  split at h
  · cases h
  · next s₁ hfree =>
    have hlist : s₁.list = [] := by
      have hnone : (targetListFree raises (s.newScan .jtag)).1 = none := by rw [hfree]
      have hall : (targetListFree raises (s.newScan .jtag)).2.list = [] :=
        (freeTargets_all (freeTargets_none hnone)).2.1
      rw [hfree] at hall
      exact hall
    unfold Scan.run at h
    split at h
    · cases h
      exact hlist
    · next hready =>
      split at h
      · cases h
      · cases h

/-- A scan command keeps the invariant when the last target, if it is freed, is GDB's. -/
theorem scanCmd_inv (h : SessionInv s) (c : ScanCmd)
    (hlast : (∀ r, c ≠ .emulate r) →
      ∀ t ∈ s.freed raises, s.last = some t.id → t.tc = some .gdb) :
        SessionInv (scanCmd raises s c) := by
  cases c with
  | swdScan r => exact freeScan_inv h (hlast nofun) r .swd _
  | jtagScan r => exact freeScan_inv h (hlast nofun) r .jtag _
  | autoScan jtag swd =>
    have hinv : SessionInv (jtagScan raises jtag s).2 := freeScan_inv h (hlast nofun) jtag .jtag _
    unfold scanCmd
    dsimp only
    split
    · next s₁ hscan =>
      rw [hscan] at hinv
      refine freeScan_inv hinv (fun t ht => ?_) swd .swd _
      rw [Targets.freed, jtagScan_false hscan] at ht
      cases ht
    · next s₁ _ hscan =>
      rw [hscan] at hinv
      exact hinv
  | emulate r => exact (h.newScan .emu).scan _ .emu _

/-- So does every scan command but `emulate`. -/
theorem scanCmd_dangling {t : TargetRec} (h : SessionInv s) {c : ScanCmd} (hc : ∀ r, c ≠ .emulate r)
    (ht : t ∈ s.freed raises) (hlast : s.last = some t.id) (htc : t.tc ≠ some .gdb) :
    Dangling t.id (scanCmd raises s c) := by
  cases c with
  | swdScan r => exact freeScan_dangling h ht hlast htc r .swd _
  | jtagScan r => exact freeScan_dangling h ht hlast htc r .jtag _
  | autoScan jtag swd =>
    have hid : Dangling t.id (jtagScan raises jtag s).2 :=
      freeScan_dangling h ht hlast htc jtag .jtag _
    unfold scanCmd
    dsimp only
    split
    · next s₁ hscan =>
      rw [hscan] at hid
      exact hid.freeScan swd .swd _
    · next s₁ _ hscan =>
      rw [hscan] at hid
      exact hid
  | emulate r => exact absurd rfl (hc r)

end

/-! ## The programs of a session -/

/-- A program that returns keeps the invariant. -/
def Keeps {α : Type} (m : GdbM α) (s : GdbSession) : Prop :=
  Ends m s (fun _ s' => SessionInv s'.targets) fun _ _ => True

/-- Whatever stops a program ends the run. -/
theorem stops_true (d : Driver) : d.Stops fun _ => True :=
  ⟨trivial, fun _ => trivial, trivial, trivial, fun _ _ _ _ => trivial⟩

section
variable {s : GdbSession} {d : Driver} {env : GdbEnv} {pbuf : List UInt8} {size : Nat}

/-- A program that leaves the targets alone keeps the invariant. -/
theorem Untouched.keeps {α : Type} {m : GdbM α} (hm : Untouched (fun _ => True) m)
    (h : SessionInv s.targets) :
    Keeps m s := by
  refine Ends.imp (hm s) (fun _ s' hs => ?_) fun _ _ he => he
  rw [hs]
  exact h

/-- A target that `target_attach` returns is on the list and has a controller. -/
def AttachedTo (target : Option Nat) (s : Targets) : Prop :=
  ∀ id, target = some id → ∃ t, s.find id = some t ∧ t.tc.isSome

/-- An attach that fails returns none. -/
theorem attachedTo_none (s : Targets) : AttachedTo none s := by
  intro id hid
  cases hid

/-- A list that is freed keeps the invariant when the last target is GDB's. -/
theorem listFree_keeps (h : SessionInv s.targets)
    (hlast : s.targets.FreesAll d →
      ∀ t ∈ s.targets.list, s.targets.last = some t.id → t.tc = some .gdb) :
        Keeps (listFree d) s := by
  cases htorn : s.targets.torn with
  | some id => simp [Keeps, listFree, walkTargets, htorn]
  | none =>
    rw [Keeps, ends_listFree htorn]
    split
    · next hnone =>
      have hall := freesAll_of_raised htorn hnone
      refine targetListFree_inv h ?_
      rw [hall.freed]
      exact hlast hall
    · trivial

/-- Freeing the list with the UI's last target leaves it dangling. -/
theorem listFree_dangles {t : TargetRec} (h : SessionInv s.targets) (hall : s.targets.FreesAll d)
    (ht : t ∈ s.targets.list) (hlast : s.targets.last = some t.id) (htc : t.tc ≠ some .gdb) :
    Ends (listFree d) s (fun _ s' => Dangling t.id s'.targets) fun _ _ => False := by
  rw [ends_listFree hall.1, hall.raised]
  refine targetListFree_dangling h ?_ hlast htc
  rw [hall.freed]
  exact ht

/-- The targets after a controller has taken one over. -/
theorem mem_takeOver {s : Targets} {t t' : TargetRec} {c : Controller} :
    t' ∈ (s.takeOver t c).list ↔
      ∃ t₁ ∈ s.list, (if t₁.id = t.id then { t₁ with tc := some c } else t₁) = t' := by
  rw [Targets.takeOver, Targets.modify, destroyTarget_list, List.mem_map]

/-- The list of a target that is taken over is freed as before. -/
theorem freesAll_takeOver {s : Targets} {t : TargetRec} {c : Controller} :
    (s.takeOver t c).FreesAll d ↔ s.FreesAll d := by
  have hraise : ∀ t₁ : TargetRec,
      (if t₁.id = t.id then { t₁ with tc := some c } else t₁).detachRaises (d.raises .detach) =
        t₁.detachRaises (d.raises .detach) := by
    intro t₁
    split <;> rfl
  unfold Targets.FreesAll
  rw [takeOver_torn]
  refine and_congr_right fun _ => ?_
  constructor
  · intro hall t₁ ht₁
    rw [← hraise]
    exact hall _ (mem_takeOver.2 ⟨t₁, ht₁, rfl⟩)
  · intro hall t' ht'
    obtain ⟨t₁, ht₁, rfl⟩ := mem_takeOver.1 ht'
    rw [hraise]
    exact hall t₁ ht₁

/-- The targets that an attach frees are GDB's when they are the last target. -/
theorem takeOver_owned {s : Targets} {t : TargetRec} {c : Controller} (h : SessionInv s)
    (hfind : s.find t.id = some t)
    (hlast : ∀ t₁ ∈ s.list, (c = .gdb → t₁.id ≠ t.id) → s.last = some t₁.id → t₁.tc = some .gdb) :
    ∀ t' ∈ (s.takeOver t c).list, (s.takeOver t c).last = some t'.id → t'.tc = some .gdb := by
  intro t' ht' hl'
  obtain ⟨t₁, ht₁, rfl⟩ := mem_takeOver.1 ht'
  have hid : (if t₁.id = t.id then { t₁ with tc := some c } else t₁).id = t₁.id := by
    split <;> rfl
  rw [hid, show (s.takeOver t c).last = (destroyTarget s t).last from rfl] at hl'
  have hl : s.last = some t₁.id := by
    rcases (destroyTarget_pointers s t).2 with heq | heq
    · exact heq.symm.trans hl'
    · rw [heq] at hl'
      cases hl'
  split
  · next heq =>
    cases c with
    | gdb => rfl
    | ui =>
      -- the target itself: were it GDB's, it would have taken the pointer with it
      have htc := hlast t₁ ht₁ nofun hl
      obtain rfl : t₁ = t :=
        List.inj_on_of_nodup_map h.nodup ht₁ (List.mem_of_find?_eq_some hfind) heq
      rw [destroyTarget_last hl htc] at hl'
      cases hl'
  · next hne => exact hlast t₁ ht₁ (fun _ => hne) hl

/-- Attach a target: the invariant is kept, unless the driver frees the list with a last target that
is not GDB's. -/
theorem targetAttach_ends (h : SessionInv s.targets) (target : Option Nat) (c : Controller)
    (hlast : ∀ id, target = some id → ∀ t, AttachFrees d c id s.targets t →
      s.targets.last = some t.id → t.tc = some .gdb) :
    Ends (targetAttach d target c) s
      (fun r s' => SessionInv s'.targets ∧ AttachedTo r s'.targets) fun _ _ => True := by
  cases target with
  | none => trivial
  | some id =>
    cases hfind : s.targets.find id with
    | none => simp [targetAttach, hfind]
    | some t =>
      have hid := find_id hfind
      subst hid
      cases hraise : d.raises .attach t.id with
      | some e =>
        have hne : (s.targets.takeOver t c).find t.id ≠ none := by
          rw [find_takeOver, hfind]
          exact Option.some_ne_none _
        have htake : ((destroyTarget s.targets t).modify t.id fun t => { t with tc := some c }) =
          s.targets.takeOver t c := rfl
        simp [targetAttach, hfind, callTarget, htake, hraise, hne]
      | none =>
        rw [ends_targetAttach hfind hraise]
        cases hend : d.attach t.id with
        | attached =>
          refine ⟨(h.takeOver t c).attached t.id true, fun id hid => ?_⟩
          cases hid
          refine ⟨{ t with tc := some c, attached := true }, ?_, rfl⟩
          rw [find_modify, find_takeOver, hfind]
          · simp
          · intro t
            rfl
        | failed => exact ⟨h.takeOver t c, attachedTo_none _⟩
        | lost =>
          refine Ends.imp (listFree_keeps (h.takeOver t c) fun hall => ?_)
            (fun _ _ hs => ⟨hs, attachedTo_none _⟩) fun _ _ he => he
          exact takeOver_owned h hfind fun t₁ ht₁ hne =>
            hlast t.id rfl t₁ ⟨hraise, hend, freesAll_takeOver.1 hall, ht₁, hne⟩

/-- Otherwise `last_target` dangles, and the attach fails. -/
theorem targetAttach_dangles {c : Controller} {t t₀ : TargetRec} {id : Nat}
    (h : SessionInv s.targets) (hfind : s.targets.find id = some t₀)
    (hfrees : AttachFrees d c id s.targets t) (hlast : s.targets.last = some t.id)
    (htc : t.tc ≠ some .gdb) :
    Ends (targetAttach d (some id) c) s
      (fun r s' => r = none ∧ Dangling t.id s'.targets) fun _ _ => False := by
  have hid := find_id hfind
  subst hid
  obtain ⟨hraise, hend, hall, ht, hne⟩ := hfrees
  rw [ends_targetAttach hfind hraise, hend]
  -- the target as it is freed
  let t' : TargetRec := if t.id = t₀.id then { t with tc := some c } else t
  have hid' : t'.id = t.id := by
    dsimp only [t']
    split <;> rfl
  have htc' : t'.tc ≠ some .gdb := by
    dsimp only [t']
    split
    · next heq =>
      cases c with
      | gdb => exact absurd heq (hne rfl)
      | ui => exact nofun
    · exact htc
  have hlast' : (s.targets.takeOver t₀ c).last = some t'.id := by
    rw [hid']
    refine destroyTarget_last_of_ne hlast fun heq => ?_
    rw [List.inj_on_of_nodup_map h.nodup (List.mem_of_find?_eq_some hfind) ht heq]
    exact htc
  refine Ends.imp (listFree_dangles (h.takeOver t₀ c) (freesAll_takeOver.2 hall)
    (mem_takeOver.2 ⟨t, ht, rfl⟩) hlast' htc') (fun _ s' hs => ⟨rfl, ?_⟩) fun _ _ he => he
  rw [← hid']
  exact hs

/-- `cur_target` becomes what an attach returned. -/
theorem sessionInv_setAttached {s : Targets} {target : Option Nat} (h : SessionInv s)
    (ht : AttachedTo target s) : SessionInv { s with cur := target } := by
  cases target with
  | none => exact h.clearCur
  | some id =>
    obtain ⟨t, hfind, htc⟩ := ht id rfl
    exact h.setCur hfind htc

/-- The attach of the target of a number frees a target. -/
def AttachNFrees (d : Driver) (c : Controller) (n : Nat) (s : Targets) (t : TargetRec) : Prop :=
  ∃ t₀, n ≠ 0 ∧ s.list[n - 1]? = some t₀ ∧ AttachFrees d c t₀.id s t

/-- An attach keeps the invariant, and the target it returns is attached to the controller. -/
theorem targetAttachN_ends (h : SessionInv s.targets) (n : Nat) (c : Controller)
    (hlast : ∀ t, AttachNFrees d c n s.targets t → s.targets.last = some t.id → t.tc = some .gdb) :
    Ends (targetAttachN d n c) s
      (fun r s' => SessionInv s'.targets ∧ AttachedTo r s'.targets) fun _ _ => True := by
  cases htorn : s.targets.torn with
  | some id => simp [targetAttachN, walkTargets, htorn]
  | none =>
    refine ends_targetAttachN htorn ⟨h, attachedTo_none _⟩ fun t₀ hn ht₀ =>
      targetAttach_ends h (some t₀.id) c fun id hid t hfrees => ?_
    cases hid
    exact hlast t ⟨t₀, hn, ht₀, hfrees⟩

/-- An attach that frees the UI's last target fails, and leaves it dangling. -/
theorem targetAttachN_dangles {n : Nat} {c : Controller} {t : TargetRec} (h : SessionInv s.targets)
    (hfrees : AttachNFrees d c n s.targets t) (hlast : s.targets.last = some t.id)
    (htc : t.tc ≠ some .gdb) :
    Ends (targetAttachN d n c) s
      (fun r s' => r = none ∧ Dangling t.id s'.targets) fun _ _ => False := by
  obtain ⟨t₀, hn, ht₀, hfrees⟩ := hfrees
  obtain ⟨t₁, hfind⟩ := find_of_mem (List.mem_of_getElem? ht₀)
  obtain ⟨n, rfl⟩ := Nat.exists_eq_succ_of_ne_zero hn
  rw [Nat.succ_sub_one] at ht₀
  simp only [targetAttachN, ends_bind, ends_walkTargets hfrees.2.2.1.1, ends_get, ht₀]
  exact targetAttach_dangles h hfind hfrees hlast htc

/-- A detached target becomes the last one. -/
theorem detachLast_keeps {k : GdbM Unit} (h : SessionInv s.targets) {id : Nat}
    (hcur : s.targets.cur = some id)
    (hk : ∀ s', SessionInv s'.targets → Keeps k s') :
    Keeps (do
      targetDetach d (some id)
      modifyTargets fun s => { s with last := some id, cur := none }
      k) s := by
  simp only [Keeps, targetDetach, ends_bind, ends_modifyTargets]
  refine Ends.imp (untouched_callTarget (stops_true d) .detach (some id) _ s) (fun _ s' hs => ?_)
    fun _ _ he => he
  refine hk _ (((hs ▸ h).attached id false).detach ?_)
  rw [hs, find_modify, Option.isSome_map]
  · exact h.valid.cur id hcur
  · intro t
    rfl

/-! ### The UI -/

/-- The UI's attach keeps the invariant. -/
theorem vAttach_keeps (h : SessionInv s.targets) (n : Nat)
    (hlast : ∀ t, AttachNFrees d .ui n s.targets t → s.targets.last = some t.id →
      t.tc = some .gdb) :
    Keeps (vAttach d n) s := by
  rw [Keeps, vAttach, ends_bind]
  refine Ends.imp (targetAttachN_ends h n .ui hlast) (fun r s' hs => ?_) fun _ _ he => he
  cases r with
  | none => exact hs.1
  | some id => exact sessionInv_setAttached hs.1 hs.2

/-- One that frees the UI's last target leaves it dangling. -/
theorem vAttach_dangles {n : Nat} {t : TargetRec} (h : SessionInv s.targets)
    (hfrees : AttachNFrees d .ui n s.targets t) (hlast : s.targets.last = some t.id)
    (htc : t.tc ≠ some .gdb) :
    Ends (vAttach d n) s (fun _ s' => Dangling t.id s'.targets) fun _ _ => False := by
  rw [vAttach, ends_bind]
  refine Ends.imp (targetAttachN_dangles h hfrees hlast htc) (fun r s' hs => ?_) fun _ _ he => he
  obtain ⟨rfl, hid⟩ := hs
  exact hid

/-- The UI's detach keeps the invariant. -/
theorem vDetach_keeps (h : SessionInv s.targets) : Keeps (vDetach d) s := by
  simp only [Keeps, vDetach, ends_bind, ends_curTarget]
  cases s.targets.cur with
  | none => exact h
  | some id =>
    simp only [targetDetach, ends_bind, ends_modifyTargets]
    refine Ends.imp (untouched_callTarget (stops_true d) .detach (some id) _ s) (fun _ s' hs => ?_)
      fun _ _ he => he
    exact ((hs ▸ h).attached id false).clearCur

/-- A command line of the UI or of GDB keeps the invariant, unless it frees a last target that is
not GDB's. -/
theorem commandProcess_keeps {m : Monitor} {Q : Int → GdbSession → Prop} (h : SessionInv s.targets)
    (hlast : ∀ t, MonitorFrees d m s.targets t → s.targets.last = some t.id → t.tc = some .gdb)
    (hreturn : ∀ s', SessionInv s'.targets → Q m.result s') :
    Ends (commandProcess d m) s Q fun _ _ => True := by
  cases hraised : m.raised with
  | some e =>
    rw [commandProcess, ends_bind]
    refine Ends.imp (ends_true _ s) (fun _ s' _ => ?_) fun _ _ he => he
    simp [hraised]
  | none =>
    have heffect : Keeps (monitorEffect d m.effect) s := by
      cases hm : m.effect with
      | other => exact h
      | reset =>
        refine listFree_keeps h fun hall t ht => hlast t ⟨hraised, ?_⟩
        rw [hm]
        exact ⟨hall, ht⟩
      | scan c =>
        rw [monitorEffect, Keeps, ends_bind]
        cases htorn : s.targets.torn with
        | none =>
          have hscan : SessionInv (scanCmd (d.raises .detach) s.targets c) := by
            refine scanCmd_inv h c fun hc t ht => hlast t ⟨hraised, ?_⟩
            rw [hm]
            cases c with
            | emulate r => exact absurd rfl (hc r)
            | swdScan r => exact ⟨htorn, ht⟩
            | jtagScan r => exact ⟨htorn, ht⟩
            | autoScan jtag swd => exact ⟨htorn, ht⟩
          unfold walkScan
          split
          · rw [ends_walkTargets htorn]
            exact hscan
          · exact hscan
        | some id =>
          unfold walkScan
          split
          · simp [walkTargets, htorn]
          · -- an `emulate` that registers nothing
            next hwalks =>
            refine scanCmd_inv h c fun hc => ?_
            cases c with
            | emulate r => exact absurd rfl (hc r)
            | swdScan r => exact absurd rfl hwalks
            | jtagScan r => exact absurd rfl hwalks
            | autoScan jtag swd => exact absurd rfl hwalks
    rw [commandProcess, ends_bind]
    refine Ends.imp heffect (fun _ s' hs => ?_) fun _ _ he => he
    simp only [ends_bind, ends_modify, hraised, ends_pure]
    exact hreturn _ hs

/-- A monitor command that does leaves `last_target` dangling. -/
theorem commandProcess_dangles {m : Monitor} {t : TargetRec} (h : SessionInv s.targets)
    (hfrees : MonitorFrees d m s.targets t) (hlast : s.targets.last = some t.id)
    (htc : t.tc ≠ some .gdb) :
    Ends (commandProcess d m) s (fun _ s' => Dangling t.id s'.targets) fun _ _ => False := by
  obtain ⟨hraised, hfrees⟩ := hfrees
  have heffect : Ends (monitorEffect d m.effect) s (fun _ s' => Dangling t.id s'.targets)
      fun _ _ => False := by
    cases hm : m.effect with
    | other =>
      rw [hm] at hfrees
      exact hfrees.elim
    | reset =>
      rw [hm] at hfrees
      exact listFree_dangles h hfrees.1 hfrees.2 hlast htc
    | scan c =>
      rw [hm] at hfrees
      have hscan : s.targets.torn = none ∧
          Dangling t.id (scanCmd (d.raises .detach) s.targets c) := by
        cases c with
        | emulate r => exact hfrees.elim
        | swdScan r => exact ⟨hfrees.1, scanCmd_dangling h nofun hfrees.2 hlast htc⟩
        | jtagScan r => exact ⟨hfrees.1, scanCmd_dangling h nofun hfrees.2 hlast htc⟩
        | autoScan jtag swd => exact ⟨hfrees.1, scanCmd_dangling h nofun hfrees.2 hlast htc⟩
      rw [monitorEffect, ends_bind, walkScan]
      split
      · rw [ends_walkTargets hscan.1]
        exact hscan.2
      · exact hscan.2
  rw [commandProcess, ends_bind]
  refine Ends.imp heffect (fun _ s' hs => ?_) fun _ _ he => he
  simp only [ends_bind, ends_modify, hraised, ends_pure]
  exact hs

/-! ### GDB -/

/-- `vAttach` keeps it. -/
theorem handleVAttach_keeps (h : SessionInv s.targets) (n : UInt32)
    (hlast : ∀ t, AttachNFrees env.fns.toDriver .gdb n.toNat s.targets t →
      s.targets.last = some t.id → t.tc = some .gdb) : Keeps (handleVAttach env n) s := by
  simp only [Keeps, handleVAttach, ends_bind, ends_modifyTargets]
  refine Ends.imp (targetAttachN_ends h n.toNat .gdb hlast) (fun r s' hs => ?_) fun _ _ he => he
  refine Untouched.keeps ?_ (sessionInv_setAttached hs.1 hs.2)
  split <;> exact untouched_putPacketz _

/-- One that frees the UI's last target leaves it dangling. -/
theorem handleVAttach_dangles {n : UInt32} {t : TargetRec} (h : SessionInv s.targets)
    (hfrees : AttachNFrees env.fns.toDriver .gdb n.toNat s.targets t)
    (hlast : s.targets.last = some t.id) (htc : t.tc ≠ some .gdb) :
    Ends (handleVAttach env n) s (fun _ s' => Dangling t.id s'.targets) fun _ _ => False := by
  simp only [handleVAttach, ends_bind, ends_modifyTargets]
  refine Ends.imp (targetAttachN_dangles h hfrees hlast htc) (fun r s' hs => ?_) fun _ _ he => he
  obtain ⟨rfl, hid⟩ := hs
  exact ⟨hid.last, hid.gone, hid.old⟩

/-- GDB attaches the last target again: if it is freed, it is GDB's. -/
theorem attachLast_ends (h : SessionInv s.targets) :
    Ends (targetAttach d s.targets.last .gdb) s
      (fun r s' => SessionInv s'.targets ∧ AttachedTo r s'.targets) fun _ _ => True := by
  refine targetAttach_ends h s.targets.last .gdb fun id hid t hfrees hl => ?_
  rw [hid] at hl
  exact absurd (Option.some.inj hl).symm (hfrees.2.2.2.2 rfl)

/-- `vRun` keeps the invariant. -/
theorem handleVRun_keeps (h : SessionInv s.targets) : Keeps (handleVRun env pbuf) s := by
  simp only [Keeps, handleVRun, ends_bind, ends_get]
  split
  · refine Untouched.keeps ?_ h
    exact (untouched_call (stops_true _) _ _ _).bind fun _ =>
        (untouched_call (stops_true _) _ _ _).bind fun _ =>
      untouched_putPacketz _
  · split
    · simp only [ends_bind, ends_modifyTargets]
      refine Ends.imp (attachLast_ends h) (fun r s' hs => ?_) fun _ _ he => he
      refine Untouched.keeps ?_ (sessionInv_setAttached hs.1 hs.2)
      split
      · exact (untouched_call (stops_true _) _ _ _).bind fun _ =>
            (untouched_call (stops_true _) _ _ _).bind fun _ =>
          untouched_putPacketz _
      · exact untouched_putPacketz _
    · exact (untouched_putPacketz _).keeps h

/-- `R` keeps it. -/
theorem handleReset_keeps (h : SessionInv s.targets) : Keeps (handleReset env) s := by
  simp only [Keeps, handleReset, ends_bind, ends_get]
  split
  · exact (untouched_call (stops_true _) _ _ _).keeps h
  · split
    · simp only [ends_bind, ends_modifyTargets]
      refine Ends.imp (attachLast_ends h) (fun r s' hs => ?_) fun _ _ he => he
      exact (untouched_call (stops_true _) _ _ _).keeps (sessionInv_setAttached hs.1 hs.2)
    · exact h

/-- `k` keeps it, with what follows. -/
theorem handleKillTarget_keeps {k : GdbM Unit} (h : SessionInv s.targets)
    (hk : ∀ s', SessionInv s'.targets → Keeps k s') :
    Keeps (handleKillTarget env >>= fun _ => k) s := by
  simp only [Keeps, handleKillTarget, ends_bind, ends_curTarget]
  cases hcur : s.targets.cur with
  | none => exact hk s h
  | some id =>
    simp only [ends_bind]
    refine Ends.imp (untouched_call (stops_true _) .reset (some id) _ s) (fun _ s' hs => ?_)
      fun _ _ he => he
    have hkeep := detachLast_keeps (s := s') (d := env.fns.toDriver) (k := k) (hs ▸ h)
      (by rw [hs]; exact hcur) hk
    simpa only [Keeps, ends_bind] using hkeep

/-- `D` keeps it. -/
theorem handleDetach_keeps (h : SessionInv s.targets) (reply : Bool) :
    Keeps (handleDetach env reply) s := by
  have hend : ∀ s' : GdbSession, SessionInv s'.targets →
      Keeps (if reply then putPacketz "OK" >>= fun _ => setNoackmode false
        else setNoackmode false) s' := by
    intro s' hs
    refine Untouched.keeps ?_ hs
    split
    · exact (untouched_putPacketz _).bind fun _ => untouched_setNoackmode _
    · exact untouched_setNoackmode _
  simp only [Keeps, handleDetach, ends_bind, ends_curTarget]
  cases hcur : s.targets.cur with
  | none =>
    have hkeep := hend s h
    simpa only [Keeps, ends_bind] using hkeep
  | some id =>
    have hkeep := detachLast_keeps (d := env.fns.toDriver) h hcur hend
    simpa only [Keeps, ends_bind] using hkeep

/-- `vStopped` keeps it. -/
theorem handleVStopped_keeps (h : SessionInv s.targets) : Keeps handleVStopped s := by
  simp only [Keeps, handleVStopped, ends_bind, ends_get]
  split
  · exact h.of_pointers rfl rfl (.inl rfl) (.inl rfl)
  · exact h

/-- The monitor command of a `qRcmd` packet. -/
def rcmdMonitor (env : GdbEnv) (pbuf : List UInt8) (size : Nat) (s : Targets) : Option Monitor :=
  match gdbCommand (pbuf.headD 0), findCommand pbuf with
  | .query, some (pre, .rcmd) =>
    some (env.monitor s.cur (cstr (unhexify (pbuf.drop pre.length) ((size - pre.length) / 2))))
  | _, _ => none

/-- The reply to a monitor command. -/
theorem untouched_rcmdReply (c : Int) : Untouched (fun _ => True)
    (if c < 0 then putPacketz "" else if c = 0 then putPacketz "OK"
      else putPacket (hexify (ascii "Failed\n"))) := by
  split
  · exact untouched_putPacketz _
  · split
    · exact untouched_putPacketz _
    · exact untouched_putPacket _

/-- The targets that a packet frees: those of its monitor command, or of its attach. -/
def GdbFrees (env : GdbEnv) (pbuf : List UInt8) (size : Nat) (s : Targets) (t : TargetRec) : Prop :=
  (∃ m, rcmdMonitor env pbuf size s = some m ∧ MonitorFrees env.fns.toDriver m s t) ∨
    ∃ n, gdbCommand (pbuf.headD 0) = .verbose ∧ vPacket pbuf = .attach n ∧
      AttachNFrees env.fns.toDriver .gdb n.toNat s t

/-- A packet keeps the invariant, unless it frees a last target that is not GDB's. -/
theorem gdbMain_keeps (h : SessionInv s.targets)
    (hlast : ∀ t, GdbFrees env pbuf size s.targets t → s.targets.last = some t.id →
      t.tc = some .gdb) : Keeps (gdbMain env pbuf size) s := by
  unfold gdbMain
  cases hcommand : gdbCommand (pbuf.headD 0) with
  | readRegs => exact (untouched_handleReadRegs (stops_true _)).errorIfNoTarget.keeps h
  | readMem => exact (untouched_handleReadMem (stops_true _)).errorIfNoTarget.keeps h
  | writeRegs => exact (untouched_handleWriteRegs (stops_true _)).errorIfNoTarget.keeps h
  | writeMem => exact (untouched_handleWriteMem (stops_true _)).errorIfNoTarget.keeps h
  | setThread => exact untouched_handleSetThread.keeps h
  | resume step => exact (untouched_handleResume (stops_true _) step).keeps h
  | haltReason => exact untouched_handleHaltReason.keeps h
  | readReg => exact (untouched_handleReadReg (stops_true _)).errorIfNoTarget.keeps h
  | writeReg => exact (untouched_handleWriteReg (stops_true _)).errorIfNoTarget.keeps h
  | syscallReply => exact (untouched_putPacketz _).keeps h
  | extended => exact (untouched_putPacketz _).keeps h
  | closed => exact handleDetach_keeps h false
  | detach => exact handleDetach_keeps h true
  | kill =>
    have hkeep : Keeps (handleKillTarget env >>= fun _ => pure ()) s :=
      handleKillTarget_keeps h fun s' hs => hs
    simpa only [Keeps, bind_pure_unit] using hkeep
  | reset => exact handleReset_keeps h
  | writeBinary => exact (untouched_handleWriteBinary (stops_true _)).errorIfNoTarget.keeps h
  | breakwatch => exact (untouched_handleZPacket (stops_true _)).errorIfNoTarget.keeps h
  | unsupported => exact (untouched_putPacketz _).keeps h
  | query =>
    dsimp only
    unfold handleQPacket
    cases hfind : findCommand pbuf with
    | none => exact (untouched_putPacketz _).keeps h
    | some found =>
      obtain ⟨pre, command⟩ := found
      by_cases hrcmd : command = .rcmd
      · subst hrcmd
        simp only [execQ, Keeps, execQRcmd, ends_bind, ends_curTarget]
        refine commandProcess_keeps h (fun t hfrees => hlast t (.inl ⟨_, ?_, hfrees⟩))
          fun s' hs => (untouched_rcmdReply _).keeps hs
        rw [rcmdMonitor, hcommand, hfind]
      · exact (untouched_execQ (stops_true _) hrcmd).keeps h
  | verbose =>
    dsimp only
    unfold handleVPacket
    cases hpacket : vPacket pbuf with
    | attach n =>
      exact handleVAttach_keeps h n fun t hfrees => hlast t (.inr ⟨n, hcommand, hpacket, hfrees⟩)
    | kill => exact handleKillTarget_keeps h fun s' hs => (untouched_putPacketz _).keeps hs
    | run => exact handleVRun_keeps h
    | cont => exact (untouched_handleVCont (stops_true _)).keeps h
    | flashErase addr len => exact (untouched_handleVFlashErase (stops_true _) addr len).keeps h
    | flashWrite addr position => exact (untouched_handleVFlashWrite (stops_true _) addr _).keeps h
    | flashDone => exact (untouched_handleVFlashDone (stops_true _)).keeps h
    | stopped => exact handleVStopped_keeps h
    | unsupported => exact (untouched_putPacketz _).keeps h

/-- A packet that does leaves `last_target` dangling. -/
theorem gdbMain_dangles {t : TargetRec} (h : SessionInv s.targets)
    (hfrees : GdbFrees env pbuf size s.targets t) (hlast : s.targets.last = some t.id)
    (htc : t.tc ≠ some .gdb) :
    Ends (gdbMain env pbuf size) s (fun _ s' => Dangling t.id s'.targets) fun _ _ => False := by
  rcases hfrees with ⟨m, hm, hfrees⟩ | ⟨n, hcommand, hpacket, hfrees⟩
  · simp only [rcmdMonitor] at hm
    split at hm
    · next pre hcommand hfind =>
      cases hm
      simp only [gdbMain, hcommand, handleQPacket, hfind, execQ, execQRcmd, ends_bind,
        ends_curTarget]
      refine Ends.imp (commandProcess_dangles h hfrees hlast htc) (fun c s' hs => ?_) fun _ _ he =>
        he
      split
      · exact hs
      · split <;> exact hs
    · cases hm
  · simp only [gdbMain, hcommand, handleVPacket, hpacket]
    exact handleVAttach_dangles h hfrees hlast htc

end

/-! ## Runs -/

/-- `target_halt_poll` in the verb `poll`, where a driver that has lost the target frees the
list. -/
def vPoll (d : Driver) (lost : Bool) : GdbM Unit := do
  match ← curTarget with
  | none => return ()
  | some id =>
    callTarget d .haltPoll (some id) fun _ => ()
    if lost then listFree d

/-- A command of the UI, or a packet that GDB sends. -/
inductive SessionCmd
  | uiAttach (d : Driver) (n : Nat)
  | uiDetach (d : Driver)
  | uiPoll (d : Driver) (lost : Bool)
  | uiCommand (d : Driver) (m : Monitor)
  | gdb (env : GdbEnv) (pbuf : List UInt8) (size : Nat)

/-- What a command does. -/
def sessionProgram : SessionCmd → GdbM Unit
  | .uiAttach d n => vAttach d n
  | .uiDetach d => vDetach d
  | .uiPoll d lost => vPoll d lost
  | .uiCommand d m => do
    let _ ← commandProcess d m
  | .gdb env pbuf size => gdbMain env pbuf size

/-- A command that does not return ends the run. -/
def sessionStep (s : GdbSession) (c : SessionCmd) : Except Stop GdbSession :=
  match sessionProgram c s with
  | .ok _ s' => .ok s'
  | .error e _ => .error e

/-- A command that returns frees a target: an attach or a `poll` that finds the target lost, a scan
over SWD or JTAG, and `reset`. A target that GDB attaches in the same command is not counted. -/
def Frees (s : Targets) (c : SessionCmd) (t : TargetRec) : Prop :=
  match c with
  | .uiAttach d n => AttachNFrees d .ui n s t
  | .uiDetach _ => False
  | .uiPoll d lost =>
    lost = true ∧ (∃ id, s.cur = some id ∧ d.raises .haltPoll id = none) ∧ s.FreesAll d ∧ t ∈ s.list
  | .uiCommand d m => MonitorFrees d m s t
  | .gdb env pbuf size => GdbFrees env pbuf size s t

/-- The last target, if a command frees it, has GDB as its controller. -/
def LastOwned (s : Targets) (c : SessionCmd) : Prop :=
  ∀ t, Frees s c t → s.last = some t.id → t.tc = some .gdb

/-- What a program ensures holds after its step. -/
theorem sessionStep_of_ends {s s' : GdbSession} {c : SessionCmd} {Q : Unit → GdbSession → Prop}
    {E : Stop → GdbSession → Prop} (h : Ends (sessionProgram c) s Q E)
    (hstep : sessionStep s c = .ok s') : Q () s' := by
  unfold sessionStep at hstep
  unfold Ends at h
  cases hm : sessionProgram c s with
  | ok a s₁ =>
    rw [hm] at h hstep
    cases hstep
    exact h
  | error e s₁ =>
    rw [hm] at hstep
    cases hstep

/-- A program that always returns is a step. -/
theorem sessionStep_ok_of_ends {s : GdbSession} {c : SessionCmd} {Q : Unit → GdbSession → Prop}
    (h : Ends (sessionProgram c) s Q fun _ _ => False) :
    ∃ s', sessionStep s c = .ok s' ∧ Q () s' := by
  unfold sessionStep
  unfold Ends at h
  cases hm : sessionProgram c s with
  | ok a s₁ =>
    rw [hm] at h
    exact ⟨s₁, rfl, h⟩
  | error e s₁ =>
    rw [hm] at h
    exact h.elim

/-- A command that does not free a last target of the UI keeps the invariant. -/
theorem sessionStep_inv {s s' : GdbSession} {c : SessionCmd} (h : SessionInv s.targets)
    (hlast : LastOwned s.targets c) (hstep : sessionStep s c = .ok s') : SessionInv s'.targets := by
  have hkeep : Keeps (sessionProgram c) s := by
    cases c with
    | uiAttach d n => exact vAttach_keeps h n hlast
    | uiDetach d => exact vDetach_keeps h
    | uiPoll d lost =>
      simp only [Keeps, sessionProgram, vPoll, ends_bind, ends_curTarget]
      cases hcur : s.targets.cur with
      | none => exact h
      | some id =>
        cases hraise : d.raises .haltPoll id with
        | some e =>
          have hne := Option.isSome_iff_ne_none.1 (h.valid.cur id hcur)
          simp [callTarget, hraise, hne]
        | none =>
          simp only [ends_bind, ends_callTarget_some (h.valid.cur id hcur) hraise]
          split
          · next hlost =>
            exact listFree_keeps h fun hall t ht => hlast t ⟨hlost, ⟨id, hcur, hraise⟩, hall, ht⟩
          · exact h
    | uiCommand d m =>
      simp only [Keeps, sessionProgram, ends_bind]
      exact commandProcess_keeps h hlast fun s' hs => hs
    | gdb env pbuf size => exact gdbMain_keeps h hlast
  exact sessionStep_of_ends hkeep hstep

/-- A command that does leaves a pointer that dangles. -/
theorem sessionStep_dangling {s : GdbSession} {c : SessionCmd} (h : SessionInv s.targets)
    (hlast : ¬ LastOwned s.targets c) :
    ∃ s', sessionStep s c = .ok s' ∧ ¬ PointersValid s'.targets := by
  simp only [LastOwned, not_forall] at hlast
  obtain ⟨t, hfrees, hl, htc⟩ := hlast
  have hends : Ends (sessionProgram c) s (fun _ s' => Dangling t.id s'.targets)
      fun _ _ => False := by
    cases c with
    | uiAttach d n => exact vAttach_dangles h hfrees hl htc
    | uiDetach d => exact hfrees.elim
    | uiPoll d lost =>
      obtain ⟨rfl, ⟨id, hcur, hraise⟩, hall, ht⟩ := hfrees
      simp only [sessionProgram, vPoll, ends_bind, ends_curTarget, hcur,
        ends_callTarget_some (h.valid.cur id hcur) hraise, if_true]
      exact listFree_dangles h hall ht hl htc
    | uiCommand d m =>
      simp only [sessionProgram, ends_bind]
      exact commandProcess_dangles h hfrees hl htc
    | gdb env pbuf size => exact gdbMain_dangles h hfrees hl htc
  obtain ⟨s', hstep, hid⟩ := sessionStep_ok_of_ends hends
  exact ⟨s', hstep, hid.not_valid⟩

/-- **No dangling pointer.** In a run of commands of the UI and packets of GDB, `cur_target` and
`last_target` are NULL or on the target list in every state, exactly when no command frees the last
target while its controller is not GDB. -/
theorem sessionRun_valid_iff (cs : List SessionCmd) :
    Machine.Always sessionStep (fun s => PointersValid s.targets) GdbSession.boot cs ↔
      Machine.Along sessionStep (fun s c => LastOwned s.targets c) GdbSession.boot cs := by
  refine Machine.always_iff_along (fun (s : GdbSession) (h : SessionInv s.targets) => h.valid) ?_ ?_
    sessionInv_boot
  · intro s c s' h hlast hstep
    exact sessionStep_inv h hlast hstep
  · intro s c h hlast
    exact sessionStep_dangling h hlast

/-- The scan that finds one target. -/
def swdScanOne : Monitor :=
  { effect := .scan (.swdScan ⟨true, 1, false⟩), console := [], raised := none, result := 0 }

/-- A target that the UI attached and GDB detached is the last target of a new scan. -/
theorem sessionRun_dangles :
    ¬ Machine.Always sessionStep (fun s => PointersValid s.targets) GdbSession.boot
      [.uiCommand (plainEnv true).fns.toDriver swdScanOne, .uiAttach (plainEnv true).fns.toDriver 1,
        .gdb (plainEnv true) (ascii "D") 1,
          .uiCommand (plainEnv true).fns.toDriver swdScanOne] := by
  intro h
  have hlast := (h _ [] _ (List.append_nil _).symm rfl).last 0 rfl
  revert hlast
  decide

end Blackmagic
