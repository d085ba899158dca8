import Blackmagic.Session.Targets
import Blackmagic.Lib.Effect

/-!
# Calls into the target: attach, detach and monitor commands

GDB and the UI call target functions through a pointer. Such a call stops the program when the
pointer is NULL or the target was freed, and an exception of a driver leaves all the callers. The
session keeps what it did up to then.
-/

namespace Blackmagic

open Effect

/-! ## Sessions -/

/-- Why a program does not return: a call through a NULL pointer, a freed target, a store outside of
the buffer of a handler, a CRC that `bmd_crc32` does not come to, and an exception. -/
inductive Stop
  | nullTarget
  | freedTarget (id : Nat)
  | overrun
  | crcLost
  | raised (e : Exc)
  deriving DecidableEq, Repr

/-- The target functions. -/
inductive TargetOp
  | attach
  | detach
  | regsSize
  | regsRead
  | regsWrite (regs : List UInt8)
  | memRead
  | memWrite
  | regRead
  | regWrite
  | haltResume (step : Bool)
  | haltRequest
  | haltPoll
  | reset
  | setCmdline (cmdline : List UInt8)
  | flashErase
  | flashWrite
  | flashComplete
  | breakwatchSet
  | breakwatchClear
  | memMap
  | regsDescription
  | crc32
  | options
  deriving DecidableEq, Repr

/-- What a session does towards the host and the target: a reply packet, a character on its own,
console text, and a call of a target function. -/
inductive GdbOut
  | reply (packet : List UInt8)
  | char (c : UInt8)
  | console (text : String)
  | call (id : Nat) (op : TargetOp)
  deriving DecidableEq, Repr

/-- A session: the targets and the pointers to them, `gdb_target_running`, `noackmode`, and what has
been done. -/
structure GdbSession where
  targets : Targets
  running : Bool
  noackmode : Bool
  out : List GdbOut
  deriving DecidableEq, Repr

/-- The session at boot. -/
def GdbSession.boot : GdbSession :=
  { targets := Targets.boot, running := false, noackmode := false, out := [] }

/-- Programs of a session. -/
abbrev GdbM := EStateM Stop GdbSession

/-- Change the targets. -/
def modifyTargets (f : Targets → Targets) : GdbM Unit :=
  modify fun s => { s with targets := f s.targets }

/-- Note something done. -/
def emit (o : GdbOut) : GdbM Unit := modify fun s => { s with out := s.out ++ [o] }

/-- `cur_target`. -/
def curTarget : GdbM (Option Nat) := return (← get).targets.cur

/-! ## Attach and detach -/

/-- How the `attach` of a driver ends. One that polls whether the target halts, and loses the
target, frees the target list. -/
inductive AttachEnd
  | attached
  | failed
  | lost
  deriving DecidableEq, Repr

/-- What the drivers of the targets do: which of their functions raise an exception, and how
`attach` ends. -/
structure Driver where
  raises : TargetOp → Nat → Option Exc
  attach : Nat → AttachEnd

/-- Follow `target_list`, which points to a freed target once an exception has left
`target_list_free`. -/
def walkTargets : GdbM Unit := do
  match (← get).targets.torn with
  | none => return ()
  | some id => throw (.freedTarget id)

/-- The call of `target_list_free`. -/
def listFree (d : Driver) : GdbM Unit := do
  walkTargets
  let s ← get
  set { s with targets := (targetListFree (d.raises .detach) s.targets).2 }
  match (targetListFree (d.raises .detach) s.targets).1 with
  | none => return ()
  | some e => throw (.raised e)

/-- Call a function of the target that a pointer points to. -/
def callTarget {α : Type} (d : Driver) (op : TargetOp) (target : Option Nat) (f : Nat → α) :
    GdbM α := do
  match target with
  | none => throw .nullTarget
  | some id =>
    if ((← get).targets.find id).isNone then throw (.freedTarget id)
    emit (.call id op)
    match d.raises op id with
    | none => return f id
    | some e => throw (.raised e)

/-- `target_attach`. -/
def targetAttach (d : Driver) (target : Option Nat) (c : Controller) : GdbM (Option Nat) := do
  match target with
  | none => throw .nullTarget
  | some id =>
    match (← get).targets.find id with
    | none => throw (.freedTarget id)
    | some t =>
      modifyTargets fun s => (destroyTarget s t).modify id fun t => { t with tc := some c }
      match ← callTarget d .attach (some id) d.attach with
      | .attached =>
        modifyTargets fun s => s.modify id fun t => { t with attached := true }
        return some id
      | .failed => return none
      | .lost =>
        listFree d
        return none

/-- `target_attach_n`: targets are numbered from 1. -/
def targetAttachN (d : Driver) (n : Nat) (c : Controller) : GdbM (Option Nat) := do
  walkTargets
  match n with
  | 0 => return none
  | n + 1 =>
    match (← get).targets.list[n]? with
    | some t => targetAttach d (some t.id) c
    | none => return none

/-- `target_detach`. -/
def targetDetach (d : Driver) (target : Option Nat) : GdbM Unit := do
  callTarget d .detach target fun _ => ()
  match target with
  | none => return ()
  | some id => modifyTargets fun s => s.modify id fun t => { t with attached := false }

/-! ## Valid pointers -/

/-- A pointer is NULL or points to a target of the list. -/
def Targets.Valid (s : Targets) (p : Option Nat) : Prop := ∀ id, p = some id → (s.find id).isSome

/-- `cur_target` and `last_target` are each NULL or on the list. -/
structure PointersValid (s : Targets) : Prop where
  cur : s.Valid s.cur
  last : s.Valid s.last

/-- No driver function raises an exception. -/
def Driver.Quiet (d : Driver) : Prop := ∀ op id, d.raises op id = none

/-- The rule for output. -/
@[simp] theorem ends_emit {o : GdbOut} {s : GdbSession} {Q : Unit → GdbSession → Prop}
    {E : Stop → GdbSession → Prop} :
    Ends (emit o) s Q E ↔ Q () { s with out := s.out ++ [o] } := Iff.rfl

/-- The rule for a change of the targets. -/
@[simp] theorem ends_modifyTargets {f : Targets → Targets} {s : GdbSession}
    {Q : Unit → GdbSession → Prop} {E : Stop → GdbSession → Prop} :
    Ends (modifyTargets f) s Q E ↔ Q () { s with targets := f s.targets } := Iff.rfl

/-- The rule for reading `cur_target`. -/
@[simp] theorem ends_curTarget {s : GdbSession} {Q : Option Nat → GdbSession → Prop}
    {E : Stop → GdbSession → Prop} : Ends curTarget s Q E ↔ Q s.targets.cur s := Iff.rfl

section
variable {d : Driver} {s : GdbSession} {Q : Unit → GdbSession → Prop} {E : Stop → GdbSession → Prop}

/-- Walking a list that is whole. -/
theorem ends_walkTargets (h : s.targets.torn = none) : Ends walkTargets s Q E ↔ Q () s := by
  simp [walkTargets, h]

/-- What becomes of the list, when it can be followed. -/
theorem ends_listFree (h : s.targets.torn = none) :
    Ends (listFree d) s Q E ↔
      match (targetListFree (d.raises .detach) s.targets).1 with
      | none => Q () { s with targets := (targetListFree (d.raises .detach) s.targets).2 }
      | some e => E (.raised e)
          { s with targets := (targetListFree (d.raises .detach) s.targets).2 } := by
  simp only [listFree, ends_bind, ends_walkTargets h, ends_get, ends_set]
  split
  · rfl
  · rfl

end

section
variable {α : Type} {d : Driver} {op : TargetOp} {f : Nat → α} {s : GdbSession}
  {Q : α → GdbSession → Prop} {E : Stop → GdbSession → Prop}

@[simp] theorem ends_callTarget_none :
    Ends (callTarget d op none f) s Q E ↔ E .nullTarget s := Iff.rfl

/-- A call to a target of the list returns what the function answers. -/
theorem ends_callTarget_some {id : Nat} (hfind : (s.targets.find id).isSome)
    (hquiet : d.raises op id = none) :
    Ends (callTarget d op (some id) f) s Q E ↔
      Q (f id) { s with out := s.out ++ [.call id op] } := by
  have hne : s.targets.find id ≠ none := Option.isSome_iff_ne_none.1 hfind
  simp [callTarget, hquiet, hne]

end

/-- A target after a change to one of them. -/
theorem find_modify (s : Targets) (id : Nat) {f : TargetRec → TargetRec} (hf : ∀ t, (f t).id = t.id)
    (id' : Nat) :
    (s.modify id f).find id' = (s.find id').map fun t => if t.id = id then f t else t := by
  unfold Targets.modify Targets.find
  induction s.list with
  | nil => rfl
  | cons t list ih =>
    have hid : (if t.id = id then f t else t).id = t.id := by
      split
      · exact hf t
      · rfl
    rw [List.map_cons, List.find?_cons, List.find?_cons, hid]
    split
    · rfl
    · exact ih

/-- The destroy callback leaves the list. -/
theorem find_destroyTarget (s : Targets) (t : TargetRec) (id : Nat) :
    (destroyTarget s t).find id = s.find id := by
  rw [Targets.find, destroyTarget_list]
  rfl

/-- What `target_attach` does to the targets before it calls the driver. -/
def Targets.takeOver (s : Targets) (t : TargetRec) (c : Controller) : Targets :=
  (destroyTarget s t).modify t.id fun t => { t with tc := some c }

/-- A target after a controller has taken one over. -/
theorem find_takeOver {s : Targets} {t : TargetRec} {c : Controller} (id : Nat) :
    (s.takeOver t c).find id = (s.find id).map fun t' =>
      if t'.id = t.id then { t' with tc := some c }
      else t' := by
  rw [Targets.takeOver, find_modify, find_destroyTarget]
  intro t
  rfl

@[simp] theorem takeOver_torn (s : Targets) (t : TargetRec) (c : Controller) :
    (s.takeOver t c).torn = s.torn := destroyTarget_torn s t

/-- A target that is found has the number looked for. -/
theorem find_id {s : Targets} {id : Nat} {t : TargetRec} (h : s.find id = some t) : t.id = id := by
  have hid := List.find?_some h
  simpa using hid

/-- Attach a target of the list. -/
theorem ends_targetAttach {d : Driver} {id : Nat} {t : TargetRec} {c : Controller} {s : GdbSession}
    {Q : Option Nat → GdbSession → Prop} {E : Stop → GdbSession → Prop}
    (hfind : s.targets.find id = some t) (hquiet : d.raises .attach id = none) :
    Ends (targetAttach d (some id) c) s Q E ↔
      match d.attach id with
      | .attached => Q (some id) { s with
          targets := (s.targets.takeOver t c).modify id fun t => { t with attached := true },
          out := s.out ++ [.call id .attach] }
      | .failed =>
        Q none { s with targets := s.targets.takeOver t c, out := s.out ++ [.call id .attach] }
      | .lost =>
        Ends (listFree d) { s with
          targets := s.targets.takeOver t c, out :=
            s.out ++ [.call id .attach] } (fun _ => Q none) E := by
  have hid := find_id hfind
  subst hid
  have htake : ((destroyTarget s.targets t).modify t.id fun t => { t with tc := some c }) =
    s.targets.takeOver t c := rfl
  have hsome : ((s.targets.takeOver t c).find t.id).isSome := by
    rw [find_takeOver, hfind]
    rfl
  simp only [targetAttach, ends_bind, ends_get, hfind, ends_modifyTargets, htake]
  rw [ends_callTarget_some hsome hquiet]
  split
  · rfl
  · rfl
  · simp only [ends_bind, ends_pure]

/-- A target that was attached is still on the list. -/
theorem find_attached {s : Targets} {id : Nat} {t : TargetRec} (c : Controller)
    (hfind : s.find id = some t) :
    (((s.takeOver t c).modify id fun t => { t with attached := true }).find id).isSome := by
  rw [find_modify, find_takeOver, hfind]
  · rfl
  · intro t
    rfl

/-- Attach the target of a number: there is none, or it is on the list. -/
theorem ends_targetAttachN {d : Driver} {n : Nat} {c : Controller} {s : GdbSession}
    {Q : Option Nat → GdbSession → Prop} {E : Stop → GdbSession → Prop}
    (htorn : s.targets.torn = none) (hnone : Q none s)
    (hsome : ∀ t, n ≠ 0 → s.targets.list[n - 1]? = some t →
      Ends (targetAttach d (some t.id) c) s Q E) :
    Ends (targetAttachN d n c) s Q E := by
  simp only [targetAttachN, ends_bind, ends_walkTargets htorn]
  cases n with
  | zero => exact hnone
  | succ n =>
    simp only [ends_bind, ends_get]
    split
    · next t ht => exact hsome t (Nat.succ_ne_zero n) ht
    · exact hnone

/-- The address of a target on the list finds a target. -/
theorem find_of_mem {s : Targets} {t : TargetRec} (ht : t ∈ s.list) : ∃ t', s.find t.id = some t' :=
  Option.isSome_iff_exists.1 (List.find?_isSome.2 ⟨t, ht, decide_eq_true rfl⟩)

/-- Detach a target of the list. -/
theorem ends_targetDetach {d : Driver} {id : Nat} {s : GdbSession} {Q : Unit → GdbSession → Prop}
    {E : Stop → GdbSession → Prop} (hfind : (s.targets.find id).isSome)
    (hquiet : d.raises .detach id = none) :
    Ends (targetDetach d (some id)) s Q E ↔
      Q () { s with
        targets := s.targets.modify id fun t => { t with attached := false },
        out := s.out ++ [.call id .detach] } := by
  simp only [targetDetach, ends_bind, ends_callTarget_some hfind hquiet, ends_modifyTargets]

/-! ## The UI verbs -/

/-- `v_attach`: nothing else changes `cur_target` when the attach fails. -/
def vAttach (d : Driver) (n : Nat) : GdbM Unit := do
  match ← targetAttachN d n .ui with
  | none => return ()
  | some id => modifyTargets fun s => { s with cur := some id }

/-- `v_detach`. -/
def vDetach (d : Driver) : GdbM Unit := do
  match ← curTarget with
  | none => return ()
  | some id =>
    targetDetach d (some id)
    modifyTargets fun s => { s with cur := none }

/-! ## Monitor commands -/

/-- What a monitor command does to the targets: the scans, `cmd_reset` (which `cmd_tdi_low_reset`
calls) and all the others, which leave the pointers and the list alone. -/
inductive MonitorEffect
  | scan (c : ScanCmd)
  | reset
  | other
  deriving DecidableEq, Repr

/-- How a monitor command goes: its effect, what it prints, and its result, unless it raises an
exception. -/
structure Monitor where
  effect : MonitorEffect
  console : List String
  raised : Option Exc
  result : Int

/-- Whether a scan command follows `target_list`. -/
def ScanCmd.walks : ScanCmd → Bool
  | .emulate r => r.ready && r.targets != 0
  | _ => true

/-- Follow `target_list` for a scan command. -/
def walkScan (c : ScanCmd) : GdbM Unit := if c.walks then walkTargets else return ()

/-- The effect of a monitor command on the targets. -/
def monitorEffect (d : Driver) : MonitorEffect → GdbM Unit
  | .scan c => do
    walkScan c
    modifyTargets fun s => scanCmd (d.raises .detach) s c
  | .reset => listFree d
  | .other => return ()

/-- `command_process`. -/
def commandProcess (d : Driver) (m : Monitor) : GdbM Int := do
  monitorEffect d m.effect
  modify fun s => { s with out := s.out ++ m.console.map .console }
  match m.raised with
  | none => return m.result
  | some e => throw (.raised e)

end Blackmagic
