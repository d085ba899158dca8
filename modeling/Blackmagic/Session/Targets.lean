import Mathlib

/-!
# The target list: `target.c` and the scan commands

Targets are allocated by a scan and live on `target_list` until it is freed; GDB and the UI hold
pointers to them in `cur_target` and `last_target`. A pointer is the number of an allocation, which
is never used twice, so that a pointer to a freed target is seen. `target_list_free` runs the
destroy callback of the controller that attached a target last.
-/

namespace Blackmagic

/-! ## Targets and controllers -/

/-- `exception_s`: its type and its message. -/
inductive Exc
  | error (msg : String)
  | timeout (msg : String)
  deriving DecidableEq, Repr

/-- The two instances of `target_controller_s`. -/
inductive Controller
  | gdb
  | ui
  deriving DecidableEq, Repr

/-- What a target is reached through. -/
inductive Transport
  | swd
  | jtag
  | emu
  deriving DecidableEq, Repr

/-- A `target_s` on the list: its address, the scan that registered it and the transport of that
scan, and the fields `attached` and `tc`. -/
structure TargetRec where
  id : Nat
  scan : Nat
  transport : Transport
  attached : Bool
  tc : Option Controller
  deriving DecidableEq, Repr

/-- What is done when the list is freed: the call of `target->detach`, and what the destroy callback
tells GDB by `gdb_put_notificationz` and `gdb_out`. -/
inductive TargetsOut
  | detach (id : Nat)
  | notification (packet : String)
  | console (text : String)
  deriving DecidableEq, Repr

/-- The targets of `target_list` that are not freed, the freed target that `target_list` still
points to when an exception has left `target_list_free`, `cur_target`, `last_target` and
`gdb_needs_detach_notify`; `nextId` is the next address, and `scans` and `lastTransport` tell which
scan was the last. -/
structure Targets where
  list : List TargetRec
  torn : Option Nat
  cur : Option Nat
  last : Option Nat
  needsDetachNotify : Bool
  nextId : Nat
  scans : Nat
  lastTransport : Option Transport
  out : List TargetsOut
  deriving DecidableEq, Repr

/-- The state at boot. -/
def Targets.boot : Targets :=
  { list := [], torn := none, cur := none, last := none, needsDetachNotify := false, nextId := 0,
    scans := 0,
    lastTransport := none, out := [] }

/-- The target at an address, none once it is freed. -/
def Targets.find (s : Targets) (id : Nat) : Option TargetRec := s.list.find? (·.id = id)

/-- Change the target at an address. -/
def Targets.modify (s : Targets) (id : Nat) (f : TargetRec → TargetRec) : Targets :=
  { s with list := s.list.map fun t => if t.id = id then f t else t }

/-- `gdb_target_destroy_callback`. -/
def gdbTargetDestroyCallback (id : Nat) (s : Targets) : Targets :=
  let s := if s.cur = some id then
      { s with
        cur := none, needsDetachNotify := true,
        out := s.out ++ [.notification "%Stop:W00",
          .console "You are now detached from the previous target.\n"] }
    else s
  if s.last = some id then { s with last := none } else s

/-- `ui_ctrl_destroy`. -/
def uiCtrlDestroy (s : Targets) : Targets := { s with cur := none }

/-- `tc->destroy_callback`. -/
def destroyCallback (tc : Controller) (id : Nat) (s : Targets) : Targets :=
  match tc with
  | .gdb => gdbTargetDestroyCallback id s
  | .ui => uiCtrlDestroy s

/-- The destroy callback of a target that has a controller. -/
def destroyTarget (s : Targets) (t : TargetRec) : Targets :=
  match t.tc with
  | some tc => destroyCallback tc t.id s
  | none => s

/-- The call of `target->detach` for a target that is attached. -/
def callDetach (s : Targets) (t : TargetRec) : Targets :=
  if t.attached then { s with out := s.out ++ [.detach t.id] } else s

/-- The exception of that call, by what the `detach` of each target raises. -/
def TargetRec.detachRaises (raises : Nat → Option Exc) (t : TargetRec) : Option Exc :=
  if t.attached then raises t.id else none

/-- What `target_list_free` does with a target, where `rest` are the targets behind it. -/
def freeTarget (s : Targets) (t : TargetRec) (rest : List TargetRec) : Targets :=
  { destroyTarget (callDetach s t) t with list := rest, torn := s.torn <|> some t.id }

/-- The loop of `target_list_free`. An exception leaves it with the targets in front freed, and with
`target_list` as it was. -/
def freeTargets (raises : Nat → Option Exc) : List TargetRec → Targets → Option Exc × Targets
  | [], s => (none, { s with list := [], torn := none })
  | t :: ts, s =>
    match t.detachRaises raises with
    | some e => (some e, callDetach s t)
    | none => freeTargets raises ts (freeTarget s t ts)

/-- `target_list_free`, and the exception that leaves it. -/
def targetListFree (raises : Nat → Option Exc) (s : Targets) : Option Exc × Targets :=
  freeTargets raises s.list s

/-- The targets that `target_list_free` frees: those in front of the first one whose `detach` raises
an exception. -/
def Targets.freed (raises : Nat → Option Exc) (s : Targets) : List TargetRec :=
  s.list.takeWhile fun t => (t.detachRaises raises).isNone

/-- `target_new`, for a scan over a transport. -/
def targetNew (transport : Transport) (s : Targets) : Targets :=
  { s with
    list := s.list ++ [⟨s.nextId, s.scans, transport, false, none⟩], nextId := s.nextId + 1 }

/-- The targets that a scan registers. -/
def targetsNew (transport : Transport) : (count : Nat) → Targets → Targets
  | 0, s => s
  | count + 1, s => targetsNew transport count (targetNew transport s)

/-! ## Scans -/

/-- How a scan goes: it registers a number of targets, and returns or raises an exception. `ready`
is false when it gives up before it looks for targets: a failed allocation, or no answer. -/
structure Scan where
  ready : Bool
  targets : Nat
  raised : Bool
  deriving DecidableEq, Repr

/-- A new scan over a transport. -/
def Targets.newScan (transport : Transport) (s : Targets) : Targets :=
  { s with scans := s.scans + 1, lastTransport := some transport }

/-- What a scan registers, and whether it finds something, unless an exception leaves it. -/
def Scan.run (r : Scan) (transport : Transport) (found : Targets → Bool) (s : Targets) :
    Option Bool × Targets :=
  if !r.ready then (some false, s)
  else
    let s := targetsNew transport r.targets s
    (if r.raised then none else some (found s), s)

/-- A scan that frees the list first. -/
def freeScan (raises : Nat → Option Exc) (r : Scan) (transport : Transport) (found : Targets → Bool)
    (s : Targets) : Option Bool × Targets :=
  match targetListFree raises (s.newScan transport) with
  | (some _, s) => (none, s)
  | (none, s) => r.run transport found s

/-- `adiv5_swd_scan`: whether it found a target. -/
def adiv5SwdScan (raises : Nat → Option Exc) (r : Scan) (s : Targets) : Option Bool × Targets :=
  freeScan raises r .swd (fun s => !s.list.isEmpty) s

/-- `jtag_scan`: whether it found a device. -/
def jtagScan (raises : Nat → Option Exc) (r : Scan) (s : Targets) : Option Bool × Targets :=
  freeScan raises r .jtag (fun _ => true) s

/-- `emu_scan`, which does not free the list. -/
def emuScan (r : Scan) (s : Targets) : Option Bool × Targets :=
  { r with targets := min r.targets 1 }.run .emu (fun _ => true) (s.newScan .emu)

/-- The scan commands. -/
inductive ScanCmd
  | swdScan (r : Scan)
  | jtagScan (r : Scan)
  | autoScan (jtag swd : Scan)
  | emulate (r : Scan)
  deriving DecidableEq, Repr

/-- `cmd_swd_scan`, `cmd_jtag_scan`, `cmd_auto_scan` and `cmd_emulate`. An exception leaves the
`TRY_CATCH` of the command. -/
def scanCmd (raises : Nat → Option Exc) (s : Targets) : ScanCmd → Targets
  | .swdScan r => (adiv5SwdScan raises r s).2
  | .jtagScan r => (jtagScan raises r s).2
  | .autoScan jtag swd =>
    match jtagScan raises jtag s with
    | (some false, s) => (adiv5SwdScan raises swd s).2
    | (_, s) => s
  | .emulate r => (emuScan r s).2

/-- A run of scan commands. -/
def scanRun (raises : Nat → Option Exc) (s : Targets) (cs : List ScanCmd) : Targets :=
  cs.foldl (scanCmd raises) s

/-! ## One scan, one list -/

/-- Every target of the list was registered by the last scan, and is reached through its
transport. -/
def OneScan (s : Targets) : Prop :=
  ∀ t ∈ s.list, t.scan = s.scans ∧ some t.transport = s.lastTransport

/-- The destroy callback leaves the list. -/
theorem destroyTarget_list (s : Targets) (t : TargetRec) : (destroyTarget s t).list = s.list := by
  unfold destroyTarget destroyCallback gdbTargetDestroyCallback uiCtrlDestroy
  split
  · split
    · dsimp only
      split <;> split <;> rfl
    · rfl
  · rfl

/-- It leaves it whole. -/
theorem destroyTarget_torn (s : Targets) (t : TargetRec) : (destroyTarget s t).torn = s.torn := by
  unfold destroyTarget destroyCallback gdbTargetDestroyCallback uiCtrlDestroy
  split
  · split
    · dsimp only
      split <;> split <;> rfl
    · rfl
  · rfl

/-- It leaves the counts of scans and numbers. -/
theorem destroyTarget_scans (s : Targets) (t : TargetRec) :
    (destroyTarget s t).scans = s.scans ∧ (destroyTarget s t).lastTransport = s.lastTransport ∧
      (destroyTarget s t).nextId = s.nextId := by
  unfold destroyTarget destroyCallback gdbTargetDestroyCallback uiCtrlDestroy
  split
  · split
    · dsimp only
      split <;> split <;> exact ⟨rfl, rfl, rfl⟩
    · exact ⟨rfl, rfl, rfl⟩
  · exact ⟨rfl, rfl, rfl⟩

/-- Freeing targets does not count as a scan. -/
theorem freeTargets_scans (raises : Nat → Option Exc) (ts : List TargetRec) : ∀ s : Targets,
    (freeTargets raises ts s).2.scans = s.scans ∧
      (freeTargets raises ts s).2.lastTransport = s.lastTransport ∧
      (freeTargets raises ts s).2.nextId = s.nextId := by
  induction ts with
  | nil =>
    intro s
    exact ⟨rfl, rfl, rfl⟩
  | cons t ts ih =>
    intro s
    have hcall : (callDetach s t).scans = s.scans ∧
        (callDetach s t).lastTransport = s.lastTransport ∧ (callDetach s t).nextId = s.nextId := by
      unfold callDetach
      split <;> exact ⟨rfl, rfl, rfl⟩
    unfold freeTargets
    split
    · exact hcall
    · obtain ⟨h1, h2, h3⟩ := ih (freeTarget s t ts)
      obtain ⟨h1', h2', h3'⟩ := destroyTarget_scans (callDetach s t) t
      exact ⟨h1.trans (h1'.trans hcall.1), h2.trans (h2'.trans hcall.2.1),
        h3.trans (h3'.trans hcall.2.2)⟩

/-- When no `detach` raises, all targets are freed. -/
theorem freeTargets_all {raises : Nat → Option Exc} {ts : List TargetRec} : ∀ {s : Targets},
    (∀ t ∈ ts, t.detachRaises raises = none) →
    (freeTargets raises ts s).1 = none ∧ (freeTargets raises ts s).2.list = [] ∧
      (freeTargets raises ts s).2.torn = none := by
  induction ts with
  | nil =>
    intro s _
    exact ⟨rfl, rfl, rfl⟩
  | cons t ts ih =>
    intro s h
    rw [List.forall_mem_cons] at h
    rw [freeTargets, h.1]
    exact ih h.2

/-- When no exception leaves the loop, no `detach` raises. -/
theorem freeTargets_none {raises : Nat → Option Exc} {ts : List TargetRec} : ∀ {s : Targets},
    (freeTargets raises ts s).1 = none → ∀ t ∈ ts, t.detachRaises raises = none := by
  induction ts with
  | nil => exact fun _ _ ht => nomatch ht
  | cons t ts ih =>
    intro s hnone
    unfold freeTargets at hnone
    split at hnone
    · cases hnone
    · next hraise => exact List.forall_mem_cons.2 ⟨hraise, ih hnone⟩

/-- What leaves the loop is the exception of a `detach`. -/
theorem freeTargets_raised {raises : Nat → Option Exc} {e : Exc} {ts : List TargetRec} :
    ∀ {s : Targets}, (freeTargets raises ts s).1 = some e → ∃ id, raises id = some e := by
  induction ts with
  | nil =>
    intro s h
    cases h
  | cons t ts ih =>
    intro s h
    unfold freeTargets at h
    split at h
    · next e' he =>
      cases h
      unfold TargetRec.detachRaises at he
      split at he
      · exact ⟨t.id, he⟩
      · cases he
    · exact ih h

/-- An exception while the list is freed is that of a `detach`. -/
theorem targetListFree_raised {raises : Nat → Option Exc} {e : Exc} {s : Targets}
    (h : (targetListFree raises s).1 = some e) : ∃ id, raises id = some e := freeTargets_raised h

/-- What a scan registers. -/
theorem targetsNew_spec (transport : Transport) (count : Nat) : ∀ s : Targets,
    (targetsNew transport count s).scans = s.scans ∧
    (targetsNew transport count s).lastTransport = s.lastTransport ∧
    ∃ added, (targetsNew transport count s).list = s.list ++ added ∧ added.length = count ∧
      ∀ t ∈ added, t.scan = s.scans ∧ t.transport = transport ∧ t.attached = false := by
  induction count with
  | zero =>
    intro s
    exact ⟨rfl, rfl, [], (List.append_nil _).symm, rfl, nofun⟩
  | succ count ih =>
    intro s
    obtain ⟨hscans, htransport, added, hlist, hlen, hadded⟩ := ih (targetNew transport s)
    refine ⟨hscans, htransport, ⟨s.nextId, s.scans, transport, false, none⟩ :: added, ?_, ?_, ?_⟩
    · rw [targetsNew, hlist, targetNew, List.append_assoc]
      rfl
    · rw [List.length_cons, hlen]
    · rw [List.forall_mem_cons]
      exact ⟨⟨rfl, rfl, rfl⟩, hadded⟩

/-- Targets registered on an empty list by the last scan. -/
theorem targetsNew_oneScan {transport : Transport} {s : Targets} (count : Nat)
    (hempty : s.list = []) (htransport : s.lastTransport = some transport) :
    OneScan (targetsNew transport count s) := by
  obtain ⟨hscans, hlast, added, hlist, -, hadded⟩ := targetsNew_spec transport count s
  intro t ht
  rw [hlist, hempty, List.nil_append] at ht
  obtain ⟨hscan, htr, -⟩ := hadded t ht
  rw [hscans, hlast, htransport, hscan, htr]
  exact ⟨rfl, rfl⟩

/-- The targets of a session come from the scans so far, and none of them is attached. -/
def ScannedBefore (s : Targets) : Prop := ∀ t ∈ s.list, t.scan ≤ s.scans ∧ t.attached = false

section
variable {raises : Nat → Option Exc} {s : Targets}

/-- No `detach` is called for targets that are not attached, and all of them are freed. -/
theorem targetListFree_of_scannedBefore (h : ScannedBefore s) (transport : Transport) :
    (targetListFree raises (s.newScan transport)).1 = none ∧
      (targetListFree raises (s.newScan transport)).2.list = [] := by
  have hnone : ∀ t ∈ (s.newScan transport).list, t.detachRaises raises = none := by
    intro t ht
    rw [TargetRec.detachRaises, (h t ht).2]
    exact if_neg Bool.false_ne_true
  obtain ⟨hall, hlist, -⟩ := @freeTargets_all raises _ (s.newScan transport) hnone
  exact ⟨hall, hlist⟩

/-- A scan that frees the list leaves only its own targets. -/
theorem freeScan_oneScan (r : Scan) (transport : Transport) (found : Targets → Bool)
    (h : ScannedBefore s) : OneScan (freeScan raises r transport found s).2 ∧
      ScannedBefore (freeScan raises r transport found s).2 := by
  obtain ⟨hnone, hlist⟩ := @targetListFree_of_scannedBefore raises s h transport
  have hlast : (targetListFree raises (s.newScan transport)).2.lastTransport = some transport :=
    (freeTargets_scans raises s.list (s.newScan transport)).2.1
  obtain ⟨s₁, hfree⟩ : ∃ s₁, targetListFree raises (s.newScan transport) = (none, s₁) :=
    ⟨_, Prod.ext hnone rfl⟩
  rw [hfree] at hlist hlast
  have hscan : freeScan raises r transport found s = r.run transport found s₁ := by
    rw [freeScan, hfree]
  rw [hscan]
  unfold Scan.run
  split
  · constructor
    · intro t ht
      rw [show s₁.list = [] from hlist] at ht
      cases ht
    · intro t ht
      rw [show s₁.list = [] from hlist] at ht
      cases ht
  · refine ⟨targetsNew_oneScan r.targets hlist hlast, ?_⟩
    obtain ⟨hscans, -, added, hadded, -, hnew⟩ := targetsNew_spec transport r.targets s₁
    intro t ht
    dsimp only at ht ⊢
    rw [hadded, show s₁.list = [] from hlist, List.nil_append] at ht
    rw [hscans]
    exact ⟨Nat.le_of_eq (hnew t ht).1, (hnew t ht).2.2⟩

/-- An `emulate` leaves only its own target exactly when the list was empty. -/
theorem emuScan_oneScan (r : Scan) (h : ScannedBefore s) :
    OneScan (emuScan r s).2 ↔ s.list = [] := by
  -- the targets that were there stay
  have hkeep : ∀ t ∈ s.list, t ∈ (emuScan r s).2.list := by
    intro t ht
    unfold emuScan Scan.run
    split
    · exact ht
    · obtain ⟨-, -, added, hlist, -⟩ := targetsNew_spec .emu (min r.targets 1) (s.newScan .emu)
      dsimp only
      rw [hlist]
      exact List.mem_append_left _ ht
  have hscans : (emuScan r s).2.scans = s.scans + 1 := by
    unfold emuScan Scan.run
    split
    · rfl
    · exact (targetsNew_spec .emu (min r.targets 1) (s.newScan .emu)).1
  constructor
  · intro hone
    refine List.eq_nil_iff_forall_not_mem.2 fun t ht => ?_
    have hnew := (hone t (hkeep t ht)).1
    have hold := (h t ht).1
    omega
  · intro hempty
    unfold emuScan Scan.run
    split
    · intro t ht
      rw [show (s.newScan .emu).list = s.list from rfl, hempty] at ht
      cases ht
    · exact targetsNew_oneScan _ hempty rfl

/-- An `emulate` adds to the targets of the scans so far. -/
theorem emuScan_scannedBefore (r : Scan) (h : ScannedBefore s) : ScannedBefore (emuScan r s).2 := by
  unfold emuScan Scan.run
  split
  · intro t ht
    exact ⟨Nat.le_succ_of_le (h t ht).1, (h t ht).2⟩
  · obtain ⟨hscans, -, added, hlist, -, hadded⟩ :=
      targetsNew_spec .emu (min r.targets 1) (s.newScan .emu)
    intro t ht
    dsimp only at ht ⊢
    rw [hlist] at ht
    rw [hscans]
    rcases List.mem_append.1 ht with hold | hnew
    · exact ⟨Nat.le_succ_of_le (h t hold).1, (h t hold).2⟩
    · exact ⟨Nat.le_of_eq (hadded t hnew).1, (hadded t hnew).2.2⟩

/-- A scan command leaves only the targets of the last scan exactly when it is not an `emulate` with
targets on the list. -/
theorem scanCmd_oneScan (h : ScannedBefore s) (c : ScanCmd) :
    (OneScan (scanCmd raises s c) ↔ ∀ r, c = .emulate r → s.list = []) ∧
      ScannedBefore (scanCmd raises s c) := by
  cases c with
  | swdScan r =>
    obtain ⟨hone, hbefore⟩ := @freeScan_oneScan raises s r .swd (fun s => !s.list.isEmpty) h
    exact ⟨iff_of_true hone nofun, hbefore⟩
  | jtagScan r =>
    obtain ⟨hone, hbefore⟩ := @freeScan_oneScan raises s r .jtag (fun _ => true) h
    exact ⟨iff_of_true hone nofun, hbefore⟩
  | autoScan jtag swd =>
    obtain ⟨hone, hbefore⟩ := @freeScan_oneScan raises s jtag .jtag (fun _ => true) h
    have hboth : OneScan (scanCmd raises s (.autoScan jtag swd)) ∧
        ScannedBefore (scanCmd raises s (.autoScan jtag swd)) := by
      unfold scanCmd
      dsimp only
      split
      · next s₁ hscan =>
        refine freeScan_oneScan swd .swd (fun s => !s.list.isEmpty) ?_
        have hs₁ : s₁ = (freeScan raises jtag .jtag (fun _ => true) s).2 := by
          rw [show freeScan raises jtag .jtag (fun _ => true) s = _ from hscan]
        rw [hs₁]
        exact hbefore
      · next s₁ _ hscan =>
        have hs₁ : s₁ = (freeScan raises jtag .jtag (fun _ => true) s).2 := by
          rw [show freeScan raises jtag .jtag (fun _ => true) s = _ from hscan]
        rw [hs₁]
        exact ⟨hone, hbefore⟩
    exact ⟨iff_of_true hboth.1 nofun, hboth.2⟩
  | emulate r =>
    exact ⟨(emuScan_oneScan r h).trans ⟨fun hempty _ _ => hempty, fun hempty => hempty r rfl⟩,
      emuScan_scannedBefore r h⟩

/-- An `emulate` that succeeds on an empty list leaves one target. -/
theorem emuScan_one {r : Scan} (hempty : s.list = []) (hready : r.ready = true)
    (htargets : 0 < r.targets) : (emuScan r s).2.list.length = 1 := by
  obtain ⟨-, -, added, hlist, hlen, -⟩ := targetsNew_spec .emu (min r.targets 1) (s.newScan .emu)
  unfold emuScan Scan.run
  rw [if_neg (by rw [hready]; decide)]
  dsimp only
  rw [hlist, List.length_append, hlen, show (s.newScan .emu).list = s.list from rfl, hempty]
  simp only [List.length_nil]
  omega

/-- A run of scan commands keeps what is known of its targets. -/
theorem scanRun_scannedBefore (cs : List ScanCmd) : ∀ {s : Targets}, ScannedBefore s →
    ScannedBefore (scanRun raises s cs) := by
  induction cs with
  | nil =>
    intro s h
    exact h
  | cons c cs ih =>
    intro s h
    exact ih (scanCmd_oneScan h c).2

/-- The last command of a run. -/
theorem scanRun_concat (s : Targets) (cs : List ScanCmd) (c : ScanCmd) :
    scanRun raises s (cs ++ [c]) = scanCmd raises (scanRun raises s cs) c := by
  rw [scanRun, List.foldl_append]
  rfl

end

/-- One scan, one list, in the run of `cs`: at every point the list has only targets of the last
scan, and an `emulate` that succeeds leaves one target. -/
structure ScansIsolated (raises : Nat → Option Exc) (cs : List ScanCmd) : Prop where
  oneScan : ∀ cs₁ cs₂, cs = cs₁ ++ cs₂ → OneScan (scanRun raises Targets.boot cs₁)
  emulated : ∀ cs₁ r cs₂, cs = cs₁ ++ .emulate r :: cs₂ → r.ready = true → 0 < r.targets →
    (scanRun raises Targets.boot (cs₁ ++ [.emulate r])).list.length = 1

/-- **One scan, one target list.** A sequence of scan commands keeps to the targets of the last scan
exactly when every `emulate` finds the list empty. -/
theorem scansIsolated_iff (raises : Nat → Option Exc) (cs : List ScanCmd) :
    ScansIsolated raises cs ↔
      ∀ cs₁ r cs₂, cs = cs₁ ++ .emulate r :: cs₂ → (scanRun raises Targets.boot cs₁).list = [] := by
  have hbefore : ∀ cs₁, ScannedBefore (scanRun raises Targets.boot cs₁) := fun cs₁ =>
    scanRun_scannedBefore cs₁ fun _ ht => nomatch ht
  constructor
  · intro h cs₁ r cs₂ hcs
    have hone := h.oneScan (cs₁ ++ [.emulate r]) cs₂ (by rw [hcs, List.append_assoc]; rfl)
    rw [scanRun_concat] at hone
    exact (scanCmd_oneScan (hbefore cs₁) _).1.1 hone r rfl
  · intro hempty
    constructor
    · intro cs₁ cs₂ hcs
      -- the last command of the part decides
      rcases List.eq_nil_or_concat cs₁ with rfl | ⟨cs₀, c, rfl⟩
      · intro t ht
        cases ht
      · rw [List.concat_eq_append, scanRun_concat]
        refine (scanCmd_oneScan (hbefore cs₀) c).1.2 fun r hc => ?_
        refine hempty cs₀ r cs₂ ?_
        rw [hcs, List.concat_eq_append, List.append_assoc, hc]
        rfl
    · intro cs₁ r cs₂ hcs hready htargets
      rw [scanRun_concat]
      exact emuScan_one (hempty cs₁ r cs₂ hcs) hready htargets

/-- Two `emulate` commands leave two targets, and one after a scan leaves the scan's target. -/
theorem emulate_not_isolated :
    ¬ ScansIsolated (fun _ => none) [.emulate ⟨true, 1, false⟩, .emulate ⟨true, 1, false⟩] ∧
    ¬ ScansIsolated (fun _ => none) [.swdScan ⟨true, 1, false⟩, .emulate ⟨true, 1, false⟩] := by
  constructor
  · intro h
    have hlen := h.emulated [.emulate ⟨true, 1, false⟩] ⟨true, 1, false⟩ [] rfl rfl (by decide)
    revert hlen
    decide
  · intro h
    have hone := h.oneScan [.swdScan ⟨true, 1, false⟩, .emulate ⟨true, 1, false⟩] [] rfl
      ⟨0, 1, .swd, false, none⟩ (by decide)
    revert hone
    decide

end Blackmagic
