import Blackmagic.Gdb.Main

/-!
# Handlers that leave the targets alone

Only a few packets change the target list or the pointers of the session: attach, run, reset,
detach, kill, `vStopped` and monitor commands. This module says so for all the others.
-/

namespace Blackmagic

open Effect Scanf

/-- `E` allows all that a call of a target function can stop with. -/
structure Driver.Stops (d : Driver) (E : Stop → Prop) : Prop where
  null : E .nullTarget
  freed : ∀ id, E (.freedTarget id)
  overrun : E .overrun
  crcLost : E .crcLost
  raised : ∀ op id e, d.raises op id = some e → E (.raised e)

/-- A program that returns leaves the targets as they were, and one that does not stops with an
`E`. -/
def Untouched {α : Type} (E : Stop → Prop) (m : GdbM α) : Prop :=
  ∀ s, Ends m s (fun _ s' => s'.targets = s.targets) fun e _ => E e

section
variable {α β : Type} {E : Stop → Prop} {env : GdbEnv} {pbuf packet : List UInt8}
  {size length : Nat}

/-- Returning changes nothing. -/
theorem untouched_pure (a : α) : Untouched E (pure a : GdbM α) := fun _ => rfl

/-- Stopping changes nothing. -/
theorem untouched_throw {e : Stop} (h : E e) : Untouched E (throw e : GdbM α) := fun _ => h

/-- Two programs that change nothing, one after the other. -/
theorem Untouched.bind {m : GdbM α} {k : α → GdbM β} (hm : Untouched E m)
    (hk : ∀ a, Untouched E (k a)) :
    Untouched E (m >>= k) := by
  intro s
  rw [ends_bind]
  refine Ends.imp (hm s) (fun a s' hs => ?_) fun _ _ he => he
  refine Ends.imp (hk a s') (fun _ s'' hs' => ?_) fun _ _ he => he
  rw [hs', hs]

/-- Reading the session changes nothing. -/
theorem untouched_get : Untouched E (get : GdbM GdbSession) := fun _ => rfl

/-- Reading `cur_target` changes nothing. -/
theorem untouched_curTarget : Untouched E curTarget := fun _ => rfl

/-- That the target runs is not one of the targets. -/
theorem untouched_setRunning :
    Untouched E (modify fun s : GdbSession => { s with running := true }) :=
  fun _ => rfl

/-- A reply changes no target. -/
theorem untouched_putPacket (p : List UInt8) : Untouched E (putPacket p) := fun _ => rfl

/-- Neither does a reply that is a string. -/
theorem untouched_putPacketz (text : String) : Untouched E (putPacketz text) := fun _ => rfl

/-- Neither does a formatted one. -/
theorem untouched_putPacketF (text : String) : Untouched E (putPacketF env text) := by
  unfold putPacketF
  split
  · exact untouched_putPacketz text
  · exact untouched_pure ()

/-- A call of a target function leaves the list as it is. -/
theorem untouched_callTarget {d : Driver} (hE : d.Stops E) (op : TargetOp) (target : Option Nat)
    (f : Nat → α) : Untouched E (callTarget d op target f) := by
  intro s
  cases target with
  | none => exact hE.null
  | some id =>
    cases hfind : s.targets.find id with
    | none => simp [callTarget, hfind, hE.freed id]
    | some t =>
      cases hraise : d.raises op id with
      | none => simp [callTarget, hfind, hraise]
      | some e => simp [callTarget, hfind, hraise, hE.raised op id e hraise]

/-- The check for a target leaves what the handler leaves. -/
theorem Untouched.errorIfNoTarget {m : GdbM Unit} (hm : Untouched E m) :
    Untouched E (errorIfNoTarget m) := by
  refine untouched_curTarget.bind fun cur => ?_
  split
  · exact untouched_putPacketz _
  · exact hm

/-- `H` changes no target. -/
theorem untouched_handleSetThread : Untouched E (handleSetThread pbuf) := by
  unfold handleSetThread
  dsimp only
  split <;> exact untouched_putPacketz _

/-- `?` changes no target. -/
theorem untouched_handleHaltReason : Untouched E handleHaltReason := by
  refine untouched_curTarget.bind fun cur => ?_
  split
  · exact untouched_putPacketz _
  · exact untouched_setRunning

/-- The mode of acknowledgements is not one of the targets. -/
theorem untouched_setNoackmode (enable : Bool) : Untouched E (setNoackmode enable) := by
  intro s
  simp only [setNoackmode, ends_bind, ends_get]
  split
  · exact rfl
  · exact rfl

/-- A part of a document changes no target. -/
theorem untouched_handleQStringReply (text param : List UInt8) :
    Untouched E (handleQStringReply text param) := by
  unfold handleQStringReply
  split
  · split
    · exact untouched_putPacketz _
    · split
      · exact untouched_putPacketz _
      · exact untouched_putPacket _
  · exact untouched_putPacketz _

/-- A query for the target changes none. -/
theorem untouched_queryTarget : Untouched E queryTarget := fun _ => rfl

/-- The thread queries change no target. -/
theorem untouched_execQThreadInfo (which : UInt8) : Untouched E (execQThreadInfo which) := by
  refine untouched_curTarget.bind fun cur => ?_
  split <;> exact untouched_putPacketz _

section
variable (hE : env.fns.toDriver.Stops E)
include hE

/-- A call of a target function leaves the list as it is. -/
theorem untouched_call (op : TargetOp) (target : Option Nat) (f : Nat → α) :
    Untouched E (call env op target f) := untouched_callTarget hE op target f

/-- Call a function of the current target and go on. -/
theorem untouched_callCur {op : TargetOp} {f : Nat → α} {k : α → GdbM β}
    (hk : ∀ a, Untouched E (k a)) :
    Untouched E (do
      let cur ← curTarget
      let a ← call env op cur f
      k a) :=
  untouched_curTarget.bind fun cur => (untouched_call hE op cur f).bind hk

/-! ## Registers, memory and breakpoints -/

/-- `g` changes no target. -/
theorem untouched_handleReadRegs : Untouched E (handleReadRegs env) := by
  refine untouched_callCur hE fun regSize => ?_
  split
  · exact untouched_callCur hE fun regs => untouched_putPacket _
  · exact untouched_putPacketz _

/-- `G` changes the registers only. -/
theorem untouched_handleWriteRegs : Untouched E (handleWriteRegs env pbuf) := by
  refine untouched_callCur hE fun regSize => ?_
  split
  · exact untouched_callCur hE fun _ => untouched_putPacketz _
  · exact untouched_putPacketz _

/-- `m` changes no target. -/
theorem untouched_handleReadMem : Untouched E (handleReadMem env pbuf) := by
  unfold handleReadMem
  dsimp only
  split
  · exact untouched_putPacketz _
  · refine untouched_callCur hE fun mem => ?_
    split
    · exact untouched_putPacketz _
    · exact untouched_putPacket _

/-- A write to memory changes the memory only. -/
theorem untouched_memWriteReply (addr : UInt32) (data : List UInt8) :
    Untouched E (memWriteReply env addr data) := by
  refine untouched_callCur hE fun done => ?_
  split <;> exact untouched_putPacketz _

/-- So does `M`. -/
theorem untouched_handleWriteMem : Untouched E (handleWriteMem env pbuf size) := by
  unfold handleWriteMem
  dsimp only
  split
  · exact untouched_putPacketz _
  · exact untouched_memWriteReply hE _ _

/-- So does `X`. -/
theorem untouched_handleWriteBinary : Untouched E (handleWriteBinary env pbuf size) := by
  unfold handleWriteBinary
  dsimp only
  split
  · exact untouched_putPacketz _
  · exact untouched_memWriteReply hE _ _

/-- `p` changes no target. -/
theorem untouched_handleReadReg : Untouched E (handleReadReg env pbuf) := by
  refine untouched_callCur hE fun has => ?_
  split
  · refine untouched_callCur hE fun val => ?_
    split
    · exact untouched_throw hE.overrun
    · split
      · exact untouched_putPacket _
      · exact untouched_putPacketz _
  · exact untouched_putPacketz _

/-- `P` changes a register only. -/
theorem untouched_handleWriteReg : Untouched E (handleWriteReg env pbuf) := by
  refine untouched_callCur hE fun has => ?_
  split
  · split
    · split
      · exact untouched_throw hE.overrun
      · refine untouched_callCur hE fun written => ?_
        split <;> exact untouched_putPacketz _
    · exact untouched_putPacketz _
  · exact untouched_putPacketz _

/-- `Z` and `z` leave the list as it is. -/
theorem untouched_handleZPacket : Untouched E (handleZPacket env pbuf) := by
  have hret : ∀ ret : Int, Untouched E
      (if ret < 0 then putPacketz "E01" else if 0 < ret then putPacketz ""
        else putPacketz "OK") := by
    intro ret
    split
    · exact untouched_putPacketz _
    · split <;> exact untouched_putPacketz _
  unfold handleZPacket
  dsimp only
  split
  · exact untouched_callCur hE hret
  · exact untouched_callCur hE hret

/-! ## Run control -/

/-- `c` and `s` leave the list as it is. -/
theorem untouched_handleResume (step : Bool) : Untouched E (handleResume env step) := by
  refine untouched_curTarget.bind fun cur => ?_
  split
  · exact untouched_putPacketz _
  · exact untouched_callCur hE fun _ => untouched_setRunning

/-- So does `vCont`. -/
theorem untouched_handleVCont : Untouched E (handleVCont env pbuf) := by
  unfold handleVCont
  split
  · exact untouched_putPacketz _
  · refine untouched_curTarget.bind fun cur => ?_
    split
    · exact untouched_putPacketz _
    · split
      · exact untouched_callCur hE fun _ => untouched_setRunning
      · exact untouched_pure ()

/-! ## Flash -/

/-- So does `vFlashErase`. -/
theorem untouched_handleVFlashErase (addr len : UInt32) :
    Untouched E (handleVFlashErase env addr len) := by
  refine untouched_curTarget.bind fun cur => ?_
  split
  · exact untouched_putPacketz _
  · refine untouched_callCur hE fun done => ?_
    split
    · exact untouched_putPacketz _
    · exact untouched_callCur hE fun _ => untouched_putPacketz _

/-- So does `vFlashWrite`. -/
theorem untouched_handleVFlashWrite (addr : UInt32) (data : List UInt8) :
    Untouched E (handleVFlashWrite env addr data) := by
  have htry : Untouched E (tryFlashWrite env addr data) := by
    refine untouched_curTarget.bind fun cur => ?_
    split
    · exact untouched_pure _
    · exact untouched_curTarget.bind fun cur => untouched_call hE _ cur _
  refine htry.bind fun done => ?_
  split
  · exact untouched_putPacketz _
  · exact untouched_callCur hE fun _ => untouched_putPacketz _

/-- So does `vFlashDone`. -/
theorem untouched_handleVFlashDone : Untouched E (handleVFlashDone env) := by
  refine untouched_callCur hE fun done => ?_
  split <;> exact untouched_putPacketz _

/-! ## Queries -/

/-- The memory map changes no target. -/
theorem untouched_execQMemoryMap : Untouched E (execQMemoryMap env packet) := by
  refine untouched_queryTarget.bind fun target => ?_
  split
  · exact untouched_putPacketz _
  · exact (untouched_call hE _ _ _).bind fun _ => untouched_handleQStringReply _ _

/-- The description of the target changes none. -/
theorem untouched_execQFeatureRead : Untouched E (execQFeatureRead env packet) := by
  refine untouched_queryTarget.bind fun target => ?_
  split
  · exact untouched_putPacketz _
  · exact (untouched_call hE _ _ _).bind fun _ => untouched_handleQStringReply _ _

/-- The checksum of a range changes no target. -/
theorem untouched_execQCrc : Untouched E (execQCrc env packet) := by
  unfold execQCrc
  split
  · refine untouched_curTarget.bind fun cur => ?_
    split
    · exact untouched_putPacketz _
    · refine untouched_callCur hE fun crc => ?_
      split
      · exact untouched_putPacketz _
      · exact untouched_putPacketF _
      · exact untouched_throw hE.crcLost
  · exact untouched_pure ()

/-- `qAttached` changes no target. -/
theorem untouched_execQAttached : Untouched E (execQAttached env packet length) := by
  refine untouched_curTarget.bind fun cur => ?_
  split
  · exact untouched_putPacketz _
  · split
    · exact untouched_putPacketz _
    · refine (untouched_call hE _ _ _).bind fun inhibit => ?_
      split <;> exact untouched_putPacketz _

/-- No query but the monitor command changes a target. -/
theorem untouched_execQ {command : QCommand} (h : command ≠ .rcmd) :
    Untouched E (execQ env pbuf packet length command) := by
  cases command with
  | rcmd => exact absurd rfl h
  | supported => exact (untouched_setNoackmode _).bind fun _ => untouched_putPacketF _
  | memoryMap => exact untouched_execQMemoryMap hE
  | featureRead => exact untouched_execQFeatureRead hE
  | crc => exact untouched_execQCrc hE
  | currentThread => exact untouched_putPacketz _
  | threadInfo => exact untouched_execQThreadInfo _
  | noackmode => exact (untouched_setNoackmode _).bind fun _ => untouched_putPacketz _
  | attached => exact untouched_execQAttached hE

end

/-! ## How packets stop -/

/-- A program that does not return stops with an `E`. -/
def StopsWith (E : Stop → Prop) (m : GdbM α) : Prop :=
  ∀ s, Ends m s (fun _ _ => True) fun e _ => E e

/-- A program that changes no target stops as it is said to. -/
theorem Untouched.stopsWith {m : GdbM α} (hm : Untouched E m) : StopsWith E m := by
  intro s
  exact Ends.imp (hm s) (fun _ _ _ => trivial) fun _ _ he => he

/-- Two programs, one after the other. -/
theorem StopsWith.bind {m : GdbM α} {k : α → GdbM β} (hm : StopsWith E m)
    (hk : ∀ a, StopsWith E (k a)) : StopsWith E (m >>= k) := by
  intro s
  rw [ends_bind]
  exact Ends.imp (hm s) (fun a s' _ => hk a s') fun _ _ he => he

/-- A change of the targets does not stop. -/
theorem stopsWith_modifyTargets (f : Targets → Targets) : StopsWith E (modifyTargets f) :=
  fun _ => trivial

/-- Returning does not stop. -/
theorem stopsWith_pure (a : α) : StopsWith E (pure a : GdbM α) := fun _ => trivial

section
variable {d : Driver} (hE : d.Stops E)
include hE

/-- Going through the list stops only where it is half freed. -/
theorem stopsWith_walkTargets : StopsWith E walkTargets := by
  refine untouched_get.stopsWith.bind fun s => ?_
  split
  · exact stopsWith_pure ()
  · exact (untouched_throw (hE.freed _)).stopsWith

/-- Freeing the list stops as a detach does. -/
theorem stopsWith_listFree : StopsWith E (listFree d) := by
  refine (stopsWith_walkTargets hE).bind fun _ => untouched_get.stopsWith.bind fun s => ?_
  refine StopsWith.bind (fun _ => trivial) fun _ => ?_
  split
  · exact stopsWith_pure ()
  · next e he =>
    obtain ⟨id, hraise⟩ := targetListFree_raised he
    exact (untouched_throw (hE.raised .detach id e hraise)).stopsWith

/-- An attach stops as the driver does. -/
theorem stopsWith_targetAttach (target : Option Nat) (c : Controller) :
    StopsWith E (targetAttach d target c) := by
  cases target with
  | none => exact (untouched_throw hE.null).stopsWith
  | some id =>
    refine untouched_get.stopsWith.bind fun s => ?_
    split
    · exact (untouched_throw (hE.freed id)).stopsWith
    · refine (stopsWith_modifyTargets _).bind fun _ => ?_
      refine (untouched_callTarget hE _ _ _).stopsWith.bind fun ending => ?_
      split
      · exact (stopsWith_modifyTargets _).bind fun _ => stopsWith_pure _
      · exact stopsWith_pure _
      · exact (stopsWith_listFree hE).bind fun _ => stopsWith_pure _

/-- So does an attach by number. -/
theorem stopsWith_targetAttachN (n : Nat) (c : Controller) :
    StopsWith E (targetAttachN d n c) := by
  refine (stopsWith_walkTargets hE).bind fun _ => ?_
  cases n with
  | zero => exact stopsWith_pure none
  | succ n =>
    refine untouched_get.stopsWith.bind fun s => ?_
    split
    · exact stopsWith_targetAttach hE _ c
    · exact stopsWith_pure none

/-- So does a detach. -/
theorem stopsWith_targetDetach (target : Option Nat) : StopsWith E (targetDetach d target) := by
  refine (untouched_callTarget hE _ _ _).stopsWith.bind fun _ => ?_
  split
  · exact stopsWith_pure ()
  · exact stopsWith_modifyTargets _

end

section
variable (hE : env.fns.toDriver.Stops E)
include hE

/-- So does a call of a target function. -/
theorem stopsWith_call {α : Type} (op : TargetOp) (target : Option Nat) (f : Nat → α) :
    StopsWith E (call env op target f) := (untouched_call hE op target f).stopsWith

/-- `vAttach` stops as the driver does. -/
theorem stopsWith_handleVAttach (n : UInt32) : StopsWith E (handleVAttach env n) := by
  refine (stopsWith_targetAttachN hE _ _).bind fun target =>
    (stopsWith_modifyTargets _).bind fun _ => ?_
  split <;> exact (untouched_putPacketz _).stopsWith

/-- So does `vRun`. -/
theorem stopsWith_handleVRun : StopsWith E (handleVRun env pbuf) := by
  have hrun : ∀ (cmdline : List UInt8) (target : Option Nat), StopsWith E (do
      call env (.setCmdline cmdline) target fun _ => ()
      call env .reset target fun _ => ()
      putPacketz "T05") := fun cmdline target =>
    (stopsWith_call hE _ _ _).bind fun _ => (stopsWith_call hE _ _ _).bind fun _ =>
      (untouched_putPacketz _).stopsWith
  refine untouched_get.stopsWith.bind fun s => ?_
  dsimp only
  split
  · exact hrun _ _
  · split
    · refine (stopsWith_targetAttach hE _ _).bind fun target => ?_
      refine (stopsWith_modifyTargets _).bind fun _ => ?_
      split
      · exact hrun _ _
      · exact (untouched_putPacketz _).stopsWith
    · exact (untouched_putPacketz _).stopsWith

/-- So does `R`. -/
theorem stopsWith_handleReset : StopsWith E (handleReset env) := by
  refine untouched_get.stopsWith.bind fun s => ?_
  dsimp only
  split
  · exact stopsWith_call hE _ _ _
  · split
    · refine (stopsWith_targetAttach hE _ _).bind fun target => ?_
      exact (stopsWith_modifyTargets _).bind fun _ => stopsWith_call hE _ _ _
    · exact stopsWith_pure ()

/-- So does `k`. -/
theorem stopsWith_handleKillTarget : StopsWith E (handleKillTarget env) := by
  refine untouched_curTarget.stopsWith.bind fun cur => ?_
  split
  · exact stopsWith_pure ()
  · refine (stopsWith_call hE _ _ _).bind fun _ => (stopsWith_targetDetach hE _).bind fun _ => ?_
    exact stopsWith_modifyTargets _

/-- So does `D`. -/
theorem stopsWith_handleDetach (reply : Bool) : StopsWith E (handleDetach env reply) := by
  have hend : StopsWith E (if reply then putPacketz "OK" >>= fun _ => setNoackmode false
      else setNoackmode false) := by
    split
    · exact (untouched_putPacketz _).stopsWith.bind fun _ => (untouched_setNoackmode _).stopsWith
    · exact (untouched_setNoackmode _).stopsWith
  refine untouched_curTarget.stopsWith.bind fun cur => ?_
  cases cur with
  | none =>
    intro s
    have h := hend s
    simpa only [ends_bind, ends_pure] using h
  | some id =>
    refine (stopsWith_targetDetach hE _).bind fun _ => (stopsWith_modifyTargets _).bind fun _ => ?_
    exact hend

omit hE in
/-- So does `vStopped`. -/
theorem stopsWith_handleVStopped : StopsWith E handleVStopped := by
  refine untouched_get.stopsWith.bind fun s => ?_
  split
  · exact (untouched_putPacketz _).stopsWith.bind fun _ => stopsWith_modifyTargets _
  · exact (untouched_putPacketz _).stopsWith

/-- `E` also allows the exceptions of monitor commands. -/
def GdbEnv.MonitorStops (env : GdbEnv) (E : Stop → Prop) : Prop :=
  ∀ target line e, (env.monitor target line).raised = some e → E (.raised e)

/-- What a monitor command does to the targets stops as the driver does. -/
theorem stopsWith_monitorEffect (effect : MonitorEffect) :
    StopsWith E (monitorEffect env.fns.toDriver effect) := by
  cases effect with
  | scan c =>
    refine StopsWith.bind ?_ fun _ => stopsWith_modifyTargets _
    unfold walkScan
    split
    · exact stopsWith_walkTargets hE
    · exact stopsWith_pure ()
  | reset => exact stopsWith_listFree hE
  | other => exact stopsWith_pure ()

/-- So does `qRcmd`. -/
theorem stopsWith_execQRcmd (hmonitor : env.MonitorStops E) :
    StopsWith E (execQRcmd env packet length) := by
  refine untouched_curTarget.stopsWith.bind fun cur => StopsWith.bind ?_ fun c => ?_
  · refine (stopsWith_monitorEffect hE _).bind fun _ => StopsWith.bind (fun _ => trivial) fun _ =>
      ?_
    split
    · exact stopsWith_pure _
    · next e he => exact (untouched_throw (hmonitor _ _ e he)).stopsWith
  · split
    · exact (untouched_putPacketz _).stopsWith
    · split
      · exact (untouched_putPacketz _).stopsWith
      · exact (untouched_putPacket _).stopsWith

/-- Whatever a packet is, its handler stops only with what the driver and the monitor commands stop
with. -/
theorem stopsWith_gdbMain (hmonitor : env.MonitorStops E) :
    StopsWith E (gdbMain env pbuf size) := by
  unfold gdbMain
  cases gdbCommand (pbuf.headD 0) with
  | readRegs => exact (untouched_handleReadRegs hE).errorIfNoTarget.stopsWith
  | readMem => exact (untouched_handleReadMem hE).errorIfNoTarget.stopsWith
  | writeRegs => exact (untouched_handleWriteRegs hE).errorIfNoTarget.stopsWith
  | writeMem => exact (untouched_handleWriteMem hE).errorIfNoTarget.stopsWith
  | setThread => exact untouched_handleSetThread.stopsWith
  | resume step => exact (untouched_handleResume hE step).stopsWith
  | haltReason => exact untouched_handleHaltReason.stopsWith
  | readReg => exact (untouched_handleReadReg hE).errorIfNoTarget.stopsWith
  | writeReg => exact (untouched_handleWriteReg hE).errorIfNoTarget.stopsWith
  | syscallReply => exact (untouched_putPacketz _).stopsWith
  | extended => exact (untouched_putPacketz _).stopsWith
  | closed => exact stopsWith_handleDetach hE false
  | detach => exact stopsWith_handleDetach hE true
  | kill => exact stopsWith_handleKillTarget hE
  | reset => exact stopsWith_handleReset hE
  | writeBinary => exact (untouched_handleWriteBinary hE).errorIfNoTarget.stopsWith
  | breakwatch => exact (untouched_handleZPacket hE).errorIfNoTarget.stopsWith
  | unsupported => exact (untouched_putPacketz _).stopsWith
  | query =>
    dsimp only
    unfold handleQPacket
    split
    · next pre command _ =>
      by_cases hrcmd : command = .rcmd
      · subst hrcmd
        exact stopsWith_execQRcmd hE hmonitor
      · exact (untouched_execQ hE hrcmd).stopsWith
    · exact (untouched_putPacketz _).stopsWith
  | verbose =>
    dsimp only
    unfold handleVPacket
    cases vPacket pbuf with
    | attach n => exact stopsWith_handleVAttach hE n
    | kill =>
      exact (stopsWith_handleKillTarget hE).bind fun _ => (untouched_putPacketz _).stopsWith
    | run => exact stopsWith_handleVRun hE
    | cont => exact (untouched_handleVCont hE).stopsWith
    | flashErase addr len => exact (untouched_handleVFlashErase hE addr len).stopsWith
    | flashWrite addr position => exact (untouched_handleVFlashWrite hE addr _).stopsWith
    | flashDone => exact (untouched_handleVFlashDone hE).stopsWith
    | stopped => exact stopsWith_handleVStopped
    | unsupported => exact (untouched_putPacketz _).stopsWith

end

end

end Blackmagic
