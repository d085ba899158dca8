import Blackmagic.Gdb.Main

/-!
# One reply for each request

A packet that is a request has to be answered by exactly one reply, and no packet may make the
server call a target function without a target. `Unserved` lists the packets for which the server
does not do that, or does not come to an end, in the session they are received in; all the others
are answered.
-/

namespace Blackmagic

open Effect Scanf

/-! ## Counting replies -/

/-- A reply packet. Console text and notifications are none. -/
def GdbOut.isReply : GdbOut → Bool
  | .reply _ => true
  | _ => false

/-- The number of replies. -/
def replyCount (out : List GdbOut) : Nat := out.countP GdbOut.isReply

@[simp] theorem replyCount_append (out out' : List GdbOut) :
    replyCount (out ++ out') = replyCount out + replyCount out' := List.countP_append

@[simp] theorem replyCount_nil : replyCount [] = 0 := rfl

/-- A reply counts. -/
@[simp] theorem replyCount_reply (packet : List UInt8) (out : List GdbOut) :
    replyCount (.reply packet :: out) = replyCount out + 1 := List.countP_cons_of_pos rfl

@[simp] theorem replyCount_char (c : UInt8) (out : List GdbOut) :
    replyCount (.char c :: out) = replyCount out := rfl

@[simp] theorem replyCount_call (id : Nat) (op : TargetOp) (out : List GdbOut) :
    replyCount (.call id op :: out) = replyCount out := rfl

@[simp] theorem replyCount_console (texts : List String) :
    replyCount (texts.map GdbOut.console) = 0 := by
  induction texts with
  | nil => rfl
  | cons text texts ih => exact ih

/-- A program returns and sends `n` replies. -/
def Adds (n : Nat) (m : GdbM Unit) (s : GdbSession) : Prop :=
  Ends m s (fun _ s' => replyCount s'.out = replyCount s.out + n) fun _ _ => False

/-- A program stops with `e`. -/
def StopsAt (e : Stop) (m : GdbM Unit) (s : GdbSession) : Prop :=
  Ends m s (fun _ _ => False) fun e' _ => e' = e

/-- The pointers of a session are NULL or on the target list, which can be followed. -/
structure Targets.Sound (s : Targets) : Prop extends PointersValid s where
  whole : s.torn = none

/-- What a packet meets raises no exception. -/
structure GdbEnv.Quiet (env : GdbEnv) : Prop where
  fns : env.fns.toDriver.Quiet
  monitor : ∀ target line, (env.monitor target line).raised = none

/-! ## The requests that are not served -/

/-- Packets that are not answered by a reply of their own: run control, `k`, `r`, `R` and the end of
a connection. -/
def NoReplyDue (pbuf : List UInt8) (s : Targets) : Prop :=
  match gdbCommand (pbuf.headD 0) with
  | .resume _ | .kill | .reset | .closed => True
  | .haltReason => s.cur.isSome
  | .verbose => vPacket pbuf = .cont ∧ pbuf.getD 5 0 ≠ 0x3f ∧ isResume (pbuf.getD 6 0) = true
  | _ => False

/-- A request is answered by exactly one reply, and no target function is called without a
target. -/
def Answers (env : GdbEnv) (pbuf : List UInt8) (size : Nat) (s : GdbSession) : Prop :=
  Ends (gdbMain env pbuf size) s
    (fun _ s' => ¬ NoReplyDue pbuf s.targets → replyCount s'.out = replyCount s.out + 1) fun _ _ =>
      False

/-- How the checksum of memory that `qCRC` asks for ends, when one is calculated. -/
def crcAnswer (env : GdbEnv) (packet : List UInt8) (s : Targets) : Option CrcEnd :=
  match crcArgs packet, s.cur with
  | [addr, len], some id => env.fns.crc32 addr len id
  | _, _ => none

/-- The checksum is there. -/
def CrcEnd.isCrc : CrcEnd → Bool
  | .crc _ => true
  | _ => false

/-- A `qCRC` whose checksum `bmd_crc32` does not come to. -/
def CrcLost (env : GdbEnv) (pbuf : List UInt8) (s : Targets) : Prop :=
  ∃ pre, findCommand pbuf = some (pre, .crc) ∧ crcAnswer env (pbuf.drop pre.length) s = some .lost

/-- A `p` for a register that the target does not have. -/
def RegMissing (env : GdbEnv) (pbuf : List UInt8) (s : Targets) : Prop :=
  ∃ id, s.cur = some id ∧ env.fns.hasRegRead id = true ∧
    env.fns.regRead (readRegNumber env pbuf) id = none

/-- A `P` with a value of more than four bytes. -/
def ValueTooLong (env : GdbEnv) (pbuf : List UInt8) (s : Targets) : Prop :=
  ∃ id reg packet, s.cur = some id ∧ env.fns.hasRegWrite id = true ∧
    writeRegArgs pbuf = some (reg, packet) ∧ 4 < packet.length / 2

/-- The packets that are not served in a session: `qCRC` with arguments that cannot be read or for a
checksum that is not come to, replies that `vasprintf` has no memory for, a `vCont` with an action
that is not known, flash packets without a target, `r` or `R` when the last target cannot be
attached, `p` for a register that the target does not have, and `P` with a value of more than four
bytes. -/
def Unserved (env : GdbEnv) (pbuf : List UInt8) (s : Targets) : Prop :=
  match gdbCommand (pbuf.headD 0) with
  | .reset => s.cur = none ∧ ∃ id, s.last = some id ∧ env.fns.attach id ≠ .attached
  | .readReg => RegMissing env pbuf s
  | .writeReg => ValueTooLong env pbuf s
  | .query =>
    CrcLost env pbuf s ∨
      match findCommand pbuf with
      | some (pre, .crc) =>
        (crcArgs (pbuf.drop pre.length)).length ≠ 2 ∨
          (crcAnswer env (pbuf.drop pre.length) s).any CrcEnd.isCrc ∧ env.vasprintf = false
      | some (_, .supported) => env.vasprintf = false
      | _ => False
  | .verbose =>
    match vPacket pbuf with
    | .cont => pbuf.getD 5 0 ≠ 0x3f ∧ s.cur.isSome ∧ isResume (pbuf.getD 6 0) = false
    | .flashWrite _ _ => s.cur = none
    | .flashDone => s.cur = none
    | _ => False
  | _ => False

/-! ## The handlers -/

section
variable {env : GdbEnv} {s : GdbSession} {pbuf packet : List UInt8} {size length id : Nat}
  {Q : Unit → GdbSession → Prop} {E : Stop → GdbSession → Prop}

/-- A quiet call of a target function. -/
@[simp] theorem ends_call {α : Type} {op : TargetOp} {f : Nat → α} {Q : α → GdbSession → Prop}
    (hquiet : env.Quiet) (hfind : (s.targets.find id).isSome) :
    Ends (call env op (some id) f) s Q E ↔ Q (f id) { s with out := s.out ++ [.call id op] } :=
  ends_callTarget_some hfind (hquiet.fns op id)

/-- A call without a target. -/
@[simp] theorem ends_call_none {α : Type} {op : TargetOp} {f : Nat → α}
    {Q : α → GdbSession → Prop} :
    Ends (call env op none f) s Q E ↔ E .nullTarget s := Iff.rfl

@[simp] theorem ends_putPacket (p : List UInt8) :
    Ends (putPacket p) s Q E ↔ Q () { s with out := s.out ++ [.reply p] } := Iff.rfl

@[simp] theorem ends_putPacketz (text : String) :
    Ends (putPacketz text) s Q E ↔ Q () { s with out := s.out ++ [.reply (ascii text)] } := Iff.rfl

/-- A list that can be followed is freed. -/
theorem listFree_ends {d : Driver} (hquiet : d.Quiet) (htorn : s.targets.torn = none)
    (h : ∀ targets, Q () { s with targets := targets }) : Ends (listFree d) s Q E := by
  have hnone : (targetListFree (d.raises .detach) s.targets).1 = none := by
    refine (freeTargets_all fun t _ => ?_).1
    unfold TargetRec.detachRaises
    split
    · exact hquiet .detach t.id
    · rfl
  rw [ends_listFree htorn, hnone]
  exact h _

/-- The effect of a monitor command is one on the targets. -/
theorem monitorEffect_ends {d : Driver} (hquiet : d.Quiet) (htorn : s.targets.torn = none)
    (effect : MonitorEffect) (h : ∀ targets, Q () { s with targets := targets }) :
    Ends (monitorEffect d effect) s Q E := by
  cases effect with
  | scan c =>
    simp only [monitorEffect, walkScan, ends_bind]
    split
    · rw [ends_walkTargets htorn]
      exact h _
    · exact h _
  | reset => exact listFree_ends hquiet htorn h
  | other => exact h s.targets

/-- A monitor command only changes the targets, and what is printed. -/
theorem commandProcess_ends_of_quiet {d : Driver} {m : Monitor} {Q : Int → GdbSession → Prop}
    (hquiet : d.Quiet) (htorn : s.targets.torn = none) (hm : m.raised = none)
    (h : ∀ targets, Q m.result
      { s with targets := targets, out := s.out ++ m.console.map .console }) :
    Ends (commandProcess d m) s Q E := by
  rw [commandProcess, ends_bind]
  refine monitorEffect_ends hquiet htorn m.effect fun targets => ?_
  simp only [ends_bind, ends_modify, hm, ends_pure]
  exact h targets

/-- A string is one reply. -/
theorem putPacketz_adds (text : String) : Adds 1 (putPacketz text) s := by
  simp [Adds]

/-! ### Registers and memory -/

/-- `g` is answered once. -/
theorem handleReadRegs_adds (hquiet : env.Quiet) (hcur : s.targets.cur = some id)
    (hfind : (s.targets.find id).isSome) : Adds 1 (handleReadRegs env) s := by
  simp only [Adds, handleReadRegs, ends_bind, ends_curTarget, hcur, ends_call hquiet hfind]
  split <;> simp [hquiet, hcur, hfind]

/-- `G` is answered once. -/
theorem handleWriteRegs_adds (hquiet : env.Quiet) (hcur : s.targets.cur = some id)
    (hfind : (s.targets.find id).isSome) : Adds 1 (handleWriteRegs env pbuf) s := by
  simp only [Adds, handleWriteRegs, ends_bind, ends_curTarget, hcur, ends_call hquiet hfind]
  split <;> simp [hquiet, hcur, hfind]

/-- `m` is answered once. -/
theorem handleReadMem_adds (hquiet : env.Quiet) (hcur : s.targets.cur = some id)
    (hfind : (s.targets.find id).isSome) : Adds 1 (handleReadMem env pbuf) s := by
  unfold handleReadMem
  dsimp only
  split
  · exact putPacketz_adds _
  · simp only [Adds, ends_bind, ends_curTarget, hcur, ends_call hquiet hfind]
    split <;> simp

/-- A write to memory is answered once. -/
theorem memWriteReply_adds (hquiet : env.Quiet) (hcur : s.targets.cur = some id)
    (hfind : (s.targets.find id).isSome) (addr : UInt32) (data : List UInt8) :
    Adds 1 (memWriteReply env addr data) s := by
  simp only [Adds, memWriteReply, ends_bind, ends_curTarget, hcur, ends_call hquiet hfind]
  split <;> simp

/-- `M` is answered once. -/
theorem handleWriteMem_adds (hquiet : env.Quiet) (hcur : s.targets.cur = some id)
    (hfind : (s.targets.find id).isSome) : Adds 1 (handleWriteMem env pbuf size) s := by
  unfold handleWriteMem
  dsimp only
  split
  · exact putPacketz_adds _
  · exact memWriteReply_adds hquiet hcur hfind _ _

/-- `X` is answered once. -/
theorem handleWriteBinary_adds (hquiet : env.Quiet) (hcur : s.targets.cur = some id)
    (hfind : (s.targets.find id).isSome) : Adds 1 (handleWriteBinary env pbuf size) s := by
  unfold handleWriteBinary
  dsimp only
  split
  · exact putPacketz_adds _
  · exact memWriteReply_adds hquiet hcur hfind _ _

/-- A register that the target has is read. -/
theorem handleReadReg_adds (hquiet : env.Quiet) (hcur : s.targets.cur = some id)
    (hfind : (s.targets.find id).isSome) (hreg : ¬ RegMissing env pbuf s.targets) :
    Adds 1 (handleReadReg env pbuf) s := by
  simp only [Adds, handleReadReg, ends_bind, ends_curTarget, hcur, ends_call hquiet hfind]
  split
  · next hhas =>
    simp only [ends_bind, ends_curTarget, hcur, ends_call hquiet, hfind]
    split
    · next hnone => exact absurd ⟨id, hcur, hhas, hnone⟩ hreg
    · split <;> simp
  · simp

/-- Any other register ends the server. -/
theorem handleReadReg_overrun (hquiet : env.Quiet) (hcur : s.targets.cur = some id)
    (hfind : (s.targets.find id).isSome) (hhas : env.fns.hasRegRead id = true)
    (hnone : env.fns.regRead (readRegNumber env pbuf) id = none) :
    StopsAt .overrun (handleReadReg env pbuf) s := by
  simp [StopsAt, handleReadReg, hcur, hquiet, hfind, hhas, hnone]

/-- A value of four bytes is written. -/
theorem handleWriteReg_adds (hquiet : env.Quiet) (hcur : s.targets.cur = some id)
    (hfind : (s.targets.find id).isSome) (hvalue : ¬ ValueTooLong env pbuf s.targets) :
    Adds 1 (handleWriteReg env pbuf) s := by
  simp only [Adds, handleWriteReg, ends_bind, ends_curTarget, hcur, ends_call hquiet hfind]
  split
  · next hhas =>
    split
    · next reg packet hargs =>
      split
      · next hlong => exact absurd ⟨id, reg, packet, hcur, hhas, hargs, hlong⟩ hvalue
      · simp only [ends_bind, ends_curTarget, hcur, ends_call hquiet, hfind]
        split <;> simp
    · simp
  · simp

/-- A longer one ends the server. -/
theorem handleWriteReg_overrun {reg : UInt32} {packet : List UInt8} (hquiet : env.Quiet)
    (hcur : s.targets.cur = some id) (hfind : (s.targets.find id).isSome)
    (hhas : env.fns.hasRegWrite id = true) (hargs : writeRegArgs pbuf = some (reg, packet))
    (hlong : 4 < packet.length / 2) : StopsAt .overrun (handleWriteReg env pbuf) s := by
  simp [StopsAt, handleWriteReg, hcur, hquiet, hfind, hhas, hargs, hlong]

/-- `Z` and `z` are answered once. -/
theorem handleZPacket_adds (hquiet : env.Quiet) (hcur : s.targets.cur = some id)
    (hfind : (s.targets.find id).isSome) : Adds 1 (handleZPacket env pbuf) s := by
  -- `Z` and `z` differ in the function that is called
  have hret : ∀ (ret : Int) (s' : GdbSession), replyCount s'.out = replyCount s.out →
      Ends (if ret < 0 then putPacketz "E01" else if 0 < ret then putPacketz ""
        else putPacketz "OK") s'
        (fun _ s' => replyCount s'.out = replyCount s.out + 1) fun _ _ => False := by
    intro ret s' hs
    split
    · simp [hs]
    · split <;> simp [hs]
  unfold handleZPacket
  dsimp only
  split
  · simp only [Adds, ends_bind, ends_curTarget, hcur, ends_call hquiet hfind]
    exact hret _ _ (by simp)
  · simp only [Adds, ends_bind, ends_curTarget, hcur, ends_call hquiet hfind]
    exact hret _ _ (by simp)

/-- The check for a target answers where there is none. -/
theorem errorIfNoTarget_adds {m : GdbM Unit} (hvalid : s.targets.Sound)
    (h : ∀ id, s.targets.cur = some id → (s.targets.find id).isSome → Adds 1 m s) :
    Adds 1 (errorIfNoTarget m) s := by
  simp only [Adds, errorIfNoTarget, ends_bind, ends_curTarget]
  cases hcur : s.targets.cur with
  | none => simp
  | some id => exact h id hcur (hvalid.cur id hcur)

/-- `H` is answered once. -/
theorem handleSetThread_adds : Adds 1 (handleSetThread pbuf) s := by
  unfold handleSetThread
  dsimp only
  split <;> exact putPacketz_adds _

/-! ### Query packets -/

/-- A part of a document is one reply. -/
theorem handleQStringReply_ends {c : Nat} (text param : List UInt8)
    (hc : replyCount s.out + 1 = c) :
    Ends (handleQStringReply text param) s (fun _ s' => replyCount s'.out = c) fun _ _ =>
      False := by
  unfold handleQStringReply
  split
  · split
    · simp [hc]
    · split <;> simp [hc]
  · simp [hc]

/-- Setting the mode of acknowledgements is no reply. -/
theorem setNoackmode_ends (enable : Bool)
    (h : ∀ s', replyCount s'.out = replyCount s.out → Q () s') :
    Ends (setNoackmode enable) s Q E := by
  simp only [setNoackmode, ends_bind, ends_get]
  split
  · simp only [ends_bind, ends_emit, ends_modify]
    exact h _ (by simp)
  · simp only [ends_modify]
    exact h _ rfl

/-- `qRcmd` is answered once. -/
theorem execQRcmd_adds (hquiet : env.Quiet) (htorn : s.targets.torn = none) :
    Adds 1 (execQRcmd env packet length) s := by
  simp only [Adds, execQRcmd, ends_bind, ends_curTarget]
  refine commandProcess_ends_of_quiet hquiet.fns htorn (hquiet.monitor _ _) fun targets => ?_
  split
  · simp
  · split <;> simp

/-- `qSupported` is answered where `vasprintf` has memory. -/
theorem execQSupported_adds : Adds (if env.vasprintf then 1 else 0) (execQSupported env) s := by
  simp only [Adds, execQSupported, ends_bind]
  refine setNoackmode_ends false fun s' hs => ?_
  unfold putPacketF
  split <;> simp [hs]

/-- The target that a query asks is on the list. -/
theorem queryTarget_valid (hvalid : s.targets.Sound)
    (h : (s.targets.cur <|> s.targets.last) = some id) : (s.targets.find id).isSome := by
  cases hcur : s.targets.cur with
  | none =>
    rw [hcur] at h
    exact hvalid.last id h
  | some id' =>
    rw [hcur] at h
    cases h
    exact hvalid.cur _ hcur

/-- The memory map is answered once. -/
theorem execQMemoryMap_adds (hquiet : env.Quiet) (hvalid : s.targets.Sound) :
    Adds 1 (execQMemoryMap env packet) s := by
  simp only [Adds, execQMemoryMap, queryTarget, ends_bind, ends_get, ends_pure]
  split
  · simp
  · next id hid =>
    rw [ends_bind, ends_call hquiet (queryTarget_valid hvalid hid)]
    exact handleQStringReply_ends _ _ (by simp)

/-- The description of the target is answered once. -/
theorem execQFeatureRead_adds (hquiet : env.Quiet) (hvalid : s.targets.Sound) :
    Adds 1 (execQFeatureRead env packet) s := by
  simp only [Adds, execQFeatureRead, queryTarget, ends_bind, ends_get, ends_pure]
  split
  · simp
  · next id hid =>
    rw [ends_bind, ends_call hquiet (queryTarget_valid hvalid hid)]
    exact handleQStringReply_ends _ _ (by simp)

/-- How many replies a `qCRC` has. -/
def crcReplies (env : GdbEnv) (packet : List UInt8) (s : Targets) : Nat :=
  if (crcArgs packet).length ≠ 2 ∨ (crcAnswer env packet s).any CrcEnd.isCrc ∧
    env.vasprintf = false then 0
  else 1

/-- A `qCRC` is answered when its arguments can be read, and the reply has memory. -/
theorem execQCrc_adds (hquiet : env.Quiet) (hvalid : s.targets.Sound)
    (hcrc : crcAnswer env packet s.targets ≠ some .lost) :
    Adds (crcReplies env packet s.targets) (execQCrc env packet) s := by
  unfold execQCrc
  split
  · next addr len hargs =>
    cases hcur : s.targets.cur with
    | none => simp [Adds, hcur, crcReplies, hargs, crcAnswer]
    | some id =>
      have hanswer : crcAnswer env packet s.targets = some (env.fns.crc32 addr len id) := by
        simp only [crcAnswer, hargs, hcur]
      simp only [Adds, ends_bind, ends_curTarget, hcur, Option.isNone_some, Bool.false_eq_true,
        if_false, ends_call hquiet (hvalid.cur id hcur)]
      split
      · next hend => simp [crcReplies, hargs, hanswer, hend, CrcEnd.isCrc]
      · next value hend =>
        simp only [putPacketF, crcReplies, hargs, hanswer, hend, Option.any_some, CrcEnd.isCrc]
        cases env.vasprintf with
        | false => simp
        | true => simp
      · next hend => exact absurd (hanswer.trans (congrArg some hend)) hcrc
  · next hargs =>
    have hlen : (crcArgs packet).length ≠ 2 := by
      intro hlen
      obtain ⟨addr, len, h⟩ := List.length_eq_two.1 hlen
      exact hargs addr len h
    simp [Adds, crcReplies, hlen]

/-- When the checksum is not come to, the server ends. -/
theorem execQCrc_lost (hquiet : env.Quiet) (hvalid : s.targets.Sound)
    (hcrc : crcAnswer env packet s.targets = some .lost) :
    StopsAt .crcLost (execQCrc env packet) s := by
  unfold crcAnswer at hcrc
  split at hcrc
  · next addr len id hargs hcur =>
    have hend : env.fns.crc32 addr len id = .lost := Option.some.inj hcrc
    simp [StopsAt, execQCrc, hargs, hcur, hquiet, hvalid.cur id hcur, hend]
  · cases hcrc

/-- The thread queries are answered once. -/
theorem execQThreadInfo_adds (which : UInt8) : Adds 1 (execQThreadInfo which) s := by
  simp only [Adds, execQThreadInfo, ends_bind, ends_curTarget]
  split <;> simp

/-- `QStartNoAckMode` is answered once. -/
theorem execQNoackmode_adds : Adds 1 execQNoackmode s := by
  simp only [Adds, execQNoackmode, ends_bind]
  refine setNoackmode_ends true fun s' hs => ?_
  simp [hs]

/-- `qAttached` is answered once. -/
theorem execQAttached_adds (hquiet : env.Quiet) (hvalid : s.targets.Sound) :
    Adds 1 (execQAttached env packet length) s := by
  simp only [Adds, execQAttached, ends_bind, ends_curTarget]
  cases hcur : s.targets.cur with
  | none => simp
  | some id =>
    dsimp only
    split
    · simp
    · rw [ends_bind, ends_call hquiet (hvalid.cur id hcur)]
      split <;> simp

/-- How many replies a query has. -/
def queryReplies (env : GdbEnv) (pbuf : List UInt8) (s : Targets) : Nat :=
  match findCommand pbuf with
  | some (pre, .crc) => crcReplies env (pbuf.drop pre.length) s
  | some (_, .supported) => if env.vasprintf then 1 else 0
  | _ => 1

/-- A query is answered as often as `queryReplies` says. -/
theorem handleQPacket_adds (hquiet : env.Quiet) (hvalid : s.targets.Sound)
    (hcrc : ¬ CrcLost env pbuf s.targets) :
    Adds (queryReplies env pbuf s.targets) (handleQPacket env pbuf length) s := by
  unfold handleQPacket queryReplies
  cases hfound : findCommand pbuf with
  | none => exact putPacketz_adds _
  | some found =>
    obtain ⟨pre, command⟩ := found
    cases command with
    | rcmd => exact execQRcmd_adds hquiet hvalid.whole
    | supported => exact execQSupported_adds
    | memoryMap => exact execQMemoryMap_adds hquiet hvalid
    | featureRead => exact execQFeatureRead_adds hquiet hvalid
    | crc => exact execQCrc_adds hquiet hvalid fun hlost => hcrc ⟨pre, hfound, hlost⟩
    | currentThread => exact putPacketz_adds _
    | threadInfo => exact execQThreadInfo_adds _
    | noackmode => exact execQNoackmode_adds
    | attached => exact execQAttached_adds hquiet hvalid

/-! ### Attach, run and flash -/

/-- An attach of a target on the list succeeds, or fails with the target list freed or not. -/
theorem targetAttach_ends_of_quiet {c : Controller} {t : TargetRec}
    {Q : Option Nat → GdbSession → Prop} (hquiet : env.Quiet) (htorn : s.targets.torn = none)
    (hfind : s.targets.find id = some t)
    (hattached : env.fns.attach id = .attached → Q (some id) { s with
      targets := (s.targets.takeOver t c).modify id fun t => { t with attached := true },
      out := s.out ++ [.call id .attach] })
    (hfailed : env.fns.attach id ≠ .attached → ∀ targets,
      Q none { s with targets := targets, out := s.out ++ [.call id .attach] }) :
    Ends (targetAttach env.fns.toDriver (some id) c) s Q E := by
  rw [ends_targetAttach hfind (hquiet.fns _ _)]
  cases hend : env.fns.attach id with
  | attached => exact hattached hend
  | failed => exact hfailed (by rw [hend]; rintro ⟨⟩) _
  | lost =>
    refine listFree_ends hquiet.fns ?_ (hfailed (by rw [hend]; rintro ⟨⟩))
    exact (takeOver_torn s.targets t c).trans htorn

/-- `vAttach` is answered once. -/
theorem handleVAttach_adds (hquiet : env.Quiet) (hvalid : s.targets.Sound) (n : UInt32) :
    Adds 1 (handleVAttach env n) s := by
  simp only [Adds, handleVAttach, ends_bind]
  refine ends_targetAttachN hvalid.whole (by simp) fun t _ ht => ?_
  obtain ⟨t', hfind⟩ := find_of_mem (List.mem_of_getElem? ht)
  exact targetAttach_ends_of_quiet hquiet hvalid.whole hfind (fun _ => by simp) fun _ _ => by simp

/-- `vRun` is answered once. -/
theorem handleVRun_adds (hquiet : env.Quiet) (hvalid : s.targets.Sound) :
    Adds 1 (handleVRun env pbuf) s := by
  simp only [Adds, handleVRun, ends_bind, ends_get]
  cases hcur : s.targets.cur with
  | some id =>
    have hfind := hvalid.cur id hcur
    simp [hquiet, hfind]
  | none =>
    cases hlast : s.targets.last with
    | none => simp
    | some id =>
      obtain ⟨t, ht⟩ := Option.isSome_iff_exists.1 (hvalid.last id hlast)
      have hfind := find_attached .gdb ht
      simp only [Option.isSome_none, Option.isSome_some, Bool.false_eq_true, if_false, if_true,
        ends_bind, ends_modifyTargets]
      refine targetAttach_ends_of_quiet hquiet hvalid.whole ht (fun _ => ?_) fun _ _ => by simp
      simp only [Option.isSome_some, if_true, ends_bind]
      refine (ends_call hquiet hfind).2 ((ends_call hquiet hfind).2 ?_)
      simp

/-- `vCont` is answered when it is the query or there is no target. -/
theorem handleVCont_adds (hquiet : env.Quiet) (hvalid : s.targets.Sound) :
    Adds (if pbuf.getD 5 0 = 0x3f ∨ s.targets.cur = none then 1 else 0) (handleVCont env pbuf)
      s := by
  simp only [Adds, handleVCont]
  by_cases hquery : pbuf.getD 5 0 = 0x3f
  · simp only [hquery, true_or, if_true]
    simp
  · rw [if_neg hquery]
    cases hcur : s.targets.cur with
    | none => simp [hcur]
    | some id =>
      rw [if_neg (not_or.2 ⟨hquery, Option.some_ne_none id⟩)]
      simp only [ends_bind, ends_curTarget, hcur, Option.isNone_some, Bool.false_eq_true, if_false]
      split
      · simp [hcur, hquiet, hvalid.cur id hcur]
      · simp

/-- `vFlashErase` is answered once. -/
theorem handleVFlashErase_adds (hquiet : env.Quiet) (hvalid : s.targets.Sound)
    (addr len : UInt32) : Adds 1 (handleVFlashErase env addr len) s := by
  simp only [Adds, handleVFlashErase, ends_bind, ends_curTarget]
  cases hcur : s.targets.cur with
  | none => simp
  | some id =>
    have hfind := hvalid.cur id hcur
    simp only [Option.isNone_some, Bool.false_eq_true, if_false, ends_bind, ends_curTarget, hcur,
      ends_call hquiet hfind]
    split
    · simp
    · simp [hquiet, hcur, hfind]

/-- `vFlashWrite` is answered once. -/
theorem handleVFlashWrite_adds (hquiet : env.Quiet) (hcur : s.targets.cur = some id)
    (hfind : (s.targets.find id).isSome) (addr : UInt32) (data : List UInt8) :
    Adds 1 (handleVFlashWrite env addr data) s := by
  simp only [Adds, handleVFlashWrite, tryFlashWrite, ends_bind, ends_curTarget, hcur,
    Option.isNone_some, Bool.false_eq_true, if_false, ends_call hquiet hfind]
  split
  · simp
  · simp [hquiet, hcur, hfind]

/-- Without a target, `vFlashWrite` completes the flash session of no target. -/
theorem handleVFlashWrite_nullCall (hcur : s.targets.cur = none) (addr : UInt32)
    (data : List UInt8) :
    StopsAt .nullTarget (handleVFlashWrite env addr data) s := by
  simp [StopsAt, handleVFlashWrite, tryFlashWrite, hcur]

/-- `vFlashDone` is answered once. -/
theorem handleVFlashDone_adds (hquiet : env.Quiet) (hcur : s.targets.cur = some id)
    (hfind : (s.targets.find id).isSome) : Adds 1 (handleVFlashDone env) s := by
  simp only [Adds, handleVFlashDone, ends_bind, ends_curTarget, hcur, ends_call hquiet hfind]
  split <;> simp

/-- Without a target `vFlashDone` stops the server. -/
theorem handleVFlashDone_nullCall (hcur : s.targets.cur = none) :
    StopsAt .nullTarget (handleVFlashDone env) s := by
  simp [StopsAt, handleVFlashDone, hcur]

/-- `vStopped` is answered once. -/
theorem handleVStopped_adds : Adds 1 handleVStopped s := by
  simp only [Adds, handleVStopped, ends_bind, ends_get]
  split <;> simp

/-! ### Detach, kill and reset -/

/-- Killing the target is no reply, and what follows may be. -/
theorem handleKillTarget_ends {k : GdbM Unit} {n : Nat} (hquiet : env.Quiet)
    (hvalid : s.targets.Sound)
    (hk : ∀ s', replyCount s'.out = replyCount s.out →
      Ends k s' (fun _ s' => replyCount s'.out = replyCount s.out + n) fun _ _ => False) :
    Adds n (handleKillTarget env >>= fun _ => k) s := by
  simp only [Adds, handleKillTarget, ends_bind, ends_curTarget]
  cases hcur : s.targets.cur with
  | none => exact hk s rfl
  | some id =>
    have hfind := hvalid.cur id hcur
    simp only [ends_bind, ends_call hquiet hfind]
    refine (ends_targetDetach (by exact hfind) (hquiet.fns _ _)).2 ?_
    exact hk _ (by simp)

/-- `k` is not answered. -/
theorem handleKillTarget_adds (hquiet : env.Quiet) (hvalid : s.targets.Sound) :
    Adds 0 (handleKillTarget env) s := by
  have h := handleKillTarget_ends (k := pure ()) (n := 0) hquiet hvalid fun s' hs => hs
  simpa [Adds] using h

/-- A detach is answered where it is asked to. -/
theorem handleDetach_adds (hquiet : env.Quiet) (hvalid : s.targets.Sound) (reply : Bool) :
    Adds (if reply then 1 else 0) (handleDetach env reply) s := by
  simp only [Adds, handleDetach, ends_bind, ends_curTarget]
  cases hcur : s.targets.cur with
  | none =>
    cases reply with
    | false => exact setNoackmode_ends false fun s' hs => hs
    | true => exact setNoackmode_ends false fun s' hs => by simp [hs]
  | some id =>
    simp only [ends_bind, ends_targetDetach (hvalid.cur id hcur) (hquiet.fns _ _),
      ends_modifyTargets]
    cases reply with
    | false => exact setNoackmode_ends false fun s' hs => by simp [hs]
    | true => exact setNoackmode_ends false fun s' hs => by simp [hs]

/-- A target can be reset when there is one, or the last one can be attached. -/
theorem handleReset_adds (hquiet : env.Quiet) (hvalid : s.targets.Sound)
    (h : s.targets.cur = none → ∀ id, s.targets.last = some id → env.fns.attach id = .attached) :
    Adds 0 (handleReset env) s := by
  simp only [Adds, handleReset, ends_bind, ends_get]
  cases hcur : s.targets.cur with
  | some id => simp [hquiet, hvalid.cur id hcur]
  | none =>
    cases hlast : s.targets.last with
    | none => simp
    | some id =>
      obtain ⟨t, ht⟩ := Option.isSome_iff_exists.1 (hvalid.last id hlast)
      simp only [Option.isSome_none, Option.isSome_some, Bool.false_eq_true, if_false, if_true,
        ends_bind, ends_modifyTargets]
      refine targetAttach_ends_of_quiet hquiet hvalid.whole ht (fun _ => ?_) fun hno => ?_
      · refine (ends_call hquiet (find_attached .gdb ht)).2 ?_
        simp
      · exact absurd (h hcur id hlast) hno

/-- When the last target cannot be attached, no target is reset. -/
theorem handleReset_nullCall (hquiet : env.Quiet) (hvalid : s.targets.Sound)
    (hcur : s.targets.cur = none) (hlast : s.targets.last = some id)
    (h : env.fns.attach id ≠ .attached) :
    StopsAt .nullTarget (handleReset env) s := by
  obtain ⟨t, ht⟩ := Option.isSome_iff_exists.1 (hvalid.last id hlast)
  simp only [StopsAt, handleReset, ends_bind, ends_get, hcur, hlast, Option.isSome_none,
    Option.isSome_some, Bool.false_eq_true, if_false, if_true, ends_modifyTargets]
  exact targetAttach_ends_of_quiet hquiet hvalid.whole ht (fun hyes => absurd hyes h) fun _ _ => rfl

/-- `c` and `s` return. -/
theorem handleResume_ends (hquiet : env.Quiet) (hvalid : s.targets.Sound) (step : Bool) :
    Ends (handleResume env step) s (fun _ _ => True) fun _ _ => False := by
  simp only [handleResume, ends_bind, ends_curTarget]
  cases hcur : s.targets.cur with
  | none => simp
  | some id => simp [hquiet, hcur, hvalid.cur id hcur]

/-! ## The packet switch -/

/-- A packet that adds one reply is answered. -/
theorem answers_of_adds (h : Adds 1 (gdbMain env pbuf size) s) : Answers env pbuf size s :=
  Ends.imp h (fun _ _ hs _ => hs) fun _ _ he => he

/-- So is one that is due none and returns. -/
theorem answers_of_noReplyDue (hdue : NoReplyDue pbuf s.targets)
    (h : Ends (gdbMain env pbuf size) s (fun _ _ => True) fun _ _ => False) :
    Answers env pbuf size s :=
  Ends.imp h (fun _ _ _ hno => absurd hdue hno) fun _ _ he => he

/-- A handler that adds replies returns. -/
theorem Adds.returns {n : Nat} {m : GdbM Unit} (h : Adds n m s) :
    Ends m s (fun _ _ => True) fun _ _ => False :=
  Ends.imp h (fun _ _ _ => trivial) fun _ _ he => he

/-- A request whose handler sends `n` replies is answered when `n` is one. -/
theorem answers_iff_of_adds {n : Nat} (hdue : ¬ NoReplyDue pbuf s.targets)
    (h : Adds n (gdbMain env pbuf size) s) : Answers env pbuf size s ↔ n = 1 := by
  constructor
  · intro ha
    refine Ends.elim (Ends.imp (Ends.and h ha) (fun _ s' hs => ?_) fun _ _ he => he.1.elim)
    have h0 := hs.1
    have h1 := hs.2 hdue
    omega
  · intro hn
    subst hn
    exact answers_of_adds h

/-- A handler that stops does not answer. -/
theorem not_answers_of_stopsAt {e : Stop} (h : StopsAt e (gdbMain env pbuf size) s) :
    ¬ Answers env pbuf size s := by
  intro ha
  exact Ends.elim (Ends.imp (Ends.and h ha) (fun _ _ hs => hs.1) fun _ _ he => he.2)

/-- A query gets one reply unless it is unserved. -/
theorem queryReplies_eq_one (hcommand : gdbCommand (pbuf.headD 0) = .query) {targets : Targets}
    (hcrc : ¬ CrcLost env pbuf targets) :
    queryReplies env pbuf targets = 1 ↔ ¬ Unserved env pbuf targets := by
  rw [queryReplies, Unserved, hcommand]
  simp only [hcrc, false_or]
  split
  · rw [crcReplies]
    split
    · next h => exact iff_of_false (by decide) fun hno => hno h
    · next h => exact iff_of_true rfl h
  · cases env.vasprintf with
    | false => simp
    | true => simp
  · exact iff_of_true rfl id

/-- A query is answered unless it is unserved. -/
theorem query_answers_iff (hquiet : env.Quiet) (hvalid : s.targets.Sound)
    (hcommand : gdbCommand (pbuf.headD 0) = .query) :
    Answers env pbuf size s ↔ ¬ Unserved env pbuf s.targets := by
  have hmain : gdbMain env pbuf size = handleQPacket env pbuf size := by
    rw [gdbMain, hcommand]
  by_cases hcrc : CrcLost env pbuf s.targets
  · refine iff_of_false (not_answers_of_stopsAt (e := .crcLost) ?_) fun hno => hno ?_
    · obtain ⟨pre, hfound, hlost⟩ := hcrc
      rw [hmain, handleQPacket, hfound]
      exact execQCrc_lost hquiet hvalid hlost
    · rw [Unserved, hcommand]
      exact .inl hcrc
  · have hdue : ¬ NoReplyDue pbuf s.targets := by
      rw [NoReplyDue, hcommand]
      exact id
    rw [← queryReplies_eq_one hcommand hcrc]
    refine answers_iff_of_adds hdue ?_
    rw [hmain]
    exact handleQPacket_adds hquiet hvalid hcrc

/-- `vCont` is answered unless it is unserved. -/
theorem vCont_answers_iff (hquiet : env.Quiet) (hvalid : s.targets.Sound)
    (hcommand : gdbCommand (pbuf.headD 0) = .verbose) (hv : vPacket pbuf = .cont) :
    Answers env pbuf size s ↔ ¬ Unserved env pbuf s.targets := by
  have hadds : Adds (if pbuf.getD 5 0 = 0x3f ∨ s.targets.cur = none then 1 else 0)
      (gdbMain env pbuf size) s := by
    simp only [gdbMain, hcommand, handleVPacket, hv]
    exact handleVCont_adds hquiet hvalid
  simp only [Unserved, hcommand, hv]
  by_cases hresume : pbuf.getD 5 0 ≠ 0x3f ∧ isResume (pbuf.getD 6 0) = true
  · -- a resume action is answered when the target halts
    have hdue : NoReplyDue pbuf s.targets := by
      simp only [NoReplyDue, hcommand]
      exact ⟨hv, hresume⟩
    refine iff_of_true (answers_of_noReplyDue hdue hadds.returns) ?_
    rintro ⟨-, -, hno⟩
    rw [hresume.2] at hno
    cases hno
  · have hdue : ¬ NoReplyDue pbuf s.targets := by
      simp only [NoReplyDue, hcommand]
      rintro ⟨-, h⟩
      exact hresume h
    rw [answers_iff_of_adds hdue hadds]
    by_cases hquery : pbuf.getD 5 0 = 0x3f
    · exact iff_of_true (if_pos (.inl hquery)) fun h => h.1 hquery
    · have hno : isResume (pbuf.getD 6 0) = false := by
        rw [← Bool.not_eq_true]
        exact fun h => hresume ⟨hquery, h⟩
      cases hcur : s.targets.cur with
      | none => exact iff_of_true (if_pos (.inr rfl)) nofun
      | some id =>
        refine iff_of_false ?_ fun h => h ⟨hquery, rfl, hno⟩
        rw [if_neg (not_or.2 ⟨hquery, Option.some_ne_none id⟩)]
        decide

/-- The packets of `handle_v_packet` are served unless they are a flash packet without a target, or
a `vCont` with an action that is not known. -/
theorem verbose_answers_iff (hquiet : env.Quiet) (hvalid : s.targets.Sound)
    (hcommand : gdbCommand (pbuf.headD 0) = .verbose) :
    Answers env pbuf size s ↔ ¬ Unserved env pbuf s.targets := by
  have hmain : gdbMain env pbuf size = handleVPacket env pbuf size := by
    rw [gdbMain, hcommand]
  -- a packet that is always answered
  have hserved : (∀ v, vPacket pbuf = v → v ≠ .cont ∧ v ≠ .flashDone ∧ ∀ a p, v ≠ .flashWrite a p) →
      Adds 1 (handleVPacket env pbuf size) s →
      (Answers env pbuf size s ↔ ¬ Unserved env pbuf s.targets) := by
    intro hv hadds
    refine iff_of_true (answers_of_adds (by rw [hmain]; exact hadds)) ?_
    obtain ⟨hcont, hdone, hwrite⟩ := hv _ rfl
    simp only [Unserved, hcommand]
    exact id
  cases hv : vPacket pbuf with
  | attach n =>
    refine hserved (by rintro v rfl; rw [hv]; simp) ?_
    simp only [handleVPacket, hv]
    exact handleVAttach_adds hquiet hvalid n
  | kill =>
    refine hserved (by rintro v rfl; rw [hv]; simp) ?_
    simp only [handleVPacket, hv]
    exact handleKillTarget_ends hquiet hvalid fun s' hs => by simp [hs]
  | run =>
    refine hserved (by rintro v rfl; rw [hv]; simp) ?_
    simp only [handleVPacket, hv]
    exact handleVRun_adds hquiet hvalid
  | cont => exact vCont_answers_iff hquiet hvalid hcommand hv
  | flashErase addr len =>
    refine hserved (by rintro v rfl; rw [hv]; simp) ?_
    simp only [handleVPacket, hv]
    exact handleVFlashErase_adds hquiet hvalid addr len
  | flashWrite addr position =>
    simp only [Unserved, hcommand, hv]
    cases hcur : s.targets.cur with
    | none =>
      refine iff_of_false (not_answers_of_stopsAt (e := .nullTarget) ?_) (by simp)
      rw [hmain]
      simp only [handleVPacket, hv]
      exact handleVFlashWrite_nullCall hcur _ _
    | some id =>
      refine iff_of_true (answers_of_adds ?_) (by simp)
      rw [hmain]
      simp only [handleVPacket, hv]
      exact handleVFlashWrite_adds hquiet hcur (hvalid.cur id hcur) _ _
  | flashDone =>
    simp only [Unserved, hcommand, hv]
    cases hcur : s.targets.cur with
    | none =>
      refine iff_of_false (not_answers_of_stopsAt (e := .nullTarget) ?_) (by simp)
      rw [hmain]
      simp only [handleVPacket, hv]
      exact handleVFlashDone_nullCall hcur
    | some id =>
      refine iff_of_true (answers_of_adds ?_) (by simp)
      rw [hmain]
      simp only [handleVPacket, hv]
      exact handleVFlashDone_adds hquiet hcur (hvalid.cur id hcur)
  | stopped =>
    refine hserved (by rintro v rfl; rw [hv]; simp) ?_
    simp only [handleVPacket, hv]
    exact handleVStopped_adds
  | unsupported =>
    refine hserved (by rintro v rfl; rw [hv]; simp) ?_
    simp only [handleVPacket, hv]
    exact putPacketz_adds _

/-- `R` is answered unless it is unserved. -/
theorem reset_answers_iff (hquiet : env.Quiet) (hvalid : s.targets.Sound)
    (hcommand : gdbCommand (pbuf.headD 0) = .reset) :
    Answers env pbuf size s ↔ ¬ Unserved env pbuf s.targets := by
  have hmain : gdbMain env pbuf size = handleReset env := by
    rw [gdbMain, hcommand]
  have hdue : NoReplyDue pbuf s.targets := by
    rw [NoReplyDue, hcommand]
    trivial
  simp only [Unserved, hcommand]
  by_cases hfail : s.targets.cur = none ∧
      ∃ id, s.targets.last = some id ∧ env.fns.attach id ≠ .attached
  · refine iff_of_false (not_answers_of_stopsAt (e := .nullTarget) ?_) fun h => h hfail
    obtain ⟨hcur, id, hlast, hattach⟩ := hfail
    rw [hmain]
    exact handleReset_nullCall hquiet hvalid hcur hlast hattach
  · refine iff_of_true (answers_of_noReplyDue hdue ?_) hfail
    rw [hmain]
    refine (handleReset_adds hquiet hvalid fun hcur id hlast => ?_).returns
    by_contra hattach
    exact hfail ⟨hcur, id, hlast, hattach⟩

/-- `p` is answered unless it is unserved. -/
theorem readReg_answers_iff (hquiet : env.Quiet) (hvalid : s.targets.Sound)
    (hcommand : gdbCommand (pbuf.headD 0) = .readReg) :
    Answers env pbuf size s ↔ ¬ Unserved env pbuf s.targets := by
  have hmain : gdbMain env pbuf size = errorIfNoTarget (handleReadReg env pbuf) := by
    rw [gdbMain, hcommand]
  rw [Unserved, hcommand]
  by_cases hreg : RegMissing env pbuf s.targets
  · refine iff_of_false (not_answers_of_stopsAt (e := .overrun) ?_) fun hno => hno hreg
    obtain ⟨id, hcur, hhas, hnone⟩ := hreg
    rw [hmain]
    simp only [StopsAt, errorIfNoTarget, ends_bind, ends_curTarget, hcur, Option.isNone_some,
      Bool.false_eq_true, if_false]
    exact handleReadReg_overrun hquiet hcur (hvalid.cur id hcur) hhas hnone
  · refine iff_of_true (answers_of_adds ?_) hreg
    rw [hmain]
    exact errorIfNoTarget_adds hvalid fun id hcur hfind =>
      handleReadReg_adds hquiet hcur hfind hreg

/-- `P` is answered unless it is unserved. -/
theorem writeReg_answers_iff (hquiet : env.Quiet) (hvalid : s.targets.Sound)
    (hcommand : gdbCommand (pbuf.headD 0) = .writeReg) :
    Answers env pbuf size s ↔ ¬ Unserved env pbuf s.targets := by
  have hmain : gdbMain env pbuf size = errorIfNoTarget (handleWriteReg env pbuf) := by
    rw [gdbMain, hcommand]
  rw [Unserved, hcommand]
  by_cases hvalue : ValueTooLong env pbuf s.targets
  · refine iff_of_false (not_answers_of_stopsAt (e := .overrun) ?_) fun hno => hno hvalue
    obtain ⟨id, reg, packet, hcur, hhas, hargs, hlong⟩ := hvalue
    rw [hmain]
    simp only [StopsAt, errorIfNoTarget, ends_bind, ends_curTarget, hcur, Option.isNone_some,
      Bool.false_eq_true, if_false]
    exact handleWriteReg_overrun hquiet hcur (hvalid.cur id hcur) hhas hargs hlong
  · refine iff_of_true (answers_of_adds ?_) hvalue
    rw [hmain]
    exact errorIfNoTarget_adds hvalid fun id hcur hfind =>
      handleWriteReg_adds hquiet hcur hfind hvalue

end

/-! ## Packets that are not served -/

/-- No function of the plain surroundings raises an exception. -/
theorem plainEnv_quiet (attach : Bool) : (plainEnv attach).Quiet :=
  ⟨fun _ _ => rfl, fun _ _ => rfl⟩

/-- The one target is attached to. -/
theorem oneTarget_valid_cur : (oneTarget (some 0) none).targets.Sound := by
  refine ⟨⟨?_, ?_⟩, rfl⟩
  · intro id h
    cases h
    rfl
  · intro id h
    cases h

/-- The one target was attached to before. -/
theorem oneTarget_valid_last : (oneTarget none (some 0)).targets.Sound := by
  refine ⟨⟨?_, ?_⟩, rfl⟩
  · intro id h
    cases h
  · intro id h
    cases h
    rfl

/-- Targets whose registers can be read and written, but not the one that is asked for. -/
def noRegisterEnv : GdbEnv :=
  { plainEnv true with
    fns := { (plainEnv true).fns with
      hasRegRead := fun _ => true, hasRegWrite := fun _ => true, regRead := fun _ _ => none } }

/-- A target without the register raises no exception either. -/
theorem noRegisterEnv_quiet : noRegisterEnv.Quiet := ⟨fun _ _ => rfl, fun _ _ => rfl⟩

end Blackmagic
