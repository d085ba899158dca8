import Blackmagic.Gdb.Packet
import Blackmagic.Session.Attach
import Blackmagic.Lib.Scanf

/-!
# The GDB server: `gdb_main.c`

`gdb_main` handles the packet in `pbuf`, of `size` characters, after which the buffer goes on with
what earlier packets left there. What the functions of the target answer, what monitor commands do,
and what uninitialised variables hold are parameters.
-/

namespace Blackmagic

open Effect Scanf

/-! ## The surroundings of the server -/

/-- How `bmd_crc32` ends: with the CRC, with a read that fails, or not at all, for it divides by the
time that it took and has ranges that it does not come to the end of. -/
inductive CrcEnd
  | crc (value : UInt32)
  | failed
  | lost
  deriving DecidableEq, Repr

/-- What the functions of a target answer. A register that a target does not have is read as -1,
which is no list here. -/
structure TargetFns extends Driver where
  regsSize : Nat → Nat
  regsRead : Nat → List UInt8
  memRead : (addr len : UInt32) → Nat → Option (List UInt8)
  memWrite : (addr : UInt32) → (data : List UInt8) → Nat → Bool
  hasRegRead : Nat → Bool
  hasRegWrite : Nat → Bool
  regRead : (reg : UInt32) → Nat → Option (List UInt8)
  regWrite : (reg : UInt32) → (value : List UInt8) → Nat → Int
  flashErase : (addr len : UInt32) → Nat → Bool
  flashWrite : (addr : UInt32) → (data : List UInt8) → Nat → Bool
  flashComplete : Nat → Bool
  breakwatchSet : (type addr len : UInt32) → Nat → Int
  breakwatchClear : (type addr len : UInt32) → Nat → Int
  memMap : Nat → List UInt8
  regsDescription : Nat → Option (List UInt8)
  crc32 : (addr len : UInt32) → Nat → CrcEnd
  inhibitNrst : Nat → Bool

/-- What the uninitialised variables of the handlers hold. -/
structure Locals where
  addr : UInt32
  len : UInt32
  reg : UInt32
  type : UInt32
  position : Nat
  deriving DecidableEq, Repr

/-- What a packet meets: the target functions, monitor commands, uninitialised variables, and
whether `vasprintf` gets memory. -/
structure GdbEnv where
  fns : TargetFns
  monitor : Option Nat → List UInt8 → Monitor
  locals : Locals
  vasprintf : Bool

/-- Targets whose functions answer with nothing, and that can or cannot be attached. -/
def plainEnv (attach : Bool) : GdbEnv where
  fns :=
    { raises := fun _ _ => none, attach := fun _ => if attach then .attached else .failed,
      regsSize := fun _ => 0, regsRead := fun _ => [], memRead := fun _ _ _ => none,
      memWrite := fun _ _ _ => false, hasRegRead := fun _ => false, hasRegWrite := fun _ => false,
      regRead := fun _ _ => some [],
      regWrite := fun _ _ _ => 0, flashErase := fun _ _ _ => false, flashWrite :=
        fun _ _ _ => false,
      flashComplete := fun _ => true, breakwatchSet := fun _ _ _ _ => 0,
      breakwatchClear := fun _ _ _ _ => 0, memMap := fun _ => [], regsDescription := fun _ => none,
      crc32 := fun _ _ _ => .failed, inhibitNrst := fun _ => false }
  monitor := fun _ _ => { effect := .other, console := [], raised := none, result := 0 }
  locals := { addr := 0, len := 0, reg := 0, type := 0, position := 0 }
  vasprintf := true

/-- A session with one target, and pointers to it or not. -/
def oneTarget (cur last : Option Nat) : GdbSession :=
  { GdbSession.boot with
    targets := { Targets.boot with
      list := [⟨0, 1, .swd, cur.isSome, some .gdb⟩], nextId := 1, cur := cur, last := last } }

/-- Call a target function. -/
def call {α : Type} (env : GdbEnv) (op : TargetOp) (target : Option Nat) (f : Nat → α) : GdbM α :=
  callTarget env.fns.toDriver op target f

/-! ## Replies -/

/-- `gdb_putpacket`, noted as a reply; `gdbPutpacket` is what it sends. -/
def putPacket (packet : List UInt8) : GdbM Unit := emit (.reply packet)

/-- `gdb_putpacketz`. -/
def putPacketz (text : String) : GdbM Unit := putPacket (ascii text)

/-- `gdb_putpacket_f`, with the formatted text. -/
def putPacketF (env : GdbEnv) (text : String) : GdbM Unit :=
  if env.vasprintf then putPacketz text else return ()

/-- `gdb_set_noackmode`. -/
def setNoackmode (enable : Bool) : GdbM Unit := do
  if !enable && (← get).noackmode then emit (.char packetAck)
  modify fun s => { s with noackmode := enable }

/-- `ERROR_IF_NO_TARGET`. -/
def errorIfNoTarget (handler : GdbM Unit) : GdbM Unit := do
  if (← curTarget).isNone then putPacketz "EFF" else handler

/-- `hexify`. -/
def hexify (data : List UInt8) : List UInt8 := data.flatMap hexByte

/-- `unhexify`. -/
def unhexify (hex : List UInt8) (size : Nat) : List UInt8 :=
  (List.range size).map fun i =>
    unhexDigit (hex.getD (2 * i) 0) <<< 4 ||| unhexDigit (hex.getD (2 * i + 1) 0)

/-- `is_hex`. -/
def isHex (c : UInt8) : Bool :=
  (0x30 ≤ c && c ≤ 0x39) || (0x41 ≤ c && c ≤ 0x46) || (0x61 ≤ c && c ≤ 0x66)

/-- `"%x"`. -/
def formatHex (n : Nat) : String := String.ofList (Nat.toDigits 16 n)

/-! ## Query packets -/

/-- `handle_q_string_reply`. -/
def handleQStringReply (text param : List UInt8) : GdbM Unit :=
  match (sscanf (cstr param) [.int 16 8, .lit 0x2c, .int 16 8]).values with
  | [addr, len] =>
    if text.length < addr.toNat then putPacketz "E01"
    else if addr.toNat = text.length then putPacketz "l"
    else putPacket (ascii "m" ++ (text.drop addr.toNat).take len.toNat)
  | _ => putPacketz "E01"

/-- `exec_q_rcmd`. -/
def execQRcmd (env : GdbEnv) (packet : List UInt8) (length : Nat) : GdbM Unit := do
  let c ← commandProcess env.fns.toDriver
    (env.monitor (← curTarget) (cstr (unhexify packet (length / 2))))
  if c < 0 then putPacketz ""
  else if c = 0 then putPacketz "OK"
  else putPacket (hexify (ascii "Failed\n"))

/-- `exec_q_supported`. -/
def execQSupported (env : GdbEnv) : GdbM Unit := do
  setNoackmode false
  putPacketF env "PacketSize=400;qXfer:memory-map:read+;qXfer:features:read+;vContSupported+"

/-- The target that `exec_q_memory_map` and `exec_q_feature_read` ask: `cur_target`, else
`last_target`. -/
def queryTarget : GdbM (Option Nat) := return (← get).targets.cur <|> (← get).targets.last

/-- `exec_q_memory_map`. -/
def execQMemoryMap (env : GdbEnv) (packet : List UInt8) : GdbM Unit := do
  match ← queryTarget with
  | none => putPacketz "E01"
  | some id =>
    let map ← call env .memMap (some id) env.fns.memMap
    handleQStringReply (cstr map) packet

/-- `exec_q_feature_read`. -/
def execQFeatureRead (env : GdbEnv) (packet : List UInt8) : GdbM Unit := do
  match ← queryTarget with
  | none => putPacketz "E01"
  | some id =>
    let description ← call env .regsDescription (some id) env.fns.regsDescription
    handleQStringReply (cstr (description.getD [])) packet

/-- The arguments of `qCRC`. -/
def crcArgs (packet : List UInt8) : List UInt32 :=
  (sscanf (cstr packet) [.int 16 0, .lit 0x2c, .int 16 0]).values

/-- `exec_q_crc`, which has no answer to arguments that it cannot read. -/
def execQCrc (env : GdbEnv) (packet : List UInt8) : GdbM Unit := do
  match crcArgs packet with
  | [addr, len] =>
    if (← curTarget).isNone then putPacketz "E01"
    else
      match ← call env .crc32 (← curTarget) (env.fns.crc32 addr len) with
      | .failed => putPacketz "E03"
      | .crc value => putPacketF env ("C" ++ formatHex value.toNat)
      | .lost => throw .crcLost
  | _ => return ()

/-- `exec_q_thread_info`, where `which` is `packet[-11]`. -/
def execQThreadInfo (which : UInt8) : GdbM Unit := do
  if which = 0x66 ∧ (← curTarget).isSome then putPacketz "m1" else putPacketz "l"

/-- `exec_q_noackmode`. -/
def execQNoackmode : GdbM Unit := do
  setNoackmode true
  putPacketz "OK"

/-- `exec_q_attached`. -/
def execQAttached (env : GdbEnv) (packet : List UInt8) (length : Nat) : GdbM Unit := do
  match ← curTarget with
  | none => putPacketz "E01"
  | some id =>
    if length ≠ 0 ∧ packet.headD 0 = 0x3a then putPacketz "E01"
    else if ← call env .options (some id) env.fns.inhibitNrst then
      putPacketz "1"
    else putPacketz "0"

/-- The handlers of `q_commands`. -/
inductive QCommand
  | rcmd
  | supported
  | memoryMap
  | featureRead
  | crc
  | currentThread
  | threadInfo
  | noackmode
  | attached
  deriving DecidableEq, Repr

/-- `q_commands`. -/
def qCommands : List (List UInt8 × QCommand) :=
  [(ascii "qRcmd,", .rcmd), (ascii "qSupported", .supported),
    (ascii "qXfer:memory-map:read::", .memoryMap),
    (ascii "qXfer:features:read:target.xml:", .featureRead), (ascii "qCRC:", .crc),
    (ascii "qC", .currentThread), (ascii "qfThreadInfo", .threadInfo),
    (ascii "qsThreadInfo", .threadInfo), (ascii "QStartNoAckMode", .noackmode),
    (ascii "qAttached", .attached)]

/-- The command of `exec_command`: the first one whose prefix a packet has. -/
def findCommand (pbuf : List UInt8) : Option (List UInt8 × QCommand) :=
  qCommands.find? fun command => command.1.isPrefixOf (cstr pbuf)

/-- `exec->func`. -/
def execQ (env : GdbEnv) (pbuf packet : List UInt8) (length : Nat) : QCommand → GdbM Unit
  | .rcmd => execQRcmd env packet length
  | .supported => execQSupported env
  | .memoryMap => execQMemoryMap env packet
  | .featureRead => execQFeatureRead env packet
  | .crc => execQCrc env packet
  | .currentThread => putPacketz "QC1"
  | .threadInfo => execQThreadInfo (pbuf.getD 1 0)
  | .noackmode => execQNoackmode
  | .attached => execQAttached env packet length

/-- `handle_q_packet`. -/
def handleQPacket (env : GdbEnv) (pbuf : List UInt8) (length : Nat) : GdbM Unit :=
  match findCommand pbuf with
  | some (pre, command) => execQ env pbuf (pbuf.drop pre.length) (length - pre.length) command
  | none => putPacketz ""

/-! ## Verbose packets -/

/-- `handle_kill_target`. -/
def handleKillTarget (env : GdbEnv) : GdbM Unit := do
  match ← curTarget with
  | none => return ()
  | some id =>
    call env .reset (some id) fun _ => ()
    targetDetach env.fns.toDriver (some id)
    modifyTargets fun s => { s with last := some id, cur := none }

/-- `MAX_CMDLINE`. -/
def maxCmdline : Nat := 81

/-- The loop of `vRun` over its arguments, with the command line so far. -/
def runCmdline : (tok cmdline : List UInt8) → List UInt8
  | [], cmdline => cmdline
  | a :: tok, cmdline =>
    if maxCmdline ≤ cmdline.length + 1 then cmdline
    else if a = 0x3b then runCmdline tok (cmdline ++ [0x20])
    else
      match tok with
      | [] => cmdline
      | b :: tok =>
        if isHex a && isHex b then
          let c := unhexDigit a <<< 4 ||| unhexDigit b
          if c = 0x20 ∨ c = 0x5c then
            if maxCmdline ≤ cmdline.length + 2 then cmdline
            else runCmdline tok (cmdline ++ [0x5c, c])
          else runCmdline tok (cmdline ++ [c])
        else cmdline

/-- `tok` at the start of `vRun`. -/
def runArgs (pbuf : List UInt8) : List UInt8 :=
  match cstr (pbuf.drop 4) with
  | 0x3b :: tok => tok
  | tok => tok

/-- The case `vRun`. -/
def handleVRun (env : GdbEnv) (pbuf : List UInt8) : GdbM Unit := do
  let cmdline := runCmdline (runArgs pbuf) []
  let s := (← get).targets
  if s.cur.isSome then
    call env (.setCmdline cmdline) s.cur fun _ => ()
    call env .reset s.cur fun _ => ()
    putPacketz "T05"
  else if s.last.isSome then
    let target ← targetAttach env.fns.toDriver s.last .gdb
    modifyTargets fun s => { s with cur := target }
    if target.isSome then
      call env (.setCmdline cmdline) target fun _ => ()
      call env .reset target fun _ => ()
      putPacketz "T05"
    else putPacketz "E01"
  else putPacketz "E01"

/-- Whether an action of `vCont` resumes the target: `s`, `c` and `C`. -/
def isResume (action : UInt8) : Bool := action == 0x73 || action == 0x63 || action == 0x43

/-- The case `vCont`. An action that it does not know has no answer. -/
def handleVCont (env : GdbEnv) (pbuf : List UInt8) : GdbM Unit := do
  if pbuf.getD 5 0 = 0x3f then putPacketz "vCont;c;C;s;t"
  else if (← curTarget).isNone then putPacketz "E01"
  else if isResume (pbuf.getD 6 0) then
    let step := pbuf.getD 6 0 == 0x73
    call env (.haltResume step) (← curTarget) fun _ => ()
    modify fun s => { s with running := true }
  else return ()

/-- The case `vFlashErase`. -/
def handleVFlashErase (env : GdbEnv) (addr len : UInt32) : GdbM Unit := do
  if (← curTarget).isNone then putPacketz "EFF"
  else if ← call env .flashErase (← curTarget) (env.fns.flashErase addr len) then putPacketz "OK"
  else
    let _ ← call env .flashComplete (← curTarget) env.fns.flashComplete
    putPacketz "EFF"

/-- The condition of `vFlashWrite`: `target_flash_write` when there is a target. -/
def tryFlashWrite (env : GdbEnv) (addr : UInt32) (data : List UInt8) : GdbM Bool := do
  if (← curTarget).isNone then return false
  else call env .flashWrite (← curTarget) (env.fns.flashWrite addr data)

/-- The case `vFlashWrite`: a write that fails ends the session, with or without a target. -/
def handleVFlashWrite (env : GdbEnv) (addr : UInt32) (data : List UInt8) : GdbM Unit := do
  if ← tryFlashWrite env addr data then putPacketz "OK"
  else
    let _ ← call env .flashComplete (← curTarget) env.fns.flashComplete
    putPacketz "EFF"

/-- The case `vFlashDone`. -/
def handleVFlashDone (env : GdbEnv) : GdbM Unit := do
  if ← call env .flashComplete (← curTarget) env.fns.flashComplete then putPacketz "OK"
  else putPacketz "EFF"

/-- The case `vAttach`. -/
def handleVAttach (env : GdbEnv) (n : UInt32) : GdbM Unit := do
  let target ← targetAttachN env.fns.toDriver n.toNat .gdb
  modifyTargets fun s => { s with cur := target }
  if target.isSome then putPacketz "T05thread:1;" else putPacketz "E01"

/-- The case `vStopped`. -/
def handleVStopped : GdbM Unit := do
  if (← get).targets.needsDetachNotify then
    putPacketz "W00"
    modifyTargets fun s => { s with needsDetachNotify := false }
  else putPacketz "OK"

/-- The packets that `handle_v_packet` tells apart. -/
inductive VPacket
  | attach (n : UInt32)
  | kill
  | run
  | cont
  | flashErase (addr len : UInt32)
  | flashWrite (addr : UInt32) (position : Option Nat)
  | flashDone
  | stopped
  | unsupported
  deriving DecidableEq, Repr

/-- The conditions of `handle_v_packet`, in order. -/
def vPacket (pbuf : List UInt8) : VPacket :=
  let packet := cstr pbuf
  let attach := sscanf packet (lits "vAttach;" ++ [.int 16 8])
  let erase := sscanf packet (lits "vFlashErase:" ++ [.int 16 8, .lit 0x2c, .int 16 8])
  let write := sscanf packet (lits "vFlashWrite:" ++ [.int 16 8, .lit 0x3a, .position])
  match attach.values with
  | [n] => .attach n
  | _ =>
    if (ascii "vKill;").isPrefixOf packet then .kill
    else if (ascii "vRun").isPrefixOf packet then .run
    else if (ascii "vCont").isPrefixOf packet then .cont
    else
      match erase.values with
      | [addr, len] => .flashErase addr len
      | _ =>
        match write.values with
        | [addr] => .flashWrite addr write.position
        | _ =>
          if packet = ascii "vFlashDone" then .flashDone
          else if packet = ascii "vStopped" then .stopped
          else .unsupported

/-- `handle_v_packet`. -/
def handleVPacket (env : GdbEnv) (pbuf : List UInt8) (plen : Nat) : GdbM Unit :=
  match vPacket pbuf with
  | .attach n => handleVAttach env n
  | .kill => do
    handleKillTarget env
    putPacketz "OK"
  | .run => handleVRun env pbuf
  | .cont => handleVCont env pbuf
  | .flashErase addr len => handleVFlashErase env addr len
  | .flashWrite addr position =>
    let bin := position.getD env.locals.position
    let count := (UInt32.ofNat plen - UInt32.ofNat bin).toNat
    handleVFlashWrite env addr ((pbuf.drop bin).take count)
  | .flashDone => handleVFlashDone env
  | .stopped => handleVStopped
  | .unsupported => putPacketz ""

/-! ## Break- and watchpoints -/

/-- `handle_z_packet`. -/
def handleZPacket (env : GdbEnv) (pbuf : List UInt8) : GdbM Unit := do
  let args := (sscanf (cstr pbuf)
    [.skipSet (ascii "zZ"), .int 10 0, .lit 0x2c, .int 16 8, .lit 0x2c, .int 10 0]).values
  let type := args.getD 0 env.locals.type
  let addr := args.getD 1 env.locals.addr
  let len := args.getD 2 env.locals.len
  let ret ←
    if pbuf.headD 0 = 0x5a then
      call env .breakwatchSet (← curTarget) (env.fns.breakwatchSet type addr len)
    else call env .breakwatchClear (← curTarget) (env.fns.breakwatchClear type addr len)
  if ret < 0 then putPacketz "E01"
  else if 0 < ret then putPacketz ""
  else putPacketz "OK"

/-! ## Registers and memory -/

/-- The case `g`. -/
def handleReadRegs (env : GdbEnv) : GdbM Unit := do
  let regSize ← call env .regsSize (← curTarget) env.fns.regsSize
  if regSize ≠ 0 then
    let regs ← call env .regsRead (← curTarget) env.fns.regsRead
    putPacket (hexify (regs.take regSize))
  else putPacketz "00"

/-- The case `G`. -/
def handleWriteRegs (env : GdbEnv) (pbuf : List UInt8) : GdbM Unit := do
  let regSize ← call env .regsSize (← curTarget) env.fns.regsSize
  if regSize ≠ 0 then
    call env (.regsWrite (unhexify (pbuf.drop 1) regSize)) (← curTarget) fun _ => ()
  putPacketz "OK"

/-- `GDB_PACKET_BUFFER_SIZE`. -/
def gdbPacketBufferSize : Nat := 1024

/-- The case `m`. -/
def handleReadMem (env : GdbEnv) (pbuf : List UInt8) : GdbM Unit := do
  let args := (sscanf (cstr pbuf) (lits "m" ++ [.int 16 0, .lit 0x2c, .int 16 0])).values
  let addr := args.getD 0 env.locals.addr
  let len := args.getD 1 env.locals.len
  if gdbPacketBufferSize / 2 < len.toNat then putPacketz "E02"
  else
    match ← call env .memRead (← curTarget) (env.fns.memRead addr len) with
    | none => putPacketz "E01"
    | some mem => putPacket (hexify (mem.take len.toNat))

/-- The answer to a write of memory. -/
def memWriteReply (env : GdbEnv) (addr : UInt32) (data : List UInt8) : GdbM Unit := do
  if ← call env .memWrite (← curTarget) (env.fns.memWrite addr data) then putPacketz "OK"
  else putPacketz "E01"

/-- The case `M`. -/
def handleWriteMem (env : GdbEnv) (pbuf : List UInt8) (size : Nat) : GdbM Unit :=
  let r := sscanf (cstr pbuf) (lits "M" ++ [.int 16 0, .lit 0x2c, .int 16 0, .lit 0x3a, .position])
  let addr := r.values.getD 0 0
  let len := r.values.getD 1 0
  let hex := r.position.getD env.locals.position
  if (UInt32.ofNat size - UInt32.ofNat hex) / 2 < len then putPacketz "E02"
  else memWriteReply env addr (unhexify (pbuf.drop hex) len.toNat)

/-- The case `X`. -/
def handleWriteBinary (env : GdbEnv) (pbuf : List UInt8) (size : Nat) : GdbM Unit :=
  let r := sscanf (cstr pbuf) (lits "X" ++ [.int 16 0, .lit 0x2c, .int 16 0, .lit 0x3a, .position])
  let addr := r.values.getD 0 env.locals.addr
  let len := r.values.getD 1 env.locals.len
  let bin := r.position.getD env.locals.position
  if UInt32.ofNat size - UInt32.ofNat bin < len then putPacketz "E02"
  else memWriteReply env addr ((pbuf.drop bin).take len.toNat)

/-- The register of a `p` packet. -/
def readRegNumber (env : GdbEnv) (pbuf : List UInt8) : UInt32 :=
  (sscanf (cstr pbuf) (lits "p" ++ [.int 16 0])).values.getD 0 env.locals.reg

/-- The case `p`: -1 is the largest `size_t`, and `hexify` leaves the buffer. -/
def handleReadReg (env : GdbEnv) (pbuf : List UInt8) : GdbM Unit := do
  if ← call env .options (← curTarget) env.fns.hasRegRead then
    match ← call env .regRead (← curTarget) (env.fns.regRead (readRegNumber env pbuf)) with
    | none => throw .overrun
    | some val => if val ≠ [] then putPacket (hexify val) else putPacketz "EFF"
  else putPacketz "00"

/-- The register and the digits of the value of a `P` packet. -/
def writeRegArgs (pbuf : List UInt8) : Option (UInt32 × List UInt8) :=
  let text := cstr (pbuf.drop 1)
  let (reg, used) := strtoul 16 text
  match text.drop used with
  | 0x3d :: packet => some (reg, packet)
  | _ => none

/-- The case `P`: `value` has four bytes, and `unhexify` stores as many as there are digits for. -/
def handleWriteReg (env : GdbEnv) (pbuf : List UInt8) : GdbM Unit := do
  if ← call env .options (← curTarget) env.fns.hasRegWrite then
    match writeRegArgs pbuf with
    | some (reg, packet) =>
      if 4 < packet.length / 2 then throw .overrun
      else
        let value := (unhexify packet (packet.length / 2) ++ List.replicate 4 0).take 4
        let written ← call env .regWrite (← curTarget) (env.fns.regWrite reg value)
        if 0 < written then putPacketz "OK" else putPacketz "EFF"
    | none => putPacketz "EFF"
  else putPacketz "OK"

/-- The case `H`. -/
def handleSetThread (pbuf : List UInt8) : GdbM Unit :=
  let args := (sscanf (cstr pbuf) (lits "H" ++ [.char, .int 16 0])).values
  if args.getD 1 0 ≤ 1 then putPacketz "OK" else putPacketz "E01"

/-! ## Run control -/

/-- The cases `s`, `c`, `C`, which go on with the case `?`. -/
def handleResume (env : GdbEnv) (step : Bool) : GdbM Unit := do
  if (← curTarget).isNone then putPacketz "X1D"
  else
    call env (.haltResume step) (← curTarget) fun _ => ()
    modify fun s => { s with running := true }

/-- The case `?`. -/
def handleHaltReason : GdbM Unit := do
  if (← curTarget).isNone then putPacketz "W00"
  else modify fun s => { s with running := true }

/-- The cases `D` and `\x04`. -/
def handleDetach (env : GdbEnv) (reply : Bool) : GdbM Unit := do
  match ← curTarget with
  | none => pure ()
  | some id =>
    targetDetach env.fns.toDriver (some id)
    modifyTargets fun s => { s with last := some id, cur := none }
  if reply then putPacketz "OK"
  setNoackmode false

/-- The cases `r` and `R`: a target that cannot be attached again is reset all the same. -/
def handleReset (env : GdbEnv) : GdbM Unit := do
  let s := (← get).targets
  if s.cur.isSome then call env .reset s.cur fun _ => ()
  else if s.last.isSome then
    let target ← targetAttach env.fns.toDriver s.last .gdb
    modifyTargets fun s => { s with cur := target }
    call env .reset target fun _ => ()
  else return ()

/-! ## The packet switch -/

/-- The cases of `gdb_main_loop`. -/
inductive GdbCommand
  | readRegs
  | readMem
  | writeRegs
  | writeMem
  | setThread
  | resume (step : Bool)
  | haltReason
  | readReg
  | writeReg
  | syscallReply
  | extended
  | closed
  | detach
  | kill
  | reset
  | writeBinary
  | query
  | verbose
  | breakwatch
  | unsupported
  deriving DecidableEq, Repr

/-- The case of a first character. -/
def gdbCommand (c : UInt8) : GdbCommand :=
  if c = 0x67 then .readRegs
  else if c = 0x6d then .readMem
  else if c = 0x47 then .writeRegs
  else if c = 0x4d then .writeMem
  else if c = 0x48 then .setThread
  else if c = 0x73 then .resume true
  else if c = 0x63 ∨ c = 0x43 then .resume false
  else if c = 0x3f then .haltReason
  else if c = 0x70 then .readReg
  else if c = 0x50 then .writeReg
  else if c = 0x46 then .syscallReply
  else if c = 0x21 then .extended
  else if c = eot then .closed
  else if c = 0x44 then .detach
  else if c = 0x6b then .kill
  else if c = 0x72 ∨ c = 0x52 then .reset
  else if c = 0x58 then .writeBinary
  else if c = 0x51 ∨ c = 0x71 then .query
  else if c = 0x76 then .verbose
  else if c = 0x5a ∨ c = 0x7a then .breakwatch
  else .unsupported

/-- `gdb_main`, that is `gdb_main_loop` outside of a system call. -/
def gdbMain (env : GdbEnv) (pbuf : List UInt8) (size : Nat) : GdbM Unit :=
  match gdbCommand (pbuf.headD 0) with
  | .readRegs => errorIfNoTarget (handleReadRegs env)
  | .readMem => errorIfNoTarget (handleReadMem env pbuf)
  | .writeRegs => errorIfNoTarget (handleWriteRegs env pbuf)
  | .writeMem => errorIfNoTarget (handleWriteMem env pbuf size)
  | .setThread => handleSetThread pbuf
  | .resume step => handleResume env step
  | .haltReason => handleHaltReason
  | .readReg => errorIfNoTarget (handleReadReg env pbuf)
  | .writeReg => errorIfNoTarget (handleWriteReg env pbuf)
  | .syscallReply => putPacketz ""
  | .extended => putPacketz "OK"
  | .closed => handleDetach env false
  | .detach => handleDetach env true
  | .kill => handleKillTarget env
  | .reset => handleReset env
  | .writeBinary => errorIfNoTarget (handleWriteBinary env pbuf size)
  | .query => handleQPacket env pbuf size
  | .verbose => handleVPacket env pbuf size
  | .breakwatch => errorIfNoTarget (handleZPacket env pbuf)
  | .unsupported => putPacketz ""

end Blackmagic
