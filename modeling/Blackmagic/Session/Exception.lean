import Blackmagic.Session.Attach

/-!
# Exception frames: `exception.h` and `exception.c`

`TRY_CATCH` links a frame on the stack of its function into a chain that begins at
`innermost_exception`, and `raise_exception` jumps to the first frame of the chain whose mask has
the type. Frames are addresses. The functions that have not returned are those whose frames are
`live`, so that a jump to any other frame is a jump into a dead one. The states that the frames go
through are kept in `seen`.
-/

namespace Blackmagic

open Effect

/-! ## Frames -/

/-- `exception_s`. -/
structure ExceptionFrame where
  type : UInt32
  msg : String
  mask : UInt32
  outer : Option Nat
  deriving DecidableEq, Repr

/-- `EXCEPTION_ERROR`. -/
def exceptionError : UInt32 := 1

/-- `EXCEPTION_TIMEOUT`. -/
def exceptionTimeout : UInt32 := 2

/-- `EXCEPTION_ALL`. -/
def exceptionAll : UInt32 := 0xffffffff

/-- `innermost_exception`, what stands at each address, and the frames of the functions that have
not returned, the one that was called last first. -/
structure Frames where
  innermost : Option Nat
  mem : Nat → ExceptionFrame
  live : List Nat

/-- What the commands do towards the host: console text, and the response to a remote packet. -/
inductive ExcOut
  | console (text : String)
  | remoteError (code : UInt64)
  deriving DecidableEq, Repr

/-- The frames, every state they went through, what was sent, and `innermost_exception` before and
after each command that returned. -/
structure ExcState where
  frames : Frames
  seen : List Frames
  out : List ExcOut
  done : List (Option Nat × Option Nat)

/-- How a program does not return: by a jump to a frame, to one of a function that has returned, by
`abort`, and by a loop that goes round more often than is looked at. -/
inductive Unwind
  | jump (frame : Nat)
  | deadFrame (frame : Nat)
  | abort
  | spins
  deriving DecidableEq, Repr

/-- Programs that work with exception frames. -/
abbrev ExcM := EStateM Unwind ExcState

/-- Change the frames. -/
def onFrames (g : Frames → Frames) : ExcM Unit :=
  modify fun s => { s with frames := g s.frames, seen := s.seen ++ [g s.frames] }

/-- Send something. -/
def say (o : ExcOut) : ExcM Unit := modify fun s => { s with out := s.out ++ [o] }

/-- The loop of `raise_exception`: the frame that takes an exception, if there is one. -/
def findHandler (mem : Nat → ExceptionFrame) (type : UInt32) :
    (fuel : Nat) → (frame : Option Nat) → Option (Option Nat)
  | _, none => some none
  | 0, some _ => none
  | fuel + 1, some a =>
    if (mem a).mask &&& type ≠ 0 then some (some a) else findHandler mem type fuel (mem a).outer

/-- `raise_exception`. -/
def raiseException {α : Type} (fuel : Nat) (type : UInt32) (msg : String) : ExcM α := do
  let f := (← get).frames
  match findHandler f.mem type fuel f.innermost with
  | none => throw .spins
  | some none => throw .abort
  | some (some a) =>
    onFrames fun f =>
      { f with
        mem := Function.update f.mem a { f.mem a with type := type, msg := msg },
        innermost := (f.mem a).outer }
    if a ∈ f.live then throw (.jump a) else throw (.deadFrame a)

/-! ## `TRY_CATCH` -/

/-- How the body of a block ends: at its end, or by `break`. -/
inductive BlockEnd
  | ends
  | breaks
  deriving DecidableEq, Repr

/-- The loop of `TRY_CATCH`, with a variable that the body sets. Only the end of the body restores
`innermost_exception`. -/
def protectedLoop {α : Type} (e : Nat) (body : ExcM (BlockEnd × α)) : (fuel : Nat) → α → ExcM α
  | 0, _ => throw .spins
  | fuel + 1, a => do
    if (← get).frames.innermost = some e then
      match ← body with
      | (.breaks, a) => return a
      | (.ends, a) =>
        onFrames fun f => { f with innermost := (f.mem e).outer }
        protectedLoop e body fuel a
    else return a

/-- `TRY_CATCH (e, mask)`, with the variable that the body sets. A jump to the frame ends the
functions called in the body. -/
def tryCatch {α : Type} (fuel e : Nat) (mask : UInt32) (init : α) (body : ExcM (BlockEnd × α)) :
    ExcM α := do
  onFrames fun f =>
    { f with
      mem := Function.update f.mem e { f.mem e with type := 0, mask := mask, outer := f.innermost },
      innermost := some e }
  tryCatchThe Unwind (protectedLoop e body fuel init) fun
    | .jump a =>
      if a = e then do
        onFrames fun f => { f with live := f.live.dropWhile (· ≠ e) }
        return init
      else throw (.jump a)
    | u => throw u

/-- A function with a frame. The frame stands above those of its callers, at any distance. -/
def inFunction {α : Type} (gap : Nat) (body : (e : Nat) → ExcM α) : ExcM α := do
  let e := (← get).frames.live.headD 0 + 1 + gap
  onFrames fun f => { f with live := e :: f.live }
  let a ← body e
  onFrames fun f => { f with live := f.live.tail }
  return a

/-! ## The commands -/

/-- What a function called in a block does: it returns, it raises an exception, or it calls a
function with a block of its own, whose body ends normally, and goes on with the type that was
caught there. -/
inductive Code
  | ret (result : Bool)
  | raise (type : UInt32) (msg : String)
  | protect (gap : Nat) (mask : UInt32) (body : Code) (next : UInt32 → Code)

/-- Run such a function. -/
def Code.eval (fuel : Nat) : Code → ExcM Bool
  | .ret result => return result
  | .raise type msg => raiseException fuel type msg
  | .protect gap mask body next => do
    let type ← inFunction gap fun e => do
      tryCatch fuel e mask () do
        let _ ← body.eval fuel
        return (.ends, ())
      return ((← get).frames.mem e).type
    (next type).eval fuel

/-- What comes out of a function: its result, or the type of an exception that is not caught in
it. -/
def Code.result : Code → Except UInt32 Bool
  | .ret result => .ok result
  | .raise type _ => .error type
  | .protect _ mask body next =>
    match body.result with
    | .ok _ => (next 0).result
    | .error type => if mask &&& type ≠ 0 then (next type).result else .error type

/-- The console text for the exception that a scan ended with. -/
def reportScan (e : Nat) : ExcM Unit := do
  let frame := (← get).frames.mem e
  if frame.type = exceptionTimeout then
    say (.console "Timeout during scan. Is target stuck in WFI?\n")
  else if frame.type = exceptionError then say (.console ("Exception: " ++ frame.msg ++ "\n"))
  else return ()

/-- The end of a scan command. -/
def endScan (result : Bool) (failed : String) : ExcM Bool := do
  if !result then say (.console failed)
  return result

/-- The block of the commands that make one scan. -/
def scanBlock (fuel e : Nat) (scan : Code) : ExcM Bool :=
  tryCatch fuel e exceptionAll false do
    let result ← scan.eval fuel
    return (.ends, result)

/-- A command that makes one scan, with its text for a scan that failed. -/
def scanCommand (failed : String) (fuel gap : Nat) (scan : Code) : ExcM Bool :=
  inFunction gap fun e => do
    let result ← scanBlock fuel e scan
    reportScan e
    endScan result failed

/-- `cmd_jtag_scan`. -/
def cmdJtagScan (fuel gap : Nat) (jtagScan : Code) : ExcM Bool :=
  scanCommand "JTAG device scan failed!\n" fuel gap jtagScan

/-- `cmd_swd_scan`. -/
def cmdSwdScan (fuel gap : Nat) (adiv5SwdScan : Code) : ExcM Bool :=
  scanCommand "SWD scan failed!\n" fuel gap adiv5SwdScan

/-- `cmd_emulate`, which does not report a timeout. -/
def cmdEmulate (fuel gap : Nat) (emuScan : Code) : ExcM Bool :=
  inFunction gap fun e => do
    let result ← scanBlock fuel e emuScan
    let frame := (← get).frames.mem e
    if frame.type = exceptionError then say (.console ("Exception: " ++ frame.msg ++ "\n"))
    endScan result "Emulated scan failed!\n"

/-- The body of the block of `cmd_auto_scan`. A scan that finds something leaves it by `break`. -/
def autoScanBody (fuel : Nat) (jtagScan adiv5SwdScan : Code) : ExcM (BlockEnd × Bool) := do
  if ← jtagScan.eval fuel then return (.breaks, true)
  else
    say (.console "JTAG scan found no devices, trying SWD!\n")
    if ← adiv5SwdScan.eval fuel then return (.breaks, true)
    else
      say (.console "SWD scan found no devices.\n")
      return (.ends, false)

/-- `cmd_auto_scan`. -/
def cmdAutoScan (fuel gap : Nat) (jtagScan adiv5SwdScan : Code) : ExcM Bool :=
  inFunction gap fun e => do
    let result ← tryCatch fuel e exceptionAll false (autoScanBody fuel jtagScan adiv5SwdScan)
    reportScan e
    endScan result "auto scan failed!\n"

/-- `REMOTE_ADIv5_PACKET`. -/
def remoteAdiv5Packet : UInt8 := 0x41

/-- `remote_packet_process`, with what it does for the packet. Only ADIv5 packets have a block. -/
def remotePacketProcess (fuel gap : Nat) (kind : UInt8) (process : Code) : ExcM Unit := do
  if kind = remoteAdiv5Packet then
    inFunction gap fun e => do
      tryCatch fuel e exceptionAll () do
        let _ ← process.eval fuel
        return (.ends, ())
      let type := ((← get).frames.mem e).type
      if type ≠ 0 then say (.remoteError ((4 : UInt64) ||| type.toUInt64 <<< 8))
  else
    let _ ← process.eval fuel
    return ()

/-! ## Runs -/

/-- A command of a run: a monitor command, a remote packet, or anything else that is done with a
target. -/
inductive ExcCmd
  | jtagScan (gap : Nat) (scan : Code)
  | swdScan (gap : Nat) (scan : Code)
  | emulate (gap : Nat) (scan : Code)
  | autoScan (gap : Nat) (jtag swd : Code)
  | remote (gap : Nat) (kind : UInt8) (process : Code)
  | other (code : Code)

/-- Run a command. -/
def ExcCmd.exec (fuel : Nat) : ExcCmd → ExcM Unit
  | .jtagScan gap scan => discard <| cmdJtagScan fuel gap scan
  | .swdScan gap scan => discard <| cmdSwdScan fuel gap scan
  | .emulate gap scan => discard <| cmdEmulate fuel gap scan
  | .autoScan gap jtag swd => discard <| cmdAutoScan fuel gap jtag swd
  | .remote gap kind process => remotePacketProcess fuel gap kind process
  | .other code => discard <| code.eval fuel

/-- Run a command, and note `innermost_exception` before and after it. -/
def excCommand (fuel : Nat) (c : ExcCmd) : ExcM Unit := do
  let before := (← get).frames.innermost
  c.exec fuel
  modify fun s => { s with done := s.done ++ [(before, s.frames.innermost)] }

/-- What is run: the loop of `main` goes round once, with the commands of `bmp_poll_loop`, or the
REPL of the UI takes a command, outside of any block. -/
inductive ExcItem
  | poll (cmds : List ExcCmd)
  | repl (cmd : ExcCmd)

/-- Run an item; `m` is the frame of `main`. -/
def ExcItem.exec (fuel m : Nat) : ExcItem → ExcM Unit
  | .poll cmds => do
    tryCatch fuel m exceptionAll () do
      cmds.forM (excCommand fuel)
      return (.ends, ())
    let frame := (← get).frames.mem m
    if frame.type ≠ 0 then say (.console ("Uncaught exception: " ++ frame.msg ++ "\n"))
  | .repl cmd => excCommand fuel cmd

/-- The state at boot: no block is entered, and `main` does not return. -/
def ExcState.boot (m : Nat) (mem : Nat → ExceptionFrame) : ExcState :=
  { frames := { innermost := none, mem := mem, live := [m] }, seen := [], out := [], done := [] }

/-- A run. -/
def excRun (fuel m : Nat) (items : List ExcItem) : ExcM Unit := items.forM (ExcItem.exec fuel m)

/-! ## The commands that run -/

/-- What comes out of the body of a command: a result, or the type of an exception. -/
def ExcCmd.result : ExcCmd → Except UInt32 Bool
  | .jtagScan _ scan => scan.result
  | .swdScan _ scan => scan.result
  | .emulate _ scan => scan.result
  | .autoScan _ jtag swd =>
    match jtag.result with
    | .ok false => swd.result
    | r => r
  | .remote _ _ process => process.result
  | .other code => code.result

/-- The mask of a command's block, 0 where it has none. -/
def ExcCmd.mask : ExcCmd → UInt32
  | .remote _ kind _ => if kind = remoteAdiv5Packet then exceptionAll else 0
  | .other _ => 0
  | _ => exceptionAll

/-- The exception that a command does not catch. -/
def ExcCmd.uncaught (c : ExcCmd) : Option UInt32 :=
  match c.result with
  | .ok _ => none
  | .error type => if c.mask &&& type = 0 then some type else none

/-- The commands of a list that run, up to the first one that does not return. -/
def ranCommands : List ExcCmd → List ExcCmd
  | [] => []
  | c :: cmds => c :: if c.uncaught = none then ranCommands cmds else []

/-- The commands of an item that run. -/
def ExcItem.ran : ExcItem → List ExcCmd
  | .poll cmds => ranCommands cmds
  | .repl cmd => [cmd]

/-- The exception that an item does not catch. The block of `main` takes whatever its mask has. -/
def ExcItem.uncaught : ExcItem → Option UInt32
  | .poll cmds => (cmds.findSome? ExcCmd.uncaught).filter (exceptionAll &&& · = 0)
  | .repl cmd => cmd.uncaught

/-- The commands that run in a run. Nothing does after an exception that no block takes, since
`raise_exception` aborts. -/
def ranItems : List ExcItem → List ExcCmd
  | [] => []
  | item :: items => item.ran ++ if item.uncaught = none then ranItems items else []

/-! ## The discipline -/

/-- A frame that can be reached from `innermost_exception`. -/
inductive Frames.Reaches (f : Frames) : Nat → Prop
  | innermost {a : Nat} : f.innermost = some a → f.Reaches a
  | outer {a b : Nat} : f.Reaches a → (f.mem a).outer = some b → f.Reaches b

/-- Every frame that can be reached belongs to a function that has not returned. -/
def Frames.Safe (f : Frames) : Prop := ∀ a, f.Reaches a → a ∈ f.live

/-- Every command that returned left `innermost_exception` as it was, and the frames were safe all
along. -/
structure Kept (s : ExcState) : Prop where
  done : ∀ p ∈ s.done, p.2 = p.1
  seen : ∀ f ∈ s.seen, f.Safe

/-- No block is left by `break`: a command other than `cmd_auto_scan`, or one whose scans find
nothing or raise an exception. -/
def ExcCmd.NoBreak : ExcCmd → Prop
  | .autoScan _ jtag swd =>
      jtag.result ≠ .ok true ∧ (jtag.result = .ok false → swd.result ≠ .ok true)
  | _ => True

end Blackmagic
