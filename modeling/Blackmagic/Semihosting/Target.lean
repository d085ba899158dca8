import Blackmagic.Gdb.Main

/-!
# Semihosting: the target, and what goes to the host

A semihosting call reads and writes the memory of the target, sends packets to GDB and waits for its
response. While `TOPT_IN_SEMIHOSTING_SYSCALL` is set the memory functions serve a buffer of the
probe instead. What GDB does before it responds is a parameter.
-/

namespace Blackmagic

open Effect Scanf Bytes

namespace Semihosting

/-- The parts of `target_s` and `target_controller_s` that the calls use, what was printed, and the
packets that were sent. A read at an address finds `byte`, and `fails` is what `target_check_error`
says after it. -/
structure Target where
  byte : UInt32 → UInt8
  fails : UInt32 → Bool
  ramStart : UInt32
  stdoutRedirected : Bool
  inSyscall : Bool
  buffer : List UInt8
  featuresOffset : UInt8
  serial : List UInt8
  packets : List (List UInt8)

/-- How a call stops short: outside of an array, or with no end within the rounds it was given. -/
inductive Stop
  | outOfBounds
  | notYet
deriving DecidableEq

abbrev SemiM := EStateM Stop Target

/-- `semihosting_s`. -/
structure Request where
  r1 : UInt32
  params : Fin 4 → UInt32

instance neZeroRow : NeZero 4 := ⟨by decide⟩

/-! ## The memory functions: `target.c` -/

/-- The bytes of a memory from an address on. -/
def bytesAt (byte : UInt32 → UInt8) (addr : UInt32) (len : Nat) : List UInt8 :=
  (List.range len).map fun i => byte (addr + UInt32.ofNat i)

/-- A memory after data was stored in it. -/
def store (byte : UInt32 → UInt8) (addr : UInt32) (data : List UInt8) : UInt32 → UInt8 := fun a =>
  data.getD (a - addr).toNat (byte a)

/-- `target_mem_read`: the bytes that are copied, and whether there was an error. -/
def targetMemRead (src : UInt32) (len : Nat) : SemiM (List UInt8 × Bool) := do
  let s ← get
  if s.inSyscall then return (s.buffer.take (min len s.buffer.length), false)
  else return (bytesAt s.byte src len, s.fails src)

/-- `memcpy` to the buffer of the probe. -/
def copyToBuffer (data : List UInt8) : SemiM Unit := do
  let s ← get
  if data.length ≤ s.buffer.length then set { s with buffer := overwrite s.buffer 0 data }
  else throw .outOfBounds

/-- `target_mem_write`. -/
def targetMemWrite (dest : UInt32) (src : List UInt8) : SemiM Bool := do
  let s ← get
  if s.inSyscall then do
    copyToBuffer (src.take (min src.length s.buffer.length))
    return false
  else do
    set { s with byte := store s.byte dest src }
    return s.fails dest

/-- `target_mem_read8`. -/
def targetMemRead8 (addr : UInt32) : SemiM UInt8 := do
  let s ← get
  return s.byte addr

/-- `target_check_error` after a read at an address. -/
def targetCheckError (addr : UInt32) : SemiM Bool := do
  let s ← get
  return s.fails addr

/-! ## The channels -/

/-- The target after data was printed. -/
def Target.printed (s : Target) (data : List UInt8) : Target :=
  { s with serial := s.serial ++ data }

/-- `debug_serial_send_stdout`. -/
def debugSerialSendStdout (data : List UInt8) : SemiM Unit := modify fun s => s.printed data

/-- `gdb_putpacket_f`. -/
def gdbPutpacketF (text : List UInt8) : SemiM Unit :=
  modify fun s => { s with packets := s.packets ++ [text] }

/-- `"%08X"`. -/
def hex08 (w : UInt32) : List UInt8 :=
  hexify [(w >>> 24).toUInt8, (w >>> 16).toUInt8, (w >>> 8).toUInt8, w.toUInt8]

example : hex08 0x20001f8 = ascii "020001F8" := by decide

/-- `STDOUT_FILENO`. -/
def stdoutFileno : Int32 := 1

/-- `STDERR_FILENO`. -/
def stderrFileno : Int32 := 2

section
variable (s : Target) (data : List UInt8)

@[simp] theorem printed_byte : (s.printed data).byte = s.byte := rfl

@[simp] theorem printed_inSyscall : (s.printed data).inSyscall = s.inSyscall := rfl

@[simp] theorem printed_serial : (s.printed data).serial = s.serial ++ data := rfl

/-- A text printed after a text. -/
theorem printed_printed (data' : List UInt8) :
    (s.printed data).printed data' = s.printed (data ++ data') := by
  unfold Target.printed
  rw [List.append_assoc]

/-- Nothing printed. -/
theorem printed_nil : s.printed [] = s := by
  unfold Target.printed
  rw [List.append_nil]

end

@[simp] theorem length_bytesAt (byte : UInt32 → UInt8) (addr : UInt32) (len : Nat) :
    (bytesAt byte addr len).length = len := by
  simp [bytesAt]

end Semihosting

end Blackmagic
