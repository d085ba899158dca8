import Blackmagic.Lib.Bytes
import Blackmagic.Lib.Effect
import Blackmagic.Emu.Target

/-!
# The debug port of the emulated target: `emu_shim.c`, and the memory access of `adiv5.c`

The transport of the emulated target as `emu_shim.c` has it: AP reads are posted, a value is
returned by the access after the one that asked for it, and TAR is incremented in its low ten bits
only. Over it the functions of `adiv5.c` that read and write memory.
-/

namespace Blackmagic

open Bytes

/-! ## The transport -/

/-- The transport state of `emu_shim.c`, `dp->fault`, and the target behind it. -/
structure EmuShim where
  posted : UInt32
  tar : UInt32
  csw : UInt32
  ctrlstat : UInt32
  select : UInt32
  fault : UInt8
  target : EmuTarget

/-- Code that works on the transport. It fails where an access leaves `g_sram`. -/
abbrev ShimM := EStateM EmuFault EmuShim

/-- `csw_access_size`. -/
def cswAccessSize (csw : UInt32) : Nat :=
  if csw &&& 0x7 = 0 then 1 else if csw &&& 0x7 = 1 then 2 else 4

/-- `csw_autoinc`. -/
def cswAutoinc (csw : UInt32) : Bool := csw &&& 0x30 == 0x10

/-- `tar_autoinc`. -/
def EmuShim.tarAutoinc (s : EmuShim) (size : Nat) : EmuShim :=
  if cswAutoinc s.csw then
    { s with tar := (s.tar &&& ~~~ 0x3ff) ||| ((s.tar + UInt32.ofNat size) &&& 0x3ff) }
  else s

/-- `ctrlstat_value`. -/
def EmuShim.ctrlstatValue (s : EmuShim) : UInt32 :=
  s.ctrlstat ||| (if s.ctrlstat &&& 0x40000000 ≠ 0 then 0x80000000 else 0)
    ||| (if s.ctrlstat &&& 0x10000000 ≠ 0 then 0x20000000 else 0)

/-- `emu_target_load`. -/
def shimLoad (addr : UInt32) (size : Nat) : ShimM UInt32 := do
  match emuTargetLoad (← get).target addr size with
  | .ok v => return v
  | .error e => throw e

/-- `emu_target_store`. -/
def shimStore (malloc : Bool) (addr value : UInt32) (size : Nat) : ShimM Unit := do
  match emuTargetStore malloc (← get).target { addr := addr, value := value, size := size } with
  | .ok m => modify ({ · with target := m })
  | .error e => throw e

/-- How far the lane of an access is shifted: `8U * (g_tar & (4U - size))`. -/
def laneShift (tar : UInt32) (size : Nat) : UInt32 := 8 * (tar &&& UInt32.ofNat (4 - size))

/-- A read of DRW posts what is at TAR, in its lane. -/
def drwRead : ShimM Unit := do
  let s ← get
  let size := cswAccessSize s.csw
  let v ← shimLoad s.tar size
  modify fun s => { s with posted := v <<< laneShift s.tar size }
  modify (·.tarAutoinc size)

/-- A read of a banked data register posts the word at its place in the window of TAR. -/
def bankedRead (reg : UInt16) : ShimM Unit := do
  let s ← get
  let v ← shimLoad ((s.tar &&& ~~~ 0xf) + (reg.toUInt32 - 0x10)) 4
  modify ({ · with posted := v })

/-- The value that a read of an AP register posts. Only AP 0 is there. -/
def apRegPost (reg : UInt16) : ShimM Unit := do
  let s ← get
  if s.select >>> 24 ≠ 0 then set { s with posted := if reg = 0xf8 then 0xffffffff else 0 }
  else if reg = 0x00 then set { s with posted := s.csw ||| 0x80000000 }
  else if reg = 0x04 then set { s with posted := s.tar }
  else if reg = 0x0c then drwRead
  else if reg = 0x10 ∨ reg = 0x14 ∨ reg = 0x18 ∨ reg = 0x1c then bankedRead reg
  -- `EMU_AP_CFG`, `EMU_AP_BASE` and `EMU_AP_IDR`
  else if reg = 0xf4 then set { s with posted := 0 }
  else if reg = 0xf8 then set { s with posted := 0xe00ff003 }
  else if reg = 0xfc then set { s with posted := 0x14770011 }
  else set { s with posted := 0 }

/-- `ap_reg_read`: what was posted before is returned. -/
def apRegRead (reg : UInt16) : ShimM UInt32 := do
  let ret := (← get).posted
  apRegPost reg
  return ret

/-- A write of DRW stores the lane of the value at TAR. -/
def drwWrite (malloc : Bool) (value : UInt32) : ShimM Unit := do
  let s ← get
  let size := cswAccessSize s.csw
  shimStore malloc s.tar ((value >>> laneShift s.tar size) &&& sizeMask size) size
  modify (·.tarAutoinc size)

/-- `ap_reg_write`. -/
def apRegWrite (malloc : Bool) (reg : UInt16) (value : UInt32) : ShimM Unit := do
  if reg = 0x00 then modify ({ · with csw := value })
  else if reg = 0x04 then modify ({ · with tar := value })
  else if reg = 0x0c then drwWrite malloc value
  else if reg = 0x10 ∨ reg = 0x14 ∨ reg = 0x18 ∨ reg = 0x1c then
    let s ← get
    shimStore malloc ((s.tar &&& ~~~ 0xf) + (reg.toUInt32 - 0x10)) value 4
  else pure ()

/-- `ADIV5_LOW_READ` and `ADIV5_LOW_WRITE`. -/
inductive LowAccess
  | read
  | write
  deriving DecidableEq, Repr

/-- A DP register is read. -/
def dpRegRead (reg : UInt16) : ShimM UInt32 := do
  let s ← get
  -- `EMU_DPIDR`
  if reg = 0x0 then return 0x1ba01477
  else if reg = 0x4 then return s.ctrlstatValue
  else if reg = 0xc then return s.posted
  else return 0

/-- A DP register is written. -/
def dpRegWrite (reg : UInt16) (value : UInt32) : ShimM Unit :=
  if reg = 0x0 then modify ({ · with fault := 0 })
  else if reg = 0x4 then modify ({ · with ctrlstat := value })
  else if reg = 0x8 then modify ({ · with select := value })
  else pure ()

/-- `emu_shim_low_access`. -/
def emuShimLowAccess (malloc : Bool) (rnw : LowAccess) (addr : UInt16) (value : UInt32) :
    ShimM UInt32 :=
  if addr &&& 0x100 ≠ 0 then
    match rnw with
    | .read => apRegRead (addr &&& 0xfc)
    | .write => do
      apRegWrite malloc (addr &&& 0xfc) value
      return 0
  else
    match rnw with
    | .read => dpRegRead (addr &&& 0x0c)
    | .write => do
      dpRegWrite (addr &&& 0x0c) value
      return 0

/-- `emu_shim_dp_read`. -/
def emuShimDpRead (malloc : Bool) (addr : UInt16) : ShimM UInt32 :=
  if addr &&& 0x100 ≠ 0 then do
    let _ ← emuShimLowAccess malloc .read addr 0
    emuShimLowAccess malloc .read 0xc 0
  else emuShimLowAccess malloc .read addr 0

/-- `emu_shim_error`. -/
def emuShimError : ShimM UInt32 := do
  modify ({ · with fault := 0 })
  return 0

/-! ## Access ports -/

/-- `align_e`. -/
inductive Align
  | bits8
  | bits16
  | bits32
  | bits64
  deriving DecidableEq, Repr

/-- The value of an `align_e`. -/
def Align.log2 : Align → Nat
  | .bits8 => 0
  | .bits16 => 1
  | .bits32 => 2
  | .bits64 => 3

/-- `ALIGN_OF`. -/
def alignOf (x : Nat) : Align := if x &&& 3 = 0 then .bits32 else if x &&& 1 = 0 then .bits16
    else .bits8

/-- `MIN_ALIGN`. -/
def minAlign (x y : Nat) : Align :=
  if (alignOf x).log2 < (alignOf y).log2 then alignOf x else alignOf y

/-- `adiv5_access_port_s`. -/
structure Adiv5AccessPort where
  apsel : UInt8
  idr : UInt32
  base : UInt32
  csw : UInt32
  deriving DecidableEq, Repr

section
variable (malloc : Bool) (ap : Adiv5AccessPort)

/-- `adiv5_dp_recoverable_access`. The response period that is waited for is on the wire. -/
def adiv5DpRecoverableAccess (rnw : LowAccess) (addr : UInt16) (value : UInt32) : ShimM UInt32 := do
  let result ← emuShimLowAccess malloc rnw addr value
  -- `SWDP_ACK_NO_RESPONSE`
  if (← get).fault = 7 then
    let _ ← emuShimError
    emuShimLowAccess malloc rnw addr value
  else return result

/-- `adiv5_dp_write`. -/
def adiv5DpWrite (addr : UInt16) (value : UInt32) : ShimM Unit := do
  let _ ← emuShimLowAccess malloc .write addr value

/-- The access to SELECT that `firmware_ap_write` and `firmware_ap_read` start with. -/
def selectBank (addr : UInt16) : ShimM Unit := do
  let _ ← adiv5DpRecoverableAccess malloc .write 0x8
    ((ap.apsel.toUInt32 <<< 24) ||| (addr &&& 0xf0).toUInt32)

/-- `firmware_ap_write`. -/
def firmwareApWrite (addr : UInt16) (value : UInt32) : ShimM Unit := do
  selectBank malloc ap addr
  adiv5DpWrite malloc addr value

/-- `firmware_ap_read`. -/
def firmwareApRead (addr : UInt16) : ShimM UInt32 := do
  selectBank malloc ap addr
  emuShimDpRead malloc addr

/-- `adiv5_new_ap`, when there is memory for the AP. -/
def adiv5NewAp (apsel : UInt8) : ShimM (Option Adiv5AccessPort) := do
  let tmpap : Adiv5AccessPort := { apsel := apsel, idr := 0, base := 0, csw := 0 }
  let idr ← firmwareApRead malloc tmpap 0x1fc
  let base ← firmwareApRead malloc tmpap 0x1f8
  if base = 0xffffffff then return none
  else if idr = 0 then return none
  else
    let csw ← firmwareApRead malloc tmpap 0x100
    let csw := (csw &&& ~~~ (0x7 ||| 0x30 ||| 0x8000 ||| 0x40000000)) ||| 0x80000000
    if csw &&& 0x80 ≠ 0 then return none
    else return some { apsel := apsel, idr := idr, base := base, csw := csw }

/-! ## Memory -/

/-- `ap_mem_access_setup`. -/
def apMemAccessSetup (addr : UInt32) (align : Align) : ShimM Unit := do
  let csw := ap.csw ||| 0x10
  let csw := match align with
    | .bits8 => csw ||| 0
    | .bits16 => csw ||| 1
    | .bits32 => csw ||| 2
    | .bits64 => csw ||| 2
  firmwareApWrite malloc ap 0x100 csw
  adiv5DpWrite malloc 0x104 addr

/-- `adiv5_unpack_data`: the bytes it copies to the buffer. -/
def adiv5UnpackData (src data : UInt32) (align : Align) : List UInt8 :=
  match align with
  | .bits8 => leBytes 1 ((data >>> (8 * (src &&& 3))) &&& 0xff).toNat
  | .bits16 => leBytes 2 ((data >>> (8 * (src &&& 2))) &&& 0xffff).toNat
  | .bits32 => leBytes 4 data.toNat
  | .bits64 => leBytes 4 data.toNat

/-- `adiv5_pack_data`: the word, and the data that is left. -/
def adiv5PackData (dest : UInt32) (data : List UInt8) (align : Align) : UInt32 × List UInt8 :=
  let value := match align with
    | .bits8 => UInt32.ofNat (leNat (data.take 1)) <<< (8 * (dest &&& 3))
    | .bits16 => UInt32.ofNat (leNat (data.take 2)) <<< (8 * (dest &&& 2))
    | .bits32 => UInt32.ofNat (leNat (data.take 4))
    | .bits64 => UInt32.ofNat (leNat (data.take 4))
  (value, data.drop (1 <<< align.log2))

/-- The address is not in the 1 KiB of the last write of TAR. -/
def crossed (addr oaddr : UInt32) : Prop := (addr ^^^ oaddr) &&& 0xfffffc00 ≠ 0

instance (addr oaddr : UInt32) : Decidable (crossed addr oaddr) :=
  inferInstanceAs (Decidable (_ ≠ _))

/-- The check for a 10 bit overflow in `advi5_mem_read_bytes`. -/
def readCross (src osrc : UInt32) : ShimM UInt32 :=
  if crossed src osrc then do
    let _ ← emuShimLowAccess malloc .write 0x104 src
    let _ ← emuShimLowAccess malloc .read 0x10c 0
    return src
  else return osrc

/-- The loop of `advi5_mem_read_bytes`: the bytes it copies, and where it ends. -/
def memReadLoop (align : Align) : Nat → UInt32 → UInt32 → ShimM (List UInt8 × UInt32)
  | 0, src, _ => return ([], src)
  | n + 1, src, osrc => do
    let value ← emuShimLowAccess malloc .read 0x10c 0
    let osrc ← readCross malloc (src + (1 <<< UInt32.ofNat align.log2)) osrc
    let (data, last) ← memReadLoop align n (src + (1 <<< UInt32.ofNat align.log2)) osrc
    return (adiv5UnpackData src value align ++ data, last)

/-- `advi5_mem_read_bytes`: the bytes it copies to the buffer. -/
def advi5MemReadBytes (src : UInt32) (len : Nat) : ShimM (List UInt8) :=
  let align := minAlign src.toNat len
  if len = 0 then return []
  else do
    apMemAccessSetup malloc ap src align
    let _ ← emuShimLowAccess malloc .read 0x10c 0
    -- the length is a multiple of the access size, and not 0
    let (data, last) ← memReadLoop malloc align (len >>> align.log2 - 1) src src
    let value ← emuShimLowAccess malloc .read 0xc 0
    return data ++ adiv5UnpackData last value align

/-- The check for a 10 bit overflow in `adiv5_mem_write_bytes`. -/
def writeCross (dest odest : UInt32) : ShimM UInt32 :=
  if crossed dest odest then do
    let _ ← emuShimLowAccess malloc .write 0x104 dest
    return dest
  else return odest

/-- The loop of `adiv5_mem_write_bytes`. -/
def memWriteLoop (align : Align) : Nat → UInt32 → UInt32 → List UInt8 → ShimM Unit
  | 0, _, _, _ => return ()
  | n + 1, dest, odest, data => do
    let (value, data) := adiv5PackData dest data align
    let _ ← emuShimLowAccess malloc .write 0x10c value
    let odest ← writeCross malloc (dest + (1 <<< UInt32.ofNat align.log2)) odest
    memWriteLoop align n (dest + (1 <<< UInt32.ofNat align.log2)) odest data

/-- `adiv5_mem_write_bytes`. -/
def adiv5MemWriteBytes (dest : UInt32) (data : List UInt8) (align : Align) : ShimM Unit := do
  apMemAccessSetup malloc ap dest align
  memWriteLoop malloc align (data.length >>> align.log2) dest dest data
  let _ ← emuShimDpRead malloc 0xc

/-- `adiv5_mem_write`. -/
def adiv5MemWrite (dest : UInt32) (data : List UInt8) : ShimM Unit :=
  adiv5MemWriteBytes malloc ap dest data (minAlign dest.toNat data.length)

end

end Blackmagic
