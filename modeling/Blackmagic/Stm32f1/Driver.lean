import Blackmagic.Adiv5.Shim

/-!
# The STM32F1 family: `stm32f1.c`

The probes, with the regions they add, and the functions that erase and write them. What the target
does is given by `F1Env`: what it answers to a read, and which accesses fault. A fault is kept until
`target_check_error`, which clears it.
-/

namespace Blackmagic

/-! ## The probes -/

/-- What the probes know of a target: its ID registers, and what its memory answers. -/
structure F1Target where
  cpuid : UInt32
  designerCode : UInt16
  mem : UInt32 → UInt32

/-- A region that `stm32f1_add_flash` adds. -/
structure F1Region where
  start : UInt32
  length : Nat
  blocksize : Nat
  writesize : Nat
  deriving DecidableEq, Repr

/-- What a probe fixes: `target->part_id`, `STM32F1_TOPT_32BIT_WRITES`, and the regions. -/
structure F1Part where
  partId : UInt16
  wideWrites : Bool
  regions : List F1Region
  deriving DecidableEq, Repr

/-- `stm32f1_add_flash`. -/
def stm32f1AddFlash (addr : UInt32) (length erasesize : Nat) : F1Region where
  start := addr
  length := length
  blocksize := erasesize
  writesize := 1024

/-- `target->cpuid & CORTEX_CPUID_PARTNO_MASK`. -/
def F1Target.partno (t : F1Target) : UInt32 := t.cpuid &&& 0xfff0

/-- `CORTEX_M0`. -/
def cortexM0 : UInt32 := 0xc200

/-- `CORTEX_M4`. -/
def cortexM4 : UInt32 := 0xc240

/-- `CORTEX_M23`. -/
def cortexM23 : UInt32 := 0xd200

/-- `CORTEX_M33`. -/
def cortexM33 : UInt32 := 0xd210

/-- `stm32f1_read_idcode`. -/
def stm32f1ReadIdcode (t : F1Target) : UInt16 :=
  if t.partno = cortexM0 ∨ t.partno = cortexM23 then (t.mem 0x40015800 &&& 0xfff).toUInt16
  else if t.partno = cortexM33 then (t.mem 0xe0044000 &&& 0xfff).toUInt16
  else (t.mem 0xe0042000 &&& 0xfff).toUInt16

/-- The block size that `gd32f1_probe` takes for a device. -/
def gd32f1BlockSize (t : F1Target) (deviceId : UInt16) : Option Nat :=
  if deviceId = 0x414 ∨ deviceId = 0x430 then some 0x800
  else if deviceId = 0x418 then some 0x800
  else if deviceId = 0x410 then
    if t.partno = cortexM23 then some 0x400
    else if t.partno = cortexM4 then some 0x800
    else some 0x400
  else if deviceId = 0x444 then some 0x2000
  else none

/-- The regions of `gd32f1_probe`, from the flash size in KiB. -/
def gd32f1Regions (flashSize blockSize : Nat) : List F1Region :=
  if 512 < flashSize then
    [stm32f1AddFlash 0x08000000 (512 * 1024) blockSize,
      stm32f1AddFlash 0x08080000 ((flashSize - 512) * 1024) 0x1000]
  else [stm32f1AddFlash 0x08000000 (flashSize * 1024) blockSize]

/-- `gd32f1_probe`. -/
def gd32f1Probe (t : F1Target) : Option F1Part := do
  let deviceId := stm32f1ReadIdcode t
  let blockSize ← gd32f1BlockSize t deviceId
  -- `GD32Fx_FLASHSIZE`
  let flashSize := (t.mem 0x1ffff7e0 &&& 0xffff).toNat
  return { partId := deviceId, wideWrites := true, regions := gd32f1Regions flashSize blockSize }

/-- `at32f40_is_dual_bank`. -/
def at32f40IsDualBank (partId : UInt16) : Bool :=
  [0x0344, 0x0345, 0x0346, 0x0347, 0x034b, 0x034c, 0x0353].contains partId

/-- `at32f40_detect`. -/
def at32f40Detect (partId : UInt16) : Option F1Part :=
  if [0x0240, 0x0241, 0x0242, 0x0243, 0x0249, 0x024a, 0x0254].contains partId then
    some { partId := partId, wideWrites := true,
           regions := [stm32f1AddFlash 0x08000000 (256 * 1024) (2 * 1024)] }
  else if [0x02cd, 0x02ce, 0x02cf, 0x02d0, 0x02d1, 0x02d2].contains partId then
    some { partId := partId, wideWrites := true,
           regions := [stm32f1AddFlash 0x08000000 (512 * 1024) (2 * 1024)] }
  else if at32f40IsDualBank partId then
    some { partId := partId, wideWrites := true,
           regions := [stm32f1AddFlash 0x08000000 (512 * 1024) (2 * 1024),
             stm32f1AddFlash 0x08080000 (512 * 1024) (2 * 1024)] }
  else none

/-- `at32f41_detect`. -/
def at32f41Detect (partId : UInt16) : Option F1Part :=
  if [0x0240, 0x0241, 0x0242, 0x0243, 0x024c].contains partId then
    some { partId := partId, wideWrites := true,
           regions := [stm32f1AddFlash 0x08000000 (256 * 1024) (2 * 1024)] }
  else if [0x01c4, 0x01c5, 0x01c6, 0x01c7, 0x01cd].contains partId then
    some { partId := partId, wideWrites := true,
           regions := [stm32f1AddFlash 0x08000000 (128 * 1024) (2 * 1024)] }
  else if [0x0108, 0x0109, 0x010a].contains partId then
    some { partId := partId, wideWrites := true,
           regions := [stm32f1AddFlash 0x08000000 (64 * 1024) (2 * 1024)] }
  else none

/-- `at32f40x_probe`. -/
def at32f40xProbe (t : F1Target) : Option F1Part :=
  if t.partno ≠ cortexM4 then none
  else
    let idcode := t.mem 0xe0042000
    let partId := (idcode &&& 0xfff).toUInt16
    if idcode &&& 0xfffff000 = 0x70050000 then at32f40Detect partId
    else if idcode &&& 0xfffff000 = 0x70030000 then at32f41Detect partId
    else none

/-- The part of the MM32 probes, from the flash size in KiB. -/
def mm32Part (id : UInt32) (flashKbyte : Nat) : F1Part where
  partId := (id &&& 0xfff).toUInt16
  wideWrites := false
  regions := [stm32f1AddFlash 0x08000000 (flashKbyte * 1024) 0x400]

/-- `mm32l0xx_probe`, when the ID can be read. -/
def mm32l0xxProbe (t : F1Target) : Option F1Part :=
  let id := t.mem 0x40013400
  if id = 0xcc568091 then some (mm32Part id 128)
  else if id = 0xcc4460b1 then some (mm32Part id 32)
  else if id = 0xcc56a097 then some (mm32Part id 128)
  else none

/-- `mm32f3xx_probe`, when the ID can be read. -/
def mm32f3xxProbe (t : F1Target) : Option F1Part :=
  let id := t.mem 0x40007080
  if id = 0xcc9aa0e7 then some (mm32Part id 512)
  else if id = 0x4d4d0800 then some (mm32Part id 256)
  else none

/-- `stm32f1_probe`. -/
def stm32f1Probe (t : F1Target) : Option F1Part :=
  let deviceId := stm32f1ReadIdcode t
  let part (regions : List F1Region) : Option F1Part :=
    some { partId := deviceId, wideWrites := false, regions := regions }
  if [0x29b, 0x410, 0x412, 0x420].contains deviceId
    then part [stm32f1AddFlash 0x08000000 0x20000 0x400]
  else if [0x414, 0x418, 0x428].contains deviceId
    then part [stm32f1AddFlash 0x08000000 0x80000 0x800]
  else if deviceId = 0x430 then
    part [stm32f1AddFlash 0x08000000 0x80000 0x800, stm32f1AddFlash 0x08080000 0x80000 0x800]
  else if [0x438, 0x422, 0x446, 0x432, 0x439].contains deviceId then
    part [stm32f1AddFlash 0x08000000 0x80000 0x800]
  else if deviceId = 0x444 then part [stm32f1AddFlash 0x08000000 0x8000 0x400]
  else if deviceId = 0x445 then part [stm32f1AddFlash 0x08000000 0x8000 0x400]
  else if deviceId = 0x440 then part [stm32f1AddFlash 0x08000000 0x10000 0x400]
  else if deviceId = 0x448 then part [stm32f1AddFlash 0x08000000 0x20000 0x800]
  else if deviceId = 0x442 then part [stm32f1AddFlash 0x08000000 0x40000 0x800]
  else none

/-! ## The registers -/

/-- `FLASH_KEYR`. -/
def flashKeyr : UInt32 := 0x40022004

/-- `FLASH_SR`. -/
def flashSr : UInt32 := 0x4002200c

/-- `FLASH_CR`. -/
def flashCr : UInt32 := 0x40022010

/-- `FLASH_AR`. -/
def flashAr : UInt32 := 0x40022014

/-- `FLASH_BANK2_OFFSET`. `FLASH_BANK1_OFFSET` is 0. -/
def flashBank2Offset : UInt32 := 0x40

/-- `FLASH_BANK_SPLIT`. -/
def flashBankSplit : UInt32 := 0x08080000

/-- `FLASH_CR_LOCK`. -/
def flashCrLock : UInt32 := 0x80

/-- `FLASH_CR_STRT`. -/
def flashCrStrt : UInt32 := 0x40

/-- `FLASH_CR_PER`. -/
def flashCrPer : UInt32 := 0x2

/-- `FLASH_CR_PG`. -/
def flashCrPg : UInt32 := 0x1

/-- `FLASH_SR_BSY`. -/
def flashSrBsy : UInt32 := 0x1

/-- `SR_ERROR_MASK`. -/
def srErrorMask : UInt32 := 0x14

/-- `SR_EOP`. -/
def flashSrEop : UInt32 := 0x20

/-- `KEY1`. -/
def flashKey1 : UInt32 := 0x45670123

/-- `KEY2`. -/
def flashKey2 : UInt32 := 0xcdef89ab

/-! ## The target -/

/-- An access to the target. -/
inductive F1Access
  | read32 (addr value : UInt32)
  | write32 (addr value : UInt32)
  -- `target_mem_write`, and `cortexm_mem_write_sized` with its access size
  | memWrite (dest : UInt32) (data : List UInt8) (size : Option Align)
  deriving DecidableEq, Repr

/-- The target: what it answers to a read after the accesses so far, and which accesses fault, by
their place in the call. -/
structure F1Env where
  read32 : List (F1Access × Bool) → UInt32 → UInt32
  faults : Nat → Bool

/-- The accesses that were made, each with whether the target took it, and the error that is
kept. -/
structure F1Bus where
  log : List (F1Access × Bool)
  error : Bool

/-- The flash has been polled as often as the bound on it allows. -/
inductive F1Waiting
  | busy
  deriving DecidableEq, Repr

/-- Code that accesses the target. -/
abbrev F1M := EStateM F1Waiting F1Bus

section
variable (env : F1Env)

/-- An access is made. -/
def F1Bus.access (b : F1Bus) (a : F1Access) : F1Bus where
  log := b.log ++ [(a, !env.faults b.log.length)]
  error := b.error || env.faults b.log.length

/-- `target_mem_read32`. -/
def f1MemRead32 (addr : UInt32) : F1M UInt32 := do
  let b ← get
  let value := env.read32 b.log addr
  set (b.access env (.read32 addr value))
  return value

/-- `target_mem_write32`. -/
def f1MemWrite32 (addr value : UInt32) : F1M Unit := modify (·.access env (.write32 addr value))

/-- `target_check_error`, with the `check_error` of a Cortex-M: the probes here are called for no
other core. -/
def f1CheckError : F1M Bool := do
  let b ← get
  set { b with error := false }
  return b.error

/-- `cortexm_mem_write_sized`. -/
def cortexmMemWriteSized (dest : UInt32) (data : List UInt8) (size : Align) : F1M Bool := do
  modify (·.access env (.memWrite dest data (some size)))
  f1CheckError

/-- `target_mem_write`. -/
def f1MemWrite (dest : UInt32) (data : List UInt8) : F1M Bool := do
  modify (·.access env (.memWrite dest data none))
  f1CheckError

/-! ## The driver -/

/-- `stm32f1_flash_unlock`. -/
def stm32f1FlashUnlock (bankOffset : UInt32) : F1M Bool := do
  f1MemWrite32 env (flashKeyr + bankOffset) flashKey1
  f1MemWrite32 env (flashKeyr + bankOffset) flashKey2
  let ctrl ← f1MemRead32 env (flashCr + bankOffset)
  return ctrl &&& flashCrLock == 0

/-- `stm32f1_flash_clear_eop`. -/
def stm32f1FlashClearEop (bankOffset : UInt32) : F1M Unit := do
  let status ← f1MemRead32 env (flashSr + bankOffset)
  f1MemWrite32 env (flashSr + bankOffset) (status ||| flashSrEop)

/-- `stm32f1_flash_busy_wait`, with at most `fuel` polls. -/
def stm32f1FlashBusyWait (bankOffset : UInt32) : Nat → UInt32 → F1M Bool
  | fuel, status =>
    if status &&& flashSrEop = 0 ∧ status &&& flashSrBsy ≠ 0 then
      match fuel with
      | 0 => throw .busy
      | fuel + 1 => do
        let status ← f1MemRead32 env (flashSr + bankOffset)
        if ← f1CheckError then return false
        else stm32f1FlashBusyWait bankOffset fuel status
    else return status &&& srErrorMask == 0

/-- `stm32f1_is_dual_bank`. -/
def stm32f1IsDualBank (partId : UInt16) : Bool := partId == 0x430 || at32f40IsDualBank partId

/-- `stm32f1_bank_offset_for`. -/
def stm32f1BankOffsetFor (addr : UInt32) : UInt32 :=
  if flashBankSplit ≤ addr then flashBank2Offset else 0

variable (part : F1Part) (fuel : Nat)

/-- The banks that an erase unlocks. -/
def unlockBanks (addr : UInt32) (length : Nat) : F1M Bool := do
  if stm32f1IsDualBank part.partId ∧ flashBankSplit ≤ addr + UInt32.ofNat length - 1 then
    if ← stm32f1FlashUnlock env flashBank2Offset then
      if addr < flashBankSplit then stm32f1FlashUnlock env 0 else return true
    else return false
  else if addr < flashBankSplit then stm32f1FlashUnlock env 0
  else return true

/-- `stm32f1_flash_erase`. -/
def stm32f1FlashErase (addr : UInt32) (length : Nat) : F1M Bool := do
  if ← unlockBanks env part addr length then
    let bankOffset := stm32f1BankOffsetFor addr
    stm32f1FlashClearEop env bankOffset
    f1MemWrite32 env (flashCr + bankOffset) flashCrPer
    f1MemWrite32 env (flashAr + bankOffset) addr
    f1MemWrite32 env (flashCr + bankOffset) (flashCrStrt ||| flashCrPer)
    stm32f1FlashBusyWait env bankOffset fuel flashSrBsy
  else return false

/-- `stm32f1_bank1_length`. -/
def stm32f1Bank1Length (addr : UInt32) (len : Nat) : Nat :=
  if flashBankSplit ≤ addr then 0
  else if flashBankSplit < addr + UInt32.ofNat len then (flashBankSplit - addr).toNat
  else len

/-- The data is written by the target API on the GD32VF103, and by a Cortex-M call elsewhere. -/
def viaTargetApi (t : F1Target) : Prop := t.designerCode = 0x61e ∧ t.cpuid = 0x80000022

instance (t : F1Target) : Decidable (viaTargetApi t) := inferInstanceAs (Decidable (_ ∧ _))

variable (t : F1Target)

/-- The data of one bank is written. What the call returns is not looked at, though it has cleared
the error. -/
def writeData (dest : UInt32) (data : List UInt8) : F1M Unit := do
  let _ ← if viaTargetApi t then f1MemWrite env dest data
    else cortexmMemWriteSized env dest data (if part.wideWrites then .bits32 else .bits16)

/-- What `stm32f1_flash_write` does in one bank. -/
def writeBank (bankOffset dest : UInt32) (data : List UInt8) : F1M Bool := do
  stm32f1FlashClearEop env bankOffset
  f1MemWrite32 env (flashCr + bankOffset) flashCrPg
  writeData env part t dest data
  stm32f1FlashBusyWait env bankOffset fuel flashSrBsy

/-- What `stm32f1_flash_write` does in the first bank, when there is data for it. -/
def writeBank1 (dest : UInt32) (src : List UInt8) (offset : Nat) : F1M Bool :=
  if offset ≠ 0 then writeBank env part fuel t 0 dest (src.take offset) else return true

/-- What `stm32f1_flash_write` does in the second bank, when there is one and data is left. -/
def writeBank2 (dest : UInt32) (src : List UInt8) (offset : Nat) : F1M Bool :=
  if stm32f1IsDualBank part.partId ∧ src.length - offset ≠ 0 then
    writeBank env part fuel t flashBank2Offset (dest + UInt32.ofNat offset) (src.drop offset)
  else return true

/-- `stm32f1_flash_write`. -/
def stm32f1FlashWrite (dest : UInt32) (src : List UInt8) : F1M Bool := do
  let offset := stm32f1Bank1Length dest src.length
  if ← writeBank1 env part fuel t dest src offset then writeBank2 env part fuel t dest src offset
  else return false

end

end Blackmagic
