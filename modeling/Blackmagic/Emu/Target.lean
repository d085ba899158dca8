import Mathlib
import Blackmagic.Lib.Machine

/-!
# The emulated target: `emu_target.c`

The memory of an STM32F103 as loads and stores see it: flash in pages of 1 KiB that are allocated on
demand, SRAM, the debug registers, the ROM table, and the flash controller (FPEC). `malloc` says
whether memory can be had.
-/

namespace Blackmagic

/-! ## Memory map -/

/-- `EMU_FLASH_BASE`. -/
def emuFlashBase : UInt32 := 0x08000000

/-- `EMU_FLASH_SIZE`. -/
def emuFlashSize : UInt32 := 0x00020000

/-- `EMU_FLASH_PAGE`. -/
def emuFlashPage : Nat := 0x400

/-- `FLASH_PAGES`. -/
def flashPages : Nat := 128

/-- `EMU_SRAM_BASE`. -/
def emuSramBase : UInt32 := 0x20000000

/-- `EMU_SRAM_SIZE`. -/
def emuSramSize : Nat := 0x5000

/-- `EMU_SCS_BASE`. -/
def emuScsBase : UInt32 := 0xe000e000

/-- `EMU_ROM_BASE`. -/
def emuRomBase : UInt32 := 0xe00ff000

/-- `EMU_DBGMCU_IDCODE`. -/
def emuDbgmcuIdcode : UInt32 := 0xe0042000

/-- `EMU_FPEC_BASE`. -/
def emuFpecBase : UInt32 := 0x40022000

/-- `FPEC_KEYR`. -/
def fpecKeyr : UInt32 := 0x40022004

/-- `FPEC_SR`. -/
def fpecSr : UInt32 := 0x4002200c

/-- `FPEC_CR`. -/
def fpecCr : UInt32 := 0x40022010

/-- `FPEC_AR`. -/
def fpecAr : UInt32 := 0x40022014

/-- `FPEC_OBR`. -/
def fpecObr : UInt32 := 0x4002201c

/-- `FPEC_WRPR`. -/
def fpecWrpr : UInt32 := 0x40022020

/-- `FPEC_KEY1`. -/
def fpecKey1 : UInt32 := 0x45670123

/-- `FPEC_KEY2`. -/
def fpecKey2 : UInt32 := 0xcdef89ab

/-- `CR_LOCK`. -/
def crLock : UInt32 := 0x80

/-- `CR_STRT`. -/
def crStrt : UInt32 := 0x40

/-- `CR_MER`. -/
def crMer : UInt32 := 0x4

/-- `CR_PER`. -/
def crPer : UInt32 := 0x2

/-- `CR_PG`. -/
def crPg : UInt32 := 0x1

/-- `SR_BSY`. -/
def srBsy : UInt32 := 0x1

/-- `SR_EOP`. -/
def srEop : UInt32 := 0x20

/-- `CORE_REG_COUNT`. -/
def coreRegCount : Nat := 0x18

/-- `DCRSR_REGWnR`. -/
def dcrsrRegWnR : UInt32 := 0x00010000

/-- The pages that are allocated. A page that is not reads as erased. -/
abbrev FlashPages := Nat → Option (Vector UInt8 emuFlashPage)

/-- The state of the emulated target. -/
structure EmuTarget where
  flashPage : FlashPages
  sram : Vector UInt8 emuSramSize
  dhcsr : UInt32
  demcr : UInt32
  dcrsr : UInt32
  dcrdr : UInt32
  aircr : UInt32
  flashKeyr : UInt32
  flashCr : UInt32
  flashSr : UInt32
  flashAr : UInt32
  flashUnlocked : Bool
  coreReg : Vector UInt32 coreRegCount

/-- An access outside of `g_sram`. -/
inductive EmuFault
  | sram (index : Nat)
  deriving DecidableEq, Repr

/-! ## Flash pages -/

/-- `addr - EMU_FLASH_BASE`. -/
def flashOff (addr : UInt32) : Nat := (addr - emuFlashBase).toNat

/-- The page of an address. -/
def flashPageOf (addr : UInt32) : Nat := flashOff addr / emuFlashPage

/-- The byte of an address in its page. -/
def flashIndex (addr : UInt32) : Fin emuFlashPage :=
  ⟨flashOff addr % emuFlashPage, Nat.mod_lt _ (by decide)⟩

/-- A page after `memset(page, 0xFF, EMU_FLASH_PAGE)`. -/
def blankPage : Vector UInt8 emuFlashPage := Vector.replicate emuFlashPage 0xff

/-- `flash_byte`. -/
def flashByte (pages : FlashPages) (addr : UInt32) : UInt8 :=
  if flashPages ≤ flashPageOf addr then 0xff
  else
    match pages (flashPageOf addr) with
    | none => 0xff
    | some page => page.get (flashIndex addr)

/-- `flash_write_byte`. -/
def flashWriteByte (malloc : Bool) (pages : FlashPages) (addr : UInt32) (value : UInt8) :
    FlashPages :=
  if flashPages ≤ flashPageOf addr then pages
  else
    let and (page : Vector UInt8 emuFlashPage) : FlashPages :=
      Function.update pages (flashPageOf addr)
        (some (page.set (flashIndex addr) (page.get (flashIndex addr) &&& value)))
    match pages (flashPageOf addr) with
    | some page => and page
    | none => if malloc then and blankPage else pages

/-- `flash_erase_page`. -/
def flashErasePage (pages : FlashPages) (addr : UInt32) : FlashPages :=
  if flashPages ≤ flashPageOf addr then pages else Function.update pages (flashPageOf addr) none

/-- `flash_erase_all`. -/
def flashEraseAll (pages : FlashPages) : FlashPages :=
  fun page => if page < flashPages then none else pages page

/-! ## Registers -/

/-- A write to DCRSR moves a core register to or from DCRDR. -/
def coreRegTransfer (m : EmuTarget) (value : UInt32) : EmuTarget :=
  if h : (value &&& 0x7f).toNat < coreRegCount then
    if value &&& dcrsrRegWnR ≠ 0 then
      { m with dcrsr := value, coreReg := m.coreReg.set (value &&& 0x7f).toNat m.dcrdr h }
    else { m with dcrsr := value, dcrdr := m.coreReg.get ⟨(value &&& 0x7f).toNat, h⟩ }
  else { m with dcrsr := value }

/-- `scs_write`. -/
def scsWrite (m : EmuTarget) (off value : UInt32) : EmuTarget :=
  if off = 0xdf0 then { m with dhcsr := value }
  else if off = 0xdf4 then coreRegTransfer m value
  else if off = 0xdf8 then { m with dcrdr := value }
  else if off = 0xdfc then { m with demcr := value }
  else if off = 0xd0c then { m with aircr := value }
  else m

/-- `g_flash_sr` at the end of an operation. -/
def srDone (sr : UInt32) : UInt32 := (sr ||| srEop) &&& ~~~ srBsy

/-- `fpec_write`. -/
def fpecWrite (m : EmuTarget) (addr value : UInt32) : EmuTarget :=
  if addr = fpecKeyr then
    { m with
      flashUnlocked := m.flashUnlocked || (m.flashKeyr == fpecKey1 && value == fpecKey2),
      flashKeyr := value }
  else if addr = fpecCr then
    if value &&& crStrt ≠ 0 ∧ m.flashUnlocked then
      { m with
        flashCr := value,
        flashPage := if value &&& crPer ≠ 0 then flashErasePage m.flashPage m.flashAr
          else if value &&& crMer ≠ 0 then flashEraseAll m.flashPage
          else m.flashPage,
        flashSr := srDone m.flashSr }
    else { m with flashCr := value }
  else if addr = fpecAr then { m with flashAr := value }
  else if addr = fpecSr then { m with flashSr := m.flashSr &&& ~~~ (value &&& srEop) }
  else m

/-! ## Stores -/

/-- A call of `emu_target_store`. -/
structure EmuStore where
  addr : UInt32
  value : UInt32
  size : Nat
  deriving DecidableEq, Repr

/-- `(uint8_t)(value >> (8U * i))`. -/
def EmuStore.byte (st : EmuStore) (i : Nat) : UInt8 := (st.value >>> UInt32.ofNat (8 * i)).toUInt8

/-- An address is in a range. -/
def inRange (addr base : UInt32) (size : Nat) : Prop := base ≤ addr ∧ addr.toNat < base.toNat + size

instance (addr base : UInt32) (size : Nat) : Decidable (inRange addr base size) :=
  inferInstanceAs (Decidable (_ ∧ _))

/-- An address is in the flash window. -/
def inFlash (addr : UInt32) : Prop := inRange addr emuFlashBase emuFlashSize.toNat

instance (addr : UInt32) : Decidable (inFlash addr) := inferInstanceAs (Decidable (inRange _ _ _))

/-- The bytes of a store to flash, one at a time. -/
def storeFlash (malloc : Bool) (st : EmuStore) (pages : FlashPages) : FlashPages :=
  (List.range st.size).foldl
    (fun pages i => flashWriteByte malloc pages (st.addr + UInt32.ofNat i) (st.byte i)) pages

/-- The bytes of a store to SRAM, one at a time. -/
def storeSram (st : EmuStore) (sram : Vector UInt8 emuSramSize) :
    Except EmuFault (Vector UInt8 emuSramSize) :=
  (List.range st.size).foldlM (fun sram i =>
    let index := (st.addr + UInt32.ofNat i - emuSramBase).toNat
    if h : index < emuSramSize then .ok (sram.set index (st.byte i) h)
      else .error (.sram index)) sram

/-- `emu_target_store`. -/
def emuTargetStore (malloc : Bool) (m : EmuTarget) (st : EmuStore) : Except EmuFault EmuTarget :=
  if inFlash st.addr then
    if m.flashUnlocked ∧ m.flashCr &&& crPg ≠ 0 then
      .ok { m with flashPage := storeFlash malloc st m.flashPage, flashSr := srDone m.flashSr }
    else .ok m
  else if inRange st.addr emuSramBase emuSramSize then do
    let sram ← storeSram st m.sram
    return { m with sram := sram }
  else if inRange st.addr emuScsBase 0x1000 then .ok (scsWrite m (st.addr - emuScsBase) st.value)
  else if inRange st.addr emuFpecBase 0x400 then .ok (fpecWrite m st.addr st.value)
  else .ok m

/-! ## Loads -/

/-- `id_word`. -/
def idWord (cidr pidrLo pidrHi off : UInt32) : UInt32 :=
  if off = 0xff0 then (cidr >>> 0) &&& 0xff
  else if off = 0xff4 then (cidr >>> 8) &&& 0xff
  else if off = 0xff8 then (cidr >>> 16) &&& 0xff
  else if off = 0xffc then (cidr >>> 24) &&& 0xff
  else if off = 0xfe0 then (pidrLo >>> 0) &&& 0xff
  else if off = 0xfe4 then (pidrLo >>> 8) &&& 0xff
  else if off = 0xfe8 then (pidrLo >>> 16) &&& 0xff
  else if off = 0xfec then (pidrLo >>> 24) &&& 0xff
  else if off = 0xfd0 then (pidrHi >>> 0) &&& 0xff
  else 0

/-- `rom_read`. -/
def romRead (off : UInt32) : UInt32 :=
  if 0xfd0 ≤ off ∧ off ≤ 0xffc then idWord 0xb105100d 0x000a04c3 0x00000000 off
  else if off = 0xfcc then 0x1
  else if off = 0x000 then 0xfff0f003
  else 0

/-- `scs_read`. -/
def scsRead (m : EmuTarget) (off : UInt32) : UInt32 :=
  if 0xfd0 ≤ off ∧ off ≤ 0xffc then idWord 0xb105e00d 0x000bb000 0x00000004 off
  else if off = 0xd00 then 0x412fc231
  else if off = 0xd88 then 0
  else if off = 0xdf0 then 0x00030003
  else if off = 0xdf4 then m.dcrsr
  else if off = 0xdf8 then m.dcrdr
  else if off = 0xdfc then m.demcr
  else if off = 0xd0c then m.aircr
  else 0

/-- `fpec_read`. -/
def fpecRead (m : EmuTarget) (addr : UInt32) : UInt32 :=
  if addr = fpecSr then m.flashSr
  else if addr = fpecCr then (m.flashCr &&& ~~~ crLock) ||| (if m.flashUnlocked then 0 else crLock)
  else if addr = fpecObr then 0
  else if addr = fpecWrpr then 0xffffffff
  else 0

/-- `size_mask`. -/
def sizeMask (size : Nat) : UInt32 :=
  if 4 ≤ size then 0xffffffff else (1 <<< UInt32.ofNat (size * 8)) - 1

/-- The bytes of a load from flash, one at a time. -/
def loadFlash (pages : FlashPages) (addr : UInt32) (size : Nat) : UInt32 :=
  (List.range size).foldl
    (fun v i => v ||| (flashByte pages (addr + UInt32.ofNat i)).toUInt32 <<< UInt32.ofNat (8 * i)) 0

/-- The bytes of a load from SRAM, one at a time. -/
def loadSram (sram : Vector UInt8 emuSramSize) (addr : UInt32) (size : Nat) :
    Except EmuFault UInt32 :=
  (List.range size).foldlM (fun v i =>
    let index := (addr + UInt32.ofNat i - emuSramBase).toNat
    if h : index < emuSramSize then
      .ok (v ||| (sram.get ⟨index, h⟩).toUInt32 <<< UInt32.ofNat (8 * i))
    else .error (.sram index)) 0

/-- `emu_target_load`. -/
def emuTargetLoad (m : EmuTarget) (addr : UInt32) (size : Nat) : Except EmuFault UInt32 :=
  if inFlash addr then .ok (loadFlash m.flashPage addr size &&& sizeMask size)
  else if inRange addr emuSramBase emuSramSize then do
    let v ← loadSram m.sram addr size
    return v &&& sizeMask size
  -- `EMU_IDCODE`
  else if addr = emuDbgmcuIdcode then .ok (0x20036410 &&& sizeMask size)
  else if inRange addr emuRomBase 0x1000 then .ok (romRead (addr - emuRomBase) &&& sizeMask size)
  else if inRange addr emuScsBase 0x1000 then .ok (scsRead m (addr - emuScsBase) &&& sizeMask size)
  else if inRange addr emuFpecBase 0x400 then .ok (fpecRead m addr &&& sizeMask size)
  else .ok 0

/-- The vector table of page 0 after a reset. -/
def seedPage : Vector UInt8 emuFlashPage :=
  (List.zipIdx [0x00, 0x50, 0x00, 0x20, 0x01, 0x01, 0x00, 0x08]).foldl
    (fun page (b, i) => page.setIfInBounds i b) blankPage

/-- `emu_target_reset`. -/
def emuTargetReset (malloc : Bool) : EmuTarget where
  flashPage := fun page => if page = 0 ∧ malloc then some seedPage else none
  sram := Vector.replicate emuSramSize 0
  dhcsr := 0
  demcr := 0
  dcrsr := 0
  dcrdr := 0
  aircr := 0
  flashKeyr := 0
  flashCr := 0
  flashSr := 0
  flashAr := 0
  flashUnlocked := false
  coreReg := (((((Vector.replicate coreRegCount 0).setIfInBounds 13 0x20005000).setIfInBounds 14
    0xffffffff).setIfInBounds 15 0x08000100).setIfInBounds 0x10 0x01000000).setIfInBounds 0x11
      0x20005000

end Blackmagic
