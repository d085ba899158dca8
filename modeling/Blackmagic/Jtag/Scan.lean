import Blackmagic.Lib.Effect

/-!
# The scan chain: `jtag_scan.c` over the clocks of `jtagtap.c`

The probe drives TMS and TDI, clocks, and reads TDO; what answers is any wire. Buffers are the lists
of their bits, the lowest bit of the first byte first.
-/

namespace Blackmagic

open Effect

namespace Jtag

/-! ## The wire: `jtagtap.c` -/

/-- What is at the other end: a clock with TMS and TDI gives TDO. -/
structure Wire (σ : Type) where
  clock : σ → Bool → Bool → Bool × σ

section
variable {σ : Type} (w : Wire σ)

/-- `jtagtap_next`. -/
def jtagtapNext (tms tdi : Bool) (x : σ) : Bool × σ := w.clock x tms tdi

/-- Clocks with TDI high and the values of TMS in turn. -/
def tmsBits : List Bool → σ → σ
  | [], x => x
  | tms :: bits, x => tmsBits bits (w.clock x tms true).2

/-- `jtagtap_tms_seq`. -/
def jtagtapTmsSeq (tmsStates : Nat) (ticks : Nat) (x : σ) : σ :=
  tmsBits w ((List.range ticks).map tmsStates.testBit) x

/-- `jtagtap_tdi_tdo_seq`: TMS is `finalTms` in the last clock. -/
def jtagtapTdiTdoSeq (finalTms : Bool) : List Bool → σ → List Bool × σ
  | [], x => ([], x)
  | [b], x => ([(w.clock x finalTms b).1], (w.clock x finalTms b).2)
  | b :: b' :: bits, x =>
    let rest := jtagtapTdiTdoSeq finalTms (b' :: bits) (w.clock x false b).2
    ((w.clock x false b).1 :: rest.1, rest.2)

/-- `jtagtap_tdi_seq`. -/
def jtagtapTdiSeq (finalTms : Bool) (bits : List Bool) (x : σ) : σ :=
  (jtagtapTdiTdoSeq w finalTms bits x).2

/-- The clocks that `jtagtap_init` makes. -/
def jtagtapInit (x : σ) : σ :=
  jtagtapTmsSeq w 0xe73c 16 ((fun x => (jtagtapNext w true false x).2)^[51] x)

/-- `jtagtap_soft_reset`. -/
def jtagtapSoftReset (x : σ) : σ := jtagtapTmsSeq w 0x1f 6 x

/-- `jtagtap_shift_ir`. -/
def jtagtapShiftIr (x : σ) : σ := jtagtapTmsSeq w 3 4 x

/-- `jtagtap_shift_dr`. -/
def jtagtapShiftDr (x : σ) : σ := jtagtapTmsSeq w 1 3 x

/-- `jtagtap_return_idle`. -/
def jtagtapReturnIdle (cycles : Nat) (x : σ) : σ := jtagtapTmsSeq w 1 (cycles + 1) x

end

/-! ## The devices: `jtag_scan.h`, `jtag_devs.c` -/

/-- `JTAG_MAX_DEVS`. -/
abbrev jtagMaxDevs : Nat := 32

/-- `JTAG_MAX_IR_LEN`. -/
abbrev jtagMaxIrLen : Nat := 32

/-- `jtag_dev_s`. -/
structure JtagDev where
  jdIdcode : UInt32
  currentIr : UInt32
  drPrescan : UInt8
  drPostscan : UInt8
  irLen : UInt8
  irPrescan : UInt8
  irPostscan : UInt8
deriving DecidableEq

/-- `jtag_ir_quirks_s`. -/
structure IrQuirks where
  irValue : UInt32
  irLength : UInt8
deriving DecidableEq

/-- `jtag_dev_descr_s`. -/
structure DevDescr where
  idcode : UInt32
  idmask : UInt32
  irQuirks : IrQuirks

def noQuirks : IrQuirks := ⟨0, 0⟩

/-- `dev_descr`, up to its end marker, as it is built here: with debug texts, and without the Xilinx
parts, RISC-V and the parts of other Cortex profiles. -/
def devDescr : List DevDescr :=
  [⟨0x0ba00477, 0x0fff0fff, noQuirks⟩, ⟨0x00000477, 0x00000fff, noQuirks⟩,
    ⟨0x06410041, 0x0fffffff, noQuirks⟩, ⟨0x06412041, 0x0fffffff, noQuirks⟩,
    ⟨0x06414041, 0x0fffffff, noQuirks⟩, ⟨0x06416041, 0x0fffffff, noQuirks⟩,
    ⟨0x06418041, 0x0fffffff, noQuirks⟩, ⟨0x06420041, 0x0fffffff, noQuirks⟩,
    ⟨0x06428041, 0x0fffffff, noQuirks⟩,
    ⟨0x06411041, 0xffffffff, noQuirks⟩, ⟨0x06422041, 0xffffffff, noQuirks⟩,
    ⟨0x06413041, 0xffffffff, noQuirks⟩,
    ⟨0x00000041, 0x00000fff, noQuirks⟩, ⟨0x0bb11477, 0xffffffff, noQuirks⟩,
    ⟨0x000007a3, 0x00000fff, noQuirks⟩,
    ⟨0x8940303f, 0xffffffff, noQuirks⟩, ⟨0x0792603f, 0xffffffff, noQuirks⟩,
    ⟨0x20270013, 0xffffffff, noQuirks⟩,
    ⟨0x07b7617f, 0xffffffff, noQuirks⟩]

/-- `jtag_device_get_quirks`. -/
def jtagDeviceGetQuirks (idcode : UInt32) : IrQuirks :=
  match devDescr.find? fun descr => idcode &&& descr.idmask == descr.idcode with
  | some descr => descr.irQuirks
  | none => noQuirks

/-! ## The scan: `jtag_scan.c` -/

/-- How a run stops short: an index outside of an array, or no end within the clocks it was
given. -/
inductive Stop
  | outOfBounds
  | notYet
deriving DecidableEq

/-- `jtag_devs`, `jtag_dev_count` and the wire. -/
structure Probe (σ : Type) where
  devs : Fin jtagMaxDevs → JtagDev
  count : Nat
  wire : σ

abbrev JtagM (σ : Type) := EStateM Stop (Probe σ)

section
variable {σ : Type}

/-- Clocks on the wire. -/
def onWire {α : Type} (f : σ → α × σ) : JtagM σ α :=
  fun s => .ok (f s.wire).1 { s with wire := (f s.wire).2 }

def onWire' (f : σ → σ) : JtagM σ Unit := fun s => .ok () { s with wire := f s.wire }

/-- `jtag_devs[i]` is read. -/
def getDev (i : Nat) : JtagM σ JtagDev := fun s =>
  if h : i < jtagMaxDevs then .ok (s.devs ⟨i, h⟩) s else .error .outOfBounds s

/-- `jtag_devs[i]` is written. -/
def modifyDev (i : Nat) (f : JtagDev → JtagDev) : JtagM σ Unit := fun s =>
  if h : i < jtagMaxDevs then .ok ()
    { s with devs := Function.update s.devs ⟨i, h⟩ (f (s.devs ⟨i, h⟩)) }
  else .error .outOfBounds s

/-- `jtag_dev_count` is written. -/
def setCount (count : Nat) : JtagM σ Unit := modify fun s => { s with count := count }

/-- A word from its bits. -/
def bitsNat (bits : List Bool) : Nat := bits.foldr (fun b n => b.toNat + 2 * n) 0

/-- The buffer `ones`. -/
def ones : List Bool := List.replicate 64 true

variable (w : Wire σ)

/-- The loop of `jtag_read_idcodes`, with `n` rounds left. -/
def readIdcodesLoop : Nat → Nat → JtagM σ (Option Nat)
  | 0, device => return some device
  | n + 1, device => do
    let bits ← onWire (jtagtapTdiTdoSeq w false (ones.take 32))
    let idcode := UInt32.ofNat (bitsNat bits)
    if idcode = 0xffffffff then return some device
    else if device = jtagMaxDevs then do
      setCount 0
      return none
    else do
      modifyDev device fun d => { d with jdIdcode := idcode }
      readIdcodesLoop n (device + 1)

/-- `jtag_read_idcodes`. -/
def jtagReadIdcodes : JtagM σ Bool := do
  onWire' (jtagtapShiftDr w)
  let device ← readIdcodesLoop w (jtagMaxDevs + 1) 0
  match device with
  | none => return false
  | some device => do
    let _ ← onWire (jtagtapNext w true true)
    onWire' (jtagtapReturnIdle w 1)
    setCount device
    return true

/-- The bit of an instruction register that has a quirk is not the expected one. -/
def irMismatch (quirks : IrQuirks) (irLen : Nat) (nextBit : Bool) : Bool :=
  quirks.irLength != 0 && quirks.irValue.toNat.testBit irLen != nextBit

/-- After `irLen` bits the next device has begun. -/
def irBoundary (quirks : IrQuirks) (irLen : Nat) (nextBit : Bool) : Bool :=
  (quirks.irLength == 0 && nextBit && decide (1 < irLen)) || irLen == quirks.irLength.toNat

/-- The loop of `jtag_read_irs`: the length it is left with, or `none` when a bit does not match. -/
def readIrsLoop : Nat → Nat → Nat → Nat → IrQuirks → JtagM σ (Option Nat)
  | 0, _, _, _, _ => throw .notYet
  | fuel + 1, prescan, device, irLen, quirks =>
    if irLen ≤ jtagMaxIrLen then do
      let nextBit ← onWire (jtagtapNext w false true)
      if irMismatch quirks irLen nextBit then return none
      else if irBoundary quirks (irLen + 1) nextBit then
        if quirks.irLength = 0 ∧ irLen + 1 = 2 then return some (irLen + 1)
        else do
          let overrun := if quirks.irLength ≠ 0 then 0 else 1
          let deviceIr := irLen + 1 - overrun
          modifyDev device fun d =>
            { d with irLen := UInt8.ofNat deviceIr, irPrescan := UInt8.ofNat prescan, currentIr :=
              0xffffffff }
          let next ← getDev (device + 1)
          readIrsLoop fuel (prescan + deviceIr) (device + 1) overrun
            (jtagDeviceGetQuirks next.jdIdcode)
      else readIrsLoop fuel prescan device (irLen + 1) quirks
    else return some irLen

/-- `jtag_read_irs`. -/
def jtagReadIrs (fuel : Nat) : JtagM σ Bool := do
  onWire' (jtagtapShiftIr w)
  let first ← getDev 0
  let irLen ← readIrsLoop w fuel 0 0 0 (jtagDeviceGetQuirks first.jdIdcode)
  match irLen with
  | none => do
    setCount 0
    return false
  | some irLen =>
    if jtagMaxIrLen < irLen then do
      setCount 0
      return false
    else return true

/-- The loop of `jtag_sanity_check`, with `n` rounds left. -/
def sanityLoop (count : Nat) : Nat → Nat → JtagM σ Nat
  | 0, device => return device
  | n + 1, device => do
    let bit ← onWire (jtagtapNext w false true)
    if bit then return device
    else do
      modifyDev device fun d =>
        { d with
          drPrescan := UInt8.ofNat device
          drPostscan := (UInt32.ofNat count - UInt32.ofNat device - 1).toUInt8 }
      sanityLoop count n (device + 1)

/-- `jtag_sanity_check`. -/
def jtagSanityCheck : JtagM σ Bool := do
  onWire' (jtagtapShiftDr w)
  let s ← get
  let device ← sanityLoop w s.count (s.count + 1) 0
  if device ≠ s.count then do
    setCount 0
    return false
  else do
    let _ ← onWire (jtagtapNext w true true)
    onWire' (jtagtapReturnIdle w 1)
    return s.count != 0

/-- The loop that fills in `ir_postscan`, from the last device back. -/
def postscanLoop : Nat → UInt8 → JtagM σ Unit
  | 0, _ => return ()
  | idx + 1, postscan => do
    modifyDev idx fun d => { d with irPostscan := postscan }
    let d ← getDev idx
    postscanLoop idx (postscan + d.irLen)

/-- What `jtag_scan` does up to the end of its sanity check: `true` when it goes on. -/
def jtagScanChain (fuel : Nat) : JtagM σ Bool := do
  modify fun s => { s with devs := fun _ => ⟨0, 0, 0, 0, 0, 0, 0⟩, count := 0 }
  onWire' (jtagtapInit w)
  onWire' (jtagtapSoftReset w)
  let idcodes ← jtagReadIdcodes w
  if idcodes then do
    let irs ← jtagReadIrs w fuel
    if irs then do
      let _ ← onWire (jtagtapNext w true true)
      onWire' (jtagtapReturnIdle w 1)
      jtagSanityCheck w
    else return false
  else return false

/-- `jtag_scan`, up to the handlers of the devices that were found. -/
def jtagScan (fuel : Nat) : JtagM σ Bool := do
  let proceeds ← jtagScanChain w fuel
  if proceeds then do
    let s ← get
    postscanLoop s.count 0
    return s.count != 0
  else return false

end

end Jtag

end Blackmagic
