import Blackmagic.Lib.Effect

/-!
# Bits on pins: `jtagtap.c` and `swdptap.c`

Each sequence of clocks has a variant with delays and one without, which orders its steps for speed
and leaves the clock high between two cycles. A pin is a level, and what can be seen from outside is
a log of edges and samples; how long things take is left out. Without delays, a JTAG sequence does
what the other variant does from the bus with TCK low (`lowered`), which is how it is left in the
end; TCK is low between any two calls once `jtagtap_init` was called.
-/

namespace Blackmagic.BitBang

open Effect

/-! ## The pins: `platform.h` -/

/-- TCK is SWCLK, TMS is SWDIO. -/
inductive Pin
  | tck
  | tms
  | tdi
  deriving DecidableEq, Repr

/-- What is seen at the pins: a rising edge of TCK with TMS and TDI as they are then, a falling
edge, a sample of TDO or of SWDIO, and SWDIO let go or driven again. -/
inductive Event
  | rise (tms tdi : Bool)
  | fall
  | sampleTdo
  | sampleSwdio
  | swdioFloat
  | swdioDrive
  deriving DecidableEq, Repr

/-- What the target answers after all that it saw. -/
structure Target where
  tdo : List Event → Bool
  swdio : List Event → Bool

/-- The levels of the pins, what was seen there, the memory with the buffers, and whether SWDIO was
driven last. -/
structure Bus where
  tck : Bool
  tms : Bool
  tdi : Bool
  events : List Event
  mem : Nat → UInt8
  olddir : Bool

/-- Programs on the bus; none is left early. -/
abbrev BusM := EStateM Empty Bus

/-- An event. -/
def Bus.log (b : Bus) (e : Event) : Bus := { b with events := b.events ++ [e] }

/-- A pin is set to a level; a clock that has it already makes no edge. -/
def Bus.setLevel (b : Bus) : Pin → Bool → Bus
  | .tck, high =>
    if b.tck = high then b
    else { b.log (if high then .rise b.tms b.tdi else .fall) with tck := high }
  | .tms, high => { b with tms := high }
  | .tdi, high => { b with tdi := high }

/-- `gpio_set_val`: any value but zero is high. -/
def gpioSetVal (pin : Pin) (value : UInt32) : BusM Unit :=
  modify fun b => b.setLevel pin (value != 0)

/-- `gpio_set`. -/
def gpioSet (pin : Pin) : BusM Unit := gpioSetVal pin 1

/-- `gpio_clear`. -/
def gpioClear (pin : Pin) : BusM Unit := gpioSetVal pin 0

/-- A byte of a buffer is read. -/
def load (addr : Nat) : BusM UInt8 := fun b => .ok (b.mem addr) b

/-- A byte of a buffer is written. -/
def store (addr : Nat) (value : UInt8) : BusM Unit :=
  modify fun b => { b with mem := Function.update b.mem addr value }

section
variable (target : Target)

/-- `gpio_get` of TDO. -/
def getTdo : BusM Bool := fun b => .ok (target.tdo b.events) (b.log .sampleTdo)

/-- `gpio_get` of SWDIO. -/
def getSwdio : BusM Bool := fun b => .ok (target.swdio b.events) (b.log .sampleSwdio)

/-- `SWDIO_MODE_FLOAT`. -/
def swdioModeFloat : BusM Unit := modify fun b => b.log .swdioFloat

/-- `SWDIO_MODE_DRIVE`. -/
def swdioModeDrive : BusM Unit := modify fun b => b.log .swdioDrive

/-! ## JTAG: `jtagtap.c` -/

/-- A clock of `jtagtap_next`, in both variants: they differ in their delays only. -/
def jtagtapNextClkDelay : BusM Bool := do
  gpioSet .tck
  let result ← getTdo target
  gpioClear .tck
  return result

def jtagtapNextNoDelay : BusM Bool := do
  gpioSet .tck
  let result ← getTdo target
  gpioClear .tck
  return result

/-- `jtagtap_next`, with `target_clk_divider`. -/
def jtagtapNext (divider : UInt32) (tms tdi : Bool) : BusM Bool := do
  gpioSetVal .tms tms.toUInt32
  gpioSetVal .tdi tdi.toUInt32
  if divider ≠ 0xffffffff then jtagtapNextClkDelay target else jtagtapNextNoDelay target

/-- `jtagtap_tms_seq_clk_delay`, with some cycles left. -/
def jtagtapTmsSeqClkDelay : (tmsStates : UInt32) → (cyclesLeft : Nat) → BusM Unit
  | _, 0 => pure ()
  | tmsStates, left + 1 => do
    let state := tmsStates &&& 1 != 0
    gpioSetVal .tms state.toUInt32
    gpioSet .tck
    gpioClear .tck
    jtagtapTmsSeqClkDelay (tmsStates >>> 1) left

/-- The loop of `jtagtap_tms_seq_no_delay`: the state of a cycle is found in the one before. -/
def tmsLoopNoDelay : (tmsStates : UInt32) → (state : Bool) → (cyclesLeft : Nat) → BusM Unit
  | _, _, 0 => pure ()
  | tmsStates, state, left + 1 => do
    gpioSetVal .tms state.toUInt32
    gpioSet .tck
    let tmsStates := tmsStates >>> 1
    gpioClear .tck
    tmsLoopNoDelay tmsStates (tmsStates &&& 1 != 0) left

/-- `jtagtap_tms_seq_no_delay`. -/
def jtagtapTmsSeqNoDelay (tmsStates : UInt32) (clockCycles : Nat) : BusM Unit :=
  tmsLoopNoDelay tmsStates (tmsStates &&& 1 != 0) clockCycles

/-- `jtagtap_tms_seq`. -/
def jtagtapTmsSeq (divider tmsStates : UInt32) (ticks : Nat) : BusM Unit := do
  gpioSet .tdi
  if divider ≠ 0xffffffff then jtagtapTmsSeqClkDelay tmsStates ticks
    else jtagtapTmsSeqNoDelay tmsStates ticks

/-- `data_in[byte] & (1U << bit)`, where `data_in[byte]` has been read. -/
def dataBit (data : UInt8) (cycle : Nat) : UInt32 :=
  data.toUInt32 &&& (1 <<< UInt32.ofNat (cycle &&& 7))

/-- The value that is collected, with the sample of a cycle. -/
def collect (value : UInt8) (cycle : Nat) (tdo : Bool) : UInt8 :=
  if tdo then value ||| (1 <<< UInt8.ofNat (cycle &&& 7)) else value

/-- TMS in a cycle. -/
def finalState (clockCycles cycle : Nat) (finalTms : Bool) : Bool :=
  decide (clockCycles ≤ cycle + 1) && finalTms

/-- A whole byte is stored, and the value begins anew. -/
def storeWhole (dataOut cycle : Nat) (value : UInt8) : BusM UInt8 :=
  if cycle &&& 7 = 7 then do
    store (dataOut + cycle >>> 3) value
    return 0
  else return value

/-- What is left of the value is stored. -/
def storeRest (dataOut clockCycles : Nat) (value : UInt8) : BusM Unit :=
  if clockCycles &&& 7 ≠ 0 then store (dataOut + (clockCycles - 1) >>> 3) value else pure ()

/-- The loop of `jtagtap_tdi_tdo_seq_clk_delay`, with some cycles left. -/
def tdiTdoLoopClkDelay (dataIn dataOut : Nat) (finalTms : Bool) (clockCycles : Nat) :
    (cyclesLeft cycle : Nat) → (value : UInt8) → BusM UInt8
  | 0, _, value => return value
  | left + 1, cycle, value => do
    gpioSetVal .tms (finalState clockCycles cycle finalTms).toUInt32
    let data ← load (dataIn + cycle >>> 3)
    gpioSetVal .tdi (dataBit data cycle)
    gpioSet .tck
    let tdo ← getTdo target
    let value ← storeWhole dataOut cycle (collect value cycle tdo)
    gpioClear .tck
    tdiTdoLoopClkDelay dataIn dataOut finalTms clockCycles left (cycle + 1) value

/-- `jtagtap_tdi_tdo_seq_clk_delay`. -/
def jtagtapTdiTdoSeqClkDelay (dataIn dataOut : Nat) (finalTms : Bool) (clockCycles : Nat) :
    BusM Unit := do
  let value ← tdiTdoLoopClkDelay target dataIn dataOut finalTms clockCycles clockCycles 0 0
  storeRest dataOut clockCycles value

/-- The loop of `jtagtap_tdi_tdo_seq_no_delay`: a cycle is finished at the start of the next one. -/
def tdiTdoLoopNoDelay (dataIn dataOut : Nat) (finalTms : Bool) (clockCycles : Nat) :
    (cyclesLeft cycle : Nat) → (value : UInt8) → BusM UInt8
  | 0, _, value => return value
  | left + 1, cycle, value => do
    let tms := finalState clockCycles cycle finalTms
    let data ← load (dataIn + cycle >>> 3)
    let tdi := dataBit data cycle != 0
    gpioClear .tck
    gpioSetVal .tdi tdi.toUInt32
    gpioSetVal .tms tms.toUInt32
    gpioSet .tck
    let tdo ← getTdo target
    let value ← storeWhole dataOut cycle (collect value cycle tdo)
    tdiTdoLoopNoDelay dataIn dataOut finalTms clockCycles left (cycle + 1) value

/-- `jtagtap_tdi_tdo_seq_no_delay`. -/
def jtagtapTdiTdoSeqNoDelay (dataIn dataOut : Nat) (finalTms : Bool) (clockCycles : Nat) :
    BusM Unit := do
  let value ← tdiTdoLoopNoDelay target dataIn dataOut finalTms clockCycles clockCycles 0 0
  storeRest dataOut clockCycles value
  gpioClear .tck

/-- `jtagtap_tdi_tdo_seq`. -/
def jtagtapTdiTdoSeq (divider : UInt32) (dataOut : Nat) (finalTms : Bool)
    (dataIn clockCycles : Nat) : BusM Unit := do
  gpioClear .tms
  gpioClear .tdi
  if divider ≠ 0xffffffff then jtagtapTdiTdoSeqClkDelay target dataIn dataOut finalTms clockCycles
  else jtagtapTdiTdoSeqNoDelay target dataIn dataOut finalTms clockCycles

/-- `jtagtap_tdi_seq_clk_delay`, with some cycles left. -/
def tdiLoopClkDelay (dataIn : Nat) (finalTms : Bool) (clockCycles : Nat) :
    (cyclesLeft cycle : Nat) → BusM Unit
  | 0, _ => pure ()
  | left + 1, cycle => do
    gpioSetVal .tms (finalState clockCycles cycle finalTms).toUInt32
    let data ← load (dataIn + cycle >>> 3)
    gpioSetVal .tdi (dataBit data cycle)
    gpioSet .tck
    gpioClear .tck
    tdiLoopClkDelay dataIn finalTms clockCycles left (cycle + 1)

def jtagtapTdiSeqClkDelay (dataIn : Nat) (finalTms : Bool) (clockCycles : Nat) : BusM Unit :=
  tdiLoopClkDelay dataIn finalTms clockCycles clockCycles 0

/-- The loop of `jtagtap_tdi_seq_no_delay`. -/
def tdiLoopNoDelay (dataIn : Nat) (finalTms : Bool) (clockCycles : Nat) :
    (cyclesLeft cycle : Nat) → BusM Unit
  | 0, _ => pure ()
  | left + 1, cycle => do
    let tms := finalState clockCycles cycle finalTms
    let data ← load (dataIn + cycle >>> 3)
    let tdi := dataBit data cycle != 0
    gpioClear .tck
    gpioSetVal .tms tms.toUInt32
    gpioSetVal .tdi tdi.toUInt32
    gpioSet .tck
    tdiLoopNoDelay dataIn finalTms clockCycles left (cycle + 1)

/-- `jtagtap_tdi_seq_no_delay`. -/
def jtagtapTdiSeqNoDelay (dataIn : Nat) (finalTms : Bool) (clockCycles : Nat) : BusM Unit := do
  tdiLoopNoDelay dataIn finalTms clockCycles clockCycles 0
  gpioClear .tck

/-- `jtagtap_tdi_seq`. -/
def jtagtapTdiSeq (divider : UInt32) (finalTms : Bool) (dataIn clockCycles : Nat) : BusM Unit := do
  gpioClear .tms
  if divider ≠ 0xffffffff then jtagtapTdiSeqClkDelay dataIn finalTms clockCycles
  else jtagtapTdiSeqNoDelay dataIn finalTms clockCycles

/-- The clocks of `jtagtap_cycle`, in both variants: they differ in their delays only. -/
def cycleClocks : (cyclesLeft : Nat) → BusM Unit
  | 0 => pure ()
  | left + 1 => do
    gpioSet .tck
    gpioClear .tck
    cycleClocks left

/-- `jtagtap_cycle`; no cycles at all are one too few. -/
def jtagtapCycle (divider : UInt32) (tms tdi : Bool) (clockCycles : UInt32) : BusM Unit := do
  let _ ← jtagtapNext target divider tms tdi
  cycleClocks (clockCycles - 1).toNat

/-- `jtagtap_init`. -/
def jtagtapInit (divider : UInt32) : BusM Unit := do
  forM (List.range 51) fun _ => do
    let _ ← jtagtapNext target divider true false
  jtagtapTmsSeq divider 0xe73c 16

/-- `jtagtap_reset`. -/
def jtagtapReset (divider : UInt32) : BusM Unit := jtagtapTmsSeq divider 0x1f 6

/-! ## SWD: `swdptap.c` -/

/-- `swdptap_turnaround`. -/
def swdptapTurnaround (drive : Bool) : BusM Unit := do
  let b ← get
  if drive = b.olddir then pure ()
  else do
    set { b with olddir := drive }
    if drive then gpioClear .tck else swdioModeFloat
    gpioSet .tck
    if drive then do
      gpioClear .tck
      swdioModeDrive
    else pure ()

/-- The loop of `swdptap_seq_in`, in both variants: they differ in their delays only. -/
def seqInLoopClkDelay : (cyclesLeft cycle : Nat) → (value : UInt32) → BusM UInt32
  | 0, _, value => return value
  | left + 1, cycle, value => do
    gpioClear .tck
    let bit ← getSwdio target
    let value := value ||| if bit then 1 <<< UInt32.ofNat cycle else 0
    gpioSet .tck
    seqInLoopClkDelay left (cycle + 1) value

def seqInLoopNoDelay : (cyclesLeft cycle : Nat) → (value : UInt32) → BusM UInt32
  | 0, _, value => return value
  | left + 1, cycle, value => do
    gpioClear .tck
    let bit ← getSwdio target
    let value := value ||| if bit then 1 <<< UInt32.ofNat cycle else 0
    gpioSet .tck
    seqInLoopNoDelay left (cycle + 1) value

/-- `swdptap_seq_in_clk_delay`. -/
def swdptapSeqInClkDelay (clockCycles : Nat) : BusM UInt32 := do
  let value ← seqInLoopClkDelay target clockCycles 0 0
  gpioClear .tck
  return value

/-- `swdptap_seq_in_no_delay`. -/
def swdptapSeqInNoDelay (clockCycles : Nat) : BusM UInt32 := do
  let value ← seqInLoopNoDelay target clockCycles 0 0
  gpioClear .tck
  return value

/-- `swdptap_seq_in`. -/
def swdptapSeqIn (divider : UInt32) (clockCycles : Nat) : BusM UInt32 := do
  swdptapTurnaround false
  if divider ≠ 0xffffffff then swdptapSeqInClkDelay target clockCycles
    else swdptapSeqInNoDelay target clockCycles

/-- `calculate_odd_parity`. -/
def calculateOddParity (value : UInt32) : Bool :=
  (List.range 32).foldl (fun p i => p ^^ value.toNat.testBit i) false

/-- `swdptap_seq_in_parity`: whether the parity is wrong, and the value. -/
def swdptapSeqInParity (divider : UInt32) (clockCycles : Nat) : BusM (Bool × UInt32) := do
  let result ← swdptapSeqIn target divider clockCycles
  let bit ← getSwdio target
  gpioSet .tck
  swdptapTurnaround true
  return (calculateOddParity result != bit, result)

/-- The loop of `swdptap_seq_out`, in both variants: they differ in their delays only. -/
def seqOutLoopClkDelay (tmsStates : UInt32) : (cyclesLeft cycle : Nat) → BusM Unit
  | 0, _ => pure ()
  | left + 1, cycle => do
    gpioClear .tck
    gpioSetVal .tms (tmsStates &&& (1 <<< UInt32.ofNat cycle))
    gpioSet .tck
    seqOutLoopClkDelay tmsStates left (cycle + 1)

def seqOutLoopNoDelay (tmsStates : UInt32) : (cyclesLeft cycle : Nat) → BusM Unit
  | 0, _ => pure ()
  | left + 1, cycle => do
    gpioClear .tck
    gpioSetVal .tms (tmsStates &&& (1 <<< UInt32.ofNat cycle))
    gpioSet .tck
    seqOutLoopNoDelay tmsStates left (cycle + 1)

/-- `swdptap_seq_out_clk_delay`. -/
def swdptapSeqOutClkDelay (tmsStates : UInt32) (clockCycles : Nat) : BusM Unit := do
  seqOutLoopClkDelay tmsStates clockCycles 0
  gpioClear .tck

/-- `swdptap_seq_out_no_delay`. -/
def swdptapSeqOutNoDelay (tmsStates : UInt32) (clockCycles : Nat) : BusM Unit := do
  seqOutLoopNoDelay tmsStates clockCycles 0
  gpioClear .tck

/-- `swdptap_seq_out`. -/
def swdptapSeqOut (divider tmsStates : UInt32) (clockCycles : Nat) : BusM Unit := do
  swdptapTurnaround true
  if divider ≠ 0xffffffff then swdptapSeqOutClkDelay tmsStates clockCycles
  else swdptapSeqOutNoDelay tmsStates clockCycles

/-- `swdptap_seq_out_parity`. -/
def swdptapSeqOutParity (divider tmsStates : UInt32) (clockCycles : Nat) : BusM Unit := do
  let parity := calculateOddParity tmsStates
  swdptapSeqOut divider tmsStates clockCycles
  gpioSetVal .tms parity.toUInt32
  gpioSet .tck
  gpioClear .tck

/-! ## Runs -/

/-- A call of the interfaces `jtag_proc` and `swd_proc`, or of `jtagtap_init`. -/
inductive Call
  | init
  | reset
  | next (tms tdi : Bool)
  | tmsSeq (tmsStates : UInt32) (ticks : Nat)
  | tdiTdoSeq (dataOut : Nat) (finalTms : Bool) (dataIn clockCycles : Nat)
  | tdiSeq (finalTms : Bool) (dataIn clockCycles : Nat)
  | cycle (tms tdi : Bool) (clockCycles : UInt32)
  | seqIn (clockCycles : Nat)
  | seqInParity (clockCycles : Nat)
  | seqOut (tmsStates : UInt32) (clockCycles : Nat)
  | seqOutParity (tmsStates : UInt32) (clockCycles : Nat)
  /-- Another part of the program writes to a buffer. -/
  | write (addr : Nat) (value : UInt8)
  deriving DecidableEq, Repr

/-- A call is made, with `target_clk_divider`. -/
def perform (divider : UInt32) : Call → BusM Unit
  | .init => jtagtapInit target divider
  | .reset => jtagtapReset divider
  | .next tms tdi => do
    let _ ← jtagtapNext target divider tms tdi
  | .tmsSeq tmsStates ticks => jtagtapTmsSeq divider tmsStates ticks
  | .tdiTdoSeq dataOut finalTms dataIn clockCycles =>
      jtagtapTdiTdoSeq target divider dataOut finalTms dataIn clockCycles
  | .tdiSeq finalTms dataIn clockCycles => jtagtapTdiSeq divider finalTms dataIn clockCycles
  | .cycle tms tdi clockCycles => jtagtapCycle target divider tms tdi clockCycles
  | .seqIn clockCycles => do
    let _ ← swdptapSeqIn target divider clockCycles
  | .seqInParity clockCycles => do
    let _ ← swdptapSeqInParity target divider clockCycles
  | .seqOut tmsStates clockCycles => swdptapSeqOut divider tmsStates clockCycles
  | .seqOutParity tmsStates clockCycles => swdptapSeqOutParity divider tmsStates clockCycles
  | .write addr value => store addr value

/-- `jtagtap_init` and the calls after it, each with the divider of its time. -/
def session (divider : UInt32) (calls : List (UInt32 × Call)) : BusM Unit := do
  jtagtapInit target divider
  forM calls fun (divider, call) => perform target divider call

end

/-! ## The bus with TCK low -/

/-- The bus after `gpio_clear` of TCK. -/
def Bus.lowered (b : Bus) : Bus := b.setLevel .tck false

/-- A clock with TMS and TDI rises. -/
def Bus.raised (b : Bus) (tms tdi : Bool) : Bus :=
  ((b.setLevel .tms tms).setLevel .tdi tdi).setLevel .tck true

section
variable {b : Bus} {target : Target}

/-- A program on the bus runs to its end. -/
theorem exists_run {α : Type} (m : BusM α) (b : Bus) : ∃ a b', m b = .ok a b' := by
  cases h : m b with
  | ok a b' => exact ⟨a, b', rfl⟩
  | error e => exact e.elim

/-- A truth value survives the way through a word. -/
theorem toUInt32_bne (v : Bool) : (v.toUInt32 != 0) = v := by
  cases v <;> rfl

/-- A pin set from a truth value takes it. -/
theorem gpioSetVal_bool (pin : Pin) (v : Bool) (b : Bus) :
    gpioSetVal pin v.toUInt32 b = .ok () (b.setLevel pin v) := by
  change EStateM.Result.ok () (b.setLevel pin (v.toUInt32 != 0)) = _
  rw [toUInt32_bne]

@[simp] theorem log_tck (b : Bus) (e : Event) : (b.log e).tck = b.tck := rfl

@[simp] theorem log_mem (b : Bus) (e : Event) : (b.log e).mem = b.mem := rfl

@[simp] theorem log_olddir (b : Bus) (e : Event) : (b.log e).olddir = b.olddir := rfl

@[simp] theorem setLevel_tck (b : Bus) (high : Bool) : (b.setLevel .tck high).tck = high := by
  rw [Bus.setLevel]
  split
  next h => exact h
  next h => rfl

@[simp] theorem setLevel_tms_tck (b : Bus) (high : Bool) : (b.setLevel .tms high).tck = b.tck := rfl

@[simp] theorem setLevel_tdi_tck (b : Bus) (high : Bool) : (b.setLevel .tdi high).tck = b.tck := rfl

@[simp] theorem setLevel_mem (b : Bus) (pin : Pin) (high : Bool) :
    (b.setLevel pin high).mem = b.mem := by
  cases pin with
  | tck =>
    rw [Bus.setLevel]
    split <;> rfl
  | tms => rfl
  | tdi => rfl

@[simp] theorem setLevel_olddir (b : Bus) (pin : Pin) (high : Bool) :
    (b.setLevel pin high).olddir = b.olddir := by
  cases pin with
  | tck =>
    rw [Bus.setLevel]
    split <;> rfl
  | tms => rfl
  | tdi => rfl

@[simp] theorem lowered_tck (b : Bus) : b.lowered.tck = false := setLevel_tck b false

@[simp] theorem lowered_mem (b : Bus) : b.lowered.mem = b.mem := setLevel_mem b .tck false

/-- TCK is lowered before or after the memory is written. -/
theorem lowered_store (b : Bus) (mem : Nat → UInt8) :
    ({ b with mem := mem } : Bus).lowered = { b.lowered with mem := mem } := by
  rw [Bus.lowered, Bus.lowered, Bus.setLevel, Bus.setLevel]
  split <;> rfl

/-- A bus with TCK low is left as it is. -/
theorem lowered_of_low (h : b.tck = false) : b.lowered = b := if_pos h

/-! ### `jtagtap_tms_seq` -/

/-- The state that the variant without delays has ready is the one that the other finds. -/
theorem tmsLoopNoDelay_eq (tmsStates : UInt32) (left : Nat) :
    tmsLoopNoDelay tmsStates (tmsStates &&& 1 != 0) left =
      jtagtapTmsSeqClkDelay tmsStates left := by
  induction left generalizing tmsStates with
  | zero => rfl
  | succ left ih =>
    rw [tmsLoopNoDelay, jtagtapTmsSeqClkDelay]
    simp only [ih]

/-! ### `jtagtap_tdi_tdo_seq` -/

/-- A cycle up to the store, from TCK low. -/
def tdiTdoCycle (target : Target) (dataIn dataOut : Nat) (finalTms : Bool) (clockCycles cycle : Nat)
    (value : UInt8) :
    BusM UInt8 := fun b =>
  let high := b.raised (finalState clockCycles cycle finalTms)
    (dataBit (b.mem (dataIn + cycle >>> 3)) cycle != 0)
  storeWhole dataOut cycle (collect value cycle (target.tdo high.events)) (high.log .sampleTdo)

/-- One turn of the fast loop: the clock is lowered before the cycle. -/
theorem tdiTdoLoopNoDelay_succ (dataIn dataOut : Nat) (finalTms : Bool)
    (clockCycles left cycle : Nat) (value : UInt8) :
    tdiTdoLoopNoDelay target dataIn dataOut finalTms clockCycles (left + 1) cycle value b =
      (tdiTdoCycle target dataIn dataOut finalTms clockCycles cycle value >>=
        tdiTdoLoopNoDelay target dataIn dataOut finalTms clockCycles left (cycle + 1))
          b.lowered := by
  rw [tdiTdoLoopNoDelay]
  refine (run_bind_ok (show load (dataIn + cycle >>> 3) b = .ok _ _ from rfl)).trans ?_
  refine (run_bind_ok (show gpioClear .tck b = .ok () b.lowered from rfl)).trans ?_
  refine (run_bind_ok (gpioSetVal_bool _ _ _)).trans ?_
  refine (run_bind_ok (gpioSetVal_bool _ _ _)).trans ?_
  rw [← lowered_mem b]
  rfl

/-- One turn of the slow loop: the clock is lowered behind it. -/
theorem tdiTdoLoopClkDelay_succ (dataIn dataOut : Nat) (finalTms : Bool)
    (clockCycles left cycle : Nat) (value : UInt8) :
    tdiTdoLoopClkDelay target dataIn dataOut finalTms clockCycles (left + 1) cycle value b =
      (tdiTdoCycle target dataIn dataOut finalTms clockCycles cycle value >>= fun value => do
        gpioClear .tck
        tdiTdoLoopClkDelay target dataIn dataOut finalTms clockCycles left (cycle + 1) value)
          b := by
  rw [tdiTdoLoopClkDelay]
  refine (run_bind_ok (gpioSetVal_bool _ _ _)).trans ?_
  rfl

/-- The loop without delays does what the other one does from the bus with TCK low. -/
theorem projects_tdiTdoLoop (dataIn dataOut : Nat) (finalTms : Bool) (clockCycles left : Nat) :
    ∀ (cycle : Nat) (value : UInt8),
      Projects Bus.lowered
        (tdiTdoLoopNoDelay target dataIn dataOut finalTms clockCycles left cycle value)
        (tdiTdoLoopClkDelay target dataIn dataOut finalTms clockCycles left cycle value) := by
  induction left with
  | zero => exact fun cycle value => projects_pure value
  | succ left ih =>
    intro cycle value b
    obtain ⟨value', b', hcycle⟩ :=
      exists_run (tdiTdoCycle target dataIn dataOut finalTms clockCycles cycle value) b.lowered
    have hdelay : tdiTdoLoopClkDelay target dataIn dataOut finalTms clockCycles (left + 1) cycle
        value b.lowered =
        tdiTdoLoopClkDelay target dataIn dataOut finalTms clockCycles left (cycle + 1) value'
          b'.lowered := by
      rw [tdiTdoLoopClkDelay_succ, run_bind_ok hcycle]
      rfl
    unfold Ends
    rw [tdiTdoLoopNoDelay_succ, run_bind_ok hcycle, hdelay]
    exact ih (cycle + 1) value' b'

/-- The last store does not look at the clock. -/
theorem projects_storeRest (dataOut clockCycles : Nat) (value : UInt8) :
    Projects Bus.lowered (storeRest dataOut clockCycles value)
      (storeRest dataOut clockCycles value) := by
  intro b
  rw [storeRest]
  split
  · have hstore : ∀ addr, store addr value b.lowered =
        .ok () ({ b with mem := Function.update b.mem addr value } : Bus).lowered := by
      intro addr
      refine Eq.trans ?_ (congrArg (EStateM.Result.ok ()) (lowered_store b _).symm)
      change EStateM.Result.ok ()
        { b.lowered with mem := Function.update b.lowered.mem addr value } = _
      rw [lowered_mem]
    exact hstore _
  · rfl

/-- A program that does what another one does from the bus with TCK low does the same as this in the
end, when TCK is low at its start and lowered behind it. -/
theorem then_gpioClear_eq {m' m : BusM Unit} (h : Projects Bus.lowered m' m)
    (hlow : b.tck = false) :
    (do m'; gpioClear .tck) b = m b := by
  obtain ⟨_, b', hrun⟩ := exists_run m' b
  have hproj := (h b).ok hrun
  rw [lowered_of_low hlow] at hproj
  rw [hproj, run_bind_ok hrun]
  rfl

/-- From a low clock the fast scan is the slow one. -/
theorem jtagtapTdiTdoSeqNoDelay_eq (dataIn dataOut : Nat) (finalTms : Bool) (clockCycles : Nat)
    (hlow : b.tck = false) :
    jtagtapTdiTdoSeqNoDelay target dataIn dataOut finalTms clockCycles b =
      jtagtapTdiTdoSeqClkDelay target dataIn dataOut finalTms clockCycles b := by
  have hsame :=
    then_gpioClear_eq ((@projects_tdiTdoLoop target dataIn dataOut finalTms clockCycles clockCycles
    0 0).bind (projects_storeRest dataOut clockCycles)) hlow
  rw [bind_assoc] at hsame
  exact hsame

/-! ### `jtagtap_tdi_seq` -/

/-- One turn of the fast loop without an output buffer. -/
theorem tdiLoopNoDelay_succ (dataIn : Nat) (finalTms : Bool) (clockCycles left cycle : Nat) :
    tdiLoopNoDelay dataIn finalTms clockCycles (left + 1) cycle b =
      tdiLoopNoDelay dataIn finalTms clockCycles left (cycle + 1)
        (b.lowered.raised (finalState clockCycles cycle finalTms)
          (dataBit (b.mem (dataIn + cycle >>> 3)) cycle != 0)) := by
  rw [tdiLoopNoDelay]
  refine (run_bind_ok (show load (dataIn + cycle >>> 3) b = .ok _ _ from rfl)).trans ?_
  refine (run_bind_ok (show gpioClear .tck b = .ok () b.lowered from rfl)).trans ?_
  refine (run_bind_ok (gpioSetVal_bool _ _ _)).trans ?_
  refine (run_bind_ok (gpioSetVal_bool _ _ _)).trans ?_
  rfl

/-- One turn of the slow loop without an output buffer. -/
theorem tdiLoopClkDelay_succ (dataIn : Nat) (finalTms : Bool) (clockCycles left cycle : Nat) :
    tdiLoopClkDelay dataIn finalTms clockCycles (left + 1) cycle b =
      tdiLoopClkDelay dataIn finalTms clockCycles left (cycle + 1)
        (b.raised (finalState clockCycles cycle finalTms)
          (dataBit (b.mem (dataIn + cycle >>> 3)) cycle != 0)).lowered := by
  rw [tdiLoopClkDelay]
  exact run_bind_ok (gpioSetVal_bool _ _ _)

/-- Up to the level of the clock the two loops agree, by induction on the cycles left. -/
theorem projects_tdiLoop (dataIn : Nat) (finalTms : Bool) (clockCycles left : Nat) :
    ∀ cycle : Nat, Projects Bus.lowered (tdiLoopNoDelay dataIn finalTms clockCycles left cycle)
      (tdiLoopClkDelay dataIn finalTms clockCycles left cycle) := by
  induction left with
  | zero => exact fun cycle => projects_pure ()
  | succ left ih =>
    intro cycle b
    unfold Ends
    rw [tdiLoopNoDelay_succ, tdiLoopClkDelay_succ, lowered_mem]
    exact ih (cycle + 1) _

/-- From a low clock the fast scan is the slow one. -/
theorem jtagtapTdiSeqNoDelay_eq (dataIn : Nat) (finalTms : Bool) (clockCycles : Nat)
    (hlow : b.tck = false) :
    jtagtapTdiSeqNoDelay dataIn finalTms clockCycles b =
      jtagtapTdiSeqClkDelay dataIn finalTms clockCycles b :=
  then_gpioClear_eq (projects_tdiLoop dataIn finalTms clockCycles clockCycles 0) hlow

/-! ### SWD -/

/-- The two loops that read the SWD line are one. -/
theorem seqInLoopNoDelay_eq (left cycle : Nat) (value : UInt32) :
    seqInLoopNoDelay target left cycle value = seqInLoopClkDelay target left cycle value := by
  induction left generalizing cycle value with
  | zero => rfl
  | succ left ih =>
    rw [seqInLoopNoDelay, seqInLoopClkDelay]
    simp only [ih]

/-- So are the two that write it. -/
theorem seqOutLoopNoDelay_eq (tmsStates : UInt32) (left cycle : Nat) :
    seqOutLoopNoDelay tmsStates left cycle = seqOutLoopClkDelay tmsStates left cycle := by
  induction left generalizing cycle with
  | zero => rfl
  | succ left ih =>
    rw [seqOutLoopNoDelay, seqOutLoopClkDelay]
    simp only [ih]

/-- The two ways to read the SWD line are one. -/
theorem swdptapSeqInNoDelay_eq (clockCycles : Nat) :
    swdptapSeqInNoDelay target clockCycles = swdptapSeqInClkDelay target clockCycles := by
  rw [swdptapSeqInNoDelay, swdptapSeqInClkDelay, seqInLoopNoDelay_eq]

/-- So are the two ways to write it. -/
theorem swdptapSeqOutNoDelay_eq (tmsStates : UInt32) (clockCycles : Nat) :
    swdptapSeqOutNoDelay tmsStates clockCycles = swdptapSeqOutClkDelay tmsStates clockCycles := by
  rw [swdptapSeqOutNoDelay, swdptapSeqOutClkDelay, seqOutLoopNoDelay_eq]

end

/-! ## How the bus is left -/

/-- A program ends with TCK low and has written nothing outside of a range. -/
def Leaves {α : Type} (m : BusM α) (b : Bus) (written : Nat → Prop) : Prop :=
  Ends m b (fun _ b' => b'.tck = false ∧ ∀ a, ¬ written a → b'.mem a = b.mem a) fun _ _ => False

section
variable {b : Bus} {target : Target} {Q : Unit → Bus → Prop} {E : Empty → Bus → Prop}

@[simp] theorem ends_gpioSetVal (pin : Pin) (value : UInt32) :
    Ends (gpioSetVal pin value) b Q E ↔ Q () (b.setLevel pin (value != 0)) := Iff.rfl

@[simp] theorem ends_gpioSet (pin : Pin) : Ends (gpioSet pin) b Q E ↔ Q () (b.setLevel pin true) :=
  Iff.rfl

@[simp] theorem ends_gpioClear (pin : Pin) :
    Ends (gpioClear pin) b Q E ↔ Q () (b.setLevel pin false) := Iff.rfl

@[simp] theorem ends_load {Q : UInt8 → Bus → Prop} (addr : Nat) :
    Ends (load addr) b Q E ↔ Q (b.mem addr) b := Iff.rfl

@[simp] theorem ends_store (addr : Nat) (value : UInt8) :
    Ends (store addr value) b Q E ↔ Q () { b with mem := Function.update b.mem addr value } :=
  Iff.rfl

@[simp] theorem ends_getTdo {Q : Bool → Bus → Prop} :
    Ends (getTdo target) b Q E ↔ Q (target.tdo b.events) (b.log .sampleTdo) := Iff.rfl

@[simp] theorem ends_getSwdio {Q : Bool → Bus → Prop} :
    Ends (getSwdio target) b Q E ↔ Q (target.swdio b.events) (b.log .sampleSwdio) := Iff.rfl

@[simp] theorem ends_swdioModeFloat : Ends swdioModeFloat b Q E ↔ Q () (b.log .swdioFloat) :=
  Iff.rfl

@[simp] theorem ends_swdioModeDrive : Ends swdioModeDrive b Q E ↔ Q () (b.log .swdioDrive) :=
  Iff.rfl

/-- The steps before a program have written nothing else either. -/
theorem Leaves.after {α : Type} {m : BusM α} {b₀ : Bus} {written : Nat → Prop}
    (h : Leaves m b written) (hmem : ∀ a, ¬ written a → b.mem a = b₀.mem a) :
    Ends m b (fun _ b' => b'.tck = false ∧ ∀ a, ¬ written a → b'.mem a = b₀.mem a) fun _ _ =>
      False :=
  h.imp (fun _ _ ⟨hlow, hmem'⟩ => ⟨hlow, fun a ha => (hmem' a ha).trans (hmem a ha)⟩) fun _ _ h => h

/-- The bytes that hold a number of bits. -/
def bufferOf (dataOut clockCycles a : Nat) : Prop :=
  dataOut ≤ a ∧ a < dataOut + (clockCycles + 7) / 8

/-- A TMS sequence leaves the clock low and the buffers alone. -/
theorem leaves_tmsSeq (tmsStates : UInt32) (left : Nat) (written : Nat → Prop) :
    ∀ b : Bus, b.tck = false → Leaves (jtagtapTmsSeqClkDelay tmsStates left) b written := by
  induction left generalizing tmsStates with
  | zero => exact fun b hlow => ⟨hlow, fun _ _ => rfl⟩
  | succ left ih =>
    intro b _
    unfold Leaves
    rw [jtagtapTmsSeqClkDelay]
    simp only [ends_bind, ends_gpioSetVal, ends_gpioSet, ends_gpioClear]
    exact (ih (tmsStates >>> 1) _ (setLevel_tck _ _)).after fun a _ => by simp only [setLevel_mem]

/-- So does a scan without an output buffer. -/
theorem leaves_tdiSeq (dataIn : Nat) (finalTms : Bool) (clockCycles left : Nat)
    (written : Nat → Prop) :
    ∀ (cycle : Nat) (b : Bus), b.tck = false →
      Leaves (tdiLoopClkDelay dataIn finalTms clockCycles left cycle) b written := by
  induction left with
  | zero => exact fun cycle b hlow => ⟨hlow, fun _ _ => rfl⟩
  | succ left ih =>
    intro cycle b _
    unfold Leaves
    rw [tdiLoopClkDelay]
    simp only [ends_bind, ends_gpioSetVal, ends_load, ends_gpioSet, ends_gpioClear]
    exact (ih (cycle + 1) _ (setLevel_tck _ _)).after fun a _ => by simp only [setLevel_mem]

/-- A byte is stored in the buffer, or nothing is. -/
theorem ends_storeWhole {dataOut clockCycles cycle : Nat} (hcycle : cycle < clockCycles)
    (value : UInt8) (b : Bus) :
    Ends (storeWhole dataOut cycle value) b
      (fun _ b' => ∀ a, ¬ bufferOf dataOut clockCycles a → b'.mem a = b.mem a) fun _ _ =>
        False := by
  rw [storeWhole]
  split
  · rw [ends_bind, ends_store, ends_pure]
    intro a ha
    refine Function.update_of_ne (fun heq => ha ?_) _ _
    rw [heq, bufferOf, Nat.shiftRight_eq_div_pow]
    omega
  · exact fun _ _ => rfl

/-- The loop of a scan writes its output buffer only. -/
theorem leaves_tdiTdoLoop (dataIn dataOut : Nat) (finalTms : Bool) (clockCycles left : Nat) :
    ∀ (cycle : Nat) (value : UInt8) (b : Bus), cycle + left = clockCycles → b.tck = false →
      Leaves (tdiTdoLoopClkDelay target dataIn dataOut finalTms clockCycles left cycle value) b
        (bufferOf dataOut clockCycles) := by
  induction left with
  | zero => exact fun cycle value b _ hlow => ⟨hlow, fun _ _ => rfl⟩
  | succ left ih =>
    intro cycle value b hleft _
    unfold Leaves
    rw [tdiTdoLoopClkDelay]
    simp only [ends_bind, ends_gpioSetVal, ends_load, ends_gpioSet, ends_getTdo, ends_gpioClear]
    refine (ends_storeWhole (show cycle < clockCycles by omega) _ _).imp ?_ fun _ _ h => h
    intro value' b' hmem
    refine (ih (cycle + 1) value' _ (by omega) (setLevel_tck _ _)).after fun a ha => ?_
    rw [setLevel_mem, hmem a ha]
    simp only [log_mem, setLevel_mem]

/-- So does the whole scan. -/
theorem leaves_tdiTdoSeq (dataIn dataOut : Nat) (finalTms : Bool) (clockCycles : Nat)
    (hlow : b.tck = false) :
    Leaves (jtagtapTdiTdoSeqClkDelay target dataIn dataOut finalTms clockCycles) b
      (bufferOf dataOut clockCycles) := by
  unfold Leaves
  rw [jtagtapTdiTdoSeqClkDelay, ends_bind]
  refine (leaves_tdiTdoLoop dataIn dataOut finalTms clockCycles clockCycles 0 0 b (Nat.zero_add _)
    hlow).imp ?_
    fun _ _ h => h
  rintro value b' ⟨hlow', hmem⟩
  rw [storeRest]
  split
  next hrest =>
    rw [show clockCycles &&& 7 = clockCycles % 8 from Nat.and_two_pow_sub_one_eq_mod clockCycles 3]
      at hrest
    refine ⟨hlow', fun a ha => Eq.trans (Function.update_of_ne (fun heq => ha ?_) _ _) (hmem a ha)⟩
    rw [heq, bufferOf, Nat.shiftRight_eq_div_pow]
    omega
  next => exact ⟨hlow', hmem⟩

/-- Bits are read and written over the pins alone. -/
theorem ends_seqInLoop (left : Nat) : ∀ (cycle : Nat) (value : UInt32) (b : Bus),
    Ends (seqInLoopClkDelay target left cycle value) b
      (fun _ b' => b'.mem = b.mem ∧ b'.olddir = b.olddir) fun _ _ => False := by
  induction left with
  | zero => exact fun cycle value b => ⟨rfl, rfl⟩
  | succ left ih =>
    intro cycle value b
    rw [seqInLoopClkDelay]
    simp only [ends_bind, ends_gpioSet, ends_gpioClear, ends_getSwdio]
    refine (ih (cycle + 1) _ _).imp ?_ fun _ _ h => h
    rintro _ b' ⟨hmem, holddir⟩
    simpa only [log_mem, log_olddir, setLevel_mem, setLevel_olddir] using And.intro hmem holddir

/-- The loop that writes the SWD line leaves the buffers alone. -/
theorem ends_seqOutLoop (tmsStates : UInt32) (left : Nat) : ∀ (cycle : Nat) (b : Bus),
    Ends (seqOutLoopClkDelay tmsStates left cycle) b (fun _ b' => b'.mem = b.mem) fun _ _ =>
      False := by
  induction left with
  | zero => exact fun cycle b => rfl
  | succ left ih =>
    intro cycle b
    rw [seqOutLoopClkDelay]
    simp only [ends_bind, ends_gpioSetVal, ends_gpioSet, ends_gpioClear]
    refine (ih (cycle + 1) _).imp (fun _ b' hmem => ?_) fun _ _ h => h
    simpa only [setLevel_mem] using hmem

/-- What the target is read from is not changed either. -/
theorem ends_seqIn (clockCycles : Nat) (b : Bus) :
    Ends (swdptapSeqInClkDelay target clockCycles) b
      (fun _ b' => b'.tck = false ∧ b'.mem = b.mem ∧ b'.olddir = b.olddir) fun _ _ => False := by
  rw [swdptapSeqInClkDelay, ends_bind]
  refine (ends_seqInLoop clockCycles 0 0 b).imp ?_ fun _ _ h => h
  rintro _ b' ⟨hmem, holddir⟩
  rw [ends_bind, ends_gpioClear, ends_pure]
  exact ⟨setLevel_tck _ _, (setLevel_mem _ _ _).trans hmem, (setLevel_olddir _ _ _).trans holddir⟩

/-- A written SWD sequence leaves the clock low. -/
theorem ends_seqOut (tmsStates : UInt32) (clockCycles : Nat) (b : Bus) :
    Ends (swdptapSeqOutClkDelay tmsStates clockCycles) b
      (fun _ b' => b'.tck = false ∧ b'.mem = b.mem)
      fun _ _ => False := by
  rw [swdptapSeqOutClkDelay, ends_bind]
  refine (ends_seqOutLoop tmsStates clockCycles 0 b).imp (fun _ b' hmem => ?_) fun _ _ h => h
  rw [ends_gpioClear]
  exact ⟨setLevel_tck _ _, (setLevel_mem _ _ _).trans hmem⟩

/-! ## TCK is low between two calls -/

/-- A program ends with TCK low. -/
def EndsLow {α : Type} (m : BusM α) (b : Bus) : Prop :=
  Ends m b (fun _ b' => b'.tck = false) fun _ _ => False

/-- What leaves the clock low ends low. -/
theorem Leaves.endsLow {α : Type} {m : BusM α} {written : Nat → Prop} (h : Leaves m b written) :
    EndsLow m b :=
  h.imp (fun _ _ h => h.1) fun _ _ h => h

/-- Equal actions end low together. -/
theorem endsLow_congr {α : Type} {m m' : BusM α} (h : m b = m' b) : EndsLow m b ↔ EndsLow m' b := by
  unfold EndsLow Ends
  rw [h]

/-- A clock ends with TCK low, whatever it was. -/
theorem endsLow_next (divider : UInt32) (tms tdi : Bool) (b : Bus) :
    EndsLow (jtagtapNext target divider tms tdi) b := by
  unfold EndsLow
  rw [jtagtapNext, ends_bind, ends_gpioSetVal, ends_bind, ends_gpioSetVal]
  split <;> exact setLevel_tck _ _

/-- A TMS sequence ends low at either speed. -/
theorem endsLow_tmsSeq (divider tmsStates : UInt32) (ticks : Nat) (hlow : b.tck = false) :
    EndsLow (jtagtapTmsSeq divider tmsStates ticks) b := by
  unfold EndsLow
  rw [jtagtapTmsSeq, ends_bind, ends_gpioSet, jtagtapTmsSeqNoDelay, tmsLoopNoDelay_eq, ite_self]
  exact (leaves_tmsSeq tmsStates ticks (fun _ => False) (b.setLevel .tdi true) hlow).endsLow

/-- A scan ends low at either speed. -/
theorem endsLow_tdiTdoSeq (divider : UInt32) (dataOut : Nat) (finalTms : Bool)
    (dataIn clockCycles : Nat) (hlow : b.tck = false) :
    EndsLow (jtagtapTdiTdoSeq target divider dataOut finalTms dataIn clockCycles) b := by
  have hlow' : ((b.setLevel .tms false).setLevel .tdi false).tck = false := hlow
  unfold EndsLow
  rw [jtagtapTdiTdoSeq, ends_bind, ends_gpioClear, ends_bind, ends_gpioClear]
  split
  · exact (leaves_tdiTdoSeq dataIn dataOut finalTms clockCycles hlow').endsLow
  · exact (endsLow_congr (jtagtapTdiTdoSeqNoDelay_eq dataIn dataOut finalTms clockCycles hlow')).2
      (leaves_tdiTdoSeq dataIn dataOut finalTms clockCycles hlow').endsLow

/-- So does one without an output buffer. -/
theorem endsLow_tdiSeq (divider : UInt32) (finalTms : Bool) (dataIn clockCycles : Nat)
    (hlow : b.tck = false) :
    EndsLow (jtagtapTdiSeq divider finalTms dataIn clockCycles) b := by
  have hlow' : (b.setLevel .tms false).tck = false := hlow
  have hdelay :=
    (leaves_tdiSeq dataIn finalTms clockCycles clockCycles (fun _ => False) 0 _ hlow').endsLow
  unfold EndsLow
  rw [jtagtapTdiSeq, ends_bind, ends_gpioClear]
  split
  · exact hdelay
  · exact (endsLow_congr (jtagtapTdiSeqNoDelay_eq dataIn finalTms clockCycles hlow')).2 hdelay

/-- Idle clocks end low. -/
theorem endsLow_cycleClocks (left : Nat) :
    ∀ b : Bus, b.tck = false → EndsLow (cycleClocks left) b := by
  induction left with
  | zero => exact fun b hlow => hlow
  | succ left ih =>
    intro b _
    unfold EndsLow
    rw [cycleClocks, ends_bind, ends_gpioSet, ends_bind, ends_gpioClear]
    exact ih _ (setLevel_tck _ _)

/-- Two actions that end low, in a row. -/
theorem EndsLow.bind {α β : Type} {m : BusM α} {k : α → BusM β} (hm : EndsLow m b)
    (hk : ∀ a b', b'.tck = false → EndsLow (k a) b') : EndsLow (m >>= k) b := by
  unfold EndsLow
  rw [ends_bind]
  exact hm.imp (fun a b' hlow => hk a b' hlow) fun _ _ h => h

/-- A loop of actions that end low. -/
theorem endsLow_forM {α : Type} {f : α → BusM Unit} (hf : ∀ a b, b.tck = false → EndsLow (f a) b)
    (l : List α) :
    ∀ b : Bus, b.tck = false → EndsLow (forM l f) b := by
  induction l with
  | nil => exact fun b hlow => hlow
  | cons a l ih =>
    intro b hlow
    rw [List.forM_cons]
    exact (hf a b hlow).bind fun _ b' hlow' => ih b' hlow'

/-- `jtagtap_init` lowers TCK, whatever it was: its first clock does. -/
theorem endsLow_init (divider : UInt32) (b : Bus) : EndsLow (jtagtapInit target divider) b := by
  have hnext : ∀ b, EndsLow (do let _ ← jtagtapNext target divider true false : BusM Unit) b :=
      fun b =>
    (endsLow_next divider true false b).bind fun _ _ hlow => hlow
  rw [jtagtapInit, List.range_succ_eq_map, List.forM_cons]
  refine EndsLow.bind ((hnext b).bind fun _ b' hlow =>
    endsLow_forM (fun _ b _ => hnext b) _ b' hlow) ?_
  exact fun _ b' hlow => endsLow_tmsSeq divider 0xe73c 16 hlow

/-- A turnaround takes the direction asked for, and lowers the clock when it starts to drive. -/
theorem ends_turnaround (drive : Bool) (b : Bus) :
    Ends (swdptapTurnaround drive) b
      (fun _ b' => b'.olddir = drive ∧ (drive = true → b.olddir = false → b'.tck = false) ∧
        b'.mem = b.mem)
      fun _ _ => False := by
  rw [swdptapTurnaround, ends_bind, ends_get]
  split
  next hsame =>
    refine ⟨hsame.symm, fun hdrive hfloat => ?_, rfl⟩
    rw [hdrive, hfloat] at hsame
    cases hsame
  next =>
    rw [ends_bind, ends_set]
    cases drive with
    | false => exact ⟨by simp, Bool.noConfusion, by simp⟩
    | true => exact ⟨by simp, fun _ _ => by simp, by simp⟩

/-- A turnaround to driving SWDIO after a read ends with TCK low. -/
theorem endsLow_seqInParity (divider : UInt32) (clockCycles : Nat) (b : Bus) :
    EndsLow (swdptapSeqInParity target divider clockCycles) b := by
  unfold EndsLow
  rw [swdptapSeqInParity, swdptapSeqIn, swdptapSeqInNoDelay_eq, ite_self, ends_bind, ends_bind]
  refine (ends_turnaround false b).imp ?_ fun _ _ h => h
  rintro _ b₁ ⟨hfloat, -, -⟩
  refine (ends_seqIn clockCycles b₁).imp ?_ fun _ _ h => h
  rintro value b₂ ⟨-, -, holddir⟩
  rw [ends_bind, ends_getSwdio, ends_bind, ends_gpioSet, ends_bind]
  refine (ends_turnaround true _).imp ?_ fun _ _ h => h
  rintro _ b₃ ⟨-, hlow, -⟩
  rw [ends_pure]
  refine hlow rfl ?_
  rw [setLevel_olddir, log_olddir, holddir, hfloat]

/-- A read SWD sequence ends low at either speed. -/
theorem endsLow_seqIn (divider : UInt32) (clockCycles : Nat) (b : Bus) :
    EndsLow (swdptapSeqIn target divider clockCycles) b := by
  unfold EndsLow
  rw [swdptapSeqIn, swdptapSeqInNoDelay_eq, ite_self, ends_bind]
  refine (ends_turnaround false b).imp (fun _ b₁ _ => ?_) fun _ _ h => h
  exact (ends_seqIn clockCycles b₁).imp (fun _ _ h => h.1) fun _ _ h => h

/-- So does a written one. -/
theorem endsLow_seqOut (divider tmsStates : UInt32) (clockCycles : Nat) (b : Bus) :
    EndsLow (swdptapSeqOut divider tmsStates clockCycles) b := by
  unfold EndsLow
  rw [swdptapSeqOut, swdptapSeqOutNoDelay_eq, ite_self, ends_bind]
  refine (ends_turnaround true b).imp (fun _ b₁ _ => ?_) fun _ _ h => h
  exact (ends_seqOut tmsStates clockCycles b₁).imp (fun _ _ h => h.1) fun _ _ h => h

/-- A call leaves TCK low when it finds it so. -/
theorem endsLow_perform (divider : UInt32) (call : Call) (hlow : b.tck = false) :
    EndsLow (perform target divider call) b := by
  cases call with
  | init => exact endsLow_init divider b
  | reset => exact endsLow_tmsSeq divider 0x1f 6 hlow
  | next tms tdi => exact (endsLow_next divider tms tdi b).bind fun _ _ hlow => hlow
  | tmsSeq tmsStates ticks => exact endsLow_tmsSeq divider tmsStates ticks hlow
  | tdiTdoSeq dataOut finalTms dataIn clockCycles =>
    exact endsLow_tdiTdoSeq divider dataOut finalTms dataIn clockCycles hlow
  | tdiSeq finalTms dataIn clockCycles =>
      exact endsLow_tdiSeq divider finalTms dataIn clockCycles hlow
  | cycle tms tdi clockCycles =>
    exact (endsLow_next divider tms tdi b).bind fun _ b' hlow' => endsLow_cycleClocks _ b' hlow'
  | seqIn clockCycles => exact (endsLow_seqIn divider clockCycles b).bind fun _ _ hlow => hlow
  | seqInParity clockCycles =>
      exact (endsLow_seqInParity divider clockCycles b).bind fun _ _ hlow => hlow
  | seqOut tmsStates clockCycles => exact endsLow_seqOut divider tmsStates clockCycles b
  | seqOutParity tmsStates clockCycles =>
    refine (endsLow_seqOut divider tmsStates clockCycles b).bind fun _ b' _ => ?_
    exact setLevel_tck _ _
  | write addr value => exact hlow

/-- After `jtagtap_init` TCK is low between any two calls. -/
theorem endsLow_session (divider : UInt32) (calls : List (UInt32 × Call)) (b : Bus) :
    EndsLow (session target divider calls) b :=
  (endsLow_init divider b).bind fun _ b' hlow =>
    endsLow_forM (fun call _ hlow => endsLow_perform call.1 call.2 hlow) calls b' hlow

end

/-! ## The variants -/

/-- Two programs give the same result, events, memory and levels from a bus, leave TCK low, and
write nothing outside of a range. -/
structure Same {α : Type} (m m' : BusM α) (b : Bus) (written : Nat → Prop) : Prop where
  run : m b = m' b
  leaves : Leaves m b written

/-- With delays and without, the sequences of `jtagtap.c` do the same. -/
structure JtagAgrees (target : Target) (b : Bus) : Prop where
  tmsSeq : ∀ divider tmsStates ticks,
    Same (jtagtapTmsSeq divider tmsStates ticks) (jtagtapTmsSeq 0xffffffff tmsStates ticks) b
      fun _ => False
  tdiTdoSeq : ∀ divider dataOut finalTms dataIn clockCycles,
    Same (jtagtapTdiTdoSeq target divider dataOut finalTms dataIn clockCycles)
      (jtagtapTdiTdoSeq target 0xffffffff dataOut finalTms dataIn clockCycles) b
        (bufferOf dataOut clockCycles)
  tdiSeq : ∀ divider finalTms dataIn clockCycles,
    Same (jtagtapTdiSeq divider finalTms dataIn clockCycles)
      (jtagtapTdiSeq 0xffffffff finalTms dataIn clockCycles) b
      fun _ => False

/-- With delays and without, the sequences of `swdptap.c` do the same. -/
structure SwdAgrees (target : Target) (b : Bus) : Prop where
  seqIn : ∀ divider, ∀ clockCycles ≤ 32,
    Same (swdptapSeqIn target divider clockCycles) (swdptapSeqIn target 0xffffffff clockCycles) b
      fun _ => False
  seqOut : ∀ divider tmsStates, ∀ clockCycles ≤ 32,
    Same (swdptapSeqOut divider tmsStates clockCycles)
      (swdptapSeqOut 0xffffffff tmsStates clockCycles) b
      fun _ => False

section
variable {b : Bus} {target : Target}

/-- From a low clock the JTAG calls give the same with any divider. -/
theorem jtagAgrees_of_low (hlow : b.tck = false) : JtagAgrees target b where
  tmsSeq divider tmsStates ticks := by
    have hsame : ∀ divider, jtagtapTmsSeq divider tmsStates ticks b =
        jtagtapTmsSeqClkDelay tmsStates ticks (b.setLevel .tdi true) := by
      intro divider
      rw [jtagtapTmsSeq, jtagtapTmsSeqNoDelay, tmsLoopNoDelay_eq, ite_self]
      rfl
    refine ⟨(hsame divider).trans (hsame _).symm, ?_⟩
    unfold Leaves Ends
    rw [hsame]
    exact (leaves_tmsSeq tmsStates ticks (fun _ => False) (b.setLevel .tdi true) hlow).after
      fun _ _ => rfl
  tdiTdoSeq divider dataOut finalTms dataIn clockCycles := by
    have hlow' : ((b.setLevel .tms false).setLevel .tdi false).tck = false := hlow
    have hsame : ∀ divider, jtagtapTdiTdoSeq target divider dataOut finalTms dataIn clockCycles b =
        jtagtapTdiTdoSeqClkDelay target dataIn dataOut finalTms clockCycles
          ((b.setLevel .tms false).setLevel .tdi false) := by
      intro divider
      rw [jtagtapTdiTdoSeq]
      split
      · rfl
      · exact jtagtapTdiTdoSeqNoDelay_eq dataIn dataOut finalTms clockCycles hlow'
    refine ⟨(hsame divider).trans (hsame _).symm, ?_⟩
    unfold Leaves Ends
    rw [hsame]
    exact (leaves_tdiTdoSeq dataIn dataOut finalTms clockCycles hlow').after fun _ _ => rfl
  tdiSeq divider finalTms dataIn clockCycles := by
    have hlow' : (b.setLevel .tms false).tck = false := hlow
    have hsame : ∀ divider, jtagtapTdiSeq divider finalTms dataIn clockCycles b =
        jtagtapTdiSeqClkDelay dataIn finalTms clockCycles (b.setLevel .tms false) := by
      intro divider
      rw [jtagtapTdiSeq]
      split
      · rfl
      · exact jtagtapTdiSeqNoDelay_eq dataIn finalTms clockCycles hlow'
    refine ⟨(hsame divider).trans (hsame _).symm, ?_⟩
    unfold Leaves Ends
    rw [hsame]
    exact (leaves_tdiSeq dataIn finalTms clockCycles clockCycles (fun _ => False) 0 _ hlow').after
      fun _ _ => rfl

/-- So do the SWD calls, at any level of the clock. -/
theorem swdAgrees (target : Target) (b : Bus) : SwdAgrees target b where
  seqIn divider clockCycles _ := by
    have hsame : ∀ divider, swdptapSeqIn target divider clockCycles =
        swdptapTurnaround false >>= fun _ => swdptapSeqInClkDelay target clockCycles := by
      intro divider
      rw [swdptapSeqIn, swdptapSeqInNoDelay_eq, ite_self]
    refine ⟨by rw [hsame, hsame 0xffffffff], ?_⟩
    unfold Leaves
    rw [hsame, ends_bind]
    refine (ends_turnaround false b).imp (fun _ b₁ h => ?_) fun _ _ h => h
    refine (ends_seqIn clockCycles b₁).imp ?_ fun _ _ h => h
    rintro _ b₂ ⟨hlow, hmem, -⟩
    exact ⟨hlow, fun a _ => congrFun (hmem.trans h.2.2) a⟩
  seqOut divider tmsStates clockCycles _ := by
    have hsame : ∀ divider, swdptapSeqOut divider tmsStates clockCycles =
        swdptapTurnaround true >>= fun _ => swdptapSeqOutClkDelay tmsStates clockCycles := by
      intro divider
      rw [swdptapSeqOut, swdptapSeqOutNoDelay_eq, ite_self]
    refine ⟨by rw [hsame, hsame 0xffffffff], ?_⟩
    unfold Leaves
    rw [hsame, ends_bind]
    refine (ends_turnaround true b).imp (fun _ b₁ h => ?_) fun _ _ h => h
    refine (ends_seqOut tmsStates clockCycles b₁).imp ?_ fun _ _ h => h
    rintro _ b₂ ⟨hlow, hmem⟩
    exact ⟨hlow, fun a _ => congrFun (hmem.trans h.2.2) a⟩

end

/-- After `jtagtap_init` and any calls the sequences of `jtagtap.c` do not depend on the clock
divider, and those of `swdptap.c` never do. -/
theorem delays_agree (target : Target) :
    (∀ divider calls b, Ends (session target divider calls) b (fun _ b' => JtagAgrees target b')
      fun _ _ => False) ∧
      ∀ b, SwdAgrees target b :=
  ⟨fun divider calls b => (endsLow_session divider calls b).imp
    (fun _ _ hlow => jtagAgrees_of_low hlow) fun _ _ h => h,
    swdAgrees target⟩

end Blackmagic.BitBang
