import Blackmagic.Lib.Bytes
import Blackmagic.Lib.Word

/-!
# An ARMv7-M core, as far as a debugger moves it

The registers of the core by their debug numbers, and exception entry: a frame of 0x20 bytes, or of
0x68 when there is a floating-point context, goes on the active stack, which is first aligned to
eight bytes when this is asked for. Bit 9 of the stacked xPSR says whether four bytes were skipped
for it, so the stack pointer before the entry is known from the one after it
(`framePtr_add_popped`), and the frame is read back from it (`load_frame`).
-/

namespace Armv7m

open Bytes Word

/-! ## The core -/

/-- Thread code runs on the main stack or on the process stack, a handler on the main stack. -/
inductive Mode
  | thread (process : Bool)
  | handler
deriving DecidableEq

/-- The floating-point extension. `fpca` says that there is a floating-point context. -/
structure Fpu where
  fpca : Bool
  fpscr : UInt32
  s : Fin 32 → UInt32

/-- A core and its memory. Bits 1 and 0 of the stack pointers are kept as they are written; hardware
has zeros there. -/
structure Core where
  r : Fin 13 → UInt32
  lr : UInt32
  pc : UInt32
  xpsr : UInt32
  msp : UInt32
  psp : UInt32
  /-- nPRIV, FAULTMASK, BASEPRI and PRIMASK. -/
  masks : UInt32
  mode : Mode
  fpu : Option Fpu
  hfsr : UInt32
  cfsr : UInt32
  /-- CCR.STKALIGN. -/
  stkalign : Bool
  /-- FPCCR.LSPEN. -/
  lspen : Bool
  mem : UInt32 → UInt8

/-- CONTROL.SPSEL in the packed special register. -/
def controlSpsel : UInt32 := 0x2000000

/-- CONTROL.FPCA in the packed special register. -/
def controlFpca : UInt32 := 0x4000000

namespace Core

variable (c : Core)

/-- CONTROL.SPSEL. -/
def spsel : Bool :=
  match c.mode with
  | .thread process => process
  | .handler => false

/-- CONTROL.FPCA. -/
def fpca : Bool :=
  match c.fpu with
  | some fpu => fpu.fpca
  | none => false

/-- The active stack pointer. -/
def sp : UInt32 := if c.spsel then c.psp else c.msp

/-- CONTROL, FAULTMASK, BASEPRI and PRIMASK, packed. -/
def special : UInt32 :=
  (c.masks &&& ~~~ (controlSpsel ||| controlFpca)) |||
    ((if c.spsel then controlSpsel else 0) ||| (if c.fpca then controlFpca else 0))

/-- A register of the floating-point extension. -/
def readFloat (n : Nat) : UInt32 :=
  match c.fpu with
  | some fpu => if n = 0x21 then fpu.fpscr else if h : n - 0x40 < 32 then fpu.s ⟨n - 0x40, h⟩ else 0
  | none => 0

/-- The register with a debug number. -/
def readReg (n : Nat) : UInt32 :=
  if h : n < 13 then c.r ⟨n, h⟩
  else match n with
    | 13 => c.sp
    | 14 => c.lr
    | 15 => c.pc
    | 0x10 => c.xpsr
    | 0x11 => c.msp
    | 0x12 => c.psp
    | 0x14 => c.special
    | n => c.readFloat n

/-- SPSEL keeps its value in a handler, and FPCA is there with the extension only. -/
def writeSpecial (v : UInt32) : Core :=
  { c with
    masks := v
    mode := match c.mode with
      | .thread _ => .thread (v &&& controlSpsel != 0)
      | .handler => .handler
    fpu := c.fpu.map fun fpu => { fpu with fpca := v &&& controlFpca != 0 } }

def writeFloat (n : Nat) (v : UInt32) : Core :=
  { c with
    fpu := c.fpu.map fun fpu =>
      if n = 0x21 then { fpu with fpscr := v }
      else { fpu with s := fun i => if n = 0x40 + i.val then v else fpu.s i } }

/-- The register with a debug number is written. -/
def writeReg (n : Nat) (v : UInt32) : Core :=
  if n < 13 then { c with r := fun i => if i.val = n then v else c.r i }
  else match n with
    | 13 => if c.spsel then { c with psp := v } else { c with msp := v }
    | 14 => { c with lr := v }
    | 15 => { c with pc := v }
    | 0x10 => { c with xpsr := v }
    | 0x11 => { c with msp := v }
    | 0x12 => { c with psp := v }
    | 0x14 => c.writeSpecial v
    | n => c.writeFloat n v

end Core

/-! ## Exception entry -/

/-- HFSR.FORCED. -/
def hfsrForced : UInt32 := 0x40000000

/-- The system control space. It is no place for a stack. -/
def inScs (addr : UInt32) : Prop := (addr - 0xe000e000).toNat < 0x1000

instance (addr : UInt32) : Decidable (inScs addr) := by
  unfold inScs
  infer_instance

/-- A fault: the number of its exception, where the handler is, and the status bits that it sets. It
is a configurable fault, or one that was made a HardFault. -/
structure Fault where
  number : UInt32
  vector : UInt32
  hfsr : UInt32
  cfsr : UInt32
  status : hfsr &&& hfsrForced ≠ 0 ∨ cfsr ≠ 0

/-- Bytes put into a memory. -/
def storeBytes (mem : UInt32 → UInt8) (addr : UInt32) (data : List UInt8) : UInt32 → UInt8 :=
  fun a => data[(a - addr).toNat]?.getD (mem a)

/-- Words as the bytes they are stored as. -/
def wordsToBytes (words : List UInt32) : List UInt8 := words.flatMap fun w => leBytes 4 w.toNat

/-- A word of bytes that words were stored as. -/
def wordAt (data : List UInt8) (k : Nat) : UInt32 := UInt32.ofNat (leNat (slice data (4 * k) 4))

namespace Core

variable (c : Core)

def frameSize : UInt32 := if c.fpca then 0x68 else 0x20

def forceAlign : Bool := c.fpca || c.stkalign

/-- Four bytes are skipped for the alignment. -/
def frameAlign : Bool := c.forceAlign && c.sp &&& 4 != 0

def framePtr : UInt32 :=
  if c.forceAlign then (c.sp - c.frameSize) &&& ~~~ 4 else c.sp - c.frameSize

/-- What the stack pointer has to be moved by to pop the frame. -/
def popped : UInt32 := c.frameSize + if c.frameAlign then 4 else 0

def stackedXpsr : UInt32 := (c.xpsr &&& ~~~ 0x200) ||| if c.frameAlign then 0x200 else 0

/-- The floating-point part of a frame. With lazy stacking only the room for it is left. -/
def floatFrame : List UInt32 :=
  match c.fpu with
  | some fpu =>
    if fpu.fpca && !c.lspen then ((List.finRange 16).map fun i => fpu.s (i.castLE (by decide))) ++
      [fpu.fpscr]
    else []
  | none => []

/-- The part that every frame has. -/
def basicFrame : List UInt32 := [c.r 0, c.r 1, c.r 2, c.r 3, c.r 12, c.lr, c.pc, c.stackedXpsr]

def frame : List UInt32 := c.basicFrame ++ c.floatFrame

/-- EXC_RETURN: bit 4 is clear for a frame with a floating-point part, bit 3 is set for thread code,
and bit 2 for the process stack. -/
def excReturn : UInt32 :=
  0xffffffe1 ||| ((if c.fpca then 0 else 0x10) ||| ((if c.mode = .handler then 0 else 8) |||
    if c.spsel then 4 else 0))

/-- A fault is taken, up to the first instruction of its handler. -/
def enter (fault : Fault) : Core :=
  { c with
    mem := storeBytes c.mem c.framePtr (wordsToBytes c.frame)
    msp := if c.spsel then c.msp else c.framePtr
    psp := if c.spsel then c.framePtr else c.psp
    lr := c.excReturn
    pc := fault.vector &&& ~~~ (1 : UInt32)
    xpsr := (c.xpsr &&& ~~~ (0x0700fdff : UInt32)) ||| fault.number |||
      ((fault.vector &&& 1) <<< 24)
    mode := .handler
    fpu := c.fpu.map fun fpu => { fpu with fpca := false }
    hfsr := c.hfsr ||| fault.hfsr
    cfsr := c.cfsr ||| fault.cfsr }

/-- Exception entry. The frame needs a stack that is memory. -/
def exceptionEntry (fault : Fault) : Option Core :=
  if ∀ i < c.frameSize.toNat, ¬ inScs (c.framePtr + UInt32.ofNat i) then some (c.enter fault)
    else none

/-- VECTCLRACTIVE: no exception is active any more, and thread code runs. -/
def clearActive : Core :=
  { c with
    mode := match c.mode with
      | .thread process => .thread process
      | .handler => .thread false
    xpsr := c.xpsr &&& ~~~ 0x1ff }

/-- Where the entry is defined it is `enter`, and the frame is not in the SCS. -/
theorem eq_enter {fault : Fault} {core : Core} (h : c.exceptionEntry fault = some core) :
    core = c.enter fault ∧ ∀ i < 32, ¬ inScs (c.framePtr + UInt32.ofNat i) := by
  unfold exceptionEntry at h
  split at h
  · next hmem =>
    have hsize : 32 ≤ c.frameSize.toNat := by
      unfold frameSize
      split
      · decide
      · decide
    exact ⟨(Option.some.inj h).symm, fun i hi => hmem i (hi.trans_le hsize)⟩
  · cases h

/-- Without an FPU no context is active. -/
theorem fpca_eq : c.fpca = (c.fpu.map Fpu.fpca).getD false := by
  unfold fpca
  cases c.fpu
  · rfl
  · rfl

@[simp] theorem fpca_enter (fault : Fault) : (c.enter fault).fpca = false := by
  unfold fpca enter
  cases c.fpu
  · rfl
  · rfl

/-- SPSEL and FPCA are clear after an entry. -/
theorem special_enter (fault : Fault) :
    (c.enter fault).special &&& (controlSpsel ||| controlFpca) = 0 := by
  have hspsel : (c.enter fault).spsel = false := rfl
  unfold special
  rw [fpca_enter, hspsel, or_and_mask, UInt32.and_assoc]
  change c.masks &&& 0 ||| 0 = 0
  rw [UInt32.and_zero, UInt32.or_zero]

/-- Bit 2 of EXC_RETURN tells the stack pointer. -/
theorem excReturn_spsel : (c.excReturn &&& 4 != 0) = c.spsel := by
  unfold excReturn
  generalize c.spsel = spsel
  generalize c.fpca = fpca
  by_cases hmode : c.mode = .handler
  · rw [if_pos hmode]
    revert spsel fpca
    decide
  · rw [if_neg hmode]
    revert spsel fpca
    decide

/-- Bit 4 of EXC_RETURN tells a frame without floating-point registers. -/
theorem excReturn_fpca : (c.excReturn &&& 0x10 == 0) = c.fpca := by
  unfold excReturn
  generalize c.spsel = spsel
  generalize c.fpca = fpca
  by_cases hmode : c.mode = .handler
  · rw [if_pos hmode]
    revert spsel fpca
    decide
  · rw [if_neg hmode]
    revert spsel fpca
    decide

/-- Bit 9 of the stacked xPSR tells whether the stack was realigned. -/
theorem stackedXpsr_frameAlign : (c.stackedXpsr &&& 0x200 != 0) = c.frameAlign := by
  unfold stackedXpsr
  rw [or_and_mask, UInt32.and_assoc, show ~~~ (0x200 : UInt32) &&& 0x200 =
    0 by decide, UInt32.and_zero, UInt32.zero_or]
  cases c.frameAlign
  · rfl
  · rfl

/-- The size of a frame is a multiple of eight. -/
theorem sub_frameSize_and_four : (c.sp - c.frameSize) &&& 4 = c.sp &&& 4 := by
  have hsize : 8 ∣ c.frameSize.toNat := by
    unfold frameSize
    split
    · decide
    · decide
  have hlt := c.frameSize.toNat_lt
  rw [← UInt32.toNat_inj]
  change ((c.sp - c.frameSize) &&& UInt32.ofNat (2 ^ 2)).toNat =
    (c.sp &&& UInt32.ofNat (2 ^ 2)).toNat
  rw [toNat_and_bit _ (by decide), toNat_and_bit _ (by decide), UInt32.toNat_sub]
  omega

/-- The stack pointer is known from where the frame is. -/
theorem framePtr_add_popped : c.framePtr + c.popped = c.sp := by
  have hfour : (if c.sp &&& 4 != 0 then 4 else 0) = (c.sp - c.frameSize) &&& 4 := by
    rw [c.sub_frameSize_and_four]
    by_cases h : c.sp &&& 4 = 0
    · rw [h]
      rfl
    · have hbit : (c.sp &&& 4).toNat = 2 ^ 2 * (c.sp.toNat / 2 ^ 2 % 2) :=
        @toNat_and_bit c.sp 2 (by decide)
      have hne : (c.sp &&& 4).toNat ≠ 0 := fun h0 => h (UInt32.toNat_inj.1 h0)
      rw [if_pos (bne_iff_ne.2 h), ← UInt32.toNat_inj]
      change 4 = _
      omega
  have hsub : c.sp - c.frameSize + c.frameSize = c.sp := UInt32.sub_add_cancel c.sp c.frameSize
  unfold framePtr popped frameAlign
  cases c.forceAlign with
  | false =>
    rw [if_neg Bool.false_ne_true, Bool.false_and, if_neg Bool.false_ne_true, UInt32.add_zero, hsub]
  | true =>
    rw [if_pos rfl, Bool.true_and, hfour, UInt32.add_comm c.frameSize, ← UInt32.add_assoc,
      and_not_add_and, hsub]

end Core

/-! ## The frame is read back -/

/-- A word takes four bytes. -/
theorem length_wordsToBytes (words : List UInt32) :
    (wordsToBytes words).length = 4 * words.length := by
  induction words with
  | nil => rfl
  | cons w words ih =>
    rw [wordsToBytes, List.flatMap_cons, List.length_append, length_leBytes, List.length_cons]
    change 4 + (wordsToBytes words).length = _
    omega

/-- The words can be read back from the bytes. -/
theorem wordAt_wordsToBytes {words : List UInt32} {k : Nat} {w : UInt32} (h : words[k]? = some w) :
    wordAt (wordsToBytes words) k = w := by
  induction words generalizing k with
  | nil => simp at h
  | cons w' words ih =>
    have hsplit : wordsToBytes (w' :: words) = leBytes 4 w'.toNat ++ wordsToBytes words :=
      List.flatMap_cons
    unfold wordAt slice at ih ⊢
    rw [hsplit]
    cases k with
    | zero =>
      rw [List.getElem?_cons_zero, Option.some_inj] at h
      rw [Nat.mul_zero, List.drop_zero, List.take_left' (length_leBytes 4 _),
        leNat_leBytes w'.toNat_lt, UInt32.ofNat_toNat, h]
    | succ k =>
      rw [List.getElem?_cons_succ] at h
      rw [Nat.mul_succ, Nat.add_comm, ← List.drop_drop, List.drop_left' (length_leBytes 4 _)]
      exact ih h

/-- Bytes are loaded from where they were stored. -/
theorem load_storeBytes (mem : UInt32 → UInt8) (addr : UInt32) {data : List UInt8} {n : Nat}
    (h : n ≤ data.length) (hlen : data.length ≤ 2 ^ 32) :
    ((List.range n).map fun i => storeBytes mem addr data (addr + UInt32.ofNat i)) =
      data.take n := by
  refine List.ext_getElem? fun i => ?_
  rw [List.getElem?_map, List.getElem?_take]
  by_cases hi : i < n
  · have hoff : (addr + UInt32.ofNat i - addr).toNat = i := by
      rw [UInt32.add_comm, UInt32.add_sub_cancel, UInt32.toNat_ofNat', Nat.mod_eq_of_lt (by omega)]
    rw [List.getElem?_range hi, if_pos hi, Option.map_some, storeBytes, hoff,
      List.getElem?_eq_getElem (by omega)]
    rfl
  · rw [List.getElem?_eq_none (by simpa using hi), if_neg hi]
    rfl

/-- The basic frame is loaded back from the stack. -/
theorem Core.load_frame (c : Core) :
    ((List.range 32).map fun i =>
      storeBytes c.mem c.framePtr (wordsToBytes c.frame) (c.framePtr + UInt32.ofNat i)) =
      wordsToBytes c.basicFrame := by
  have hfloat : c.floatFrame.length ≤ 17 := by
    unfold Core.floatFrame
    split
    · split
      · simp
      · simp
    · simp
  have hbytes : wordsToBytes c.frame = wordsToBytes c.basicFrame ++ wordsToBytes c.floatFrame :=
    List.flatMap_append
  have hbasic : (wordsToBytes c.basicFrame).length = 32 := length_wordsToBytes c.basicFrame
  have hlen : (wordsToBytes c.frame).length = 32 + 4 * c.floatFrame.length := by
    rw [hbytes, List.length_append, hbasic, length_wordsToBytes]
  rw [load_storeBytes c.mem c.framePtr (by omega) (by omega), hbytes, List.take_left' hbasic]

/-! ## The registers are written -/

/-- A write of a low register. -/
theorem Core.writeReg_lt (c : Core) {n : Nat} (hn : n < 13) (v : UInt32) :
    c.writeReg n v = { c with r := fun i => if i.val = n then v else c.r i } := if_pos hn

/-- Several low registers are written. -/
theorem foldl_writeReg (regs : List (Fin 13)) (v : Fin 13 → UInt32) (c : Core) :
    regs.foldl (fun c i => c.writeReg i.val (v i)) c =
      { c with r := fun i => if i ∈ regs then v i else c.r i } := by
  induction regs generalizing c with
  | nil => simp
  | cons i regs ih =>
    rw [List.foldl_cons, ih, c.writeReg_lt i.isLt]
    congr 1
    funext j
    change (if j ∈ regs then v j else if j.val = i.val then v i else c.r j) = _
    by_cases hj : j ∈ regs
    · rw [if_pos hj, if_pos (List.mem_cons_of_mem i hj)]
    · by_cases hi : j = i
      · rw [if_neg hj, if_pos (congrArg Fin.val hi), if_pos (hi ▸ List.mem_cons_self), hi]
      · rw [if_neg hj, if_neg fun h => hi (Fin.ext h),
          if_neg (by rw [List.mem_cons]; exact not_or.2 ⟨hi, hj⟩)]

end Armv7m
