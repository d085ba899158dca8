import Blackmagic.Cortex.Regs
import Blackmagic.Lib.Armv7m

/-!
# A fault is unwound: `cortexm_fault_unwind`

The core has taken a fault and was halted by the vector catch. The probe reads the frame from the
stack that EXC_RETURN names, moves the stack pointer back over it and writes the registers.
-/

namespace Blackmagic

open Armv7m Bytes Effect Word

namespace Unwind

/-! ## The core behind the debug port -/

/-- `CORTEXM_HFSR`. -/
def cortexmHfsr : UInt32 := 0xe000ed2c

/-- `CORTEXM_CFSR`. -/
def cortexmCfsr : UInt32 := 0xe000ed28

/-- `CORTEXM_AIRCR`. -/
def cortexmAircr : UInt32 := 0xe000ed0c

/-- `CORTEXM_AIRCR_VECTKEY`. -/
def cortexmAircrVectkey : UInt32 := 0x05fa0000

/-- `CORTEXM_AIRCR_VECTCLRACTIVE`. -/
def cortexmAircrVectclractive : UInt32 := 2

/-- A halted core and DCRDR. -/
structure Halted where
  core : Core
  dcrdr : UInt32

namespace Halted

variable (h : Halted)

/-- What a register of the system control space reads as. -/
def scsRead (addr : UInt32) : UInt32 :=
  if addr = cortexmHfsr then h.core.hfsr
  else if addr = cortexmCfsr then h.core.cfsr
  else if addr = cortexmDcrdr then h.dcrdr
  else 0

def loadByte (addr : UInt32) : UInt8 :=
  if inScs addr then UInt8.ofNat ((h.scsRead (addr &&& ~~~ 3)).toNat / 256 ^ (addr.toNat % 4))
  else h.core.mem addr

def load32 (addr : UInt32) : UInt32 :=
  if inScs addr then h.scsRead addr
  else UInt32.ofNat (leNat ((List.range 4).map fun i => h.core.mem (addr + UInt32.ofNat i)))

/-- A write to DCRSR moves a register to DCRDR or DCRDR to a register. -/
def transfer (v : UInt32) : Halted :=
  if v &&& dcrsrRegWnR ≠ 0 then { h with core := h.core.writeReg (v &&& 0x7f).toNat h.dcrdr }
  else { h with dcrdr := h.core.readReg (v &&& 0x7f).toNat }

/-- The bits of HFSR and CFSR are cleared by a write of ones. -/
def store32 (addr v : UInt32) : Halted :=
  if addr = cortexmHfsr then { h with core := { h.core with hfsr := h.core.hfsr &&& ~~~ v } }
  else if addr = cortexmCfsr then { h with core := { h.core with cfsr := h.core.cfsr &&& ~~~ v } }
  else if addr = cortexmAircr then
    if v >>> 16 = 0x05fa ∧ v &&& cortexmAircrVectclractive ≠
      0 then { h with core := h.core.clearActive } else h
  else if addr = cortexmDcrsr then h.transfer v
  else if addr = cortexmDcrdr then { h with dcrdr := v }
  else if inScs addr then h
  else { h with core := { h.core with mem := storeBytes h.core.mem addr (wordsToBytes [v]) } }

end Halted

/-- The target: the core, whether it is a v7-M part with an FPU, the addresses at which an access
fails, and the error that `target_check_error` reports. -/
structure Link where
  halted : Halted
  v7mf : Bool
  fails : UInt32 → Bool
  error : Bool

abbrev LinkM := EStateM Empty Link

def busRead32 (addr : UInt32) : LinkM UInt32 := do
  let link ← get
  if link.fails addr then
    set { link with error := true }
    return 0
  else
    return link.halted.load32 addr

def busWrite32 (addr v : UInt32) : LinkM Unit := do
  let link ← get
  if link.fails addr then
    set { link with error := true }
  else
    set { link with halted := link.halted.store32 addr v }

/-! ## The functions -/

/-- `target_mem_read32`. -/
def targetMemRead32 (addr : UInt32) : LinkM UInt32 := busRead32 addr

/-- `target_mem_write32`. -/
def targetMemWrite32 (addr v : UInt32) : LinkM Unit := busWrite32 addr v

/-- `target_mem_read`. -/
def targetMemRead (src : UInt32) (len : Nat) : LinkM (List UInt8) := do
  let link ← get
  if (List.range len).any fun i => link.fails (src + UInt32.ofNat i) then
    set { link with error := true }
    return List.replicate len 0
  else
    return (List.range len).map fun i => link.halted.loadByte (src + UInt32.ofNat i)

/-- `target_check_error`. -/
def targetCheckError : LinkM Bool := do
  let link ← get
  set { link with error := false }
  return link.error

/-- `CORTEX_FLOAT_REG_COUNT`. -/
abbrev cortexFloatRegCount : Nat := 33

/-- `regnum_cortex_mf`. -/
def regnumCortexMf (i : Fin cortexFloatRegCount) : UInt32 :=
  #v[0x21,
    0x40, 0x41, 0x42, 0x43, 0x44, 0x45, 0x46, 0x47,
    0x48, 0x49, 0x4a, 0x4b, 0x4c, 0x4d, 0x4e, 0x4f,
    0x50, 0x51, 0x52, 0x53, 0x54, 0x55, 0x56, 0x57,
    0x58, 0x59, 0x5a, 0x5b, 0x5c, 0x5d, 0x5e, 0x5f].get i

/-- The array `regs`. -/
structure Regs where
  general : Fin cortexmGeneralRegCount → UInt32
  float : Fin cortexFloatRegCount → UInt32

/-- A register is read by the banked data registers, which are mapped to DCRSR and DCRDR. -/
def regRead (num : UInt32) : LinkM UInt32 := do
  busWrite32 cortexmDcrsr num
  busRead32 cortexmDcrdr

def regWrite (num v : UInt32) : LinkM Unit := do
  busWrite32 cortexmDcrdr v
  busWrite32 cortexmDcrsr (dcrsrRegWnR ||| num)

/-- One of the two loops of `cortexm_regs_read`. -/
def readRegs {n : Nat} (regnum : Fin n → UInt32) (init : Fin n → UInt32) : LinkM (Fin n → UInt32) :=
  (List.finRange n).foldlM (fun regs i => do
    let v ← regRead (regnum i)
    return Function.update regs i v) init

/-- One of the two loops of `cortexm_regs_write`. -/
def writeRegs {n : Nat} (regnum : Fin n → UInt32) (regs : Fin n → UInt32) : LinkM Unit :=
  (List.finRange n).forM fun i => regWrite (regnum i) (regs i)

/-- `cortexm_regs_read`. -/
def cortexmRegsRead (regs : Regs) : LinkM Regs := do
  let general ← readRegs regnumCortexM regs.general
  let link ← get
  if link.v7mf then do
    let float ← readRegs regnumCortexMf regs.float
    return ⟨general, float⟩
  else
    return ⟨general, regs.float⟩

/-- `cortexm_regs_write`. -/
def cortexmRegsWrite (regs : Regs) : LinkM Unit := do
  writeRegs regnumCortexM regs.general
  let link ← get
  if link.v7mf then writeRegs regnumCortexMf regs.float else return ()

/-- The registers that `cortexm_fault_unwind` writes back: `stack` is the frame. -/
def unwoundRegs (regs : Fin cortexmGeneralRegCount → UInt32) (spsel fpca : Bool)
    (stack : List UInt8) :
    Fin cortexmGeneralRegCount → UInt32 :=
  let regs := Function.update regs 14 (wordAt stack 5)
  let regs := Function.update regs 15 (wordAt stack 6)
  let framesize : UInt32 := if fpca then 0x68 else 0x20
  let framesize := if wordAt stack 7 &&& 0x200 != 0 then framesize + 4 else framesize
  let regs :=
    if spsel then
      let regs := Function.update regs 19 (regs 19 ||| 0x4000000)
      let regs := Function.update regs 18 (regs 18 + framesize)
      Function.update regs 13 (regs 18)
    else
      let regs := Function.update regs 17 (regs 17 + framesize)
      Function.update regs 13 (regs 17)
  if fpca then Function.update regs 19 (regs 19 ||| 0x2000000) else regs

/-- `cortexm_fault_unwind`. The array `uninit` is what `regs` holds before it is filled. -/
def cortexmFaultUnwind (uninit : Regs) : LinkM Nat := do
  let hfsr ← targetMemRead32 cortexmHfsr
  let cfsr ← targetMemRead32 cortexmCfsr
  targetMemWrite32 cortexmHfsr hfsr
  targetMemWrite32 cortexmCfsr cfsr
  if hfsr &&& hfsrForced ≠ 0 ∨ cfsr ≠ 0 then do
    let regs ← cortexmRegsRead uninit
    let retcode := regs.general 14
    let spsel := retcode &&& 4 != 0
    let fpca := retcode &&& 0x10 == 0
    let stack ← targetMemRead (if spsel then regs.general 18 else regs.general 17) 32
    let failed ← targetCheckError
    if failed then return 0
    else do
      targetMemWrite32 cortexmAircr (cortexmAircrVectkey ||| cortexmAircrVectclractive)
      cortexmRegsWrite ⟨unwoundRegs regs.general spsel fpca stack, regs.float⟩
      return 1
  else return 0

/-! ## Accesses that succeed -/

/-- No access fails, and none has failed. -/
structure Link.Succeeds (link : Link) : Prop where
  fails : ∀ addr, link.fails addr = false
  error : link.error = false

/-- A link that succeeds does so whatever the core holds. -/
theorem Link.Succeeds.with_halted {link : Link} (hlink : link.Succeeds) (h : Halted) :
    { link with halted := h }.Succeeds := ⟨hlink.fails, hlink.error⟩

section
variable {link : Link} {addr v num : UInt32}

/-- A read of a word succeeds. -/
theorem busRead32_ok (hlink : link.Succeeds) :
    busRead32 addr link = .ok (link.halted.load32 addr) link := by
  unfold busRead32
  rw [run_bind_ok (show (get : LinkM Link) link = .ok link link from rfl), hlink.fails]
  rfl

/-- A write of a word succeeds. -/
theorem busWrite32_ok (hlink : link.Succeeds) :
    busWrite32 addr v link = .ok () { link with halted := link.halted.store32 addr v } := by
  unfold busWrite32
  rw [run_bind_ok (show (get : LinkM Link) link = .ok link link from rfl), hlink.fails]
  rfl

/-- A read of memory gives what is there. -/
theorem targetMemRead_ok (hlink : link.Succeeds) (src : UInt32) (len : Nat) :
    targetMemRead src len link =
      .ok ((List.range len).map fun i => link.halted.loadByte (src + UInt32.ofNat i)) link := by
  have hany : ((List.range len).any fun i => link.fails (src + UInt32.ofNat i)) = false := by
    rw [List.any_eq_false]
    intro i _
    rw [hlink.fails]
    exact Bool.false_ne_true
  unfold targetMemRead
  rw [run_bind_ok (show (get : LinkM Link) link = .ok link link from rfl), hany]
  rfl

/-- There is no error to report. -/
theorem targetCheckError_ok (hlink : link.Succeeds) : targetCheckError link = .ok false link := by
  unfold targetCheckError
  rw [run_bind_ok (show (get : LinkM Link) link = .ok link link from rfl),
    hlink.error, ← hlink.error]
  rfl

/-- The number of a register in DCRSR. -/
structure IsRegNum (num : UInt32) : Prop where
  read : num &&& 0x7f = num ∧ num &&& dcrsrRegWnR = 0
  write : (dcrsrRegWnR ||| num) &&& 0x7f = num ∧ (dcrsrRegWnR ||| num) &&& dcrsrRegWnR ≠ 0

/-- The general registers have register numbers. -/
theorem isRegNum_general (i : Fin cortexmGeneralRegCount) : IsRegNum (regnumCortexM i) := by
  obtain ⟨hread, hwrite, hdir, hdir'⟩ := and_regnum i
  exact ⟨⟨hread, hdir⟩, ⟨hwrite, hdir'⟩⟩

/-- So have the floating-point registers. -/
theorem isRegNum_float (i : Fin cortexFloatRegCount) : IsRegNum (regnumCortexMf i) := by
  have h : ∀ i : Fin cortexFloatRegCount,
      (regnumCortexMf i &&& 0x7f = regnumCortexMf i ∧ regnumCortexMf i &&& dcrsrRegWnR = 0) ∧
      (dcrsrRegWnR ||| regnumCortexMf i) &&& 0x7f = regnumCortexMf i ∧
      (dcrsrRegWnR ||| regnumCortexMf i) &&& dcrsrRegWnR ≠ 0 := by
    decide
  exact ⟨(h i).1, (h i).2⟩

/-- A store to DCRSR makes a transfer. -/
theorem store32_dcrsr (h : Halted) : h.store32 cortexmDcrsr v = h.transfer v := by
  rw [Halted.store32, if_neg (by decide), if_neg (by decide), if_neg (by decide), if_pos rfl]

/-- A store to DCRDR. -/
theorem store32_dcrdr (h : Halted) : h.store32 cortexmDcrdr v = { h with dcrdr := v } := by
  rw [Halted.store32, if_neg (by decide), if_neg (by decide), if_neg (by decide),
    if_neg (by decide), if_pos rfl]

/-- A load of DCRDR. -/
theorem load32_dcrdr (h : Halted) : h.load32 cortexmDcrdr = h.dcrdr := by
  rw [Halted.load32, if_pos (by decide), Halted.scsRead, if_neg (by decide), if_neg (by decide),
    if_pos rfl]

/-- A register is read through DCRSR and DCRDR. -/
theorem regRead_ok (hlink : link.Succeeds) (hnum : IsRegNum num) :
    regRead num link = .ok (link.halted.core.readReg num.toNat)
      { link with halted := ⟨link.halted.core, link.halted.core.readReg num.toNat⟩ } := by
  have htransfer : link.halted.transfer num =
      ⟨link.halted.core, link.halted.core.readReg num.toNat⟩ := by
    rw [Halted.transfer, if_neg (not_not.2 hnum.read.2), hnum.read.1]
  unfold regRead
  rw [run_bind_ok (busWrite32_ok hlink), store32_dcrsr, htransfer,
    busRead32_ok (hlink.with_halted _), load32_dcrdr]

/-- A register is written through DCRDR and DCRSR. -/
theorem regWrite_ok (hlink : link.Succeeds) (hnum : IsRegNum num) :
    regWrite num v link = .ok ()
      { link with halted := ⟨link.halted.core.writeReg num.toNat v, v⟩ } := by
  unfold regWrite
  rw [run_bind_ok (busWrite32_ok hlink), store32_dcrdr, busWrite32_ok (hlink.with_halted _),
    store32_dcrsr, Halted.transfer, if_pos hnum.write.2, hnum.write.1]

/-- Registers are read one after the other. -/
theorem readRegs_ok {n : Nat} {regnum : Fin n → UInt32} (hnum : ∀ i, IsRegNum (regnum i))
    (init : Fin n → UInt32) (hlink : link.Succeeds) :
    ∃ d, readRegs regnum init link =
      .ok (fun i => link.halted.core.readReg (regnum i).toNat)
        { link with halted := ⟨link.halted.core, d⟩ } := by
  have hloop : ∀ (l : List (Fin n)) (regs : Fin n → UInt32) (d : UInt32),
      ∃ d', (l.foldlM (fun regs i => do
          let v ← regRead (regnum i)
          return Function.update regs i v) regs : LinkM (Fin n → UInt32))
          { link with halted := ⟨link.halted.core, d⟩ } =
        .ok (fun i => if i ∈ l then link.halted.core.readReg (regnum i).toNat else regs i)
          { link with halted := ⟨link.halted.core, d'⟩ } := by
    intro l
    induction l with
    | nil => exact fun regs d => ⟨d, by simp; rfl⟩
    | cons i l ih =>
      intro regs d
      obtain ⟨d', hrest⟩ := ih (Function.update regs i (link.halted.core.readReg (regnum i).toNat))
        (link.halted.core.readReg (regnum i).toNat)
      refine ⟨d', ?_⟩
      rw [List.foldlM_cons, bind_assoc, run_bind_ok (regRead_ok (hlink.with_halted _) (hnum i)),
        pure_bind]
      refine hrest.trans ?_
      congr 1
      funext j
      by_cases hj : j ∈ l
      · rw [if_pos hj, if_pos (List.mem_cons_of_mem i hj)]
      · by_cases hi : j = i
        · rw [if_neg hj, if_pos (hi ▸ List.mem_cons_self), hi, Function.update_self]
        · rw [if_neg hj, if_neg (by rw [List.mem_cons]; exact not_or.2 ⟨hi, hj⟩),
            Function.update_of_ne hi]
  obtain ⟨d', hrun⟩ := hloop (List.finRange n) init link.halted.dcrdr
  refine ⟨d', ?_⟩
  unfold readRegs
  refine hrun.trans ?_
  simp only [List.mem_finRange, if_true]

/-- Registers are written one after the other. -/
theorem writeRegs_ok {n : Nat} {regnum : Fin n → UInt32} (hnum : ∀ i, IsRegNum (regnum i))
    (regs : Fin n → UInt32) (hlink : link.Succeeds) :
    ∃ d, writeRegs regnum regs link = .ok ()
      { link with
        halted :=
  ⟨(List.finRange n).foldl (fun c i => c.writeReg (regnum i).toNat (regs i)) link.halted.core, d⟩
  } := by
  have hloop : ∀ (l : List (Fin n)) (h : Halted),
      ∃ d, (l.forM fun i => regWrite (regnum i) (regs i)) { link with halted := h } = .ok ()
        { link with halted := ⟨l.foldl (fun c i => c.writeReg (regnum i).toNat (regs i)) h.core, d⟩
          } := by
    intro l
    induction l with
    | nil => exact fun h => ⟨h.dcrdr, rfl⟩
    | cons i l ih =>
      intro h
      obtain ⟨d, hrest⟩ := ih ⟨h.core.writeReg (regnum i).toNat (regs i), regs i⟩
      refine ⟨d, ?_⟩
      change (regWrite (regnum i) (regs i) >>= fun _ => _) _ = _
      rw [run_bind_ok (regWrite_ok (hlink.with_halted h) (hnum i)), List.foldl_cons]
      exact hrest
  exact hloop (List.finRange n) link.halted

end

/-! ## What the writes leave -/

/-- A core that runs thread code, with the general registers `regs`. -/
def withGeneral (c : Core) (regs : Fin cortexmGeneralRegCount → UInt32) : Core :=
  { c with
    r := fun i => regs (i.castLE (by decide))
    lr := regs 14
    pc := regs 15
    xpsr := regs 16
    msp := regs 17
    psp := regs 18
    masks := regs 19
    mode := .thread (regs 19 &&& controlSpsel != 0)
    fpu := c.fpu.map fun fpu => { fpu with fpca := regs 19 &&& controlFpca != 0 } }

/-- The general registers are written in order. The one for the active stack pointer comes before
the two stack pointers, so it leaves nothing behind. -/
theorem foldl_general (c : Core) (hmode : c.mode = .thread false)
    (regs : Fin cortexmGeneralRegCount → UInt32) :
    (List.finRange cortexmGeneralRegCount).foldl
      (fun c i => c.writeReg (regnumCortexM i).toNat (regs i)) c =
      withGeneral c regs := by
  have hlist : List.finRange cortexmGeneralRegCount =
      (List.finRange 13).map (Fin.castLE (by decide)) ++ [13, 14, 15, 16, 17, 18, 19] := by decide
  have hnum : ∀ i : Fin 13, (regnumCortexM (i.castLE (by decide))).toNat = i.val := by decide
  rw [hlist, List.foldl_append, List.foldl_map]
  simp only [hnum]
  rw [foldl_writeReg (List.finRange 13) (fun i => regs (i.castLE (by decide)))]
  simp only [List.mem_finRange, if_true]
  obtain ⟨r, lr, pc, xpsr, msp, psp, masks, mode, fpu, hfsr, cfsr, stkalign, lspen, mem⟩ := c
  cases hmode
  rfl

/-- A write of a floating-point register changes no other one. -/
theorem writeReg_float (c : Core) (i : Fin cortexFloatRegCount) (v : UInt32) :
    ∃ fpu, c.writeReg (regnumCortexMf i).toNat v = { c with fpu := fpu } ∧
      fpu.map Fpu.fpca = c.fpu.map Fpu.fpca := by
  have hfloat : c.writeReg (regnumCortexMf i).toNat v =
      c.writeFloat (regnumCortexMf i).toNat v := by
    fin_cases i <;> rfl
  refine ⟨_, hfloat, ?_⟩
  rw [Option.map_map]
  congr 1
  funext fpu
  change (if _ then _ else _ : Fpu).fpca = _
  split
  · rfl
  · rfl

/-- Writing floating-point registers changes the FPU only. -/
theorem foldl_float (c : Core) (regs : Fin cortexFloatRegCount → UInt32)
    (l : List (Fin cortexFloatRegCount)) :
    ∃ fpu, l.foldl (fun c i => c.writeReg (regnumCortexMf i).toNat (regs i)) c =
      { c with fpu := fpu } ∧
      fpu.map Fpu.fpca = c.fpu.map Fpu.fpca := by
  induction l generalizing c with
  | nil => exact ⟨c.fpu, rfl, rfl⟩
  | cons i l ih =>
    obtain ⟨fpu₁, hwrite, hfpca₁⟩ := writeReg_float c i (regs i)
    obtain ⟨fpu, hrest, hfpca⟩ := ih { c with fpu := fpu₁ }
    refine ⟨fpu, ?_, hfpca.trans hfpca₁⟩
    rw [List.foldl_cons, hwrite, hrest]

/-! ## The registers that are written back -/

section
variable (regs : Fin cortexmGeneralRegCount → UInt32) (spsel fpca : Bool) (stack : List UInt8)

/-- The size of the frame, with the bytes that were skipped for its alignment. -/
def frameBytes : UInt32 :=
  (if fpca then 0x68 else 0x20) + if wordAt stack 7 &&& 0x200 != 0 then 4 else 0

/-- The size of a frame, by the two bits that decide it. -/
theorem frameBytes_eq : frameBytes fpca stack =
    if wordAt stack 7 &&& 0x200 != 0 then (if fpca then 0x68 else 0x20) + 4 else if fpca then 0x68
      else 0x20 := by
  unfold frameBytes
  by_cases halign : (wordAt stack 7 &&& 0x200 != 0) = true
  · rw [if_pos halign, if_pos halign]
  · rw [if_neg halign, if_neg halign, UInt32.add_zero]

/-- The low registers are not unwound twice. -/
theorem unwoundRegs_low (i : Fin 13) :
    unwoundRegs regs spsel fpca stack (i.castLE (by decide)) = regs (i.castLE (by decide)) := by
  have hne : ∀ k : Fin cortexmGeneralRegCount, 13 ≤ k.val → i.castLE (by decide) ≠ k := by
    intro k hk h
    have hval : i.val = k.val := congrArg Fin.val h
    omega
  have h13 := hne 13 (by decide)
  have h14 := hne 14 (by decide)
  have h15 := hne 15 (by decide)
  have h17 := hne 17 (by decide)
  have h18 := hne 18 (by decide)
  have h19 := hne 19 (by decide)
  cases spsel with
  | false =>
    cases fpca with
    | false => simp [unwoundRegs, Function.update_of_ne, h13, h14, h15, h17]
    | true => simp [unwoundRegs, Function.update_of_ne, h13, h14, h15, h17, h19]
  | true =>
    cases fpca with
    | false => simp [unwoundRegs, Function.update_of_ne, h13, h14, h15, h18, h19]
    | true => simp [unwoundRegs, Function.update_of_ne, h13, h14, h15, h18, h19]

/-- The link register, the program counter and the stack pointers. -/
theorem unwoundRegs_high :
    unwoundRegs regs spsel fpca stack 14 = wordAt stack 5 ∧
      unwoundRegs regs spsel fpca stack 15 = wordAt stack 6 ∧
      unwoundRegs regs spsel fpca stack 17 =
        (if spsel then regs 17 else regs 17 + frameBytes fpca stack) ∧
      unwoundRegs regs spsel fpca stack 18 = if spsel then regs 18 + frameBytes fpca stack
        else regs 18 := by
  rw [frameBytes_eq]
  cases spsel with
  | false =>
    cases fpca with
    | false => exact ⟨rfl, rfl, rfl, rfl⟩
    | true => exact ⟨rfl, rfl, rfl, rfl⟩
  | true =>
    cases fpca with
    | false => exact ⟨rfl, rfl, rfl, rfl⟩
    | true => exact ⟨rfl, rfl, rfl, rfl⟩

/-- SPSEL is written as FPCA, and FPCA as SPSEL. -/
theorem unwoundRegs_special (hspecial : regs 19 &&& (controlSpsel ||| controlFpca) = 0) :
    (unwoundRegs regs spsel fpca stack 19 &&& controlSpsel != 0) = fpca ∧
      (unwoundRegs regs spsel fpca stack 19 &&& controlFpca != 0) = spsel := by
  have hspsel : regs 19 &&& controlSpsel = 0 := and_eq_zero_of_and hspecial (by decide)
  have hfpca : regs 19 &&& controlFpca = 0 := and_eq_zero_of_and hspecial (by decide)
  have hvalue : unwoundRegs regs spsel fpca stack 19 =
      (regs 19 ||| if spsel then 0x4000000 else 0) ||| if fpca then 0x2000000 else 0 := by
    cases spsel with
    | false =>
      cases fpca with
      | false => exact (UInt32.or_zero.trans UInt32.or_zero).symm
      | true => exact congrArg (· ||| 0x2000000) UInt32.or_zero.symm
    | true =>
      cases fpca with
      | false => exact UInt32.or_zero.symm
      | true => rfl
  rw [hvalue, or_and_mask, or_and_mask, or_and_mask, or_and_mask, hspsel, hfpca]
  clear hvalue
  revert spsel fpca
  decide

end

/-! ## The fault is unwound -/

section
variable {link : Link}

/-- `cortexm_regs_read` of a halted core. -/
theorem cortexmRegsRead_ok (hlink : link.Succeeds) (uninit : Regs) :
    ∃ d float, cortexmRegsRead uninit link =
      .ok ⟨fun i => link.halted.core.readReg (regnumCortexM i).toNat, float⟩
        { link with halted := ⟨link.halted.core, d⟩ } := by
  obtain ⟨d, hgeneral⟩ := readRegs_ok isRegNum_general uninit.general hlink
  have hget : ∀ l : Link, (get : LinkM Link) l = .ok l l := fun _ => rfl
  unfold cortexmRegsRead
  rw [run_bind_ok hgeneral, run_bind_ok (hget _)]
  by_cases hfpu : link.v7mf = true
  · obtain ⟨d', hfloat⟩ := readRegs_ok isRegNum_float uninit.float
      (hlink.with_halted ⟨link.halted.core, d⟩)
    refine ⟨d', fun i => link.halted.core.readReg (regnumCortexMf i).toNat, ?_⟩
    rw [if_pos hfpu, run_bind_ok hfloat]
    rfl
  · refine ⟨d, uninit.float, ?_⟩
    rw [if_neg hfpu]
    rfl

/-- `cortexm_regs_write` of a halted core in Thread mode. -/
theorem cortexmRegsWrite_ok (hlink : link.Succeeds) (hmode : link.halted.core.mode = .thread false)
    (regs : Regs) :
    ∃ d fpu, cortexmRegsWrite regs link = .ok ()
        { link with halted := ⟨{ withGeneral link.halted.core regs.general with fpu := fpu }, d⟩ } ∧
      fpu.map Fpu.fpca = (withGeneral link.halted.core regs.general).fpu.map Fpu.fpca := by
  obtain ⟨d, hgeneral⟩ := writeRegs_ok isRegNum_general regs.general hlink
  rw [foldl_general _ hmode] at hgeneral
  have hget : ∀ l : Link, (get : LinkM Link) l = .ok l l := fun _ => rfl
  unfold cortexmRegsWrite
  rw [run_bind_ok hgeneral, run_bind_ok (hget _)]
  by_cases hfpu : link.v7mf = true
  · obtain ⟨d', hfloat⟩ := writeRegs_ok isRegNum_float regs.float
      (hlink.with_halted ⟨withGeneral link.halted.core regs.general, d⟩)
    obtain ⟨fpu, hfold, hfpca⟩ :=
      foldl_float (withGeneral link.halted.core regs.general) regs.float
        (List.finRange cortexFloatRegCount)
    rw [hfold] at hfloat
    refine ⟨d', fpu, ?_, hfpca⟩
    rw [if_pos hfpu, hfloat]
  · refine ⟨d, (withGeneral link.halted.core regs.general).fpu, ?_, rfl⟩
    rw [if_neg hfpu]
    rfl

/-- The registers that the unwinding is about are what they were. -/
structure Restored (pre post : Core) : Prop where
  r : post.r = pre.r
  sp : post.sp = pre.sp
  lr : post.lr = pre.lr
  pc : post.pc = pre.pc
  msp : post.msp = pre.msp
  psp : post.psp = pre.psp
  spsel : post.spsel = pre.spsel
  fpca : post.fpca = pre.fpca

/-- A core with no fault status. -/
def cleared (c : Core) : Core := { c with hfsr := 0, cfsr := 0 }

/-- The status registers are read and cleared. -/
theorem faultStatus_ok (hlink : link.Succeeds) :
    targetMemRead32 cortexmHfsr link = .ok link.halted.core.hfsr link ∧
      targetMemRead32 cortexmCfsr link = .ok link.halted.core.cfsr link ∧
      ∀ {α : Type} (k : LinkM α),
        (targetMemWrite32 cortexmHfsr link.halted.core.hfsr >>= fun _ =>
          targetMemWrite32 cortexmCfsr link.halted.core.cfsr >>= fun _ => k) link =
        k { link with halted := ⟨cleared link.halted.core, link.halted.dcrdr⟩ } := by
  have hread : link.halted.load32 cortexmHfsr = link.halted.core.hfsr := by
    rw [Halted.load32, if_pos (by decide), Halted.scsRead, if_pos rfl]
  have hread' : link.halted.load32 cortexmCfsr = link.halted.core.cfsr := by
    rw [Halted.load32, if_pos (by decide), Halted.scsRead, if_neg (by decide), if_pos rfl]
  refine ⟨hread ▸ busRead32_ok hlink, hread' ▸ busRead32_ok hlink, fun k => ?_⟩
  unfold targetMemWrite32 cleared
  rw [run_bind_ok (busWrite32_ok hlink), run_bind_ok (busWrite32_ok (hlink.with_halted _)),
    Halted.store32, Halted.store32, if_pos rfl, if_neg (by decide), if_pos rfl, UInt32.and_not_self,
    UInt32.and_not_self]

/-- The stack that EXC_RETURN names holds the frame. -/
theorem targetMemRead_frame {pre : Core} {fault : Fault} (hlink : link.Succeeds)
    (hmem : link.halted.core.mem = (pre.enter fault).mem)
    (hstack : ∀ i < 32, ¬ inScs (pre.framePtr + UInt32.ofNat i)) :
    targetMemRead pre.framePtr 32 link = .ok (wordsToBytes pre.basicFrame) link := by
  have hbytes :
      ((List.range 32).map fun i => link.halted.loadByte (pre.framePtr + UInt32.ofNat i)) =
      wordsToBytes pre.basicFrame := by
    rw [← pre.load_frame]
    refine List.map_congr_left fun i hi => ?_
    rw [Halted.loadByte, if_neg (hstack i (List.mem_range.1 hi)), hmem]
    rfl
  rw [targetMemRead_ok hlink, hbytes]

/-- The size that is read back from the frame is what the entry pushed. -/
theorem frameBytes_basicFrame (pre : Core) :
    frameBytes pre.fpca (wordsToBytes pre.basicFrame) = pre.popped := by
  have hxpsr : wordAt (wordsToBytes pre.basicFrame) 7 = pre.stackedXpsr := wordAt_wordsToBytes rfl
  rw [frameBytes, hxpsr, pre.stackedXpsr_frameAlign, Core.popped, Core.frameSize]

/-- No exception is active after the write to AIRCR. -/
theorem store32_aircr (h : Halted) :
    h.store32 cortexmAircr (cortexmAircrVectkey ||| cortexmAircrVectclractive) =
      { h with core := h.core.clearActive } := by
  rw [Halted.store32, if_neg (by decide), if_neg (by decide), if_pos rfl, if_pos (by decide)]

/-- What an unwind leaves in the core. -/
theorem cortexmFaultUnwind_ok {pre core : Core} {fault : Fault}
    (hentry : pre.exceptionEntry fault = some core) (hlink : link.Succeeds)
    (hcore : link.halted.core = core) (uninit : Regs) :
    ∃ link', cortexmFaultUnwind uninit link = .ok 1 link' ∧
      link'.halted.core.r = pre.r ∧ link'.halted.core.lr = pre.lr ∧ link'.halted.core.pc = pre.pc ∧
      link'.halted.core.msp = pre.msp ∧ link'.halted.core.psp = pre.psp ∧
      link'.halted.core.spsel = pre.fpca ∧ link'.halted.core.fpca =
        (pre.spsel && pre.fpu.isSome) := by
  obtain ⟨henter, hstack⟩ := pre.eq_enter hentry
  obtain ⟨hread, hread', hclear⟩ := faultStatus_ok hlink
  have hcore' : link.halted.core = pre.enter fault := hcore.trans henter
  have hstatus : link.halted.core.hfsr &&& hfsrForced ≠ 0 ∨ link.halted.core.cfsr ≠ 0 := by
    rw [hcore']
    refine fault.status.imp (fun h h' => h ?_) fun h h' => h ?_
    · change (pre.hfsr ||| fault.hfsr) &&& hfsrForced = 0 at h'
      rw [or_and_mask] at h'
      exact (UInt32.or_eq_zero_iff.1 h').2
    · exact (UInt32.or_eq_zero_iff.1 h').2
  unfold cortexmFaultUnwind
  rw [run_bind_ok hread, run_bind_ok hread', hclear, if_pos hstatus, hcore']
  -- the registers of the core that is halted in the handler
  have hlink₁ := fun h => hlink.with_halted h
  obtain ⟨d, float, hregs⟩ :=
    cortexmRegsRead_ok (hlink₁ ⟨cleared (pre.enter fault), link.halted.dcrdr⟩) uninit
  generalize hgeneral : (fun i => (cleared (pre.enter fault)).readReg (regnumCortexM i).toNat) =
    regs at hregs
  have hlow : ∀ i : Fin 13, regs (i.castLE (by decide)) = pre.r i := by
    rw [← hgeneral]
    intro i
    fin_cases i <;> rfl
  have hlr : regs 14 = pre.excReturn := by
    rw [← hgeneral]
    rfl
  have hmsp : regs 17 = if pre.spsel then pre.msp else pre.framePtr := by
    rw [← hgeneral]
    rfl
  have hpsp : regs 18 = if pre.spsel then pre.framePtr else pre.psp := by
    rw [← hgeneral]
    rfl
  have hspecial : regs 19 &&& (controlSpsel ||| controlFpca) = 0 := by
    rw [← hgeneral]
    exact pre.special_enter fault
  have hsp : (if pre.spsel then regs 18 else regs 17) = pre.framePtr := by
    rw [hmsp, hpsp]
    split
    · rfl
    · rfl
  rw [run_bind_ok hregs]
  simp only [hlr, Core.excReturn_spsel, Core.excReturn_fpca, hsp]
  -- the frame, and the core that runs thread code again
  have hframe := @targetMemRead_frame _ pre fault (hlink₁ ⟨cleared (pre.enter fault), d⟩) rfl hstack
  have hwrite := @busWrite32_ok _ cortexmAircr (cortexmAircrVectkey ||| cortexmAircrVectclractive)
    (hlink₁ ⟨cleared (pre.enter fault), d⟩)
  rw [store32_aircr] at hwrite
  obtain ⟨d', fpu, hrestore, hfpu⟩ := cortexmRegsWrite_ok
    (hlink₁ ⟨(cleared (pre.enter fault)).clearActive, d⟩) rfl
    ⟨unwoundRegs regs pre.spsel pre.fpca (wordsToBytes pre.basicFrame), float⟩
  unfold targetMemWrite32
  rw [run_bind_ok hframe, run_bind_ok (targetCheckError_ok (hlink₁ _)), if_neg Bool.false_ne_true,
    run_bind_ok hwrite, run_bind_ok hrestore]
  refine ⟨_, rfl, ?_⟩
  obtain ⟨hlr', hpc', hmsp', hpsp'⟩ :=
    unwoundRegs_high regs pre.spsel pre.fpca (wordsToBytes pre.basicFrame)
  obtain ⟨hspsel', hfpca'⟩ :=
    unwoundRegs_special regs pre.spsel pre.fpca (wordsToBytes pre.basicFrame) hspecial
  rw [frameBytes_basicFrame] at hmsp' hpsp'
  have hpop := pre.framePtr_add_popped
  refine ⟨funext fun i => ?_, ?_, ?_, ?_, ?_, hspsel', ?_⟩
  · exact (unwoundRegs_low ..).trans (hlow i)
  · exact hlr'.trans (wordAt_wordsToBytes rfl)
  · exact hpc'.trans (wordAt_wordsToBytes rfl)
  · refine hmsp'.trans ?_
    rw [hmsp]
    by_cases hs : pre.spsel = true
    · rw [if_pos hs, if_pos hs]
    · rw [if_neg hs, if_neg hs, hpop, Core.sp, if_neg hs]
  · refine hpsp'.trans ?_
    rw [hpsp]
    by_cases hs : pre.spsel = true
    · rw [if_pos hs, if_pos hs, hpop, Core.sp, if_pos hs]
    · rw [if_neg hs, if_neg hs]
  · rw [Core.fpca_eq]
    change (fpu.map Fpu.fpca).getD false = _
    rw [hfpu]
    change (Option.map Fpu.fpca (Option.map _ (Option.map _ pre.fpu))).getD false = _
    rw [Option.map_map, Option.map_map]
    cases pre.fpu with
    | none => exact (Bool.and_false _).symm
    | some f => exact hfpca'.trans (Bool.and_true _).symm

/-- The registers are restored when SPSEL and FPCA were equal, and then only. -/
theorem restored_iff {pre core : Core} {fault : Fault}
    (hentry : pre.exceptionEntry fault = some core) (hlink : link.Succeeds)
    (hcore : link.halted.core = core) (uninit : Regs) :
    ∃ link', cortexmFaultUnwind uninit link = .ok 1 link' ∧
      (Restored pre link'.halted.core ↔ pre.spsel = pre.fpca) := by
  obtain ⟨link', hrun, hr, hlr, hpc, hmsp, hpsp, hspsel, hfpca⟩ :=
    cortexmFaultUnwind_ok hentry hlink hcore uninit
  refine ⟨link', hrun, fun h => h.spsel.symm.trans hspsel, fun h => ?_⟩
  have hspsel' : link'.halted.core.spsel = pre.spsel := hspsel.trans h.symm
  have hfpca' : link'.halted.core.fpca = pre.fpca := by
    rw [hfpca, h, Core.fpca_eq]
    cases pre.fpu with
    | none => rfl
    | some f => exact Bool.and_true _
  refine ⟨hr, ?_, hlr, hpc, hmsp, hpsp, hspsel', hfpca'⟩
  rw [Core.sp, Core.sp, hspsel', hmsp, hpsp]

end

/-- Thread code on the process stack of a part without an FPU. -/
def threadOnPsp : Core where
  r _ := 0
  lr := 0x08000101
  pc := 0x08000200
  xpsr := 0x01000000
  msp := 0x20000400
  psp := 0x20000800
  masks := 0
  mode := .thread true
  fpu := none
  hfsr := 0
  cfsr := 0
  stkalign := true
  lspen := true
  mem _ := 0

/-- A BusFault that was made a HardFault. -/
def forcedFault : Fault := ⟨3, 0x08000301, hfsrForced, 0x8200, .inl (by decide)⟩

/-- A target whose accesses all succeed. -/
def linkTo (core : Core) : Link := ⟨⟨core, 0⟩, false, fun _ => false, false⟩

/-- The link of the examples succeeds. -/
theorem linkTo_succeeds (core : Core) : (linkTo core).Succeeds := ⟨fun _ => rfl, rfl⟩

/-- A forced HardFault of a thread on the process stack. -/
theorem threadOnPsp_entry :
    threadOnPsp.exceptionEntry forcedFault = some (threadOnPsp.enter forcedFault) :=
  if_pos (by decide)

/-- A thread on the process stack, without an active FPU. -/
theorem restored_iff_threadOnPsp :
    ∃ link', cortexmFaultUnwind ⟨fun _ => 0, fun _ => 0⟩ (linkTo (threadOnPsp.enter forcedFault)) =
      .ok 1 link' ∧
      (Restored threadOnPsp link'.halted.core ↔ threadOnPsp.spsel = threadOnPsp.fpca) :=
  restored_iff threadOnPsp_entry (linkTo_succeeds _) rfl _

/-- After a fault on the process stack the user's program goes on with the main stack. -/
theorem not_restored_threadOnPsp :
    ∃ link', cortexmFaultUnwind ⟨fun _ => 0, fun _ => 0⟩ (linkTo (threadOnPsp.enter forcedFault)) =
      .ok 1 link' ∧
      ¬ Restored threadOnPsp link'.halted.core := by
  obtain ⟨link', hrun, -, -, -, -, -, hspsel, -⟩ :=
    cortexmFaultUnwind_ok threadOnPsp_entry (linkTo_succeeds _) rfl ⟨fun _ => 0, fun _ => 0⟩
  refine ⟨link', hrun, fun h => ?_⟩
  have hboth : threadOnPsp.fpca = threadOnPsp.spsel := hspsel.symm.trans h.spsel
  exact Bool.false_ne_true hboth

end Unwind

end Blackmagic
