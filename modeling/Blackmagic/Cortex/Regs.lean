import Blackmagic.Adiv5.Write

/-!
# The core registers of the emulated target: `cortexm.c`

The registers are moved one at a time, by DCRSR and DCRDR. The bulk functions reach the two through
the banked data registers of the AP, the single ones through memory accesses. Both are the same
transfers of the core (`coreRegTransfer_read`, `coreRegTransfer_write`), and neither relies on what
the other one left in the transport.

The emulated core has no data cache and no FPU: CTR and CPACR read as 0.
-/

namespace Blackmagic

open Bytes Effect Word

/-! ## The functions -/

/-- `CORTEXM_GENERAL_REG_COUNT`. -/
abbrev cortexmGeneralRegCount : Nat := 20

instance neZeroGeneralRegs : NeZero cortexmGeneralRegCount := ⟨by decide⟩

/-- `regnum_cortex_m`. -/
def regnumCortexM (i : Fin cortexmGeneralRegCount) : UInt32 :=
  #v[0, 1, 2, 3, 4, 5, 6, 7, 8, 9, 10, 11, 12, 13, 14, 15, 0x10, 0x11, 0x12, 0x14].get i

/-- `CORTEXM_DHCSR`. -/
def cortexmDhcsr : UInt32 := 0xe000edf0

/-- `CORTEXM_DCRSR`. -/
def cortexmDcrsr : UInt32 := 0xe000edf4

/-- `CORTEXM_DCRDR`. -/
def cortexmDcrdr : UInt32 := 0xe000edf8

section
variable (malloc : Bool) (ap : Adiv5AccessPort)

/-- What the bulk functions start with: the banked data registers are mapped to the debug
registers. -/
def mapBanked : ShimM Unit := do
  apMemAccessSetup malloc ap cortexmDhcsr .bits32
  adiv5DpWrite malloc 0x8 ((ap.apsel.toUInt32 <<< 24) ||| 0x10)

/-- A register is read by `ADIV5_AP_DB(DB_DCRSR)` and `ADIV5_AP_DB(DB_DCRDR)`. -/
def bankedRegRead (i : Fin cortexmGeneralRegCount) : ShimM UInt32 := do
  adiv5DpWrite malloc 0x114 (regnumCortexM i)
  emuShimDpRead malloc 0x118

/-- `cortexm_regs_read`. -/
def cortexmRegsRead : ShimM (List UInt32) := do
  mapBanked malloc ap
  (List.finRange cortexmGeneralRegCount).mapM (bankedRegRead malloc)

/-- A register is written by `ADIV5_AP_DB(DB_DCRDR)` and `ADIV5_AP_DB(DB_DCRSR)`. -/
def bankedRegWrite (i : Fin cortexmGeneralRegCount) (value : UInt32) : ShimM Unit := do
  adiv5DpWrite malloc 0x118 value
  adiv5DpWrite malloc 0x114 (0x10000 ||| regnumCortexM i)

/-- `cortexm_regs_write`. -/
def cortexmRegsWrite (regs : Fin cortexmGeneralRegCount → UInt32) : ShimM Unit := do
  mapBanked malloc ap
  (List.finRange cortexmGeneralRegCount).forM fun i => bankedRegWrite malloc i (regs i)

/-- `cortexm_mem_read`. -/
def cortexmMemRead (src : UInt32) (len : Nat) : ShimM (List UInt8) :=
  advi5MemReadBytes malloc ap src len

/-- `cortexm_mem_write`. -/
def cortexmMemWrite (dest : UInt32) (data : List UInt8) : ShimM Unit :=
  adiv5MemWrite malloc ap dest data

/-- `target_mem_read32`. -/
def targetMemRead32 (addr : UInt32) : ShimM UInt32 := do
  let bytes ← cortexmMemRead malloc ap addr 4
  return UInt32.ofNat (leNat bytes)

/-- `target_mem_write32`. -/
def targetMemWrite32 (addr value : UInt32) : ShimM Unit :=
  cortexmMemWrite malloc ap addr (leBytes 4 value.toNat)

/-- `cortexm_reg_read`: the value, when there is room for it. -/
def cortexmRegRead (i : Fin cortexmGeneralRegCount) (max : Nat) : ShimM (Option UInt32) :=
  if max < 4 then return none
  else do
    targetMemWrite32 malloc ap cortexmDcrsr (regnumCortexM i)
    let value ← targetMemRead32 malloc ap cortexmDcrdr
    return some value

/-- `cortexm_reg_write`. -/
def cortexmRegWrite (i : Fin cortexmGeneralRegCount) (value : UInt32) (max : Nat) : ShimM Unit :=
  if max < 4 then return ()
  else do
    targetMemWrite32 malloc ap cortexmDcrdr value
    targetMemWrite32 malloc ap cortexmDcrsr (dcrsrRegWnR ||| regnumCortexM i)

end

/-! ## The core -/

/-- A general register of the core. -/
def EmuTarget.reg (m : EmuTarget) (i : Fin cortexmGeneralRegCount) : UInt32 :=
  m.coreReg[(regnumCortexM i).toNat]?.getD 0

/-- The registers of the core that are none of the general ones are what they were. -/
def OthersKept (m m' : EmuTarget) : Prop :=
  ∀ n, (∀ i, (regnumCortexM i).toNat ≠ n) → m'.coreReg[n]? = m.coreReg[n]?

section
variable {m m' : EmuTarget} {i j : Fin cortexmGeneralRegCount}

/-- The register numbers are those of core registers. -/
theorem regnumCortexM_lt (i : Fin cortexmGeneralRegCount) :
    (regnumCortexM i).toNat < coreRegCount := by
  revert i
  decide

/-- No two registers have one number. -/
theorem regnumCortexM_inj (h : (regnumCortexM i).toNat = (regnumCortexM j).toNat) : i = j := by
  revert i j
  decide

/-- The number and the direction can be told apart in DCRSR. -/
theorem and_regnum (i : Fin cortexmGeneralRegCount) : regnumCortexM i &&& 0x7f = regnumCortexM i ∧
    (dcrsrRegWnR ||| regnumCortexM i) &&& 0x7f = regnumCortexM i ∧
    regnumCortexM i &&& dcrsrRegWnR = 0 ∧ (dcrsrRegWnR ||| regnumCortexM i) &&& dcrsrRegWnR ≠
      0 := by
  revert i
  decide

/-- A transfer from a register to DCRDR. -/
theorem coreRegTransfer_read (m : EmuTarget) (i : Fin cortexmGeneralRegCount) :
    (coreRegTransfer m (regnumCortexM i)).coreReg = m.coreReg ∧
      (coreRegTransfer m (regnumCortexM i)).dcrdr = m.reg i := by
  have hlt := regnumCortexM_lt i
  obtain ⟨hnum, -, hdir, -⟩ := and_regnum i
  unfold coreRegTransfer
  simp only [hnum, hdir, dif_pos hlt, ne_eq, not_true_eq_false, if_false]
  refine ⟨trivial, ?_⟩
  rw [EmuTarget.reg, Vector.getElem?_eq_getElem hlt]
  rfl

/-- A transfer from DCRDR to a register. -/
theorem coreRegTransfer_write (m : EmuTarget) (i : Fin cortexmGeneralRegCount) :
    (∀ j, (coreRegTransfer m (dcrsrRegWnR ||| regnumCortexM i)).reg j =
        if j = i then m.dcrdr else m.reg j) ∧
      OthersKept m (coreRegTransfer m (dcrsrRegWnR ||| regnumCortexM i)) := by
  have hlt := regnumCortexM_lt i
  obtain ⟨-, hnum, -, hdir⟩ := and_regnum i
  unfold coreRegTransfer
  simp only [hnum, dif_pos hlt, if_pos hdir]
  refine ⟨fun j => ?_, fun n hn => ?_⟩
  · unfold EmuTarget.reg
    by_cases hj : j = i
    · rw [if_pos hj, hj, Vector.getElem?_set_self hlt]
      rfl
    · rw [if_neg hj, Vector.getElem?_set_ne hlt fun h => hj (regnumCortexM_inj h).symm]
  · exact Vector.getElem?_set_ne hlt (hn i)

/-- Two steps that keep the other registers. -/
theorem OthersKept.trans {m₁ m₂ m₃ : EmuTarget} (h : OthersKept m₁ m₂) (h' : OthersKept m₂ m₃) :
    OthersKept m₁ m₃ := fun n hn => (h' n hn).trans (h n hn)

/-- A step that keeps all registers. -/
theorem OthersKept.of_eq (h : m'.coreReg = m.coreReg) : OthersKept m m' := fun n _ => by rw [h]

/-- Targets with the same core registers. -/
theorem reg_congr (h : m'.coreReg = m.coreReg) (i : Fin cortexmGeneralRegCount) :
    m'.reg i = m.reg i := by
  rw [EmuTarget.reg, EmuTarget.reg, h]

end

/-! ## Accesses to DCRSR and DCRDR -/

section
variable {malloc : Bool} {ap : Adiv5AccessPort} {s : EmuShim} {m : EmuTarget} {v : UInt32}
  {size : Nat}

/-- A store to DCRSR makes a transfer. -/
theorem emuTargetStore_dcrsr :
    emuTargetStore malloc m { addr := cortexmDcrsr, value := v, size := size } =
    .ok (coreRegTransfer m v) := by
  rw [emuTargetStore, if_neg (show ¬ inFlash cortexmDcrsr by decide),
    if_neg (show ¬ inRange cortexmDcrsr emuSramBase emuSramSize by decide),
    if_pos (show inRange cortexmDcrsr emuScsBase 0x1000 by decide)]
  change Except.ok (scsWrite m (cortexmDcrsr - emuScsBase) v) = _
  rw [show cortexmDcrsr - emuScsBase = 0xdf4 by decide, scsWrite, if_neg (by decide), if_pos rfl]

/-- A store to DCRDR. -/
theorem emuTargetStore_dcrdr :
    emuTargetStore malloc m { addr := cortexmDcrdr, value := v, size := size } =
    .ok { m with dcrdr := v } := by
  rw [emuTargetStore, if_neg (show ¬ inFlash cortexmDcrdr by decide),
    if_neg (show ¬ inRange cortexmDcrdr emuSramBase emuSramSize by decide),
    if_pos (show inRange cortexmDcrdr emuScsBase 0x1000 by decide)]
  change Except.ok (scsWrite m (cortexmDcrdr - emuScsBase) v) = _
  rw [show cortexmDcrdr - emuScsBase =
    0xdf8 by decide, scsWrite, if_neg (by decide), if_neg (by decide), if_pos rfl]

/-- A load of DCRDR. -/
theorem emuTargetLoad_dcrdr : emuTargetLoad m cortexmDcrdr 4 = .ok m.dcrdr := by
  have hread : scsRead m (cortexmDcrdr - emuScsBase) &&& sizeMask 4 = m.dcrdr := by
    change m.dcrdr &&& -1 = m.dcrdr
    exact UInt32.and_neg_one
  rw [emuTargetLoad, if_neg (show ¬ inFlash cortexmDcrdr by decide),
    if_neg (show ¬ inRange cortexmDcrdr emuSramBase emuSramSize by decide),
    if_neg (show cortexmDcrdr ≠ emuDbgmcuIdcode by decide),
    if_neg (show ¬ inRange cortexmDcrdr emuRomBase 0x1000 by decide),
    if_pos (show inRange cortexmDcrdr emuScsBase 0x1000 by decide), hread]

/-- The banked data registers are the debug registers. -/
structure Mapped (s : EmuShim) : Prop where
  tar : s.tar = cortexmDhcsr
  select : s.select >>> 24 = 0

/-- What the target does leaves the banked registers mapped. -/
theorem Mapped.of_target (hs : Mapped s) (m : EmuTarget) : Mapped { s with target := m } :=
  ⟨hs.tar, hs.select⟩

/-- The debug registers are mapped to the banked data registers. -/
theorem mapBanked_ok (hap : MemAp ap) (s : EmuShim) :
    ∃ s', mapBanked malloc ap s = .ok () s' ∧ Mapped s' ∧ s'.target = s.target := by
  unfold mapBanked
  rw [run_bind_ok (apMemAccessSetup_ok cortexmDhcsr .bits32)]
  refine ⟨_, rfl, ⟨rfl, ?_⟩, rfl⟩
  rw [hap.apsel]
  change (UInt8.toUInt32 0 <<< 24 ||| 0x10) >>> 24 = 0
  decide

/-- A write of DCRSR through its banked register. -/
theorem write_dcrsr (hs : Mapped s) : adiv5DpWrite malloc 0x114 v s =
    .ok () { s with target := coreRegTransfer s.target v } := by
  have hstore : emuTargetStore malloc s.target
      { addr := (s.tar &&& ~~~ 0xf) + ((0x14 : UInt16).toUInt32 - 0x10), value := v, size := 4 } =
      .ok (coreRegTransfer s.target v) := by
    rw [hs.tar]
    exact emuTargetStore_dcrsr
  change ((shimStore malloc ((s.tar &&& ~~~ 0xf) + ((0x14 : UInt16).toUInt32 - 0x10)) v 4 >>=
      fun _ =>
    pure 0) >>= fun _ => pure () : ShimM Unit) s = _
  rw [bind_assoc, run_bind_ok (shimStore_ok hstore)]
  rfl

/-- A write of DCRDR through its banked register. -/
theorem write_dcrdr (hs : Mapped s) : adiv5DpWrite malloc 0x118 v s =
    .ok () { s with target := { s.target with dcrdr := v } } := by
  have hstore : emuTargetStore malloc s.target
      { addr := (s.tar &&& ~~~ 0xf) + ((0x18 : UInt16).toUInt32 - 0x10), value := v, size := 4 } =
      .ok { s.target with dcrdr := v } := by
    rw [hs.tar]
    exact emuTargetStore_dcrdr
  change ((shimStore malloc ((s.tar &&& ~~~ 0xf) + ((0x18 : UInt16).toUInt32 - 0x10)) v 4 >>=
      fun _ =>
    pure 0) >>= fun _ => pure () : ShimM Unit) s = _
  rw [bind_assoc, run_bind_ok (shimStore_ok hstore)]
  rfl

/-- A read of DCRDR through its banked register. -/
theorem read_dcrdr (hs : Mapped s) : emuShimDpRead malloc 0x118 s =
    .ok s.target.dcrdr { s with posted := s.target.dcrdr } := by
  have hload : emuTargetLoad s.target ((s.tar &&& ~~~ 0xf) + ((0x18 : UInt16).toUInt32 - 0x10)) 4 =
      .ok s.target.dcrdr := by
    rw [hs.tar]
    exact emuTargetLoad_dcrdr
  have hpost : apRegPost 0x18 s = .ok () { s with posted := s.target.dcrdr } := by
    change (if s.select >>> 24 ≠ 0 then _ else bankedRead 0x18 : ShimM PUnit) s = _
    rw [if_neg (not_not.2 hs.select)]
    change (shimLoad ((s.tar &&& ~~~ 0xf) + ((0x18 : UInt16).toUInt32 - 0x10)) 4 >>= _) s = _
    rw [run_bind_ok (shimLoad_ok hload)]
    rfl
  have hread : emuShimLowAccess malloc .read 0x118 0 s =
      .ok s.posted { s with posted := s.target.dcrdr } := by
    change (apRegPost 0x18 >>= fun _ => pure s.posted : ShimM UInt32) s = _
    rw [run_bind_ok hpost]
    rfl
  change (emuShimLowAccess malloc .read 0x118 0 >>= fun _ => _) s = _
  rw [run_bind_ok hread]
  rfl

/-! ## The bulk functions -/

/-- A register is read through the banked registers. -/
theorem bankedRegRead_ok (hs : Mapped s) (i : Fin cortexmGeneralRegCount) :
    ∃ s', bankedRegRead malloc i s = .ok (s.target.reg i) s' ∧ Mapped s' ∧
      s'.target.coreReg = s.target.coreReg := by
  obtain ⟨hcore, hdcrdr⟩ := coreRegTransfer_read s.target i
  refine ⟨{ s with posted := s.target.reg i, target := coreRegTransfer s.target (regnumCortexM i) },
    ?_,
    ⟨hs.tar, hs.select⟩, hcore⟩
  unfold bankedRegRead
  rw [run_bind_ok (write_dcrsr hs), read_dcrdr (hs.of_target _)]
  simp only [hdcrdr]

/-- `cortexm_regs_read` gives all registers. -/
theorem cortexmRegsRead_ok (hap : MemAp ap) (s : EmuShim) :
    ∃ s', cortexmRegsRead malloc ap s = .ok (List.ofFn s.target.reg) s' ∧
      s'.target.coreReg = s.target.coreReg := by
  have hloop : ∀ (l : List (Fin cortexmGeneralRegCount)) (s : EmuShim), Mapped s →
      ∃ s', l.mapM (bankedRegRead malloc) s = .ok (l.map s.target.reg) s' ∧
        s'.target.coreReg = s.target.coreReg := by
    intro l
    induction l with
    | nil => exact fun s _ => ⟨s, rfl, rfl⟩
    | cons i l ih =>
      intro s hs
      obtain ⟨s₁, hread, hs₁, hcore₁⟩ := @bankedRegRead_ok malloc s hs i
      obtain ⟨s', hrest, hcore⟩ := ih s₁ hs₁
      refine ⟨s', ?_, hcore.trans hcore₁⟩
      have hreg : l.map s₁.target.reg = l.map s.target.reg :=
        List.map_congr_left fun j _ => reg_congr hcore₁ j
      rw [List.mapM_cons, run_bind_ok hread, run_bind_ok hrest, List.map_cons, hreg]
      rfl
  obtain ⟨s₁, hmap, hs₁, htarget₁⟩ := @mapBanked_ok malloc ap hap s
  obtain ⟨s', hread, hcore⟩ := hloop (List.finRange cortexmGeneralRegCount) s₁ hs₁
  rw [htarget₁] at hread hcore
  refine ⟨s', ?_, hcore⟩
  unfold cortexmRegsRead
  rw [run_bind_ok hmap, hread, List.ofFn_eq_map]

/-- A register is written through the banked registers. -/
theorem bankedRegWrite_ok (hs : Mapped s) (i : Fin cortexmGeneralRegCount) (v : UInt32) :
    ∃ s', bankedRegWrite malloc i v s = .ok () s' ∧ Mapped s' ∧
      (∀ j, s'.target.reg j = if j = i then v else s.target.reg j) ∧
      OthersKept s.target s'.target := by
  obtain ⟨hreg, hothers⟩ := coreRegTransfer_write { s.target with dcrdr := v } i
  unfold bankedRegWrite
  rw [run_bind_ok (write_dcrdr hs), write_dcrsr (hs.of_target _)]
  exact ⟨_, rfl, ⟨hs.tar, hs.select⟩, hreg, hothers⟩

/-- `cortexm_regs_write` writes all registers and no other. -/
theorem cortexmRegsWrite_ok (hap : MemAp ap) (s : EmuShim)
    (regs : Fin cortexmGeneralRegCount → UInt32) :
    ∃ s', cortexmRegsWrite malloc ap regs s = .ok () s' ∧ s'.target.reg = regs ∧
      OthersKept s.target s'.target := by
  have hloop : ∀ (l : List (Fin cortexmGeneralRegCount)) (s : EmuShim), Mapped s →
      ∃ s', (l.forM fun i => bankedRegWrite malloc i (regs i)) s = .ok () s' ∧
        (∀ j, s'.target.reg j = if j ∈ l then regs j else s.target.reg j) ∧
        OthersKept s.target s'.target := by
    intro l
    induction l with
    | nil => exact fun s _ => ⟨s, rfl, fun j => by rw [if_neg List.not_mem_nil], .of_eq rfl⟩
    | cons i l ih =>
      intro s hs
      obtain ⟨s₁, hwrite, hs₁, hreg₁, hothers₁⟩ := @bankedRegWrite_ok malloc s hs i (regs i)
      obtain ⟨s', hrest, hreg, hothers⟩ := ih s₁ hs₁
      refine ⟨s', ?_, fun j => ?_, hothers₁.trans hothers⟩
      · change (bankedRegWrite malloc i (regs i) >>= fun _ => _) s = _
        rw [run_bind_ok hwrite, hrest]
      · rw [hreg, hreg₁]
        by_cases hl : j ∈ l
        · rw [if_pos hl, if_pos (List.mem_cons_of_mem i hl)]
        · by_cases hi : j = i
          · rw [if_neg hl, if_pos hi, if_pos (hi ▸ List.mem_cons_self), hi]
          · rw [if_neg hl, if_neg hi, if_neg (by rw [List.mem_cons]; exact not_or.2 ⟨hi, hl⟩)]
  obtain ⟨s₁, hmap, hs₁, htarget₁⟩ := @mapBanked_ok malloc ap hap s
  obtain ⟨s', hwrite, hreg, hothers⟩ := hloop (List.finRange cortexmGeneralRegCount) s₁ hs₁
  rw [htarget₁] at hothers
  refine ⟨s', ?_, funext fun j => ?_, hothers⟩
  · unfold cortexmRegsWrite
    rw [run_bind_ok hmap, hwrite]
  · rw [hreg, if_pos (List.mem_finRange j)]

/-! ## The single functions -/

/-- A word is written to a debug register. -/
theorem targetMemWrite32_ok (hap : MemAp ap) (s : EmuShim) {addr : UInt32}
    (haddr : addr.toNat % 4 = 0)
    (hstore : emuTargetStore malloc s.target { addr := addr, value := v, size := 4 } = .ok m) :
    ∃ s', targetMemWrite32 malloc ap addr v s = .ok () s' ∧ s'.target = m := by
  have halign : minAlign addr.toNat 4 = .bits32 := by
    have h3 : addr.toNat &&& 3 = 0 := by
      rw [Nat.and_two_pow_sub_one_eq_mod _ 2]
      exact haddr
    unfold minAlign alignOf
    rw [if_pos h3]
    rfl
  obtain ⟨s', hwrite, hrun⟩ := @adiv5MemWriteBytes_run malloc ap .bits32 addr hap (by decide)
    (Nat.dvd_of_mod_eq_zero haddr) (leBytes 4 v.toNat) s
  have hvalue : leNat ((leBytes 4 v.toNat).take 4) = v.toNat := by
    rw [List.take_of_length_le (by simp)]
    exact leNat_leBytes v.toNat_lt
  have hunit : unitStores .bits32 ((leBytes 4 v.toNat).length / Align.bits32.width) addr
      (leBytes 4 v.toNat) = [{ addr := addr, value := v, size := 4 }] := by
    rw [length_leBytes]
    change [(⟨addr, UInt32.ofNat (leNat ((leBytes 4 v.toNat).take 4)), 4⟩ : EmuStore)] = _
    rw [hvalue, UInt32.ofNat_toNat]
  rw [hunit, Machine.run_cons hstore] at hrun
  refine ⟨s', ?_, (Except.ok.inj hrun).symm⟩
  rw [targetMemWrite32, cortexmMemWrite, adiv5MemWrite, length_leBytes, halign]
  exact hwrite

/-- A memory read of DCRDR. -/
theorem targetMemRead32_dcrdr (hap : MemAp ap) (s : EmuShim) :
    ∃ s', targetMemRead32 malloc ap cortexmDcrdr s = .ok s.target.dcrdr s' ∧
      s'.target = s.target := by
  obtain ⟨s', hread, htarget⟩ := @advi5MemReadBytes_run malloc ap s hap cortexmDcrdr 4 (by decide)
  refine ⟨s', ?_, htarget⟩
  have hunit : unitBytes s.target .bits32 cortexmDcrdr = leBytes 4 s.target.dcrdr.toNat := by
    change leBytes 4 (loadAt s.target .bits32 cortexmDcrdr).toNat = _
    rw [loadAt, show Align.bits32.width = 4 from rfl, emuTargetLoad_dcrdr]
    rfl
  have hbytes : ((List.range (4 / (minAlign cortexmDcrdr.toNat 4).width)).flatMap fun i =>
      unitBytes s.target (minAlign cortexmDcrdr.toNat 4)
        (cortexmDcrdr + UInt32.ofNat (i * (minAlign cortexmDcrdr.toNat 4).width))) =
      leBytes 4 s.target.dcrdr.toNat := by
    rw [← hunit]
    exact List.append_nil _
  rw [hbytes] at hread
  unfold targetMemRead32 cortexmMemRead
  rw [run_bind_ok hread, leNat_leBytes s.target.dcrdr.toNat_lt, UInt32.ofNat_toNat]
  rfl

/-- `cortexm_reg_read` gives a register, or fails for want of room. -/
theorem cortexmRegRead_ok (hap : MemAp ap) (s : EmuShim) (i : Fin cortexmGeneralRegCount)
    (max : Nat) :
    ∃ s', cortexmRegRead malloc ap i max s =
      .ok (if max < 4 then none else some (s.target.reg i)) s' ∧
      s'.target.coreReg = s.target.coreReg := by
  unfold cortexmRegRead
  split
  · exact ⟨s, rfl, rfl⟩
  obtain ⟨hcore, hdcrdr⟩ := coreRegTransfer_read s.target i
  obtain ⟨s₁, hwrite, htarget₁⟩ := @targetMemWrite32_ok malloc ap _ _ hap s cortexmDcrsr rfl
    (@emuTargetStore_dcrsr malloc s.target (regnumCortexM i) 4)
  obtain ⟨s', hread, htarget⟩ := @targetMemRead32_dcrdr malloc ap hap s₁
  rw [htarget₁] at hread htarget
  refine ⟨s', ?_, by rw [htarget, hcore]⟩
  rw [run_bind_ok hwrite, run_bind_ok hread, hdcrdr]
  rfl

/-- `cortexm_reg_write` writes a register, or none for want of room. -/
theorem cortexmRegWrite_ok (hap : MemAp ap) (s : EmuShim) (i : Fin cortexmGeneralRegCount)
    (v : UInt32) (max : Nat) :
    ∃ s', cortexmRegWrite malloc ap i v max s = .ok () s' ∧
      (∀ j, s'.target.reg j = if j = i ∧ ¬ max < 4 then v else s.target.reg j) ∧
      OthersKept s.target s'.target := by
  unfold cortexmRegWrite
  split
  · next hmax => exact ⟨s, rfl, fun j => by rw [if_neg fun h => h.2 hmax], .of_eq rfl⟩
  next hmax =>
  obtain ⟨hreg, hothers⟩ := coreRegTransfer_write { s.target with dcrdr := v } i
  obtain ⟨s₁, hwrite, htarget₁⟩ := @targetMemWrite32_ok malloc ap _ _ hap s cortexmDcrdr rfl
    (@emuTargetStore_dcrdr malloc s.target v 4)
  obtain ⟨s', hwrite', htarget⟩ := @targetMemWrite32_ok malloc ap _ _ hap s₁ cortexmDcrsr rfl
    (@emuTargetStore_dcrsr malloc s₁.target (dcrsrRegWnR ||| regnumCortexM i) 4)
  rw [htarget₁] at htarget
  refine ⟨s', ?_, fun j => ?_, ?_⟩
  · rw [run_bind_ok hwrite, hwrite']
  · rw [htarget, hreg]
    simp only [hmax, not_false_eq_true, and_true]
    rfl
  · rw [htarget]
    exact hothers

end

/-! ## Runs of calls -/

/-- A call that reaches the core or the memory through the AP. -/
inductive RegCall
  | regsWrite (regs : Fin cortexmGeneralRegCount → UInt32)
  | regWrite (i : Fin cortexmGeneralRegCount) (value : UInt32) (max : Nat)
  | regsRead
  | regRead (i : Fin cortexmGeneralRegCount) (max : Nat)
  | memRead (src : UInt32) (len : Nat)
  | memWrite (dest : UInt32) (data : List UInt8)

/-- Memory is written inside of SRAM. -/
def RegCall.Valid : RegCall → Prop
  | .memWrite dest data =>
    emuSramBase.toNat ≤ dest.toNat ∧ dest.toNat + data.length ≤ emuSramBase.toNat + emuSramSize
  | _ => True

/-- A call, and the values of registers that it returns. -/
def RegCall.exec (malloc : Bool) (ap : Adiv5AccessPort) : RegCall → ShimM (List UInt32)
  | .regsWrite regs => do
    cortexmRegsWrite malloc ap regs
    return []
  | .regWrite i value max => do
    cortexmRegWrite malloc ap i value max
    return []
  | .regsRead => cortexmRegsRead malloc ap
  | .regRead i max => do
    let value ← cortexmRegRead malloc ap i max
    return value.toList
  | .memRead src len => do
    let _ ← cortexmMemRead malloc ap src len
    return []
  | .memWrite dest data => do
    cortexmMemWrite malloc ap dest data
    return []

/-- The value that a call writes to a register. -/
def RegCall.written (i : Fin cortexmGeneralRegCount) : RegCall → Option UInt32
  | .regsWrite regs => some (regs i)
  | .regWrite j value max => if i = j ∧ ¬ max < 4 then some value else none
  | _ => none

/-- The values that a call returns when the registers have the values `regs`. -/
def RegCall.returns (regs : Fin cortexmGeneralRegCount → UInt32) : RegCall → List UInt32
  | .regsRead => List.ofFn regs
  | .regRead i max => if max < 4 then [] else [regs i]
  | _ => []

/-- The value that was written to a register last, and the one it had at first when none was. -/
def lastWritten (init : Fin cortexmGeneralRegCount → UInt32) (calls : List RegCall)
    (i : Fin cortexmGeneralRegCount) : UInt32 :=
  calls.foldl (fun value call => (call.written i).getD value) (init i)

section
variable {malloc : Bool} {ap : Adiv5AccessPort} {s : EmuShim}

/-- A read of memory leaves the target alone, whatever the address. -/
theorem cortexmMemRead_ok (hap : MemAp ap) (s : EmuShim) (src : UInt32) (len : Nat) :
    ∃ bytes s', cortexmMemRead malloc ap src len s = .ok bytes s' ∧ s'.target = s.target := by
  by_cases hlen : len = 0
  · refine ⟨[], s, ?_, rfl⟩
    unfold cortexmMemRead advi5MemReadBytes
    rw [if_pos hlen]
    rfl
  · obtain ⟨s', hread, htarget⟩ := @advi5MemReadBytes_run malloc ap s hap src len hlen
    exact ⟨_, s', hread, htarget⟩

/-- A call returns the registers as they are, and writes those it is given. -/
theorem RegCall.exec_ok (hap : MemAp ap) {call : RegCall} (hcall : call.Valid) (s : EmuShim) :
    ∃ s', call.exec malloc ap s = .ok (call.returns s.target.reg) s' ∧
      (∀ i, s'.target.reg i = (call.written i).getD (s.target.reg i)) ∧
        OthersKept s.target s'.target := by
  cases call with
  | regsWrite regs =>
    obtain ⟨s', hrun, hreg, hothers⟩ := @cortexmRegsWrite_ok malloc ap hap s regs
    exact ⟨s', by rw [RegCall.exec, run_bind_ok hrun]; rfl, fun i => by rw [hreg]; rfl, hothers⟩
  | regWrite j value max =>
    obtain ⟨s', hrun, hreg, hothers⟩ := @cortexmRegWrite_ok malloc ap hap s j value max
    refine ⟨s', by rw [RegCall.exec, run_bind_ok hrun]; rfl, fun i => ?_, hothers⟩
    rw [hreg, RegCall.written]
    split
    · rfl
    · rfl
  | regsRead =>
    obtain ⟨s', hrun, hcore⟩ := @cortexmRegsRead_ok malloc ap hap s
    exact ⟨s', hrun, reg_congr hcore, .of_eq hcore⟩
  | regRead i max =>
    obtain ⟨s', hrun, hcore⟩ := @cortexmRegRead_ok malloc ap hap s i max
    refine ⟨s', ?_, reg_congr hcore, .of_eq hcore⟩
    rw [RegCall.exec, run_bind_ok hrun, RegCall.returns]
    split
    · rfl
    · rfl
  | memRead src len =>
    obtain ⟨bytes, s', hrun, htarget⟩ := @cortexmMemRead_ok malloc ap hap s src len
    exact ⟨s', by rw [RegCall.exec, run_bind_ok hrun]; rfl, fun i => by rw [htarget]; rfl,
      .of_eq (by rw [htarget])⟩
  | memWrite dest data =>
    obtain ⟨s', sram', hrun, htarget, -⟩ :=
      @adiv5MemWrite_sram malloc ap dest data hap s hcall.1 hcall.2
    refine ⟨s', ?_, fun i => by rw [htarget]; rfl, .of_eq (by rw [htarget])⟩
    rw [RegCall.exec, cortexmMemWrite, run_bind_ok hrun]
    rfl

/-- Both paths to a register return what was written to it last by either of them. -/
theorem registers_agree (hap : NewAp0 ap) (s : EmuShim) (calls : List RegCall)
    (hcalls : ∀ call ∈ calls, call.Valid) :
    ∃ results s', calls.mapM (RegCall.exec malloc ap) s = .ok results s' ∧
      results.length = calls.length ∧
      (∀ (k : Nat) (call : RegCall), calls[k]? = some call →
        results[k]? = some (call.returns (lastWritten s.target.reg (calls.take k)))) ∧
      s'.target.reg = lastWritten s.target.reg calls ∧ OthersKept s.target s'.target := by
  induction calls generalizing s with
  | nil => exact ⟨[], s, rfl, rfl, fun k call h => by simp at h, rfl, .of_eq rfl⟩
  | cons call calls ih =>
    obtain ⟨s₁, hcall, hreg₁, hothers₁⟩ :=
      @RegCall.exec_ok malloc ap hap.memAp call (hcalls call List.mem_cons_self) s
    obtain ⟨results, s', hrest, hlen, hresults, hreg, hothers⟩ :=
      ih s₁ fun c hc => hcalls c (List.mem_cons_of_mem call hc)
    -- what the rest starts from is what the first call has written
    have hlast : ∀ l, lastWritten s₁.target.reg l = lastWritten s.target.reg (call :: l) := by
      intro l
      funext i
      rw [lastWritten, lastWritten, List.foldl_cons, hreg₁]
    refine ⟨call.returns s.target.reg :: results, s', ?_, ?_, fun k c hc => ?_, ?_,
      hothers₁.trans hothers⟩
    · rw [List.mapM_cons, run_bind_ok hcall, run_bind_ok hrest]
      rfl
    · rw [List.length_cons, List.length_cons, hlen]
    · cases k with
      | zero =>
        rw [List.getElem?_cons_zero, Option.some_inj] at hc
        rw [List.getElem?_cons_zero, List.take_zero, hc]
        rfl
      | succ k =>
        rw [List.getElem?_cons_succ] at hc ⊢
        rw [hresults k c hc, hlast, List.take_succ_cons]
    · rw [hreg, hlast]

/-- A register is written by one path and read by the other, with a write to SRAM between them. -/
def bothPaths : List RegCall := [.regWrite 3 7 4, .memWrite 0x20000010 [1, 2, 3], .regsRead]

/-- All registers are written, one is written again, and they are read. -/
theorem registers_agree_bothpaths :
    ∃ results s', bothPaths.mapM (RegCall.exec true ap0) .reset = .ok results s' ∧
      results.length = 3 ∧
      (∀ (k : Nat) (call : RegCall), bothPaths[k]? = some call →
        results[k]? =
          some (call.returns (lastWritten EmuShim.reset.target.reg (bothPaths.take k)))) ∧
      s'.target.reg = lastWritten EmuShim.reset.target.reg bothPaths ∧
      OthersKept EmuShim.reset.target s'.target :=
  registers_agree newAp0_ap0 .reset bothPaths (by
    intro call hcall
    rcases List.mem_cons.1 hcall with rfl | hcall
    · trivial
    rcases List.mem_cons.1 hcall with rfl | hcall
    · exact ⟨by decide, by decide⟩
    rw [List.mem_singleton.1 hcall]
    trivial)

end

end Blackmagic
