import Blackmagic.Adiv5.Write
import Blackmagic.Emu.Nor
import Blackmagic.Flash.Nor
import Blackmagic.Stm32f1.Acknowledge

/-!
# The driver on the emulated target

What the driver accesses goes through `adiv5.c` and `emu_shim.c` to the emulated target. The target
that the driver meets answers with what is there after the accesses so far (`emuEnv`), and is left
as they leave it. The callbacks over it are a driver of NOR flash (`emuDriver_nor`).
-/

namespace Blackmagic

open Bytes Effect Word

/-! ## Accesses -/

section
variable (malloc : Bool) (ap : Adiv5AccessPort)

/-- `target_mem_read32`: `cortexm_mem_read`, which has no data cache to clean, reads through the
access port. -/
def emuMemRead32 (addr : UInt32) : ShimM UInt32 := do
  let data ← advi5MemReadBytes malloc ap addr 4
  return UInt32.ofNat (leNat data)

/-- `target_mem_write32`. -/
def emuMemWrite32 (addr value : UInt32) : ShimM Unit :=
  adiv5MemWrite malloc ap addr (leBytes 4 value.toNat)

/-- An access of the driver. -/
def emuAccess : F1Access → ShimM Unit
  | .read32 addr _ => do
    let _ ← emuMemRead32 malloc ap addr
  | .write32 addr value => emuMemWrite32 malloc ap addr value
  | .memWrite dest data none => adiv5MemWrite malloc ap dest data
  | .memWrite dest data (some size) => adiv5MemWriteBytes malloc ap dest data size

/-- The accesses of a log, one after the other. -/
def emuReplay : List (F1Access × Bool) → ShimM Unit
  | [] => pure ()
  | (a, _) :: log => do
    emuAccess malloc ap a
    emuReplay log

/-- The emulated target, as the driver meets it. `emu_shim_error` never reports a fault. -/
def emuEnv (s : EmuShim) : F1Env where
  read32 := fun log addr =>
    match (do emuReplay malloc ap log; emuMemRead32 malloc ap addr : ShimM UInt32) s with
    | .ok v _ => v
    | .error _ _ => 0
  faults := fun _ => false

/-- Code of the driver is run on the emulated target, which is left as its accesses leave it. -/
def onEmu (code : F1Env → F1M Bool) (s : EmuShim) : Bool × EmuShim :=
  let run (b : F1Bus) : EmuShim :=
    match emuReplay malloc ap b.log s with
    | .ok _ s' => s'
    | .error _ s' => s'
  match code (emuEnv malloc ap s) ⟨[], false⟩ with
  | .ok r b => (r, run b)
  | .error _ b => (false, run b)

/-- `cortexm_reset`, where the pin is not connected, with at most `fuel` polls. -/
def cortexmReset (fuel : Nat) : ShimM Unit := do
  let _ ← emuMemRead32 malloc ap 0xe000edf0
  let status ← emuMemRead32 malloc ap 0xe000edf0
  -- `CORTEXM_DHCSR_S_RESET_ST`
  if status &&& 0x02000000 = 0 then
    -- `CORTEXM_AIRCR`
    emuMemWrite32 malloc ap 0xe000ed0c 0x05fa0004
  poll fuel
  -- `CORTEXM_DFSR`
  emuMemWrite32 malloc ap 0xe000ed30 0x1f
  let _ ← emuShimError
where
  /-- The wait for the end of the reset. -/
  poll : Nat → ShimM Unit
    | 0 => pure ()
    | fuel + 1 => do
      let status ← emuMemRead32 malloc ap 0xe000edf0
      if status &&& 0x02000000 ≠ 0 then poll fuel

end

section
variable {malloc : Bool} {ap : Adiv5AccessPort} {s s' : EmuShim} {m m' : EmuTarget}
  {addr v : UInt32}

/-- A word at an aligned address is accessed at once. -/
theorem minAlign_word {x : Nat} (h : 4 ∣ x) : minAlign x 4 = .bits32 := by
  have hx : x &&& 3 = 0 := by
    rw [show 3 = 2 ^ 2 - 1 from rfl, Nat.and_two_pow_sub_one_eq_mod]
    exact Nat.mod_eq_zero_of_dvd h
  have hbits : alignOf x = .bits32 := if_pos hx
  rw [minAlign, hbits]
  rfl

/-- A word is read as the target has it. -/
theorem emuMemRead32_ok (hap : MemAp ap) (haddr : 4 ∣ addr.toNat)
    (hload : emuTargetLoad s.target addr 4 = .ok v) :
    ∃ s', emuMemRead32 malloc ap addr s = .ok v s' ∧ s'.target = s.target := by
  obtain ⟨s', hread, htarget⟩ := @advi5MemReadBytes_run malloc ap s hap addr 4 (by decide)
  rw [minAlign_word haddr] at hread
  have hunit : unitBytes s.target .bits32 (addr + UInt32.ofNat (0 * Align.bits32.width)) =
      leBytes 4 v.toNat := by
    rw [Nat.zero_mul, show addr + UInt32.ofNat 0 = addr from UInt32.add_zero addr]
    unfold unitBytes loadAt
    rw [show Align.bits32.width = 4 from rfl, hload]
    rfl
  have hdata : ((List.range (4 / Align.bits32.width)).flatMap fun i =>
      unitBytes s.target .bits32 (addr + UInt32.ofNat (i * Align.bits32.width))) =
        leBytes 4 v.toNat := by
    change ([0].flatMap fun i =>
      unitBytes s.target .bits32 (addr + UInt32.ofNat (i * Align.bits32.width))) = _
    rw [List.flatMap_singleton, hunit]
  rw [hdata] at hread
  refine ⟨s', ?_, htarget⟩
  rw [emuMemRead32, run_bind_ok hread, leNat_leBytes (by simpa using v.toNat_lt),
    UInt32.ofNat_toNat]
  rfl

/-- A word is stored in the target. -/
theorem emuMemWrite32_ok (hap : MemAp ap) (haddr : 4 ∣ addr.toNat)
    (hstore : emuTargetStore malloc s.target ⟨addr, v, 4⟩ = .ok m') :
    ∃ s', emuMemWrite32 malloc ap addr v s = .ok () s' ∧ s'.target = m' := by
  have hlen : (leBytes 4 v.toNat).length = 4 := rfl
  obtain ⟨s', hwrite, hrun⟩ :=
    @adiv5MemWriteBytes_run malloc ap .bits32 addr hap nofun haddr (leBytes 4 v.toNat) s
  have hunit : unitStore .bits32 addr (leBytes 4 v.toNat) = ⟨addr, v, 4⟩ := by
    have htake : (leBytes 4 v.toNat).take Align.bits32.width = leBytes 4 v.toNat := rfl
    rw [unitStore, htake, leNat_leBytes (by simpa using v.toNat_lt), UInt32.ofNat_toNat]
    rfl
  have hstores : unitStores .bits32 ((leBytes 4 v.toNat).length / Align.bits32.width) addr
      (leBytes 4 v.toNat) =
      [⟨addr, v, 4⟩] := by
    rw [← hunit, hlen, show 4 / Align.bits32.width = 1 from rfl]
    rfl
  rw [hstores, Machine.run_cons hstore] at hrun
  refine ⟨s', ?_, (Except.ok.inj hrun).symm⟩
  rw [emuMemWrite32, adiv5MemWrite, hlen, minAlign_word haddr]
  exact hwrite

/-! ## Runs of the driver -/

/-- The driver has left the emulated target in a state. -/
structure Reached (malloc : Bool) (ap : Adiv5AccessPort) (s : EmuShim) (b : F1Bus) (m : EmuTarget) :
    Prop where
  error : b.error = false
  replay : ∃ s', emuReplay malloc ap b.log s = .ok () s' ∧ s'.target = m

/-- Nothing was accessed. -/
theorem reached_nil : Reached malloc ap s ⟨[], false⟩ s.target := ⟨rfl, s, rfl, rfl⟩

/-- A log in two parts. -/
theorem emuReplay_append (log log' : List (F1Access × Bool)) : ∀ s : EmuShim,
    emuReplay malloc ap (log ++ log') s =
      (do emuReplay malloc ap log; emuReplay malloc ap log' : ShimM Unit) s := by
  induction log with
  | nil => exact fun _ => rfl
  | cons x log ih =>
    intro s
    obtain ⟨a, taken⟩ := x
    rw [List.cons_append, emuReplay, emuReplay, bind_assoc]
    cases ha : emuAccess malloc ap a s with
    | ok u s₁ => rw [run_bind_ok ha, run_bind_ok ha, ih s₁]
    | error e s₁ => rw [run_bind_error ha, run_bind_error ha]

/-- An access that the emulated target takes. -/
theorem Reached.access {b : F1Bus} (h : Reached malloc ap s b m) {a : F1Access}
    (ha : ∀ s', s'.target = m → ∃ s'', emuAccess malloc ap a s' = .ok () s'' ∧ s''.target = m') :
    Reached malloc ap s (b.access (emuEnv malloc ap s) a) m' := by
  obtain ⟨s', hreplay, htarget⟩ := h.replay
  obtain ⟨s'', haccess, htarget'⟩ := ha s' htarget
  refine ⟨?_, s'', ?_, htarget'⟩
  · rw [F1Bus.access, h.error]
    rfl
  · rw [F1Bus.access, emuReplay_append, run_bind_ok hreplay, emuReplay, run_bind_ok haccess]
    rfl

/-- The driver reads what the target has. -/
theorem Reached.read32 (hap : MemAp ap) {b : F1Bus} (h : Reached malloc ap s b m) (addr : UInt32)
    (haddr : 4 ∣ addr.toNat) (hload : emuTargetLoad m addr 4 = .ok v) :
    ∃ b', f1MemRead32 (emuEnv malloc ap s) addr b = .ok v b' ∧
      Reached malloc ap s b' m := by
  obtain ⟨s', hreplay, htarget⟩ := h.replay
  have hread : ∀ s', s'.target = m → ∃ s'', emuMemRead32 malloc ap addr s' = .ok v s'' ∧
      s''.target = m := by
    intro s' hs'
    rw [← hs'] at hload ⊢
    exact emuMemRead32_ok hap haddr hload
  have hvalue : (emuEnv malloc ap s).read32 b.log addr = v := by
    obtain ⟨s'', hok, -⟩ := hread s' htarget
    simp only [emuEnv, run_bind_ok hreplay, hok]
  refine ⟨_,
    congrArg (fun v => EStateM.Result.ok v (b.access (emuEnv malloc ap s) (.read32 addr v))) hvalue,
    h.access fun s' hs' => ?_⟩
  obtain ⟨s'', hok, htarget''⟩ := hread s' hs'
  refine ⟨s'', ?_, htarget''⟩
  rw [emuAccess, run_bind_ok hok]
  rfl

/-- The driver stores to the target. -/
theorem Reached.write32 (hap : MemAp ap) {b : F1Bus} (h : Reached malloc ap s b m) (addr v : UInt32)
    (haddr : 4 ∣ addr.toNat) (hstore : emuTargetStore malloc m ⟨addr, v, 4⟩ = .ok m') :
    ∃ b', f1MemWrite32 (emuEnv malloc ap s) addr v b = .ok () b' ∧ Reached malloc ap s b' m' := by
  refine ⟨_, rfl, h.access fun s' hs' => ?_⟩
  rw [← hs'] at hstore
  exact emuMemWrite32_ok hap haddr hstore

/-- No access has left an error. -/
theorem Reached.checkError {b : F1Bus} (h : Reached malloc ap s b m) :
    f1CheckError b = .ok false b := by
  obtain ⟨log, error⟩ := b
  obtain rfl : error = false := h.error
  rfl

/-! ## The flash controller -/

/-- A word stored to the flash controller is handled by it. -/
theorem emuTargetStore_fpec (h : inRange addr emuFpecBase 0x400) (v : UInt32) :
    emuTargetStore malloc m ⟨addr, v, 4⟩ = .ok (fpecWrite m addr v) := by
  have hlow : 0x40022000 ≤ addr.toNat := UInt32.le_iff_toNat_le.1 h.1
  have hhigh : addr.toNat < 0x40022400 := h.2
  have hscs : ¬ inRange addr emuScsBase 0x1000 := fun hscs => by
    have : 0xe000e000 ≤ addr.toNat := UInt32.le_iff_toNat_le.1 hscs.1
    omega
  unfold emuTargetStore
  dsimp only
  rw [if_neg (by rw [inFlash_iff]; omega), if_neg (by rw [inSram_iff]; omega), if_neg hscs,
    if_pos h]

/-- A word loaded from it is one of its registers. -/
theorem emuTargetLoad_fpec (h : inRange addr emuFpecBase 0x400) :
    emuTargetLoad m addr 4 = .ok (fpecRead m addr) := by
  have hlow : 0x40022000 ≤ addr.toNat := UInt32.le_iff_toNat_le.1 h.1
  have hhigh : addr.toNat < 0x40022400 := h.2
  have hid : addr ≠ emuDbgmcuIdcode := fun hid => by
    have : addr.toNat = 0xe0042000 := by rw [hid]; rfl
    omega
  have hrom : ¬ inRange addr emuRomBase 0x1000 := fun hrom => by
    have : 0xe00ff000 ≤ addr.toNat := UInt32.le_iff_toNat_le.1 hrom.1
    omega
  have hscs : ¬ inRange addr emuScsBase 0x1000 := fun hscs => by
    have : 0xe000e000 ≤ addr.toNat := UInt32.le_iff_toNat_le.1 hscs.1
    omega
  have hmask : fpecRead m addr &&& sizeMask 4 = fpecRead m addr := by
    rw [← UInt32.toNat_inj, and_sizeMask (by decide),
      Nat.mod_eq_of_lt (by simpa using (fpecRead m addr).toNat_lt)]
  unfold emuTargetLoad
  rw [if_neg (by rw [inFlash_iff]; omega), if_neg (by rw [inSram_iff]; omega), if_neg hid,
    if_neg hrom, if_neg hscs, if_pos h, hmask]

/-- The controller reports no error. It never sets one. -/
def EmuTarget.Sound (m : EmuTarget) : Prop := m.flashSr &&& srErrorMask = 0

/-- A status without errors has none under a mask. -/
theorem and_srErrorMask_of {sr mask : UInt32} (h : sr &&& srErrorMask = 0) :
    sr &&& mask &&& srErrorMask = 0 := by
  rw [UInt32.and_assoc, UInt32.and_comm mask, ← UInt32.and_assoc, h, UInt32.zero_and]

/-- The end of an operation sets no error. -/
theorem sound_srDone {sr : UInt32} (h : sr &&& srErrorMask = 0) :
    srDone sr &&& srErrorMask = 0 := by
  refine and_srErrorMask_of ?_
  rw [or_and_mask, h]
  rfl

/-- It sets the flag for the end. -/
theorem srDone_eop (sr : UInt32) : srDone sr &&& flashSrEop ≠ 0 := by
  have hbit : srDone sr &&& flashSrEop = flashSrEop := by
    have hbsy : ~~~ srBsy &&& flashSrEop = flashSrEop := by decide
    have heop : (sr ||| srEop) &&& flashSrEop = flashSrEop := by
      rw [or_and_mask, show srEop &&& flashSrEop = flashSrEop from rfl, ← UInt32.toBitVec_inj]
      ext i hi
      simp only [UInt32.toBitVec_and, UInt32.toBitVec_or, BitVec.getElem_and, BitVec.getElem_or]
      cases flashSrEop.toBitVec[i] <;> simp
    rw [srDone, UInt32.and_assoc, hbsy, heop]
  rw [hbit]
  decide

variable (hap : MemAp ap) {b : F1Bus}
include hap

/-- Unlocking succeeds on the emulated target. -/
theorem unlock_emu (h : Reached malloc ap s b m) :
    ∃ b', stm32f1FlashUnlock (emuEnv malloc ap s) 0 b = .ok true b' ∧
      Reached malloc ap s b' { m with flashUnlocked := true, flashKeyr := fpecKey2 } := by
  obtain ⟨b₁, hkey1, h₁⟩ := h.write32 hap (flashKeyr + 0) flashKey1 (by decide)
    (emuTargetStore_fpec (by decide) flashKey1)
  obtain ⟨b₂, hkey2, h₂⟩ := h₁.write32 hap (flashKeyr + 0) flashKey2 (by decide)
    (emuTargetStore_fpec (by decide) flashKey2)
  have hm : fpecWrite (fpecWrite m (flashKeyr + 0) flashKey1) (flashKeyr + 0) flashKey2 =
      { m with flashUnlocked := true, flashKeyr := fpecKey2 } := by
    change ({ m with
      flashUnlocked := (m.flashUnlocked || (m.flashKeyr == fpecKey1 && flashKey1 == fpecKey2)) ||
        true
      flashKeyr := fpecKey2 } : EmuTarget) = _
    rw [Bool.or_true]
  rw [hm] at h₂
  obtain ⟨b₃, hread, h₃⟩ := h₂.read32 hap (flashCr + 0) (by decide) (emuTargetLoad_fpec (by decide))
  refine ⟨b₃, ?_, h₃⟩
  unfold stm32f1FlashUnlock
  rw [run_bind_ok hkey1, run_bind_ok hkey2, run_bind_ok hread]
  have hlock : fpecRead { m with flashUnlocked := true, flashKeyr := fpecKey2 } (flashCr + 0) &&&
      flashCrLock = 0 := by
    change (m.flashCr &&& ~~~ crLock ||| 0) &&& crLock = 0
    rw [UInt32.or_zero, UInt32.and_assoc, show ~~~ crLock &&& crLock = 0 by decide, UInt32.and_zero]
  rw [hlock]
  rfl

/-- Clearing the flag for the end leaves a status without errors. -/
theorem clearEop_emu (h : Reached malloc ap s b m) (hm : m.Sound) :
    ∃ b' sr, stm32f1FlashClearEop (emuEnv malloc ap s) 0 b = .ok () b' ∧ sr &&& srErrorMask = 0 ∧
      Reached malloc ap s b' { m with flashSr := sr } := by
  obtain ⟨b₁, hread, h₁⟩ := h.read32 hap (flashSr + 0) (by decide) (emuTargetLoad_fpec (by decide))
  obtain ⟨b₂, hwrite, h₂⟩ :=
    h₁.write32 hap (flashSr + 0) (fpecRead m (flashSr + 0) ||| flashSrEop) (by decide)
    (emuTargetStore_fpec (by decide) _)
  refine ⟨b₂, _, ?_, and_srErrorMask_of hm, h₂⟩
  unfold stm32f1FlashClearEop
  rw [run_bind_ok hread]
  exact hwrite

/-- The wait sees the end of the operation at its first poll. -/
theorem busyWait_emu (h : Reached malloc ap s b m) (hm : m.Sound)
    (heop : m.flashSr &&& flashSrEop ≠ 0) (fuel : Nat) :
    ∃ b', stm32f1FlashBusyWait (emuEnv malloc ap s) 0 (fuel + 1) flashSrBsy b = .ok true b' ∧
      Reached malloc ap s b' m := by
  have hwait : flashSrBsy &&& flashSrEop = 0 ∧ flashSrBsy &&& flashSrBsy ≠ 0 := by decide
  obtain ⟨b', hread, h'⟩ := h.read32 hap (flashSr + 0) (by decide) (emuTargetLoad_fpec (by decide))
  refine ⟨b', ?_, h'⟩
  have hsr : fpecRead m (flashSr + 0) = m.flashSr := rfl
  rw [stm32f1FlashBusyWait, if_pos hwait]
  change (f1MemRead32 (emuEnv malloc ap s) (flashSr + 0) >>= fun _ => _) b = _
  rw [run_bind_ok hread, run_bind_ok h'.checkError, if_neg Bool.false_ne_true, hsr]
  have hm : m.flashSr &&& srErrorMask = 0 := hm
  unfold stm32f1FlashBusyWait
  rw [if_neg fun hx => heop hx.1, hm]
  rfl

/-- An erase of the driver erases the page of the emulated flash, and leaves it unlocked. -/
theorem stm32f1FlashErase_emu {part : F1Part} (hdual : stm32f1IsDualBank part.partId = false)
    {page : UInt32} (hpage : page < flashBankSplit) (hm : s.target.Sound) (length fuel : Nat) :
    ∃ b' m', stm32f1FlashErase (emuEnv malloc ap s) part (fuel + 1) page length ⟨[], false⟩ =
      .ok true b' ∧
      Reached malloc ap s b' m' ∧ m'.flashPage = flashErasePage s.target.flashPage page ∧
      m'.flashUnlocked = true ∧ m'.Sound ∧ m'.sram = s.target.sram := by
  obtain ⟨b₁, hunlock, h₁⟩ := unlock_emu hap (@reached_nil malloc ap s)
  obtain ⟨b₂, sr, hclear, hsr, h₂⟩ := clearEop_emu hap h₁ hm
  obtain ⟨b₃, hper, h₃⟩ := h₂.write32 hap (flashCr + 0) flashCrPer (by decide)
    (emuTargetStore_fpec (by decide) _)
  obtain ⟨b₄, har, h₄⟩ := h₃.write32 hap (flashAr + 0) page (by decide)
    (emuTargetStore_fpec (by decide) _)
  obtain ⟨b₅, hstrt, h₅⟩ := h₄.write32 hap (flashCr + 0) (flashCrStrt ||| flashCrPer) (by decide)
    (emuTargetStore_fpec (by decide) _)
  generalize hm' : fpecWrite _ (flashCr + 0) (flashCrStrt ||| flashCrPer) = m' at h₅
  have hpages : m'.flashPage = flashErasePage s.target.flashPage page ∧ m'.flashUnlocked = true ∧
      m'.flashSr = srDone sr ∧ m'.sram = s.target.sram := by
    rw [← hm']
    exact ⟨rfl, rfl, rfl, rfl⟩
  have hsound : m'.Sound := by
    rw [EmuTarget.Sound, hpages.2.2.1]
    exact sound_srDone hsr
  obtain ⟨b₆, hwait, h₆⟩ := busyWait_emu hap h₅ hsound (by
    rw [hpages.2.2.1]
    exact srDone_eop sr) fuel
  refine ⟨b₆, m', ?_, h₆, hpages.1, hpages.2.1, hsound, hpages.2.2.2⟩
  have hoff : stm32f1BankOffsetFor page = 0 := if_neg (UInt32.not_le.2 hpage)
  have hbanks : unlockBanks (emuEnv malloc ap s) part page length ⟨[], false⟩ = .ok true b₁ := by
    unfold unlockBanks
    rw [if_neg (by rw [hdual]; exact fun hx => Bool.false_ne_true hx.1), if_pos hpage]
    exact hunlock
  unfold stm32f1FlashErase
  rw [run_bind_ok hbanks, if_pos rfl, hoff, run_bind_ok hclear, run_bind_ok hper, run_bind_ok har,
    run_bind_ok hstrt]
  exact hwait

end

/-! ## Programming -/

/-- The flash of the emulated target, by address. -/
def EmuTarget.flash (m : EmuTarget) : FlashImage := fun x =>
  if 0x08000000 ≤ x ∧ x < 0x08020000 then flashByte m.flashPage (UInt32.ofNat x) else 0xff

/-- The flash is programmed by the stores to it. -/
structure EmuTarget.Programming (m : EmuTarget) : Prop where
  unlocked : m.flashUnlocked = true
  pg : m.flashCr &&& crPg ≠ 0
  sound : m.Sound

section
variable {m : EmuTarget} {align : Align} {dest : UInt32} {data : List UInt8}

/-- One store ANDs its bytes into the flash. -/
theorem unitStore_flash (hm : m.Programming) (ha : align ≠ .bits64) (hlow : 0x08000000 ≤ dest.toNat)
    (hend : dest.toNat + align.width ≤ 0x08020000) (hlen : align.width ≤ data.length) :
    ∃ m', emuTargetStore true m (unitStore align dest data) = .ok m' ∧ m'.Programming ∧
      m'.flashSr &&& flashSrEop ≠ 0 ∧ m'.sram = m.sram ∧
      ∀ x, m'.flash x = m.flash x &&& placed dest.toNat (data.take align.width) x := by
  have hw := Align.width_cases ha
  have hin : inFlash dest := inFlash_iff.2 ⟨hlow, by omega⟩
  have htake : (data.take align.width).length = align.width := by
    rw [List.length_take]
    omega
  have hlt : leNat (data.take align.width) < 2 ^ 32 := by
    refine Nat.lt_of_lt_of_le (leNat_lt _) ?_
    rw [htake]
    rcases hw with hw | hw | hw <;> rw [hw] <;> decide
  have hbytes : (List.range align.width).map (unitStore align dest data).byte =
      data.take align.width := by
    have hst := @EmuStore.bytes_eq (unitStore align dest data) (show align.width ≤ 4 by omega)
    have hround := leBytes_leNat (data.take align.width)
    rw [htake] at hround
    change (List.range align.width).map (unitStore align dest data).byte =
      leBytes align.width (UInt32.ofNat (leNat (data.take align.width))).toNat at hst
    rw [hst, UInt32.toNat_ofNat', Nat.mod_eq_of_lt hlt, hround]
  refine ⟨{ m with
      flashPage := storeFlash true (unitStore align dest data) m.flashPage
      flashSr := srDone m.flashSr }, ?_, ⟨hm.unlocked, hm.pg, sound_srDone hm.sound⟩, srDone_eop _,
        rfl, fun x => ?_⟩
  · unfold emuTargetStore
    rw [if_pos (show inFlash (unitStore align dest data).addr from hin),
      if_pos ⟨hm.unlocked, hm.pg⟩]
  · unfold EmuTarget.flash
    split
    · next hx =>
      have hnat : (UInt32.ofNat x).toNat = x := by
        rw [UInt32.toNat_ofNat', Nat.mod_eq_of_lt (by omega)]
      have hpage := flashPageOf_of_inFlash (inFlash_iff.2 (by rw [hnat]; exact hx))
      have hstore := @flashByte_storeFlash (unitStore align dest data) hin
        (show align.width ≤ 4 by omega)
        m.flashPage _ hpage
      rw [hstore, hnat]
      by_cases hrange : dest.toNat ≤ x ∧ x < dest.toNat + align.width
      · have hget : (data.take align.width)[x - dest.toNat]? =
            some ((unitStore align dest data).byte (x - dest.toNat)) := by
          rw [← hbytes, List.getElem?_map, List.getElem?_range (by omega), Option.map_some]
        rw [if_pos ⟨UInt32.le_iff_toNat_le.2 (by rw [hnat]; exact hrange.1),
          by rw [hnat]; exact hrange.2⟩, placed_eq hrange.1 hget]
        rfl
      · have hblank : placed dest.toNat (data.take align.width) x = 0xff := by
          rcases Nat.lt_or_ge x dest.toNat with hlt | hge
          · exact placed_of_lt _ hlt
          · exact placed_of_ge (by omega)
        rw [if_neg fun hr => hrange ⟨by
            have := UInt32.le_iff_toNat_le.1 hr.1
            rwa [hnat] at this, by
            have := hr.2
            rwa [hnat] at this⟩, hblank, and_blank_right]
    · next hx =>
      rw [and_blank, placed]
      split
      · exact (List.getD_eq_default _ _ (by omega)).symm
      · rfl

/-- The stores of a write AND its bytes into the flash. -/
theorem unitStores_flash (ha : align ≠ .bits64) (n : Nat) :
    ∀ {m : EmuTarget} {dest : UInt32} {data : List UInt8},
    m.Programming → 0 < n → data.length = n * align.width → 0x08000000 ≤ dest.toNat →
    dest.toNat + data.length ≤ 0x08020000 →
    ∃ m', Machine.run (emuTargetStore true) m (unitStores align n dest data) = .ok m' ∧
      m'.Programming ∧
      m'.flashSr &&& flashSrEop ≠ 0 ∧ m'.sram = m.sram ∧ ∀ x,
        m'.flash x = m.flash x &&& placed dest.toNat data x := by
  have hw := Align.width_cases ha
  induction n with
  | zero => exact fun _ h => absurd h (by decide)
  | succ n ih =>
    intro m dest data hm _ hlen hlow hend
    rw [Nat.succ_mul] at hlen
    obtain ⟨m₁, hstore, hm₁, heop₁, hsram₁, hflash₁⟩ :=
      @unitStore_flash m align dest data hm ha hlow (by omega) (by omega)
    rcases Nat.eq_zero_or_pos n with rfl | hpos
    · refine ⟨m₁, ?_, hm₁, heop₁, hsram₁, fun x => ?_⟩
      · rw [unitStores, Machine.run_cons hstore]
        rfl
      · rw [hflash₁, List.take_of_length_le (by omega)]
    · have hnext : (dest + UInt32.ofNat align.width).toNat = dest.toNat + align.width :=
        toNat_add_small (by omega)
      obtain ⟨m', hrun, hm', heop', hsram', hflash'⟩ := @ih m₁ (dest + UInt32.ofNat align.width)
        (data.drop align.width) hm₁ hpos (by rw [List.length_drop]; omega) (by omega)
        (by rw [List.length_drop]; omega)
      refine ⟨m', ?_, hm', heop', hsram'.trans hsram₁, fun x => ?_⟩
      · rw [unitStores, Machine.run_cons hstore, hrun]
      · have happ := placed_append dest.toNat (data.take align.width) (data.drop align.width) x
        rw [List.length_take, Nat.min_eq_left (by omega), List.take_append_drop] at happ
        rw [hflash', hflash₁, UInt8.and_assoc, hnext, happ]

end

section
variable {ap : Adiv5AccessPort} {s : EmuShim} {m m' : EmuTarget} (hap : MemAp ap)
include hap

/-- The driver writes sized data. -/
theorem Reached.memWriteSized {b : F1Bus} (h : Reached true ap s b m) {dest : UInt32}
    {data : List UInt8} {size : Align} (ha : size ≠ .bits64) (hdest : size.width ∣ dest.toNat)
    (hrun : Machine.run (emuTargetStore true) m
      (unitStores size (data.length / size.width) dest data) = .ok m') :
    ∃ b', cortexmMemWriteSized (emuEnv true ap s) dest data size b = .ok false b' ∧
      Reached true ap s b' m' := by
  have h' : Reached true ap s (b.access (emuEnv true ap s) (.memWrite dest data (some size)))
      m' := by
    refine h.access fun s' hs' => ?_
    obtain ⟨s'', hwrite, hrun'⟩ := @adiv5MemWriteBytes_run true ap size dest hap ha hdest data s'
    rw [hs', hrun] at hrun'
    exact ⟨s'', hwrite, (Except.ok.inj hrun').symm⟩
  refine ⟨_, ?_, h'⟩
  unfold cortexmMemWriteSized
  rw [run_bind_ok
    (show (modify (·.access (emuEnv true ap s) (.memWrite dest data (some size))) : F1M Unit) b =
    .ok () _ from rfl)]
  exact h'.checkError

/-- A write of the driver ANDs its bytes into the emulated flash. -/
theorem stm32f1FlashWrite_emu {part : F1Part} {t : F1Target} (hapi : ¬ viaTargetApi t)
    {dest : UInt32} {src : List UInt8} (hdest : 4 ∣ dest.toNat) (hlen : 4 ∣ src.length)
    (hne : src.length ≠ 0) (hlow : 0x08000000 ≤ dest.toNat)
    (hend : dest.toNat + src.length ≤ 0x08020000) (hunlocked : s.target.flashUnlocked = true)
    (hm : s.target.Sound) (fuel : Nat) :
    ∃ b' m', stm32f1FlashWrite (emuEnv true ap s) part (fuel + 1) t dest src ⟨[], false⟩ =
      .ok true b' ∧
      Reached true ap s b' m' ∧ m'.flashUnlocked = true ∧ m'.Sound ∧ m'.sram = s.target.sram ∧
      ∀ x, m'.flash x = s.target.flash x &&& placed dest.toNat src x := by
  have hsplit : flashBankSplit.toNat = 0x08080000 := rfl
  obtain ⟨b₁, sr, hclear, hsr, h₁⟩ := clearEop_emu hap (@reached_nil true ap s) hm
  obtain ⟨b₂, hpg, h₂⟩ := h₁.write32 hap (flashCr + 0) flashCrPg (by decide)
    (emuTargetStore_fpec (by decide) _)
  generalize hm₂ : fpecWrite _ (flashCr + 0) flashCrPg = m₂ at h₂
  have hprogramming : m₂.Programming ∧ m₂.flash = s.target.flash ∧ m₂.sram = s.target.sram := by
    rw [← hm₂]
    exact ⟨⟨hunlocked, show flashCrPg &&& crPg ≠ 0 by decide, hsr⟩, rfl, rfl⟩
  have hsize : ∀ size : Align, size = .bits16 ∨ size = .bits32 → size ≠ .bits64 ∧
      size.width ∣ dest.toNat ∧
      size.width ∣ src.length ∧ 0 < size.width := by
    rintro size (rfl | rfl)
    · exact ⟨nofun, Nat.dvd_trans (by decide) hdest, Nat.dvd_trans (by decide) hlen, by decide⟩
    · exact ⟨nofun, hdest, hlen, by decide⟩
  obtain ⟨ha, hdest', hlen', hpos⟩ := hsize (if part.wideWrites then .bits32 else .bits16) (by
    split
    · exact .inr rfl
    · exact .inl rfl)
  generalize hsize : (if part.wideWrites then Align.bits32 else Align.bits16) =
    size at ha hdest' hlen' hpos
  obtain ⟨m', hrun, hm', heop', hsram', hflash'⟩ :=
    @unitStores_flash size ha (src.length / size.width) m₂ dest src
    hprogramming.1 (Nat.div_pos (Nat.le_of_dvd (by omega) hlen') hpos)
      (Nat.div_mul_cancel hlen').symm hlow hend
  obtain ⟨b₃, hdata, h₃⟩ := h₂.memWriteSized hap ha hdest' hrun
  obtain ⟨b₄, hwait, h₄⟩ := busyWait_emu hap h₃ hm'.sound heop' fuel
  refine ⟨b₄, m', ?_, h₄, hm'.unlocked, hm'.sound, hsram'.trans hprogramming.2.2, fun x => ?_⟩
  · have hwrite : writeData (emuEnv true ap s) part t dest src b₂ = .ok () b₃ := by
      unfold writeData
      rw [if_neg hapi, hsize, run_bind_ok hdata]
      rfl
    rw [stm32f1FlashWrite_low hne (by omega)]
    unfold writeBank
    rw [run_bind_ok hclear, run_bind_ok hpg, run_bind_ok hwrite]
    exact hwait
  · rw [hflash', hprogramming.2.1]

end

/-! ## The callbacks -/

/-- The emulated target, as the probes see it: its CPUID, and the designer of its ROM table. -/
def emuF1Target (m : EmuTarget) : F1Target where
  cpuid := 0x412fc231
  -- `JEP106_MANUFACTURER_STM`
  designerCode := 0x20
  mem := fun addr => (emuTargetLoad m addr 4).toOption.getD 0

/-- What `stm32f1_probe` fixes for the emulated target. -/
def emuPart : F1Part where
  partId := 0x410
  wideWrites := false
  regions := [stm32f1AddFlash 0x08000000 0x20000 0x400]

/-- The probe finds the emulated part. -/
theorem stm32f1Probe_emu (m : EmuTarget) : stm32f1Probe (emuF1Target m) = some emuPart := by
  have hmem : (emuF1Target m).mem 0xe0042000 = 0x20036410 := by
    change (emuTargetLoad m emuDbgmcuIdcode 4).toOption.getD 0 = _
    unfold emuTargetLoad
    rw [if_neg (by decide), if_neg (by decide), if_pos rfl]
    rfl
  have hpartno : (emuF1Target m).partno = 0xc230 :=
    show (0x412fc231 : UInt32) &&& 0xfff0 = 0xc230 by decide
  have hid : stm32f1ReadIdcode (emuF1Target m) = 0x410 := by
    unfold stm32f1ReadIdcode
    rw [hpartno, if_neg (by decide), if_neg (by decide), hmem]
    rfl
  unfold stm32f1Probe
  rw [hid]
  rfl

/-- The region that `stm32f1_add_flash` allocates. -/
def F1Region.flash (r : F1Region) : TargetFlash where
  start := r.start.toNat
  length := r.length
  blocksize := r.blocksize
  writesize := r.writesize
  writebufsize := 0
  erased := 0xff
  operation := .none
  buf := none
  bufAddrBase := 0
  bufAddrLow := 0
  bufAddrHigh := 0

/-- The emulated target after the scan. -/
def emuScanned (s : EmuShim) : Target EmuShim :=
  emuPart.regions.foldl (fun t r => targetAddFlash t r.flash)
    { flashMode := false, flash := [], ram := [⟨0x20000000, 0x5000⟩], dev := s }

/-- The callbacks of the emulated target, when there is always memory; `fuel` bounds the polls. -/
def emuDriver (ap : Adiv5AccessPort) (fuel : Nat) : FlashDriver EmuShim where
  enterFlashMode := none
  exitFlashMode := none
  reset := fun s =>
    match cortexmReset true ap fuel s with
    | .ok _ s' => s'
    | .error _ s' => s'
  prepare := none
  done := none
  erase := fun _ addr len => onEmu true ap fun env =>
    stm32f1FlashErase env emuPart fuel (UInt32.ofNat addr) len
  write := fun _ dest src s => onEmu true ap (fun env =>
    stm32f1FlashWrite env emuPart fuel (emuF1Target s.target) (UInt32.ofNat dest) src) s
  malloc := fun _ s => (true, s)

/-- The region of the emulated target, after `target_add_flash`. -/
def emuRegion : TargetFlash :=
  { (stm32f1AddFlash 0x08000000 0x20000 0x400).flash with writebufsize := 1024 }

/-- The emulated target has one region. -/
theorem emuScanned_flash (s : EmuShim) : (emuScanned s).flash = [emuRegion] := rfl

/-- The region is NOR flash. -/
theorem emuRegion_nor : emuRegion.toFlashGeometry.Nor where
  blocksize_pow2 := ⟨10, by decide, rfl⟩
  start_block := by decide
  length_block := by decide
  end_lt := by decide
  writesize_pow2 := ⟨10, by decide, rfl⟩
  writebufsize_eq := rfl
  erased := rfl
  start_page := by decide
  length_page := by decide

/-- The controller reports no error, and SRAM has a content. -/
structure EmuTarget.Keeps (sram : Vector UInt8 emuSramSize) (m : EmuTarget) : Prop where
  sound : m.Sound
  sram : m.sram = sram

/-- The controller has been unlocked. -/
structure EmuTarget.Opened (sram : Vector UInt8 emuSramSize) (m : EmuTarget) :
    Prop extends m.Keeps sram where
  unlocked : m.flashUnlocked = true

section
variable {ap : Adiv5AccessPort} {s : EmuShim} {m : EmuTarget} {fuel : Nat}

/-- Code that reaches a state of the target leaves it there. -/
theorem onEmu_reached (code : F1Env → F1M Bool) {r : Bool} {b : F1Bus}
    (hcode : code (emuEnv true ap s) ⟨[], false⟩ = .ok r b) (h : Reached true ap s b m) :
    ∃ s', onEmu true ap code s = (r, s') ∧ s'.target = m := by
  obtain ⟨s', hreplay, htarget⟩ := h.replay
  refine ⟨s', ?_, htarget⟩
  simp only [onEmu, hcode, hreplay]

/-- The page of the emulated flash that is erased is a block of the region. -/
theorem flash_erasePage {m m' : EmuTarget} {a : Nat}
    (hpages : m'.flashPage = flashErasePage m.flashPage (UInt32.ofNat a)) (hdvd : 0x400 ∣ a)
    (hlow : 0x08000000 ≤ a) (hend : a + 0x400 ≤ 0x08000000 + 0x20000) :
    m'.flash = m.flash.eraseBlocks 0x400 a 0x400 := by
  have hpageOf : ∀ x, 0x08000000 ≤ x → x < 0x08020000 → flashPageOf (UInt32.ofNat x) =
      (x - 0x08000000) / 0x400 := by
    intro x hlow hlt
    rw [flashPageOf, flashOff_eq, UInt32.toNat_ofNat', show emuFlashPage = 0x400 from rfl]
    omega
  funext x
  unfold EmuTarget.flash FlashImage.eraseBlocks
  dsimp only
  by_cases hx : 0x08000000 ≤ x ∧ x < 0x08020000
  · rw [if_pos hx, if_pos hx, hpages, flashByte_flashErasePage, hpageOf x hx.1 hx.2,
      hpageOf a hlow (by omega)]
    by_cases hsame : (x - 0x08000000) / 0x400 = (a - 0x08000000) / 0x400
    · rw [if_pos hsame, if_pos (by omega)]
    · rw [if_neg hsame, if_neg (by omega)]
  · rw [if_neg hx, if_neg hx, ite_self]

variable (hap : MemAp ap)
include hap

/-- The debug status of the emulated core can be read. -/
theorem emuMemRead32_dhcsr (s : EmuShim) :
    ∃ s', emuMemRead32 true ap 0xe000edf0 s = .ok 0x00030003 s' ∧ s'.target = s.target := by
  refine emuMemRead32_ok hap (by decide) ?_
  unfold emuTargetLoad
  rw [if_neg (by decide), if_neg (by decide), if_neg (by decide), if_neg (by decide),
    if_pos (by decide), show (0xe000edf0 : UInt32) - emuScsBase = 0xdf0 by decide]
  unfold scsRead
  rw [if_neg (by decide), if_neg (by decide), if_neg (by decide), if_pos rfl,
    show (0x00030003 : UInt32) &&& sizeMask 4 = 0x00030003 by decide]

/-- The poll after a reset ends at once. -/
theorem cortexmReset_poll (fuel : Nat) (s : EmuShim) :
    ∃ s', cortexmReset.poll true ap fuel s = .ok () s' ∧ s'.target = s.target := by
  cases fuel with
  | zero => exact ⟨s, rfl, rfl⟩
  | succ fuel =>
    obtain ⟨s', hread, htarget⟩ := emuMemRead32_dhcsr hap s
    refine ⟨s', ?_, htarget⟩
    rw [cortexmReset.poll, run_bind_ok hread, if_neg (by decide)]
    rfl

/-- A reset leaves the flash and its controller alone. -/
theorem cortexmReset_emu (fuel : Nat) (s : EmuShim) :
    ∃ s', cortexmReset true ap fuel s = .ok () s' ∧
    s'.target = { s.target with aircr := 0x05fa0004 } := by
  obtain ⟨s₁, hread₁, htarget₁⟩ := emuMemRead32_dhcsr hap s
  obtain ⟨s₂, hread₂, htarget₂⟩ := emuMemRead32_dhcsr hap s₁
  have haircr : emuTargetStore true s₂.target ⟨0xe000ed0c, 0x05fa0004, 4⟩ =
      .ok { s₂.target with aircr := 0x05fa0004 } := by
    unfold emuTargetStore
    rw [if_neg (by decide), if_neg (by decide), if_pos (by decide)]
    rfl
  obtain ⟨s₃, hwrite₃, htarget₃⟩ :=
    emuMemWrite32_ok hap (show 4 ∣ (0xe000ed0c : UInt32).toNat by decide) haircr
  obtain ⟨s₄, hpoll, htarget₄⟩ := cortexmReset_poll hap fuel s₃
  have hdfsr : emuTargetStore true s₄.target ⟨0xe000ed30, 0x1f, 4⟩ = .ok s₄.target := by
    unfold emuTargetStore
    rw [if_neg (by decide), if_neg (by decide), if_pos (by decide)]
    rfl
  obtain ⟨s₅, hwrite₅, htarget₅⟩ :=
    emuMemWrite32_ok hap (show 4 ∣ (0xe000ed30 : UInt32).toNat by decide) hdfsr
  refine ⟨{ s₅ with fault := 0 }, ?_, ?_⟩
  · unfold cortexmReset
    rw [run_bind_ok hread₁, run_bind_ok hread₂, if_pos (by decide), run_bind_ok hwrite₃]
    change (cortexmReset.poll true ap fuel >>= fun _ => _) s₃ = _
    rw [run_bind_ok hpoll, run_bind_ok hwrite₅]
    rfl
  · change s₅.target = _
    rw [htarget₅, htarget₄, htarget₃, htarget₂, htarget₁]

/-- The callbacks of the emulated target are a driver of NOR flash, which leaves SRAM alone. -/
theorem emuDriver_nor (sram : Vector UInt8 emuSramSize) (fuel : Nat) :
    NorDriver (emuDriver ap (fuel + 1)) emuRegion.toFlashGeometry (fun s => s.target.flash)
      (fun s => s.target.Keeps sram) fun s => s.target.Opened sram where
  enterFlashMode := rfl
  exitFlashMode := rfl
  prepare := rfl
  done := rfl
  malloc := fun _ _ => rfl
  usable_of_opened := fun _ h => h.toKeeps
  reset := by
    intro s hs
    obtain ⟨s', hreset, htarget⟩ := cortexmReset_emu hap (fuel + 1) s
    have hcall : (emuDriver ap (fuel + 1)).reset s = s' := by simp only [emuDriver, hreset]
    rw [hcall, htarget]
    exact ⟨⟨hs.sound, hs.sram⟩, rfl⟩
  reset_opened := by
    intro s hs
    obtain ⟨s', hreset, htarget⟩ := cortexmReset_emu hap (fuel + 1) s
    have hcall : (emuDriver ap (fuel + 1)).reset s = s' := by simp only [emuDriver, hreset]
    rw [hcall, htarget]
    exact ⟨⟨hs.sound, hs.sram⟩, hs.unlocked⟩
  erase := by
    intro f a s hf hblock hs
    have hdvd : 0x400 ∣ a := hblock.aligned
    have hlow : 0x08000000 ≤ a := hblock.start_le
    have hend : a + 0x400 ≤ 0x08000000 + 0x20000 := hblock.le_end
    have hnat : (UInt32.ofNat a).toNat = a := by
      rw [UInt32.toNat_ofNat', Nat.mod_eq_of_lt (by omega)]
    have hpage : UInt32.ofNat a < flashBankSplit := by
      rw [UInt32.lt_iff_toNat_lt, hnat, show flashBankSplit.toNat = 0x08080000 from rfl]
      omega
    obtain ⟨b', m', hcode, hreached, hpages, hunlocked, hsound, hsram⟩ :=
      @stm32f1FlashErase_emu true ap s hap emuPart (by decide) _ hpage hs.sound
        emuRegion.blocksize fuel
    obtain ⟨s', hrun, htarget⟩ := onEmu_reached (fun env =>
      stm32f1FlashErase env emuPart (fuel + 1) (UInt32.ofNat a) emuRegion.blocksize) hcode hreached
    refine ⟨s', hrun, ?_, ?_⟩
    · rw [htarget]
      exact ⟨⟨hsound, hsram.trans hs.sram⟩, hunlocked⟩
    · rw [htarget]
      exact flash_erasePage hpages hdvd hlow hend
  write := by
    intro f a data s hf hdvd hlow hend hlen hs
    have hdvd : 1024 ∣ a := hdvd
    have hlow : 0x08000000 ≤ a := hlow
    have hend : a + 1024 ≤ 0x08000000 + 0x20000 := hend
    have hlen : data.length = 1024 := hlen
    have hnat : (UInt32.ofNat a).toNat = a := by
      rw [UInt32.toNat_ofNat', Nat.mod_eq_of_lt (by omega)]
    have hapi : ¬ viaTargetApi (emuF1Target s.target) := fun h =>
      absurd h.1 (show (0x20 : UInt16) ≠ 0x61e by decide)
    obtain ⟨b', m', hcode, hreached, hunlocked, hsound, hsram, hflash⟩ :=
      @stm32f1FlashWrite_emu ap s hap emuPart _ hapi (UInt32.ofNat a) data (by omega) (by omega)
        (by omega)
        (by omega) (by omega) hs.unlocked hs.sound fuel
    obtain ⟨s', hrun, htarget⟩ := onEmu_reached (fun env =>
      stm32f1FlashWrite env emuPart (fuel + 1) (emuF1Target s.target) (UInt32.ofNat a) data) hcode
        hreached
    rw [hnat] at hflash
    refine ⟨s', hrun, ?_, fun x => ?_⟩
    · rw [htarget]
      exact ⟨⟨hsound, hsram.trans hs.sram⟩, hunlocked⟩
    · rw [htarget]
      exact hflash x

end

end Blackmagic
