import Blackmagic.Lib.Word
import Blackmagic.Stm32f1.Driver

/-!
# What the driver of the STM32F1 family acknowledges

The regions of a part are split at 512 KiB by its flash size, and whether the driver has a second
bank is told from the part id. Where the two disagree a write above the split does nothing, and an
erase is made in a bank that stays locked (`writeAcknowledged_iff`, `eraseAcknowledged_iff`).
Besides, the error of the data access is dropped: `target_mem_write` and `cortexm_mem_write_sized`
clear it, and their result is not looked at.
-/

namespace Blackmagic

open Effect Word

/-! ## What a call is to have done -/

/-- What CR of a bank was written with last. -/
def crWritten (bankOffset : UInt32) (log : List (F1Access × Bool)) : Option UInt32 :=
  (log.filterMap fun a => match a with
    | (.write32 addr value, true) => if addr = flashCr + bankOffset then some value else none
    | _ => none).getLast?

/-- A byte was written to its address, with CR.PG set in the bank of the address. -/
def ByteProgrammed (log : List (F1Access × Bool)) (a : UInt32) (c : UInt8) : Prop :=
  ∃ pre dest data size post, log = pre ++ (.memWrite dest data size, true) :: post ∧
    dest.toNat ≤ a.toNat ∧ data[a.toNat - dest.toNat]? = some c ∧
    ∃ cr, crWritten (stm32f1BankOffsetFor a) pre = some cr ∧ cr &&& flashCrPg ≠ 0

/-- A page was erased in its bank, which had been unlocked. -/
def PageErased (log : List (F1Access × Bool)) (addr : UInt32) : Prop :=
  ∃ ctrl, ctrl &&& flashCrLock = 0 ∧
    [(.write32 (flashKeyr + stm32f1BankOffsetFor addr) flashKey1, true),
      (.write32 (flashKeyr + stm32f1BankOffsetFor addr) flashKey2, true),
      (.read32 (flashCr + stm32f1BankOffsetFor addr) ctrl, true),
      (.write32 (flashCr + stm32f1BankOffsetFor addr) flashCrPer, true),
      (.write32 (flashAr + stm32f1BankOffsetFor addr) addr, true),
      (.write32 (flashCr + stm32f1BankOffsetFor addr) (flashCrStrt ||| flashCrPer), true)].Sublist
      log

/-- Whatever the target answers, a write that returns true has written every byte. -/
def WriteAcknowledged (faults : Nat → Bool) (part : F1Part) (t : F1Target) (dest : UInt32)
    (src : List UInt8) : Prop :=
  ∀ read32 error fuel b',
    stm32f1FlashWrite ⟨read32, faults⟩ part fuel t dest src ⟨[], error⟩ = .ok true b' →
    ∀ i c, src[i]? = some c → ByteProgrammed b'.log (dest + UInt32.ofNat i) c

/-- Whatever the target answers, an erase that returns true has erased the page in an unlocked
bank. -/
def EraseAcknowledged (faults : Nat → Bool) (part : F1Part) (addr : UInt32) (length : Nat) : Prop :=
  ∀ read32 error fuel b',
    stm32f1FlashErase ⟨read32, faults⟩ part fuel addr length ⟨[], error⟩ = .ok true b' →
    PageErased b'.log addr

/-! ## Accesses -/

section
variable {env : F1Env} {b b' : F1Bus} {bankOffset : UInt32} {fuel : Nat} {status : UInt32}

/-- No error is kept after an access that the target took. -/
theorem F1Bus.access_of_error {a : F1Access} (h : (b.access env a).error = false) :
    b.error = false ∧ (b.access env a).log = b.log ++ [(a, true)] := by
  rw [F1Bus.access, Bool.or_eq_false_iff] at h
  refine ⟨h.1, ?_⟩
  rw [F1Bus.access, h.2]
  rfl

/-- The three accesses of an unlock. -/
def F1Bus.unlocked (env : F1Env) (b : F1Bus) (bankOffset ctrl : UInt32) : F1Bus :=
  ((b.access env (.write32 (flashKeyr + bankOffset) flashKey1)).access env
    (.write32 (flashKeyr + bankOffset) flashKey2)).access env (.read32 (flashCr + bankOffset) ctrl)

/-- Unlocking returns what the lock bit says. -/
theorem stm32f1FlashUnlock_ok (b : F1Bus) : ∃ ctrl, stm32f1FlashUnlock env bankOffset b =
    .ok (ctrl &&& flashCrLock == 0) (b.unlocked env bankOffset ctrl) := ⟨_, rfl⟩

/-- A wait while the flash is busy makes a poll. -/
theorem busyWait_succ (h : status &&& flashSrEop = 0 ∧ status &&& flashSrBsy ≠ 0) (b : F1Bus) :
    ∃ b₁ v, b₁ = b.access env (.read32 (flashSr + bankOffset) v) ∧
      v = env.read32 b.log (flashSr + bankOffset) ∧
      stm32f1FlashBusyWait env bankOffset (fuel + 1) status b =
        if b₁.error then .ok false { b₁ with error := false }
        else stm32f1FlashBusyWait env bankOffset fuel v { b₁ with error := false } := by
  refine ⟨_, _, rfl, rfl, ?_⟩
  rw [stm32f1FlashBusyWait, if_pos h]
  change (f1MemRead32 env (flashSr + bankOffset) >>= fun _ => _) b = _
  rw [run_bind_ok (show f1MemRead32 env (flashSr + bankOffset) b = .ok _ _ from rfl),
    run_bind_ok (show f1CheckError _ = .ok _ _ from rfl)]
  split
  · rfl
  · rfl

/-- A wait only adds to the log. -/
theorem busyWait_prefix (h : stm32f1FlashBusyWait env bankOffset fuel status b = .ok true b') :
    b.log <+: b'.log := by
  induction fuel generalizing status b with
  | zero =>
    rw [stm32f1FlashBusyWait] at h
    split at h
    · cases h
    · rw [(EStateM.Result.ok.inj h).2]
  | succ fuel ih =>
    by_cases hwait : status &&& flashSrEop = 0 ∧ status &&& flashSrBsy ≠ 0
    · obtain ⟨b₁, v, hb₁, -, hrun⟩ := @busyWait_succ env bankOffset fuel status hwait b
      rw [hrun] at h
      split at h
      · cases h
      · refine List.IsPrefix.trans ?_ (ih h)
        rw [hb₁]
        exact List.prefix_append _ _
    · rw [stm32f1FlashBusyWait, if_neg hwait] at h
      rw [(EStateM.Result.ok.inj h).2]

/-- A wait that returns true started without an error, and its first poll did not fault. -/
theorem busyWait_true (h : stm32f1FlashBusyWait env bankOffset fuel flashSrBsy b = .ok true b') :
    b.error = false ∧ env.faults b.log.length = false := by
  have hwait : flashSrBsy &&& flashSrEop = 0 ∧ flashSrBsy &&& flashSrBsy ≠ 0 := by decide
  cases fuel with
  | zero =>
    rw [stm32f1FlashBusyWait, if_pos hwait] at h
    cases h
  | succ fuel =>
    obtain ⟨b₁, v, hb₁, -, hrun⟩ := @busyWait_succ env bankOffset fuel flashSrBsy hwait b
    rw [hrun] at h
    split at h
    · cases h
    · next herror =>
      rw [hb₁, F1Bus.access, Bool.not_eq_true, Bool.or_eq_false_iff] at herror
      exact herror

/-- A wait whose first poll reads EOP. -/
theorem busyWait_eop (herror : b.error = false) (hfault : env.faults b.log.length = false)
    (hread : env.read32 b.log (flashSr + bankOffset) = flashSrEop) :
    stm32f1FlashBusyWait env bankOffset 1 flashSrBsy b =
      .ok true ⟨b.log ++ [(.read32 (flashSr + bankOffset) flashSrEop, true)], false⟩ := by
  have hwait : flashSrBsy &&& flashSrEop = 0 ∧ flashSrBsy &&& flashSrBsy ≠ 0 := by decide
  obtain ⟨b₁, v, hb₁, hv, hrun⟩ := @busyWait_succ env bankOffset 0 flashSrBsy hwait b
  have hbus : b₁ = ⟨b.log ++ [(.read32 (flashSr + bankOffset) flashSrEop, true)], false⟩ := by
    rw [hb₁, hv, hread, F1Bus.access, herror, hfault]
    rfl
  rw [hrun, hv, hread, hbus, if_neg Bool.false_ne_true, stm32f1FlashBusyWait, if_neg (by decide)]
  rfl

/-! ## The write of one bank -/

variable {part : F1Part} {t : F1Target} {dest : UInt32} {data src : List UInt8}
  {faults : Nat → Bool}
  {read32 : List (F1Access × Bool) → UInt32 → UInt32}

/-- The access that writes the data. -/
def dataAccess (part : F1Part) (t : F1Target) (dest : UInt32) (data : List UInt8) : F1Access :=
  .memWrite dest data
    (if viaTargetApi t then none else some (if part.wideWrites then .bits32 else .bits16))

/-- The data is written by one access, and no error is kept behind it. -/
theorem writeData_ok (b : F1Bus) : writeData env part t dest data b =
    .ok () { b.access env (dataAccess part t dest data) with error := false } := by
  unfold writeData dataAccess
  split
  · rfl
  · rfl

/-- The accesses in front of the wait. -/
theorem writeBank_eq (b : F1Bus) :
    ∃ status b₁ b₂, b₁ = (((b.access env (.read32 (flashSr + bankOffset)
      status)).access env (.write32 (flashSr + bankOffset) (status ||| flashSrEop))).access env
      (.write32 (flashCr + bankOffset) flashCrPg)).access env (dataAccess part t dest data) ∧
    b₂ = { b₁ with error := false } ∧
    status = env.read32 b.log (flashSr + bankOffset) ∧
    writeBank env part fuel t bankOffset dest data b =
      stm32f1FlashBusyWait env bankOffset fuel flashSrBsy b₂ := by
  refine ⟨_, _, _, rfl, rfl, rfl, ?_⟩
  unfold writeBank stm32f1FlashClearEop
  simp only [bind_assoc]
  rw [run_bind_ok (show f1MemRead32 env (flashSr + bankOffset) b = .ok _ _ from rfl),
    run_bind_ok (show f1MemWrite32 env _ _ _ = .ok _ _ from rfl),
    run_bind_ok (show f1MemWrite32 env _ _ _ = .ok _ _ from rfl), run_bind_ok (writeData_ok _)]

/-- The log in front of the wait, whose first poll does not fault. -/
theorem writeBank_log {error : Bool}
    (h : writeBank ⟨read32, faults⟩ part fuel t bankOffset dest data
    ⟨[], error⟩ = .ok true b') : ∃ status,
    [(.read32 (flashSr + bankOffset) status, !faults 0),
      (.write32 (flashSr + bankOffset) (status ||| flashSrEop), !faults 1),
      (.write32 (flashCr + bankOffset) flashCrPg, !faults 2),
      (dataAccess part t dest data, !faults 3)] <+: b'.log ∧ faults 4 = false := by
  obtain ⟨status, b₁, b₂, hb₁, hb₂, -, hrun⟩ :=
    @writeBank_eq ⟨read32, faults⟩ bankOffset fuel part t dest data ⟨[], error⟩
  rw [hrun] at h
  have hprefix := busyWait_prefix h
  obtain ⟨-, hfault⟩ := busyWait_true h
  rw [hb₂, hb₁] at hprefix hfault
  exact ⟨status, hprefix, hfault⟩

/-- A write of one bank, to a target that is done at the first poll. -/
theorem writeBank_done (hfault : faults 4 = false) :
    writeBank ⟨fun _ _ => flashSrEop, faults⟩ part 1 t bankOffset dest data ⟨[], false⟩ =
      .ok true ⟨[(.read32 (flashSr + bankOffset) flashSrEop, !faults 0),
        (.write32 (flashSr + bankOffset) (flashSrEop ||| flashSrEop), !faults 1),
        (.write32 (flashCr + bankOffset) flashCrPg, !faults 2),
        (dataAccess part t dest data, !faults 3),
        (.read32 (flashSr + bankOffset) flashSrEop, true)], false⟩ := by
  obtain ⟨status, b₁, b₂, hb₁, hb₂, hstatus, hrun⟩ :=
    @writeBank_eq ⟨fun _ _ => flashSrEop, faults⟩ bankOffset 1 part t dest data ⟨[], false⟩
  rw [hrun, busyWait_eop (by rw [hb₂]) (by rw [hb₂, hb₁]; exact hfault) rfl, hb₂, hb₁, hstatus]
  rfl

/-! ## The two sides of the split -/

/-- A write below the split goes to the first bank. -/
theorem stm32f1FlashWrite_low (hne : src.length ≠ 0)
    (hend : dest.toNat + src.length ≤ flashBankSplit.toNat) :
    stm32f1FlashWrite env part fuel t dest src = writeBank env part fuel t 0 dest src := by
  have hsplit : flashBankSplit.toNat = 0x08080000 := rfl
  have hsum : (dest + UInt32.ofNat src.length).toNat = dest.toNat + src.length :=
    toNat_add_small (by omega)
  have hoffset : stm32f1Bank1Length dest src.length = src.length := by
    unfold stm32f1Bank1Length
    rw [if_neg (by rw [UInt32.le_iff_toNat_le]; omega),
      if_neg (by rw [UInt32.lt_iff_toNat_lt]; omega)]
  have hbank1 : writeBank1 env part fuel t dest src src.length =
      writeBank env part fuel t 0 dest src := by
    rw [writeBank1, if_pos hne, List.take_length]
  have hbank2 : writeBank2 env part fuel t dest src src.length = pure true := by
    rw [writeBank2, if_neg fun h => h.2 (Nat.sub_self _)]
  have hpure : (fun ok : Bool => if ok = true then (pure true : F1M Bool) else pure false) =
      pure := by
    funext ok
    cases ok <;> rfl
  unfold stm32f1FlashWrite
  simp only [hoffset, hbank1, hbank2]
  rw [hpure, bind_pure]

/-- One above it goes to the second bank, if the part has one. -/
theorem stm32f1FlashWrite_high (hne : src.length ≠ 0) (hlow : flashBankSplit ≤ dest) :
    stm32f1FlashWrite env part fuel t dest src =
      if stm32f1IsDualBank part.partId then writeBank env part fuel t flashBank2Offset dest src
      else pure true := by
  have hoffset : stm32f1Bank1Length dest src.length = 0 := if_pos hlow
  have hbank1 : writeBank1 env part fuel t dest src 0 = pure true := if_neg (not_not_intro rfl)
  have hbank2 : writeBank2 env part fuel t dest src 0 =
      if stm32f1IsDualBank part.partId then writeBank env part fuel t flashBank2Offset dest src
      else pure true := by
    have hdest : dest + UInt32.ofNat 0 = dest := UInt32.add_zero dest
    rw [writeBank2, hdest, List.drop_zero, Nat.sub_zero]
    simp only [hne, ne_eq, not_false_eq_true, and_true]
  unfold stm32f1FlashWrite
  simp only [hoffset, hbank1, hbank2]
  rfl

/-! ## Writes -/

/-- The last value of the control register was stored to it. -/
theorem mem_of_crWritten {log : List (F1Access × Bool)} {cr : UInt32}
    (h : crWritten bankOffset log = some cr) :
    (.write32 (flashCr + bankOffset) cr, true) ∈ log := by
  obtain ⟨⟨a, taken⟩, hmem, hval⟩ := List.mem_filterMap.1 (List.mem_of_getLast? h)
  cases a with
  | write32 addr value =>
    cases taken with
    | true =>
      simp only [Option.ite_none_right_eq_some, Option.some.injEq] at hval
      obtain ⟨haddr, hvalue⟩ := hval
      rwa [haddr, hvalue] at hmem
    | false => cases hval
  | read32 addr value => cases hval
  | memWrite dest data size => cases hval

/-- The data of a bank is written as it is acknowledged, unless the error of an access is
dropped. -/
theorem writeBank_acknowledged (hbank : ∀ i < src.length,
      stm32f1BankOffsetFor (dest + UInt32.ofNat i) = bankOffset)
    (hend : dest.toNat + src.length ≤ 2 ^ 32)
    (hf : faults 4 = true ∨ faults 2 = false ∧ faults 3 = false) {error : Bool}
    (h : writeBank ⟨read32, faults⟩ part fuel t bankOffset dest src ⟨[], error⟩ = .ok true b')
    {i : Nat} {c : UInt8} (hi : src[i]? = some c) :
    ByteProgrammed b'.log (dest + UInt32.ofNat i) c := by
  obtain ⟨status, hprefix, hfour⟩ := writeBank_log h
  have hf : faults 2 = false ∧ faults 3 = false := by
    rcases hf with hf | hf
    · rw [hfour] at hf
      cases hf
    · exact hf
  rw [hf.1, hf.2] at hprefix
  obtain ⟨post, hpost⟩ := hprefix
  have hlt : i < src.length := (List.getElem?_eq_some_iff.1 hi).1
  have hsum : (dest + UInt32.ofNat i).toNat = dest.toNat + i := toNat_add_small (by omega)
  refine ⟨[(.read32 (flashSr + bankOffset) status, !faults 0),
      (.write32 (flashSr + bankOffset) (status ||| flashSrEop), !faults 1),
      (.write32 (flashCr + bankOffset) flashCrPg, true)],
    dest, src, _, post, hpost.symm, by omega, ?_, flashCrPg, ?_, by decide⟩
  · rw [hsum, Nat.add_sub_cancel_left, hi]
  · rw [hbank i hlt]
    have hlast : ∀ l : List (F1Access × Bool), crWritten bankOffset
        (l ++ [(.write32 (flashCr + bankOffset) flashCrPg, true)]) = some flashCrPg := by
      intro l
      unfold crWritten
      rw [List.filterMap_append, List.filterMap_cons]
      simp
    exact hlast [_, _]

/-- The data of a bank is not written when the error of its access, or of the one to CR, is
dropped. -/
theorem writeBank_dropped (hne : src.length ≠ 0) (hbank : stm32f1BankOffsetFor dest = bankOffset)
    (hfour : faults 4 = false) (hf : faults 2 = true ∨ faults 3 = true) :
    ∃ b' i c, writeBank ⟨fun _ _ => flashSrEop, faults⟩ part 1 t bankOffset dest src ⟨[], false⟩ =
      .ok true b' ∧ src[i]? = some c ∧ ¬ ByteProgrammed b'.log (dest + UInt32.ofNat i) c := by
  refine ⟨_, 0, src.get ⟨0, Nat.pos_of_ne_zero hne⟩, writeBank_done hfour,
    List.getElem?_eq_getElem (Nat.pos_of_ne_zero hne), ?_⟩
  rintro ⟨pre, dest', data, size, post, hlog, -, -, cr, hcr, -⟩
  rw [show dest + UInt32.ofNat 0 = dest from UInt32.add_zero dest, hbank] at hcr
  -- both accesses are in the log as ones that the target took
  have hdata : (F1Access.memWrite dest' data size, true) ∈ pre ++
      (.memWrite dest' data size, true) :: post :=
    List.mem_append_right pre List.mem_cons_self
  have hpg : (F1Access.write32 (flashCr + bankOffset) cr, true) ∈
      pre ++ (.memWrite dest' data size, true) :: post :=
    List.mem_append_left _ (mem_of_crWritten hcr)
  have hreg : flashCr + bankOffset ≠ flashSr + bankOffset := by
    rw [Ne, UInt32.add_left_inj]
    decide
  rw [← hlog] at hdata hpg
  simp only [dataAccess, List.mem_cons, Prod.mk.injEq, reduceCtorEq, false_and, false_or, or_false,
    List.not_mem_nil, F1Access.write32.injEq, hreg] at hdata hpg
  rcases hf with hf | hf
  · rw [hf] at hpg
    exact Bool.false_ne_true hpg.2.symm
  · rw [hf] at hdata
    exact Bool.false_ne_true hdata.2.symm

/-- The data of a write, and the access to CR before it, are not lost: the target takes them, or the
poll after them, whose error is looked at, faults as well. -/
def DataTaken (faults : Nat → Bool) : Prop := faults 4 = true ∨ faults 2 = false ∧ faults 3 = false

/-- A write to one bank is acknowledged when the bank is one that the driver knows of, and the data
is not lost. -/
theorem writeAcknowledged_iff (hne : src.length ≠ 0) (hfit : dest.toNat + src.length ≤ 2 ^ 32)
    (hside : dest.toNat + src.length ≤ flashBankSplit.toNat ∨ flashBankSplit ≤ dest) :
    WriteAcknowledged faults part t dest src ↔
      (stm32f1IsDualBank part.partId ∨ dest < flashBankSplit) ∧ DataTaken faults := by
  have hsplit : flashBankSplit.toNat = 0x08080000 := rfl
  have hsrc : src[0]? = some (src.get ⟨0, Nat.pos_of_ne_zero hne⟩) :=
    List.getElem?_eq_getElem (Nat.pos_of_ne_zero hne)
  -- a write that is made in one bank
  have hwrite : ∀ bankOffset, (∀ env fuel b, stm32f1FlashWrite env part fuel t dest src b =
        writeBank env part fuel t bankOffset dest src b) →
      (∀ i < src.length, stm32f1BankOffsetFor (dest + UInt32.ofNat i) = bankOffset) →
      (WriteAcknowledged faults part t dest src ↔ DataTaken faults) := by
    intro bankOffset hrun hbank
    refine ⟨fun h => ?_, fun hf read32 error fuel b' h i c hi => ?_⟩
    · by_contra hlost
      simp only [DataTaken, not_or, not_and_or, Bool.not_eq_true, Bool.not_eq_false] at hlost
      obtain ⟨hfour, hf⟩ := hlost
      have hbank₀ := hbank 0 (Nat.pos_of_ne_zero hne)
      rw [show dest + UInt32.ofNat 0 = dest from UInt32.add_zero dest] at hbank₀
      obtain ⟨b', i, c, hdone, hi, hnot⟩ :=
        @writeBank_dropped _ part t dest src faults hne hbank₀ hfour hf
      rw [← hrun] at hdone
      exact hnot (h _ _ _ _ hdone i c hi)
    · rw [hrun] at h
      exact writeBank_acknowledged hbank hfit hf h hi
  rcases hside with hlow | hhigh
  · have hlt : dest < flashBankSplit := by
      rw [UInt32.lt_iff_toNat_lt]
      omega
    rw [hwrite 0 (fun env fuel b => by rw [stm32f1FlashWrite_low hne hlow]) fun i hi => ?_]
    · exact ⟨fun h => ⟨.inr hlt, h⟩, fun h => h.2⟩
    · refine if_neg ?_
      rw [UInt32.le_iff_toNat_le, toNat_add_small (by omega)]
      omega
  · have hle := UInt32.le_iff_toNat_le.1 hhigh
    have hnot : ¬ dest < flashBankSplit := by
      rw [UInt32.lt_iff_toNat_lt]
      omega
    by_cases hdual : stm32f1IsDualBank part.partId
    · rw [hwrite flashBank2Offset
        (fun env fuel b => by rw [stm32f1FlashWrite_high hne hhigh, if_pos hdual])
        fun i hi => ?_]
      · exact ⟨fun h => ⟨.inl hdual, h⟩, fun h => h.2⟩
      · refine if_pos ?_
        rw [UInt32.le_iff_toNat_le, toNat_add_small (by omega)]
        omega
    · refine iff_of_false (fun h => ?_) fun h => h.1.elim hdual hnot
      have hrun : stm32f1FlashWrite ⟨fun _ _ => 0, faults⟩ part 0 t dest src ⟨[], false⟩ =
          .ok true ⟨[], false⟩ := by
        rw [stm32f1FlashWrite_high hne hhigh, if_neg hdual]
        rfl
      obtain ⟨pre, dest', data, size, post, hlog, -⟩ := h _ _ _ _ hrun 0 _ hsrc
      exact absurd hlog (by simp)

/-! ## Erases -/

/-- The first accesses of an erase once the banks are unlocked. -/
theorem stm32f1FlashErase_of_unlocked {b₁ : F1Bus} {addr : UInt32} {length : Nat}
    (h : unlockBanks env part addr length b = .ok true b₁) : ∃ status b₂,
    b₂ = ((((b₁.access env (.read32 (flashSr + stm32f1BankOffsetFor addr) status)).access env
      (.write32 (flashSr + stm32f1BankOffsetFor addr) (status ||| flashSrEop))).access env
      (.write32 (flashCr + stm32f1BankOffsetFor addr) flashCrPer)).access env
      (.write32 (flashAr + stm32f1BankOffsetFor addr) addr)).access env
      (.write32 (flashCr + stm32f1BankOffsetFor addr) (flashCrStrt ||| flashCrPer)) ∧
    status = env.read32 b₁.log (flashSr + stm32f1BankOffsetFor addr) ∧
    stm32f1FlashErase env part fuel addr length b =
      stm32f1FlashBusyWait env (stm32f1BankOffsetFor addr) fuel flashSrBsy b₂ := by
  refine ⟨_, _, rfl, rfl, ?_⟩
  unfold stm32f1FlashErase stm32f1FlashClearEop
  rw [run_bind_ok h]
  rfl

/-- The bank of an unlock that returns true can be written. -/
theorem stm32f1FlashUnlock_true {b₁ : F1Bus}
    (h : stm32f1FlashUnlock env bankOffset b = .ok true b₁) :
    ∃ ctrl, ctrl &&& flashCrLock = 0 ∧ b₁ = b.unlocked env bankOffset ctrl := by
  obtain ⟨ctrl, hrun⟩ := @stm32f1FlashUnlock_ok env bankOffset b
  rw [hrun] at h
  exact ⟨ctrl, beq_iff_eq.1 (EStateM.Result.ok.inj h).1, (EStateM.Result.ok.inj h).2.symm⟩

/-- Of the banks that are unlocked, that of the address is the last. -/
theorem unlockBanks_true {b₁ : F1Bus} {addr : UInt32} {length : Nat}
    (hbank : stm32f1IsDualBank part.partId ∨ addr < flashBankSplit)
    (hhigh : flashBankSplit ≤ addr → flashBankSplit ≤ addr + UInt32.ofNat length - 1)
    (h : unlockBanks env part addr length b = .ok true b₁) :
    ∃ b₀ ctrl, ctrl &&& flashCrLock = 0 ∧
      b₁ = F1Bus.unlocked env b₀ (stm32f1BankOffsetFor addr) ctrl := by
  unfold unlockBanks at h
  by_cases hlow : addr < flashBankSplit
  · have hoff : stm32f1BankOffsetFor addr = 0 := if_neg (UInt32.not_le.2 hlow)
    rw [hoff]
    simp only [if_pos hlow] at h
    split at h
    · obtain ⟨ctrl, hrun⟩ := @stm32f1FlashUnlock_ok env flashBank2Offset b
      rw [run_bind_ok hrun] at h
      split at h
      · obtain ⟨ctrl', hlock, hb₁⟩ := stm32f1FlashUnlock_true h
        exact ⟨_, ctrl', hlock, hb₁⟩
      · cases h
    · obtain ⟨ctrl, hlock, hb₁⟩ := stm32f1FlashUnlock_true h
      exact ⟨b, ctrl, hlock, hb₁⟩
  · have hle : flashBankSplit ≤ addr := UInt32.not_lt.1 hlow
    have hoff : stm32f1BankOffsetFor addr = flashBank2Offset := if_pos hle
    rw [if_pos ⟨hbank.resolve_right hlow, hhigh hle⟩] at h
    obtain ⟨ctrl, hrun⟩ := @stm32f1FlashUnlock_ok env flashBank2Offset b
    rw [run_bind_ok hrun] at h
    split at h
    · next hlock =>
      rw [hoff]
      exact ⟨b, ctrl, beq_iff_eq.1 hlock, (EStateM.Result.ok.inj h).2.symm⟩
    · cases h

/-- An address in the second bank is not the last one. -/
theorem split_le_last {addr : UInt32} {length : Nat} (hpos : 0 < length)
    (hfit : addr.toNat + length ≤ 2 ^ 32) (hle : flashBankSplit ≤ addr) :
    flashBankSplit ≤ addr + UInt32.ofNat length - 1 := by
  have hsplit : flashBankSplit.toNat = 0x08080000 := rfl
  rw [UInt32.le_iff_toNat_le] at hle ⊢
  have haddr := addr.toNat_lt
  rw [UInt32.toNat_sub, UInt32.toNat_add, UInt32.toNat_ofNat', show (1 : UInt32).toNat = 1 from rfl]
  omega

/-- An erase in a bank that is unlocked first is done when it returns true: no error is kept, so the
target took all accesses. -/
theorem eraseAcknowledged_of_bank {addr : UInt32} {length : Nat}
    (hbank : stm32f1IsDualBank part.partId ∨ addr < flashBankSplit)
    (hhigh : flashBankSplit ≤ addr → flashBankSplit ≤ addr + UInt32.ofNat length - 1) :
    EraseAcknowledged faults part addr length := by
  intro read32 error fuel b' h
  cases hunlock : unlockBanks ⟨read32, faults⟩ part addr length ⟨[], error⟩ with
  | error e b₁ =>
    unfold stm32f1FlashErase at h
    rw [run_bind_error hunlock] at h
    cases h
  | ok ok b₁ =>
    cases ok with
    | false =>
      unfold stm32f1FlashErase at h
      rw [run_bind_ok hunlock] at h
      cases h
    | true =>
      obtain ⟨b₀, ctrl, hlock, hb₁⟩ := unlockBanks_true hbank hhigh hunlock
      obtain ⟨status, b₂, hb₂, -, hrun⟩ :=
        @stm32f1FlashErase_of_unlocked ⟨read32, faults⟩ _ fuel part b₁ addr length hunlock
      rw [hrun] at h
      have hprefix := busyWait_prefix h
      have herror := (busyWait_true h).1
      rw [hb₂, hb₁, F1Bus.unlocked] at hprefix herror
      obtain ⟨h₈, hlog₈⟩ := F1Bus.access_of_error herror
      obtain ⟨h₇, hlog₇⟩ := F1Bus.access_of_error h₈
      obtain ⟨h₆, hlog₆⟩ := F1Bus.access_of_error h₇
      obtain ⟨h₅, hlog₅⟩ := F1Bus.access_of_error h₆
      obtain ⟨h₄, hlog₄⟩ := F1Bus.access_of_error h₅
      obtain ⟨h₃, hlog₃⟩ := F1Bus.access_of_error h₄
      obtain ⟨h₂, hlog₂⟩ := F1Bus.access_of_error h₃
      obtain ⟨-, hlog₁⟩ := F1Bus.access_of_error h₂
      rw [hlog₈, hlog₇, hlog₆, hlog₅, hlog₄, hlog₃, hlog₂, hlog₁] at hprefix
      refine ⟨ctrl, hlock, List.Sublist.trans ?_ hprefix.sublist⟩
      simp only [List.append_assoc, List.cons_append, List.nil_append]
      refine List.Sublist.trans ?_ (List.sublist_append_right b₀.log _)
      refine ((List.Sublist.cons_cons _ ?_).cons_cons _).cons_cons _
      exact ((((List.Sublist.refl []).cons_cons _).cons_cons _).cons_cons _).cons _ |>.cons _

section
variable {addr : UInt32} {length : Nat}
  (hunlock : ∀ env b, unlockBanks env part addr length b = .ok true b)
include hunlock

/-- An erase without an unlock that the target takes is acknowledged, though the bank is locked. -/
theorem not_eraseAcknowledged_of_taken (hok : ∀ n < 6, faults n = false) :
    ¬ EraseAcknowledged faults part addr length := by
  intro h
  obtain ⟨status, b₂, hb₂, hstatus, hrun⟩ := @stm32f1FlashErase_of_unlocked
    ⟨fun _ _ => flashSrEop, faults⟩ ⟨[], false⟩ 1 part _ addr length (hunlock _ _)
  have hbus : b₂ = ⟨[(.read32 (flashSr + stm32f1BankOffsetFor addr) status, true),
      (.write32 (flashSr + stm32f1BankOffsetFor addr) (status ||| flashSrEop), true),
      (.write32 (flashCr + stm32f1BankOffsetFor addr) flashCrPer, true),
      (.write32 (flashAr + stm32f1BankOffsetFor addr) addr, true),
      (.write32 (flashCr + stm32f1BankOffsetFor addr) (flashCrStrt ||| flashCrPer), true)],
      false⟩ := by
    rw [hb₂]
    simp [F1Bus.access, hok]
  rw [busyWait_eop (by rw [hbus]) (by rw [hbus]; exact hok 5 (by decide)) rfl, hbus] at hrun
  -- KEYR is in none of the accesses
  obtain ⟨ctrl, -, hsub⟩ := h _ _ _ _ hrun
  have hmem := hsub.subset List.mem_cons_self
  have hne : ∀ {reg : UInt32}, flashKeyr ≠ reg →
      flashKeyr + stm32f1BankOffsetFor addr ≠ reg + stm32f1BankOffsetFor addr :=
    fun h heq => h ((UInt32.add_left_inj _).1 heq)
  have hsr : flashKeyr ≠ flashSr := by decide
  have hcr : flashKeyr ≠ flashCr := by decide
  have har : flashKeyr ≠ flashAr := by decide
  simp [hne hsr, hne hcr, hne har] at hmem

/-- A fault in one of its accesses is found by the wait, so that it does not return true. -/
theorem eraseAcknowledged_of_fault (hfault : ∃ n < 6, faults n = true) :
    EraseAcknowledged faults part addr length := by
  intro read32 error fuel b' hrun
  obtain ⟨n, hn, hfault⟩ := hfault
  obtain ⟨status, b₂, hb₂, -, herase⟩ := @stm32f1FlashErase_of_unlocked
    ⟨read32, faults⟩ ⟨[], error⟩ fuel part _ addr length (hunlock _ _)
  rw [herase] at hrun
  obtain ⟨herror, hpoll⟩ := busyWait_true hrun
  rw [hb₂] at herror hpoll
  simp only [F1Bus.access, Bool.or_eq_false_iff] at herror hpoll
  have hnone : ∀ n < 6, faults n = false := by
    intro n hn
    obtain ⟨⟨⟨⟨⟨-, h₀⟩, h₁⟩, h₂⟩, h₃⟩, h₄⟩ := herror
    interval_cases n
    · exact h₀
    · exact h₁
    · exact h₂
    · exact h₃
    · exact h₄
    · exact hpoll
  rw [hnone n hn] at hfault
  cases hfault

end

/-- An erase is acknowledged when the bank is one that the driver knows of. Its errors are looked
at. -/
theorem eraseAcknowledged_iff {addr : UInt32} {length : Nat} (hpos : 0 < length)
    (hfit : addr.toNat + length ≤ 2 ^ 32) :
    EraseAcknowledged faults part addr length ↔
      stm32f1IsDualBank part.partId ∨ addr < flashBankSplit ∨ ∃ n < 6, faults n = true := by
  by_cases hbank : stm32f1IsDualBank part.partId ∨ addr < flashBankSplit
  · exact iff_of_true (eraseAcknowledged_of_bank hbank (split_le_last hpos hfit))
      (or_assoc.1 (.inl hbank))
  · obtain ⟨hdual, hlow⟩ := not_or.1 hbank
    have hunlock : ∀ (env : F1Env) (b : F1Bus), unlockBanks env part addr length b =
        .ok true b := by
      intro env b
      unfold unlockBanks
      rw [if_neg fun h => hdual h.1, if_neg hlow]
      rfl
    constructor
    · intro h
      by_contra hnone
      refine not_eraseAcknowledged_of_taken hunlock (fun n hn => ?_) h
      exact Bool.eq_false_iff.2 fun hfault => hnone (.inr (.inr ⟨n, hn, hfault⟩))
    · intro h
      exact eraseAcknowledged_of_fault hunlock ((h.resolve_left hdual).resolve_left hlow)

end

/-! ## The parts -/

section
variable {part : F1Part} {t : F1Target} {r : F1Region} {faults : Nat → Bool}

/-- A part that one of the probes registers. -/
def Registers (t : F1Target) (part : F1Part) : Prop :=
  gd32f1Probe t = some part ∨ at32f40xProbe t = some part ∨
    (∃ partId, at32f40Detect partId = some part) ∨ stm32f1Probe t = some part ∨
    mm32l0xxProbe t = some part ∨ mm32f3xxProbe t = some part

/-- A region is on one side of the split. -/
structure F1Region.Sided (r : F1Region) : Prop where
  writesize : r.writesize = 1024
  blocksize : 0 < r.blocksize
  fits : r.start.toNat + r.length ≤ 2 ^ 32
  side : r.start.toNat + r.length ≤ flashBankSplit.toNat ∨ flashBankSplit ≤ r.start

/-- A region that starts below the split ends there. -/
theorem sided_low {length blocksize : Nat} (hlen : length ≤ 0x80000) (hblock : 0 < blocksize) :
    (stm32f1AddFlash 0x08000000 length blocksize).Sided := by
  have hstart : (0x08000000 : UInt32).toNat = 0x08000000 := rfl
  have hsplit : flashBankSplit.toNat = 0x08080000 := rfl
  refine ⟨rfl, hblock, ?_, .inl ?_⟩
  · change (0x08000000 : UInt32).toNat + length ≤ 2 ^ 32
    omega
  · change (0x08000000 : UInt32).toNat + length ≤ flashBankSplit.toNat
    omega

/-- One that starts at the split is above it. -/
theorem sided_high {length blocksize : Nat} (hlen : length ≤ 0x10000 * 1024)
    (hblock : 0 < blocksize) :
    (stm32f1AddFlash 0x08080000 length blocksize).Sided := by
  have hstart : (0x08080000 : UInt32).toNat = 0x08080000 := rfl
  refine ⟨rfl, hblock, ?_, .inr (UInt32.le_refl _)⟩
  change (0x08080000 : UInt32).toNat + length ≤ 2 ^ 32
  omega

/-- The regions of a GD32F1 are on one side each. -/
theorem sided_of_gd32f1 (h : gd32f1Probe t = some part) (hr : r ∈ part.regions) : r.Sided := by
  obtain ⟨blockSize, hblock, hpart⟩ := Option.bind_eq_some_iff.1 h
  cases hpart
  have hpos : 0 < blockSize := by
    unfold gd32f1BlockSize at hblock
    repeat' split at hblock
    all_goals cases hblock <;> decide
  have hsize : (t.mem 0x1ffff7e0 &&& 0xffff).toNat < 0x10000 := by
    rw [show (0xffff : UInt32) = UInt32.ofNat (2 ^ 16 - 1) by decide, toNat_and_low _ (by decide)]
    exact Nat.mod_lt _ (by decide)
  dsimp only at hr
  unfold gd32f1Regions at hr
  split at hr
  · rcases List.mem_cons.1 hr with rfl | hr
    · exact sided_low (by decide) hpos
    · rw [List.mem_singleton.1 hr]
      exact sided_high (by omega) (by decide)
  · rw [List.mem_singleton.1 hr]
    exact sided_low (by omega) hpos

/-- So are those of an AT32F40x. -/
theorem sided_of_detect40 {partId : UInt16} (h : at32f40Detect partId = some part)
    (hr : r ∈ part.regions) : r.Sided := by
  unfold at32f40Detect at h
  split at h
  · cases h
    rw [List.mem_singleton.1 hr]
    exact sided_low (by decide) (by decide)
  split at h
  · cases h
    rw [List.mem_singleton.1 hr]
    exact sided_low (by decide) (by decide)
  split at h
  · cases h
    rcases List.mem_cons.1 hr with rfl | hr
    · exact sided_low (by decide) (by decide)
    · rw [List.mem_singleton.1 hr]
      exact sided_high (by decide) (by decide)
  · cases h

/-- So are those of an AT32F41x. -/
theorem sided_of_detect41 {partId : UInt16} (h : at32f41Detect partId = some part)
    (hr : r ∈ part.regions) : r.Sided := by
  unfold at32f41Detect at h
  repeat' split at h
  all_goals
    cases h <;>
      (rw [List.mem_singleton.1 hr]
       exact sided_low (by decide) (by decide))

/-- So are those of an STM32F1. -/
theorem sided_of_stm32f1 (h : stm32f1Probe t = some part) (hr : r ∈ part.regions) : r.Sided := by
  unfold stm32f1Probe at h
  dsimp only at h
  split at h
  · cases h
    rw [List.mem_singleton.1 hr]
    exact sided_low (by decide) (by decide)
  split at h
  · cases h
    rw [List.mem_singleton.1 hr]
    exact sided_low (by decide) (by decide)
  split at h
  · cases h
    rcases List.mem_cons.1 hr with rfl | hr
    · exact sided_low (by decide) (by decide)
    · rw [List.mem_singleton.1 hr]
      exact sided_high (by decide) (by decide)
  repeat' split at h
  all_goals
    cases h <;>
      (rw [List.mem_singleton.1 hr]
       exact sided_low (by decide) (by decide))

/-- So are those of an MM32. -/
theorem sided_mm32 {id : UInt32} {kbyte : Nat} (hk : kbyte ≤ 512)
    (h : some (mm32Part id kbyte) = some part) (hr : r ∈ part.regions) : r.Sided := by
  cases h
  rw [List.mem_singleton.1 hr]
  exact sided_low (by omega) (by decide)

/-- So are the regions of every part that a probe registers. -/
theorem Registers.sided (h : Registers t part) (hr : r ∈ part.regions) : r.Sided := by
  rcases h with h | h | ⟨partId, h⟩ | h | h | h
  · exact sided_of_gd32f1 h hr
  · unfold at32f40xProbe at h
    dsimp only at h
    split at h
    · cases h
    split at h
    · exact sided_of_detect40 h hr
    split at h
    · exact sided_of_detect41 h hr
    · cases h
  · exact sided_of_detect40 h hr
  · exact sided_of_stm32f1 h hr
  · unfold mm32l0xxProbe at h
    dsimp only at h
    split at h
    · exact sided_mm32 (by decide) h hr
    split at h
    · exact sided_mm32 (by decide) h hr
    split at h
    · exact sided_mm32 (by decide) h hr
    · cases h
  · unfold mm32f3xxProbe at h
    dsimp only at h
    split at h
    · exact sided_mm32 (by decide) h hr
    split at h
    · exact sided_mm32 (by decide) h hr
    · cases h

/-- A GD32F30x HD with 768 KiB of flash. -/
def gd32f30xHd : F1Target where
  cpuid := 0x410fc241
  designerCode := 0x751
  mem := fun addr => if addr = 0xe0042000 then 0x414 else if addr = 0x1ffff7e0 then 768 else 0

/-- Its part: a region on each side of the split, and an id without a second bank. -/
def gd32f30xHdPart : F1Part where
  partId := 0x414
  wideWrites := true
  regions := [stm32f1AddFlash 0x08000000 0x80000 0x800, stm32f1AddFlash 0x08080000 0x40000 0x1000]

/-- The high-density GD32F30x is registered. -/
theorem registers_gd32f30xHd : Registers gd32f30xHd gd32f30xHdPart := .inl (by decide +kernel)

end

end Blackmagic
