import Blackmagic.Lib.Bytes
import Blackmagic.Lib.Word
import Blackmagic.Emu.Target

/-!
# Loads from the emulated target, and stores to its SRAM

A load from the flash window or from SRAM is the little-endian word of the bytes there
(`emuTargetLoad_window`), and a store to SRAM overwrites them (`emuTargetStore_sram`). An access to
aligned data stays inside of `g_sram`, whatever its address (`emuTargetLoad_aligned`,
`emuTargetStore_aligned`).
-/

namespace Blackmagic

open Bytes Word

variable {malloc : Bool} {m : EmuTarget} {addr : UInt32} {size len : Nat} {st : EmuStore}

/-- `[addr, addr + len)` is inside the flash window or inside the SRAM window. -/
def InWindow (addr : UInt32) (len : Nat) : Prop :=
  emuFlashBase.toNat ≤ addr.toNat ∧ addr.toNat + len ≤ emuFlashBase.toNat + emuFlashSize.toNat ∨
    emuSramBase.toNat ≤ addr.toNat ∧ addr.toNat + len ≤ emuSramBase.toNat + emuSramSize

/-- The byte of the flash or of SRAM at an address. -/
def EmuTarget.byte (m : EmuTarget) (a : UInt32) : UInt8 :=
  if inFlash a then flashByte m.flashPage a else m.sram[(a - emuSramBase).toNat]?.getD 0

/-- The bytes of the flash or of SRAM from an address on. -/
def EmuTarget.bytes (m : EmuTarget) (addr : UInt32) (n : Nat) : List UInt8 :=
  (List.range n).map fun i => m.byte (addr + UInt32.ofNat i)

/-- The mask of a size has all its bits. -/
theorem toNat_sizeMask (h : size ≤ 4) : (sizeMask size).toNat = 256 ^ size - 1 := by
  interval_cases size <;> rfl

/-- A mask takes the low bytes. -/
theorem and_sizeMask (h : size ≤ 4) (v : UInt32) :
    (v &&& sizeMask size).toNat = v.toNat % 256 ^ size := by
  rw [UInt32.toNat_and, toNat_sizeMask h, show 256 = 2 ^ 8 from rfl, ← Nat.pow_mul,
    Nat.and_two_pow_sub_one_eq_mod]

/-- Every load is cut to its size. -/
theorem emuTargetLoad_lt (h : size ≤ 4) {v : UInt32} (hv : emuTargetLoad m addr size = .ok v) :
    v.toNat < 256 ^ size := by
  have hmask : ∀ w : UInt32, (w &&& sizeMask size).toNat < 256 ^ size := by
    intro w
    rw [and_sizeMask h]
    exact Nat.mod_lt _ (Nat.pow_pos (by decide))
  unfold emuTargetLoad at hv
  split at hv
  · cases hv; exact hmask _
  split at hv
  · cases hw : loadSram m.sram addr size with
    | error e => rw [hw] at hv; cases hv
    | ok w => rw [hw] at hv; cases hv; exact hmask w
  split at hv
  · cases hv; exact hmask _
  split at hv
  · cases hv; exact hmask _
  split at hv
  · cases hv; exact hmask _
  split at hv
  · cases hv; exact hmask _
  · cases hv; exact Nat.pow_pos (by decide)

/-- The addresses of the flash. -/
theorem inFlash_iff {a : UInt32} : inFlash a ↔ 0x08000000 ≤ a.toNat ∧ a.toNat < 0x08020000 := by
  unfold inFlash inRange
  rw [UInt32.le_iff_toNat_le]
  rfl

/-- The addresses of SRAM. -/
theorem inSram_iff {a : UInt32} :
    inRange a emuSramBase emuSramSize ↔ 0x20000000 ≤ a.toNat ∧ a.toNat < 0x20005000 := by
  unfold inRange
  rw [UInt32.le_iff_toNat_le]
  rfl

/-- The addresses of a window. -/
theorem inWindow_iff : InWindow addr len ↔ 0x08000000 ≤ addr.toNat ∧ addr.toNat + len ≤ 0x08020000 ∨
    0x20000000 ≤ addr.toNat ∧ addr.toNat + len ≤ 0x20005000 := Iff.rfl

/-- A load from SRAM that does not run past its end. -/
theorem loadSram_eq (hsize : size ≤ 4) (sram : Vector UInt8 emuSramSize)
    (hlow : 0x20000000 ≤ addr.toNat) (hend : addr.toNat + size ≤ 0x20005000) :
    ∃ v, loadSram sram addr size = .ok v ∧ v.toNat = leNat ((List.range size).map fun i =>
      sram[(addr + UInt32.ofNat i - emuSramBase).toNat]?.getD 0) := by
  have hloop : ∀ (l : List Nat) (w : UInt32), (∀ i ∈ l, i < size) →
      l.foldlM (fun v i =>
        let index := (addr + UInt32.ofNat i - emuSramBase).toNat
        if h : index < emuSramSize then
          Except.ok (v ||| (sram.get ⟨index, h⟩).toUInt32 <<< UInt32.ofNat (8 * i))
        else Except.error (EmuFault.sram index)) w =
      .ok
        (l.foldl
        (fun v i => v ||| (sram[(addr + UInt32.ofNat i - emuSramBase).toNat]?.getD 0).toUInt32 <<<
        UInt32.ofNat (8 * i)) w) := by
    intro l
    induction l with
    | nil => exact fun w _ => rfl
    | cons i l ih =>
      intro w hl
      have hi := hl i List.mem_cons_self
      have hindex : (addr + UInt32.ofNat i - emuSramBase).toNat < emuSramSize := by
        rw [UInt32.toNat_sub, toNat_add_small (by omega), show emuSramBase.toNat =
          0x20000000 from rfl]
        simp only [emuSramSize]
        omega
      rw [List.foldlM_cons, List.foldl_cons, ← ih _ fun j hj => hl j (List.mem_cons_of_mem i hj)]
      simp only [dif_pos hindex, Vector.getElem?_eq_getElem hindex, Option.getD_some]
      rfl
  refine ⟨_, hloop (List.range size) 0 fun i hi => List.mem_range.1 hi, ?_⟩
  exact foldl_or_bytes (fun i => sram[(addr + UInt32.ofNat i - emuSramBase).toNat]?.getD 0) hsize

/-- A load from one of the windows. -/
theorem emuTargetLoad_window (hsize : size ≤ 4) (hpos : 0 < size) (h : InWindow addr size) :
    ∃ v, emuTargetLoad m addr size = .ok v ∧ v.toNat = leNat (m.bytes addr size) := by
  rw [inWindow_iff] at h
  rcases h with ⟨hlow, hend⟩ | ⟨hlow, hend⟩
  · have hin : inFlash addr := inFlash_iff.2 ⟨hlow, by omega⟩
    have hbytes : m.bytes addr size =
        (List.range size).map fun i => flashByte m.flashPage (addr + UInt32.ofNat i) := by
      refine List.map_congr_left fun i hi => if_pos (inFlash_iff.2 ?_)
      have hi := List.mem_range.1 hi
      rw [toNat_add_small (by omega)]
      omega
    have hval := foldl_or_bytes (fun i => flashByte m.flashPage (addr + UInt32.ofNat i)) hsize
    refine ⟨_, if_pos hin, ?_⟩
    rw [and_sizeMask hsize, hbytes, ← hval]
    refine Nat.mod_eq_of_lt ?_
    rw [loadFlash, hval]
    simpa using leNat_lt ((List.range size).map fun i =>
      flashByte m.flashPage (addr + UInt32.ofNat i))
  · have hnot : ∀ i < size, ¬ inFlash (addr + UInt32.ofNat i) := by
      intro i hi hf
      rw [inFlash_iff, toNat_add_small (by omega)] at hf
      omega
    have hnot0 : ¬ inFlash addr := by
      intro hf
      rw [inFlash_iff] at hf
      omega
    have hin : inRange addr emuSramBase emuSramSize := inSram_iff.2 ⟨hlow, by omega⟩
    obtain ⟨v, hload, hval⟩ := loadSram_eq hsize m.sram hlow hend
    have hbytes : m.bytes addr size = (List.range size).map fun i =>
        m.sram[(addr + UInt32.ofNat i - emuSramBase).toNat]?.getD 0 :=
      List.map_congr_left fun i hi => if_neg (hnot i (List.mem_range.1 hi))
    refine ⟨v &&& sizeMask size, ?_, ?_⟩
    · unfold emuTargetLoad
      rw [if_neg hnot0, if_pos hin, hload]
      rfl
    · rw [and_sizeMask hsize, hval, hbytes]
      refine Nat.mod_eq_of_lt ?_
      simpa using leNat_lt ((List.range size).map fun i =>
        m.sram[(addr + UInt32.ofNat i - emuSramBase).toNat]?.getD 0)

/-- A load of aligned data stays inside of `g_sram`. -/
theorem emuTargetLoad_aligned (hsize : size = 1 ∨ size = 2 ∨ size = 4) (h : size ∣ addr.toNat) :
    ∃ v, emuTargetLoad m addr size = .ok v := by
  unfold emuTargetLoad
  split
  · exact ⟨_, rfl⟩
  split
  · next hin =>
    rw [inSram_iff] at hin
    obtain ⟨v, hv, -⟩ := @loadSram_eq addr size (by omega) m.sram hin.1 (by
      rcases hsize with rfl | rfl | rfl <;> omega)
    exact ⟨v &&& sizeMask size, by rw [hv]; rfl⟩
  repeat' split
  all_goals exact ⟨_, rfl⟩

/-! ## Stores -/

/-- The bytes of a store. -/
theorem EmuStore.bytes_eq (hsize : st.size ≤ 4) :
    (List.range st.size).map st.byte = leBytes st.size st.value.toNat := by
  rw [leBytes_eq_map]
  refine List.map_congr_left fun i hi => ?_
  have hi := List.mem_range.1 hi
  rw [EmuStore.byte, ← UInt8.toNat_inj, UInt32.toNat_toUInt8, UInt32.toNat_shiftRight,
    UInt32.toNat_ofNat', UInt8.toNat_ofNat', Nat.mod_eq_of_lt (a := 8 * i) (by omega),
    Nat.mod_eq_of_lt (a := 8 * i) (by omega),
    Nat.shiftRight_eq_div_pow, Nat.pow_mul]

/-- A store that stays in SRAM writes its bytes. -/
theorem storeSram_eq (hsize : st.size ≤ 4) (hlow : 0x20000000 ≤ st.addr.toNat)
    (hend : st.addr.toNat + st.size ≤ 0x20005000) (sram : Vector UInt8 emuSramSize) :
    ∃ sram', storeSram st sram = .ok sram' ∧ sram'.toList =
      overwrite sram.toList (st.addr.toNat - 0x20000000) (leBytes st.size st.value.toNat) := by
  have hindex : ∀ i < st.size, (st.addr + UInt32.ofNat i - emuSramBase).toNat =
      st.addr.toNat - 0x20000000 + i := by
    intro i hi
    rw [UInt32.toNat_sub, toNat_add_small (by omega), show emuSramBase.toNat = 0x20000000 from rfl]
    omega
  have hsram : emuSramSize = 0x5000 := rfl
  have hlen : sram.toList.length = emuSramSize := Vector.length_toList
  have hloop : ∀ n ≤ st.size, ∃ sram', (List.range n).foldlM (fun sram i =>
      let index := (st.addr + UInt32.ofNat i - emuSramBase).toNat
      if h : index < emuSramSize then Except.ok (sram.set index (st.byte i) h)
      else Except.error (EmuFault.sram index)) sram = .ok sram' ∧ sram'.toList =
        overwrite sram.toList (st.addr.toNat - 0x20000000) ((List.range n).map st.byte) := by
    intro n
    induction n with
    | zero => exact fun _ => ⟨sram, rfl, by rw [List.range_zero, List.map_nil, overwrite_nil]⟩
    | succ n ih =>
      intro hn
      obtain ⟨sram', hrun, hval⟩ := ih (by omega)
      have hin : (st.addr + UInt32.ofNat n - emuSramBase).toNat < emuSramSize := by
        rw [hindex n (by omega)]
        omega
      have hlen' : sram'.toList.length = emuSramSize := Vector.length_toList
      refine ⟨sram'.set _ (st.byte n) hin, ?_, ?_⟩
      · rw [List.range_succ, List.foldlM_append, hrun]
        simp only [bind, Except.bind, List.foldlM_cons, List.foldlM_nil, dif_pos hin]
        rfl
      · rw [Vector.toList_set, set_eq_overwrite _ (by omega), hindex n (by omega), hval,
          List.range_succ, List.map_append, List.map_singleton]
        have happ := @overwrite_append _ sram.toList (st.addr.toNat - 0x20000000)
          ((List.range n).map st.byte)
          [st.byte n]
            (by simp only [List.length_map, List.length_range, List.length_singleton]; omega)
        rwa [List.length_map, List.length_range] at happ
  obtain ⟨sram', hrun, hval⟩ := hloop st.size (Nat.le_refl _)
  exact ⟨sram', hrun, by rw [hval, EmuStore.bytes_eq hsize]⟩

/-- A store of the target that stays in SRAM changes the bytes it writes. -/
theorem emuTargetStore_sram (hsize : st.size ≤ 4) (hlow : 0x20000000 ≤ st.addr.toNat)
    (hpos : 0 < st.size) (hend : st.addr.toNat + st.size ≤ 0x20005000) :
    ∃ sram', emuTargetStore malloc m st = .ok { m with sram := sram' } ∧ sram'.toList =
      overwrite m.sram.toList (st.addr.toNat - 0x20000000) (leBytes st.size st.value.toNat) := by
  obtain ⟨sram', hrun, hval⟩ := storeSram_eq hsize hlow hend m.sram
  have hnot : ¬ inFlash st.addr := by
    rw [inFlash_iff]
    omega
  refine ⟨sram', ?_, hval⟩
  rw [emuTargetStore, if_neg hnot, if_pos (inSram_iff.2 ⟨hlow, by omega⟩), hrun]
  rfl

/-- A store of aligned data stays inside of `g_sram`. -/
theorem emuTargetStore_aligned (hsize : st.size = 1 ∨ st.size = 2 ∨ st.size = 4)
    (h : st.size ∣ st.addr.toNat) : ∃ m', emuTargetStore malloc m st = .ok m' := by
  unfold emuTargetStore
  split
  · split
    · exact ⟨_, rfl⟩
    · exact ⟨_, rfl⟩
  split
  · next hin =>
    rw [inSram_iff] at hin
    obtain ⟨sram', hrun, -⟩ := @storeSram_eq st (by omega) hin.1 (by
      rcases hsize with hw | hw | hw <;> rw [hw] at h ⊢ <;> omega) m.sram
    exact ⟨{ m with sram := sram' }, by rw [hrun]; rfl⟩
  repeat' split
  all_goals exact ⟨_, rfl⟩

end Blackmagic
