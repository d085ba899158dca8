import Blackmagic.Cortex.Breakwatch

/-!
# What a watchpoint matches

A comparator of the DWT matches the addresses that agree with its own in all bits from `DWT_MASK`
on, a block of a power of two at a multiple of its size. `cortexm_breakwatch_set` takes the mask
from the size alone, and the address as it is: `watches_iff` says which ranges lie in one such
block.
-/

namespace Blackmagic

/-- `__builtin_clz`, of a value that is not zero. -/
def builtinClz (value : UInt32) : Nat := 31 - Nat.log2 value.toNat

/-- `ulog2`. -/
def ulog2 (value : UInt32) : UInt8 :=
  if value = 0 then 255 else UInt8.ofNat 32 - UInt8.ofNat (builtinClz value)

/-- `ulog2` is one more than the logarithm. -/
theorem toNat_ulog2 {value : UInt32} (h : value ≠ 0) :
    (ulog2 value).toNat = Nat.log2 value.toNat + 1 := by
  have hne : value.toNat ≠ 0 := fun h0 => h (UInt32.toNat_inj.1 h0)
  have hlt : Nat.log2 value.toNat < 32 := (Nat.log2_lt hne).2 value.toNat_lt
  rw [ulog2, if_neg h, builtinClz, UInt8.toNat_sub, UInt8.toNat_ofNat', UInt8.toNat_ofNat']
  omega

/-- `cortexm_dwt_mask` in the words of the source. -/
theorem cortexmDwtMask_ulog2 (len : UInt32) :
    cortexmDwtMask len.toNat = if len < 2 then 0
      else UInt32.ofNat (min (ulog2 (len - 1)).toNat 31) := by
  by_cases hlen : len < 2
  · rw [if_pos hlen, cortexmDwtMask, if_pos (show len.toNat < 2 from UInt32.lt_iff_toNat_lt.1 hlen)]
  · have hge : 2 ≤ len.toNat := Nat.le_of_not_lt fun h => hlen (UInt32.lt_iff_toNat_lt.2 h)
    have hsub : (len - 1).toNat = len.toNat - 1 :=
      UInt32.toNat_sub_of_le _ _ (UInt32.le_iff_toNat_le.2 (Nat.le_of_succ_le hge))
    have hne : len - 1 ≠ 0 := fun h => absurd (congrArg UInt32.toNat h) (by rw [hsub]; simp; omega)
    rw [if_neg hlen, cortexmDwtMask, if_neg (Nat.not_lt.2 hge), toNat_ulog2 hne, hsub]

/-- A comparator matches an address. -/
def DwtMatches (s : CortexBw) (slot : Nat) (x : UInt32) : Prop :=
  x >>> s.dwtMask slot = s.dwtComp slot >>> s.dwtMask slot

instance (s : CortexBw) (slot : Nat) (x : UInt32) : Decidable (DwtMatches s slot x) :=
  inferInstanceAs (Decidable (_ = _))

/-- A watchpoint that is set matches every byte that was asked for, and nothing outside of the block
of the smallest power of two that has so many bytes. -/
structure Watches (s : CortexBw) (bw : Breakwatch) : Prop where
  covers : ∀ i < bw.size, DwtMatches s bw.slot (bw.addr + UInt32.ofNat i)
  tight : ∀ x k, bw.size ≤ 2 ^ k → DwtMatches s bw.slot x → x.toNat / 2 ^ k = bw.addr.toNat / 2 ^ k

section
variable {s s' : CortexBw} {bw bw' : Breakwatch} {addr : UInt32} {m size : Nat}

/-- The mask is the number of bits that the offsets of a range need. -/
theorem cortexmDwtMask_eq (hsize : 1 ≤ size) :
    cortexmDwtMask size = UInt32.ofNat (min (Nat.clog 2 size) 31) := by
  rw [cortexmDwtMask]
  split
  · rw [show size = 1 by omega, Nat.clog_one_right]
    rfl
  · have hclog : Nat.log2 (size - 1) + 1 = Nat.clog 2 size := by
      refine eq_of_forall_ge_iff fun c => ?_
      rw [Nat.clog_le_iff_le_pow (by decide), Nat.succ_le_iff, Nat.log2_lt (by omega)]
      omega
    rw [hclog]

/-- Two addresses agree from a bit on exactly when they are in the same block. -/
theorem shiftRight_eq_iff {a b : UInt32} (hm : m ≤ 31) :
    a >>> UInt32.ofNat m = b >>> UInt32.ofNat m ↔ a.toNat / 2 ^ m = b.toNat / 2 ^ m := by
  have hshift : ∀ c : UInt32, (c >>> UInt32.ofNat m).toNat = c.toNat / 2 ^ m := by
    intro c
    rw [UInt32.toNat_shiftRight, UInt32.toNat_ofNat', Nat.mod_mod_of_dvd m (by decide),
      Nat.mod_eq_of_lt (by omega), Nat.shiftRight_eq_div_pow]
  rw [← UInt32.toNat_inj, hshift, hshift]

/-- The bytes of a range lie in one block exactly when the range ends before the block does. -/
theorem block_iff (hm : m ≤ 31) :
    (∀ i < size, (addr + UInt32.ofNat i).toNat / 2 ^ m = addr.toNat / 2 ^ m) ↔
      addr.toNat % 2 ^ m + size ≤ 2 ^ m := by
  have hpos := Nat.two_pow_pos m
  have hdm := Nat.div_add_mod addr.toNat (2 ^ m)
  have hmod := Nat.mod_lt addr.toNat hpos
  -- the blocks of the address space
  obtain ⟨blocks, hblocks, htwo⟩ : ∃ blocks, 2 ^ 32 = 2 ^ m * blocks ∧ 2 ≤ blocks :=
    ⟨2 ^ (32 - m), by rw [← Nat.pow_add]; congr 1; omega, by
      have := Nat.pow_le_pow_right (show 0 < 2 by decide) (show 1 ≤ 32 - m by omega)
      omega⟩
  have hblock : addr.toNat / 2 ^ m < blocks := by
    rw [Nat.div_lt_iff_lt_mul hpos, Nat.mul_comm, ← hblocks]
    exact addr.toNat_lt
  have hadd : ∀ i, (addr + UInt32.ofNat i).toNat = (addr.toNat + i) % 2 ^ 32 := by
    intro i
    rw [UInt32.toNat_add, UInt32.toNat_ofNat', Nat.add_mod_mod]
  constructor
  · intro h
    by_contra hover
    -- the first byte of the next block, which is the first of all behind the last one
    have hnext := h (2 ^ m - addr.toNat % 2 ^ m) (by omega)
    have hsum : addr.toNat + (2 ^ m - addr.toNat % 2 ^ m) = 2 ^ m * (addr.toNat / 2 ^ m + 1) := by
      rw [Nat.mul_succ]
      omega
    rw [hadd, hsum, hblocks, Nat.mul_mod_mul_left, Nat.mul_div_cancel_left _ hpos] at hnext
    rcases Nat.lt_or_ge (addr.toNat / 2 ^ m + 1) blocks with hlt | hge
    · rw [Nat.mod_eq_of_lt hlt] at hnext
      omega
    · rw [show addr.toNat / 2 ^ m + 1 = blocks by omega, Nat.mod_self] at hnext
      omega
  · intro hend i hi
    have hsum : addr.toNat + i = addr.toNat % 2 ^ m + i + 2 ^ m * (addr.toNat / 2 ^ m) := by omega
    have hlt : addr.toNat + i < 2 ^ 32 := by
      have := Nat.mul_le_mul_left (2 ^ m) (Nat.succ_le_of_lt hblock)
      rw [Nat.mul_succ] at this
      omega
    rw [hadd, Nat.mod_eq_of_lt hlt, hsum, Nat.add_mul_div_left _ _ hpos,
      Nat.div_eq_of_lt (by omega), Nat.zero_add]

/-- What a set leaves in the comparator. -/
theorem cortexmBreakwatchSet_programmed (htype : bw.type.isWatch = true)
    (hset : cortexmBreakwatchSet s bw = (0, bw', s')) :
    bw'.addr = bw.addr ∧ bw'.size = bw.size ∧ s'.dwtComp bw'.slot = bw.addr ∧
      s'.dwtMask bw'.slot = cortexmDwtMask bw.size := by
  rw [cortexmBreakwatchSet_watch htype, setWatchpoint] at hset
  cases hfree : firstFree s.watchpointsMask s.watchpointsAvailable with
  | none =>
    rw [hfree] at hset
    exact absurd (congrArg Prod.fst hset) (show ¬ (-1 : Int) = 0 by decide)
  | some i =>
    rw [hfree] at hset
    cases hset
    exact ⟨rfl, rfl, Function.update_self .., Function.update_self ..⟩

/-- A watchpoint matches what was asked for exactly when the range lies in one block of the smallest
power of two that is as long, and is no longer than the largest block there is. -/
theorem watches_iff (htype : bw.type.isWatch = true) (hsize : 1 ≤ bw.size)
    (hset : cortexmBreakwatchSet s bw = (0, bw', s')) :
    Watches s' bw' ↔
      bw.size ≤ 2 ^ 31 ∧ bw.addr.toNat % 2 ^ Nat.clog 2 bw.size + bw.size ≤
        2 ^ Nat.clog 2 bw.size := by
  obtain ⟨haddr, hsize', hcomp, hmask⟩ := cortexmBreakwatchSet_programmed htype hset
  rw [cortexmDwtMask_eq hsize] at hmask
  have hmatches : ∀ x, DwtMatches s' bw'.slot x ↔
      x.toNat / 2 ^ min (Nat.clog 2 bw.size) 31 = bw.addr.toNat / 2 ^ min (Nat.clog 2 bw.size)
        31 := by
    intro x
    rw [DwtMatches, hcomp, hmask, shiftRight_eq_iff (Nat.min_le_right _ _)]
  have hcovers : (∀ i < bw'.size, DwtMatches s' bw'.slot (bw'.addr + UInt32.ofNat i)) ↔
      bw.addr.toNat % 2 ^ min (Nat.clog 2 bw.size) 31 + bw.size ≤
        2 ^ min (Nat.clog 2 bw.size) 31 := by
    simp only [hmatches, haddr, hsize']
    exact block_iff (Nat.min_le_right _ _)
  have htight : ∀ x k, bw'.size ≤ 2 ^ k → DwtMatches s' bw'.slot x →
      x.toNat / 2 ^ k = bw'.addr.toNat / 2 ^ k := by
    intro x k hk hx
    have hle : min (Nat.clog 2 bw.size) 31 ≤ k :=
      (Nat.min_le_left _ _).trans ((Nat.clog_le_iff_le_pow (by decide)).2 (hsize' ▸ hk))
    obtain ⟨d, hd⟩ := Nat.exists_eq_add_of_le hle
    rw [haddr, hd, Nat.pow_add, ← Nat.div_div_eq_div_mul, ← Nat.div_div_eq_div_mul,
      (hmatches x).1 hx]
  have hwatches : Watches s' bw' ↔
      bw.addr.toNat % 2 ^ min (Nat.clog 2 bw.size) 31 + bw.size ≤ 2 ^ min (Nat.clog 2 bw.size) 31 :=
    ⟨fun h => hcovers.1 h.covers, fun h => ⟨hcovers.2 h, htight⟩⟩
  rw [hwatches]
  constructor
  · intro h
    have hle : bw.size ≤ 2 ^ 31 :=
      (Nat.le_trans (Nat.le_add_left _ _) h).trans
        (Nat.pow_le_pow_right (by decide) (Nat.min_le_right _ _))
    rw [Nat.min_eq_left ((Nat.clog_le_iff_le_pow (by decide)).2 hle)] at h
    exact ⟨hle, h⟩
  · rintro ⟨hle, h⟩
    rw [Nat.min_eq_left ((Nat.clog_le_iff_le_pow (by decide)).2 hle)]
    exact h

end

/-- A target with four comparators and nothing set. -/
def fourComparators : CortexBw := cortexmAttach (CortexBw.probed false 0 0 0 0) 0x60 0x40000000

/-- A word at a multiple of four. -/
theorem watches_word :
    Watches (cortexmBreakwatchSet fourComparators ⟨.watchWrite, 0x20000004, 4, 0⟩).2.2
      ⟨.watchWrite, 0x20000004, 4, 0⟩ :=
  (@watches_iff fourComparators _ ⟨.watchWrite, 0x20000004, 4, 0⟩ _ rfl (by decide) rfl).2
    ⟨by decide, by decide⟩

/-- A word that is not at a multiple of four: its second half is not watched. -/
theorem not_watches_halves :
    (cortexmBreakwatchSet fourComparators ⟨.watchWrite, 0x20000002, 4, 0⟩).1 = 0 ∧
      ¬ Watches (cortexmBreakwatchSet fourComparators ⟨.watchWrite, 0x20000002, 4, 0⟩).2.2
        ⟨.watchWrite, 0x20000002, 4, 0⟩ := by
  refine ⟨by decide, fun h => ?_⟩
  have hthird := h.covers 2 (by decide)
  exact absurd hthird (by decide)

end Blackmagic
