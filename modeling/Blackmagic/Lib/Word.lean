import Mathlib

/-!
# 32-bit words as natural numbers

A machine word is a `Nat` below `2 ^ 32`; the operations that can leave that range wrap explicitly.
`alignDown a n` is the C idiom `a & ~(n - 1U)`, written with the mask as the machine computes it; at
a power of two it is the largest multiple of `n` below `a` (`alignDown_eq`), which is the only form
the proofs use. The last section has the masks and shifts of a `UInt32` as arithmetic.
-/

namespace Word

/-- `UINT32_MAX`. -/
def maxU32 : Nat := 2 ^ 32 - 1

/-- 32-bit addition. -/
def add32 (a b : Nat) : Nat := (a + b) % 2 ^ 32

/-- 32-bit subtraction. -/
def sub32 (a b : Nat) : Nat := (a + 2 ^ 32 - b) % 2 ^ 32

/-- `a & ~(n - 1U)`. -/
def alignDown (a n : Nat) : Nat := a &&& (maxU32 - sub32 n 1)

/-- A sum that stays in range does not wrap. -/
theorem add32_of_lt {a b : Nat} (h : a + b < 2 ^ 32) : add32 a b = a + b :=
  Nat.mod_eq_of_lt h

/-- A difference of ordered words does not wrap. -/
theorem sub32_of_le {a b : Nat} (hb : b ≤ a) (ha : a < 2 ^ 32) : sub32 a b = a - b := by
  unfold sub32
  omega

/-- A sum of words is a word. -/
theorem add32_lt (a b : Nat) : add32 a b < 2 ^ 32 := Nat.mod_lt _ (by decide)

/-- Two additions are one. -/
theorem add32_add32 (a n k : Nat) : add32 (add32 a n) k = add32 a (n + k) := by
  unfold add32
  omega

/-- The bits of the mask `~(2 ^ k - 1)`: those from `k` up to the word's top. -/
theorem testBit_mask {k : Nat} (hk : k < 32) (i : Nat) :
    (2 ^ 32 - 2 ^ k).testBit i = (decide (k ≤ i) && decide (i < 32)) := by
  have hsplit : 2 ^ 32 - 2 ^ k = (2 ^ (32 - k) - 1) <<< k := by
    rw [Nat.shiftLeft_eq, Nat.sub_mul, ← Nat.pow_add, Nat.sub_add_cancel hk.le, Nat.one_mul]
  rw [hsplit, Nat.testBit_shiftLeft, Nat.testBit_two_pow_sub_one]
  by_cases h : k ≤ i
  · have : (i - k < 32 - k) ↔ i < 32 := by omega
    simp [h, this]
  · simp [h]

/-- `alignDown` at a power of two rounds down to a multiple. -/
theorem alignDown_eq {a k : Nat} (hk : k < 32) (ha : a < 2 ^ 32) :
    alignDown a (2 ^ k) = a / 2 ^ k * 2 ^ k := by
  have hpow : 2 ^ k < 2 ^ 32 := Nat.pow_lt_pow_right (by decide) hk
  have hpos : 0 < 2 ^ k := Nat.two_pow_pos k
  have hmask : maxU32 - sub32 (2 ^ k) 1 = 2 ^ 32 - 2 ^ k := by
    rw [sub32_of_le hpos hpow]
    unfold maxU32
    omega
  unfold alignDown
  rw [hmask]
  apply Nat.eq_of_testBit_eq
  intro i
  rw [Nat.testBit_and, testBit_mask hk, ← Nat.shiftRight_eq_div_pow, ← Nat.shiftLeft_eq,
    Nat.testBit_shiftLeft, Nat.testBit_shiftRight]
  by_cases h : k ≤ i
  · rw [Nat.add_sub_cancel' h]
    by_cases h32 : i < 32
    · simp [h, h32]
    · have : a.testBit i = false :=
        Nat.testBit_lt_two_pow (lt_of_lt_of_le ha (Nat.pow_le_pow_right (by decide) (by omega)))
      simp [this]
  · simp [h]

/-- A power of two that fits a 32-bit word. -/
def IsPow2 (n : Nat) : Prop := ∃ k, k < 32 ∧ n = 2 ^ k

/-- A power of two is not zero. -/
theorem IsPow2.pos {n : Nat} (h : IsPow2 n) : 0 < n := by
  obtain ⟨k, -, rfl⟩ := h
  exact Nat.two_pow_pos k

/-- A power of two is a word. -/
theorem IsPow2.lt {n : Nat} (h : IsPow2 n) : n < 2 ^ 32 := by
  obtain ⟨k, hk, rfl⟩ := h
  exact Nat.pow_lt_pow_right (by decide) hk

/-- `alignDown` in the form the proofs use: the multiple of `n` at or below `a`. -/
theorem IsPow2.alignDown {n a : Nat} (h : IsPow2 n) (ha : a < 2 ^ 32) :
    alignDown a n = a - a % n := by
  obtain ⟨k, hk, rfl⟩ := h
  rw [alignDown_eq hk ha, Nat.div_mul_self_eq_mod_sub_self]

/-- The word size is a multiple of every power of two that fits it. -/
theorem IsPow2.dvd {n : Nat} (h : IsPow2 n) : n ∣ 2 ^ 32 := by
  obtain ⟨k, hk, rfl⟩ := h
  exact Nat.pow_dvd_pow 2 hk.le

/-! ## Spans cut into units -/

/-- The last unit of a span: rounding its length up to whole units of `w` covers it, and does not
leave a region of whole units that contains it. -/
theorem ceil_units {w len room : Nat} (hw : 0 < w) (hroom : w ∣ room) (h : len ≤ room) :
    len ≤ (len + w - 1) / w * w ∧ (len + w - 1) / w * w ≤ room := by
  obtain ⟨c, rfl⟩ := hroom
  have hdm := Nat.div_add_mod (len + w - 1) w
  have hlt := Nat.mod_lt (len + w - 1) hw
  rw [Nat.mul_comm] at hdm
  refine ⟨by omega, ?_⟩
  have hc : (len + w - 1) / w ≤ c := by
    rw [← Nat.lt_succ_iff, Nat.div_lt_iff_lt_mul hw, Nat.succ_mul, Nat.mul_comm c]
    omega
  rw [Nat.mul_comm w c]
  exact Nat.mul_le_mul_right w hc

/-- The unit that contains an address starts at or after every multiple of the unit below it. -/
theorem le_unit_of_dvd {w base a : Nat} (hb : w ∣ base) (h : base ≤ a) : base ≤ a - a % w := by
  obtain ⟨q, rfl⟩ := hb
  rcases Nat.eq_zero_or_pos w with rfl | hw
  · simp
  have hq : q ≤ a / w := by
    rw [Nat.le_div_iff_mul_le hw, Nat.mul_comm]
    exact h
  have hdm := Nat.div_add_mod a w
  have hmul := Nat.mul_le_mul_left w hq
  omega

/-- The unit that contains an address ends at or before every multiple of the unit above it. -/
theorem unit_end_le_of_dvd {w top a : Nat} (ht : w ∣ top) (h : a < top) :
    a - a % w + w ≤ top := by
  obtain ⟨q, rfl⟩ := ht
  rcases Nat.eq_zero_or_pos w with rfl | hw
  · simp at h
  have hq : a / w < q := by
    rw [Nat.div_lt_iff_lt_mul hw, Nat.mul_comm]
    exact h
  have hdm := Nat.div_add_mod a w
  have hmul := Nat.mul_le_mul_left w hq
  rw [Nat.mul_succ] at hmul
  omega

/-- The unit of an address is the one it lies in. -/
theorem unit_eq {w base a : Nat} (hb : w ∣ base) (h : base ≤ a) (h' : a < base + w) :
    a - a % w = base := by
  obtain ⟨q, rfl⟩ := hb
  have hmod : a % w = a - w * q := by
    rw [show a = w * q + (a - w * q) by omega, Nat.mul_add_mod, Nat.mod_eq_of_lt (by omega)]
    omega
  omega

/-- A unit starts at a multiple of its size. -/
theorem dvd_unit (w a : Nat) : w ∣ a - a % w := Nat.dvd_sub_mod a

/-- The aligned block that contains a word ends inside the address space. -/
theorem IsPow2.block_le {n a : Nat} (h : IsPow2 n) (ha : a < 2 ^ 32) :
    a - a % n + n ≤ 2 ^ 32 :=
  unit_end_le_of_dvd h.dvd ha

/-! ## Masks of machine words -/

/-- A mask of low bits takes a remainder. -/
theorem toNat_and_low (a : UInt32) {k : Nat} (hk : k < 32) :
    (a &&& UInt32.ofNat (2 ^ k - 1)).toNat = a.toNat % 2 ^ k := by
  have hpow : 2 ^ k < 2 ^ 32 := Nat.pow_lt_pow_right (by decide) hk
  rw [UInt32.toNat_and, UInt32.toNat_ofNat', Nat.mod_eq_of_lt (by omega),
    Nat.and_two_pow_sub_one_eq_mod]

/-- A mask of high bits takes what the remainder leaves. -/
theorem toNat_and_high (a : UInt32) {k : Nat} (hk : k < 32) :
    (a &&& UInt32.ofNat (2 ^ 32 - 2 ^ k)).toNat = a.toNat - a.toNat % 2 ^ k := by
  have hpow : 2 ^ k < 2 ^ 32 := Nat.pow_lt_pow_right (by decide) hk
  have hpos : 0 < 2 ^ k := Nat.two_pow_pos k
  rw [UInt32.toNat_and, UInt32.toNat_ofNat', Nat.mod_eq_of_lt (by omega),
    ← IsPow2.alignDown ⟨k, hk, rfl⟩ a.toNat_lt, alignDown, sub32_of_le hpos hpow]
  congr 1
  unfold maxU32
  omega

/-- High bits differ when the quotients do. -/
theorem and_high_ne_zero_iff (a b : UInt32) {k : Nat} (hk : k < 32) :
    (a ^^^ b) &&& UInt32.ofNat (2 ^ 32 - 2 ^ k) ≠ 0 ↔ a.toNat / 2 ^ k ≠ b.toNat / 2 ^ k := by
  have hpos : 0 < 2 ^ k := Nat.two_pow_pos k
  refine not_congr ?_
  rw [← UInt32.toNat_inj, toNat_and_high _ hk, UInt32.toNat_xor, ← Nat.div_mul_self_eq_mod_sub_self,
    ← Nat.shiftRight_eq_div_pow, Nat.shiftRight_xor_distrib, ← Nat.shiftRight_eq_div_pow,
    ← Nat.shiftRight_eq_div_pow, ← Nat.xor_eq_zero_iff]
  simp

/-- Low bits are added. -/
theorem toNat_or_low {a b : UInt32} {k : Nat} (ha : 2 ^ k ∣ a.toNat) (hb : b.toNat < 2 ^ k) :
    (a ||| b).toNat = a.toNat + b.toNat := by
  obtain ⟨c, hc⟩ := ha
  rw [UInt32.toNat_or, hc, Nat.two_pow_add_eq_or_of_lt hb]

/-- A mask of two words. -/
theorem or_and_mask (a b c : UInt32) : (a ||| b) &&& c = (a &&& c) ||| (b &&& c) := by
  rw [← UInt32.toNat_inj]
  simp only [UInt32.toNat_and, UInt32.toNat_or, Nat.and_or_distrib_right]

/-- A word is what is outside of a mask and what is inside of it. -/
theorem and_not_add_and (a m : UInt32) : (a &&& ~~~ m) + (a &&& m) = a := by
  have hzero : (a.toBitVec &&& ~~~ m.toBitVec) &&& (a.toBitVec &&& m.toBitVec) = 0#32 := by
    ext i hi
    simp only [BitVec.getElem_and, BitVec.getElem_not, BitVec.getElem_zero]
    cases m.toBitVec[i]
    · simp
    · simp
  rw [← UInt32.toBitVec_inj, UInt32.toBitVec_add, UInt32.toBitVec_and, UInt32.toBitVec_and,
    UInt32.toBitVec_not, BitVec.add_eq_or_of_and_eq_zero _ _ hzero]
  ext i hi
  simp only [BitVec.getElem_or, BitVec.getElem_and, BitVec.getElem_not]
  cases m.toBitVec[i]
  · simp
  · simp

/-- A single bit is its value or zero. -/
theorem toNat_and_bit (a : UInt32) {k : Nat} (hk : k < 32) :
    (a &&& UInt32.ofNat (2 ^ k)).toNat = 2 ^ k * (a.toNat / 2 ^ k % 2) := by
  have hpow : 2 ^ k < 2 ^ 32 := Nat.pow_lt_pow_right (by decide) hk
  rw [UInt32.toNat_and, UInt32.toNat_ofNat', Nat.mod_eq_of_lt hpow, Nat.and_two_pow,
    Nat.testBit_eq_decide_div_mod_eq, Nat.mul_comm]
  rcases Nat.mod_two_eq_zero_or_one (a.toNat / 2 ^ k) with h | h
  · simp [h]
  · simp [h]

/-- Bits that are clear under a mask are clear under a part of it. -/
theorem and_eq_zero_of_and {a b c : UInt32} (h : a &&& b = 0) (hc : b &&& c = c) : a &&& c = 0 := by
  rw [← hc, ← UInt32.and_assoc, h, UInt32.zero_and]

/-- A sum without a carry. -/
theorem toNat_add_small {a : UInt32} {i : Nat} (h : a.toNat + i < 2 ^ 32) :
    (a + UInt32.ofNat i).toNat = a.toNat + i := by
  rw [UInt32.toNat_add, UInt32.toNat_ofNat']
  omega

/-- A summand is taken off again, whatever has wrapped. -/
theorem ofNat_add_sub (a b : Nat) : UInt32.ofNat (a + b) - UInt32.ofNat a = UInt32.ofNat b := by
  rw [UInt32.ofNat_add, UInt32.add_comm, UInt32.add_sub_cancel]

/-- A field that was shifted up is shifted down again. -/
theorem toNat_shiftRight_shiftLeft {v : UInt32} {shift width : Nat} (hv : v.toNat < 2 ^ width)
    (h : shift + width ≤ 32) (hw : 0 < width) :
    ((v <<< UInt32.ofNat shift) >>> UInt32.ofNat shift).toNat = v.toNat := by
  have hs : shift < 32 := by omega
  have hs' : (UInt32.ofNat shift).toNat = shift := by
    rw [UInt32.toNat_ofNat']
    omega
  rw [UInt32.toNat_shiftRight, UInt32.toNat_shiftLeft, hs', Nat.mod_eq_of_lt hs,
    Nat.shiftLeft_eq, Nat.shiftRight_eq_div_pow]
  have hlt : v.toNat * 2 ^ shift < 2 ^ 32 := by
    calc v.toNat * 2 ^ shift < 2 ^ width * 2 ^ shift :=
      Nat.mul_lt_mul_of_pos_right hv (Nat.two_pow_pos _)
      _ = 2 ^ (width + shift) := (Nat.pow_add ..).symm
      _ ≤ 2 ^ 32 := Nat.pow_le_pow_right (by decide) (by omega)
  rw [Nat.mod_eq_of_lt hlt, Nat.mul_div_cancel _ (Nat.two_pow_pos _)]

end Word
