import Mathlib

/-!
# Cyclic redundancy checks, most significant bit first

A remainder of `w` bits takes the bits of a message one by one (`feed`); `remainder` is what a whole
message leaves. Implementations take several bits at once: they put them on top of the remainder and
then step without looking at the message (`steps`). `steps_xor` says what this does, and both ways
of going faster are cases of it: `feed_steps`, a word of bits at a time, and `feed_table`, a table
that is indexed by the top of the remainder.
-/

namespace Crc

variable {w : Nat}

/-- One bit of the message. -/
def feed (poly c : BitVec w) (bit : Bool) : BitVec w :=
  if c.msb ^^ bit then c <<< 1 ^^^ poly else c <<< 1

/-- What a message leaves. -/
def remainder (poly init : BitVec w) (bits : List Bool) : BitVec w := bits.foldl (feed poly) init

/-- Steps without a message. -/
def steps (poly : BitVec w) : Nat → BitVec w → BitVec w
  | 0, c => c
  | n + 1, c => steps poly n (feed poly c false)

/-- The top bits of a word, the most significant one first. -/
def msbs (x : BitVec w) (n : Nat) : List Bool := (List.range n).map x.getMsbD

section
variable {poly : BitVec w}

@[simp] theorem msbs_zero (x : BitVec w) : msbs x 0 = [] := rfl

/-- The first bit is the highest one. -/
theorem msbs_succ (x : BitVec w) (n : Nat) : msbs x (n + 1) = x.msb :: msbs (x <<< 1) n := by
  rw [msbs, List.range_succ_eq_map, List.map_cons, List.map_map, msbs]
  refine congrArg₂ List.cons rfl (List.map_congr_left fun i hi => ?_)
  rw [Function.comp_apply, BitVec.getMsbD_shiftLeft]

/-- The first bit can be added to the register instead of being fed. -/
theorem feed_xor (c x : BitVec w) : feed poly (c ^^^ x) false = feed poly c x.msb ^^^ x <<< 1 := by
  rw [feed, feed, BitVec.msb_xor, Bool.xor_false, BitVec.shiftLeft_xor_distrib]
  split
  · rw [BitVec.xor_assoc, BitVec.xor_assoc, BitVec.xor_comm poly]
  · rfl

/-- Steps of a remainder with a word on top of it: the top bits of the word are fed, the others move
up. -/
theorem steps_xor (n : Nat) (c x : BitVec w) :
    steps poly n (c ^^^ x) = remainder poly c (msbs x n) ^^^ x <<< n := by
  induction n generalizing c x with
  | zero => simp [steps, remainder]
  | succ n ih =>
    rw [steps, feed_xor, ih, msbs_succ, remainder, remainder,
      List.foldl_cons, ← BitVec.shiftLeft_add, Nat.add_comm]

/-- The bits of a register that begins with zeros. -/
theorem msbs_eq_replicate {x : BitVec w} {n : Nat} (h : ∀ i < n, x.getMsbD i = false) :
    msbs x n = List.replicate n false :=
  List.eq_replicate_iff.2 ⟨by rw [msbs, List.length_map, List.length_range], fun b hb => by
    obtain ⟨i, hi, rfl⟩ := List.mem_map.1 hb
    exact h i (List.mem_range.1 hi)⟩

/-- A message can be fed in two parts. -/
theorem remainder_append (c : BitVec w) (l m : List Bool) :
    remainder poly c (l ++ m) = remainder poly (remainder poly c l) m := List.foldl_append

/-- Steps of a remainder are its remainder on zeros. -/
theorem remainder_zeros (n : Nat) (c : BitVec w) :
    remainder poly c (List.replicate n false) = steps poly n c := by
  induction n generalizing c with
  | zero => rfl
  | succ n ih => exact ih _

/-- A word on top of the remainder. -/
def atTop {k : Nat} (b : BitVec k) : BitVec w := b.setWidth w <<< (w - k)

/-- The bits at the top are the bits. -/
theorem getMsbD_atTop {k : Nat} (hk : k ≤ w) (b : BitVec k) (i : Nat) :
    (atTop b : BitVec w).getMsbD i = b.getMsbD i := by
  rw [atTop, BitVec.getMsbD_shiftLeft, BitVec.getMsbD_setWidth, Nat.add_assoc,
    Nat.sub_add_cancel hk, Nat.add_sub_cancel, decide_eq_true (Nat.le_add_left _ _), Bool.true_and]

/-- The first bits of a register are those at its top. -/
theorem msbs_atTop {k : Nat} (hk : k ≤ w) (b : BitVec k) (n : Nat) :
    msbs (atTop b : BitVec w) n = msbs b n :=
  List.map_congr_left fun i _ => getMsbD_atTop hk b i

/-- Shifting out what is at the top leaves nothing. -/
theorem atTop_shiftLeft {k : Nat} (hk : k ≤ w) (b : BitVec k) :
    (atTop b : BitVec w) <<< k = 0#w := by
  rw [atTop, ← BitVec.shiftLeft_add, Nat.sub_add_cancel hk,
    BitVec.shiftLeft_eq_zero (Nat.le_refl w)]

/-- A word of the message at a time. -/
theorem feed_steps {k : Nat} (hk : k ≤ w) (c : BitVec w) (b : BitVec k) :
    steps poly k (c ^^^ atTop b) = remainder poly c (msbs b k) := by
  rw [steps_xor, atTop_shiftLeft hk, msbs_atTop hk, BitVec.xor_zero]

/-- A word of the message at a time, by the steps of what is on top of the remainder alone. -/
theorem feed_table {k : Nat} (hk : k ≤ w) (c : BitVec w) (b : BitVec k) :
    remainder poly c (msbs b k) =
      c <<< k ^^^ steps poly k (atTop ((c >>> (w - k)).setWidth k ^^^ b)) := by
  -- the rest of the remainder has nothing on top, so it only moves up
  obtain ⟨top, htop⟩ : ∃ top : BitVec w, top = atTop ((c >>> (w - k)).setWidth k ^^^ b) := ⟨_, rfl⟩
  have hrest : ∀ i < k, (c ^^^ atTop b ^^^ top).getMsbD i = false := by
    intro i hi
    have hplace : i + w - k = i + (w - k) := Nat.add_sub_assoc hk i
    rw [htop, BitVec.getMsbD_xor, BitVec.getMsbD_xor, getMsbD_atTop hk, getMsbD_atTop hk,
      BitVec.getMsbD_xor, BitVec.getMsbD_setWidth, BitVec.getMsbD_ushiftRight, hplace]
    simp [show k - w ≤ i by omega, show i + (w - k) < w by omega]
  have hmove : (c ^^^ atTop b ^^^ top) <<< k = c <<< k := by
    rw [htop, BitVec.shiftLeft_xor_distrib, BitVec.shiftLeft_xor_distrib, atTop_shiftLeft hk,
      atTop_shiftLeft hk, BitVec.xor_zero, BitVec.xor_zero]
  calc remainder poly c (msbs b k) = steps poly k (c ^^^ atTop b) := (feed_steps hk c b).symm
    _ = steps poly k (top ^^^ (c ^^^ atTop b ^^^ top)) := by
      rw [BitVec.xor_comm top, BitVec.xor_assoc (c ^^^ atTop b), BitVec.xor_self, BitVec.xor_zero]
    _ = steps poly k top ^^^ c <<< k := by
      rw [steps_xor, msbs_eq_replicate hrest, remainder_zeros, hmove]
    _ = c <<< k ^^^ steps poly k top := BitVec.xor_comm _ _
    _ = _ := by rw [htop]

/-- The bits of two vectors, one behind the other. -/
theorem msbs_append {m n : Nat} (x : BitVec m) (y : BitVec n) :
    msbs (x ++ y) (m + n) = msbs x m ++ msbs y n := by
  rw [msbs, List.range_add, List.map_append, List.map_map, msbs, msbs]
  refine congrArg₂ _ (List.map_congr_left fun i hi => ?_) (List.map_congr_left fun i _ => ?_)
  · rw [BitVec.getMsbD_append, if_neg (Nat.not_le.2 (List.mem_range.1 hi))]
  · rw [Function.comp_apply, BitVec.getMsbD_append, if_pos (Nat.le_add_right m i),
      Nat.add_sub_cancel_left]

end

end Crc
