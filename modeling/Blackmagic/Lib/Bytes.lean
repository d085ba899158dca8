import Mathlib

/-!
# Buffers of bytes

`overwrite b i data` is what `memcpy(b + i, data, |data|)` leaves in a buffer `b` that is large
enough. It is read back position by position (`getElem?_overwrite`): the new data inside the
written range, the old contents outside it. `slice` cuts a field out of a buffer, `leNat` reads it
as a little-endian number, and `chunks` are the sizes of the pieces in which a loop with a bounded
buffer goes through a length.
-/

namespace Bytes

variable {α : Type}

/-- The buffer `b` with the elements from `i` on replaced by `data`. -/
def overwrite (b : List α) (i : Nat) (data : List α) : List α :=
  b.take i ++ data ++ b.drop (i + data.length)

/-- Data that fits leaves the length as it is. -/
theorem length_overwrite {b : List α} {i : Nat} {data : List α}
    (h : i + data.length ≤ b.length) : (overwrite b i data).length = b.length := by
  simp only [overwrite, List.length_append, List.length_take, List.length_drop]
  omega

/-- A position of an overwritten buffer holds the new data in the written range and the old
contents elsewhere. -/
theorem getElem?_overwrite {b : List α} {i : Nat} {data : List α}
    (h : i + data.length ≤ b.length) (p : Nat) :
    (overwrite b i data)[p]? =
      if i ≤ p ∧ p < i + data.length then data[p - i]? else b[p]? := by
  have htake : (b.take i).length = i := by
    rw [List.length_take]
    omega
  unfold overwrite
  rcases Nat.lt_or_ge p i with hlt | hge
  · rw [if_neg (by omega), List.append_assoc, List.getElem?_append_left (by omega),
      List.getElem?_take_of_lt hlt]
  · rcases Nat.lt_or_ge p (i + data.length) with hin | hout
    · rw [if_pos ⟨hge, hin⟩, List.getElem?_append_left (by simp; omega),
        List.getElem?_append_right (by omega), htake]
    · rw [if_neg (by omega), List.getElem?_append_right (by simp; omega), List.getElem?_drop,
        List.length_append, htake]
      congr 1
      omega

/-- No data changes nothing. -/
theorem overwrite_nil (b : List α) (i : Nat) : overwrite b i [] = b := by
  simp [overwrite]

/-- Setting one byte is overwriting it. -/
theorem set_eq_overwrite {b : List α} {i : Nat} (c : α) (h : i < b.length) :
    b.set i c = overwrite b i [c] := by
  rw [overwrite, List.set_eq_take_append_cons_drop, if_pos h]
  simp

/-- Data that is written piece after piece. -/
theorem overwrite_append {b : List α} {i : Nat} (d₁ d₂ : List α)
    (h : i + d₁.length + d₂.length ≤ b.length) :
    overwrite (overwrite b i d₁) (i + d₁.length) d₂ = overwrite b i (d₁ ++ d₂) := by
  refine List.ext_getElem? fun p => ?_
  have hlen := @length_overwrite _ b i d₁ (by omega)
  rw [getElem?_overwrite (by omega), getElem?_overwrite (by omega),
    getElem?_overwrite (by rw [List.length_append]; omega), List.length_append]
  by_cases h₁ : i ≤ p ∧ p < i + d₁.length
  · rw [if_neg (by omega), if_pos h₁, if_pos (by omega), List.getElem?_append_left (by omega)]
  · by_cases h₂ : i + d₁.length ≤ p ∧ p < i + d₁.length + d₂.length
    · rw [if_pos h₂, if_pos (by omega), List.getElem?_append_right (by omega)]
      congr 1
      omega
    · rw [if_neg h₂, if_neg h₁, if_neg (by omega)]

/-- An element of the right list of a pointwise relation has its partner at the same position. -/
theorem getElem?_of_forall₂ {β : Type} {R : α → β → Prop} {l : List α} {m : List β}
    (h : List.Forall₂ R l m) : ∀ {j : Nat} {b : β}, m[j]? = some b →
      ∃ a, l[j]? = some a ∧ R a b := by
  induction h with
  | nil => simp
  | cons hab _ ih =>
    intro j b hj
    cases j with
    | zero =>
      cases hj
      exact ⟨_, rfl, hab⟩
    | succ j => exact ih hj

/-- `len` elements of a buffer from `off`. -/
def slice (b : List α) (off len : Nat) : List α := (b.drop off).take len

/-- Two slices, one behind the other. -/
theorem slice_add (b : List α) (pos n k : Nat) :
    slice b pos n ++ slice b (pos + n) k = slice b pos (n + k) := by
  rw [slice, slice, slice, List.take_add, List.drop_drop]

/-- A slice of what is there has its length. -/
theorem length_slice {b : List α} {off len : Nat} (h : off + len ≤ b.length) :
    (slice b off len).length = len := by
  rw [slice, List.length_take, List.length_drop]
  omega

/-- A little-endian number. -/
def leNat (b : List UInt8) : Nat := b.foldr (fun c n => c.toNat + 256 * n) 0

/-- The number that bytes make fits into them. -/
theorem leNat_lt (b : List UInt8) : leNat b < 256 ^ b.length := by
  induction b with
  | nil => decide
  | cons c b ih =>
    have hc := c.toNat_lt
    rw [leNat, List.foldr_cons, List.length_cons, Nat.pow_succ]
    change c.toNat + 256 * leNat b < _
    omega

/-- The number that a slice makes fits into its length. -/
theorem leNat_slice_lt (b : List UInt8) (off len : Nat) : leNat (slice b off len) < 256 ^ len := by
  refine Nat.lt_of_lt_of_le (leNat_lt _) (Nat.pow_le_pow_right (by decide) ?_)
  rw [slice, List.length_take]
  exact Nat.min_le_left _ _

@[simp] theorem leNat_cons (c : UInt8) (b : List UInt8) :
    leNat (c :: b) = c.toNat + 256 * leNat b := rfl

/-- The bytes of a number, `w` of them. -/
def leBytes : Nat → Nat → List UInt8
  | 0, _ => []
  | w + 1, n => UInt8.ofNat n :: leBytes w (n / 256)

@[simp] theorem length_leBytes (w n : Nat) : (leBytes w n).length = w := by
  induction w generalizing n with
  | zero => rfl
  | succ w ih => rw [leBytes, List.length_cons, ih]

/-- The bytes of a number, one by one. -/
theorem leBytes_eq_map (w n : Nat) :
    leBytes w n = (List.range w).map fun i => UInt8.ofNat (n / 256 ^ i) := by
  induction w generalizing n with
  | zero => rfl
  | succ w ih =>
    rw [leBytes, ih, List.range_succ_eq_map, List.map_cons, List.map_map, Nat.pow_zero, Nat.div_one]
    congr 1
    refine List.map_congr_left fun i _ => ?_
    rw [Nat.div_div_eq_div_mul, Function.comp, Nat.pow_succ, Nat.mul_comm]

/-- A number that fits is read back from its bytes. -/
theorem leNat_leBytes {w n : Nat} (h : n < 256 ^ w) : leNat (leBytes w n) = n := by
  induction w generalizing n with
  | zero =>
    rw [Nat.pow_zero, Nat.lt_one_iff] at h
    rw [h]
    rfl
  | succ w ih =>
    have hdiv : n / 256 < 256 ^ w := by
      rw [Nat.div_lt_iff_lt_mul (by decide), ← Nat.pow_succ]
      exact h
    rw [leBytes, leNat_cons, ih hdiv, UInt8.toNat_ofNat']
    omega

/-- The bytes of a number that was read from bytes. -/
theorem leBytes_leNat (b : List UInt8) : leBytes b.length (leNat b) = b := by
  induction b with
  | nil => rfl
  | cons c b ih =>
    have hc := c.toNat_lt
    rw [List.length_cons, leBytes, leNat_cons]
    congr 1
    · rw [← UInt8.toNat_inj, UInt8.toNat_ofNat']
      omega
    · rw [Nat.add_mul_div_left _ _ (by decide), Nat.div_eq_of_lt (by omega), Nat.zero_add, ih]

/-- The last byte is the highest. -/
theorem leNat_concat (l : List UInt8) (b : UInt8) :
    leNat (l ++ [b]) = leNat l + 256 ^ l.length * b.toNat := by
  induction l with
  | nil => simp [leNat]
  | cons c l ih =>
    rw [List.cons_append, leNat_cons, leNat_cons, ih, List.length_cons, Nat.pow_succ]
    ring

/-- A word put together from its bytes. -/
theorem foldl_or_bytes (f : Nat → UInt8) {n : Nat} (hn : n ≤ 4) :
    ((List.range n).foldl (fun v i => v ||| (f i).toUInt32 <<< UInt32.ofNat (8 * i)) 0).toNat =
      leNat ((List.range n).map f) := by
  induction n with
  | zero => rfl
  | succ n ih =>
    have hlt := leNat_lt ((List.range n).map f)
    rw [List.length_map, List.length_range, show 256 = 2 ^ 8 from rfl, ← Nat.pow_mul] at hlt
    have hb := (f n).toNat_lt
    have hshift : ((f n).toUInt32 <<< UInt32.ofNat (8 * n)).toNat = 2 ^ (8 * n) * (f n).toNat := by
      have hle : 2 ^ (8 * n) * (f n).toNat < 2 ^ 32 := by
        calc 2 ^ (8 * n) * (f n).toNat < 2 ^ (8 * n) * 2 ^ 8 :=
              Nat.mul_lt_mul_of_pos_left hb (Nat.two_pow_pos _)
          _ = 2 ^ (8 * n + 8) := (Nat.pow_add ..).symm
          _ ≤ 2 ^ 32 := Nat.pow_le_pow_right (by decide) (by omega)
      rw [UInt32.toNat_shiftLeft, UInt32.toNat_ofNat', Nat.mod_eq_of_lt (a := 8 * n) (by omega),
        Nat.mod_eq_of_lt (a := 8 * n) (by omega), Nat.shiftLeft_eq, UInt8.toNat_toUInt32,
        Nat.mul_comm,
        Nat.mod_eq_of_lt hle]
    rw [List.range_succ, List.foldl_append, List.foldl_cons, List.foldl_nil, List.map_append,
      List.map_singleton, leNat_concat, UInt32.toNat_or, ih (by omega), hshift,
      Nat.lor_comm, ← Nat.two_pow_add_eq_or_of_lt hlt,
      List.length_map, List.length_range, show 256 = 2 ^ 8 from rfl, ← Nat.pow_mul, Nat.add_comm]

/-- What stands up to the end of the data. -/
theorem take_overwrite {b : List α} {i : Nat} (data : List α) (h : i ≤ b.length) :
    (overwrite b i data).take (i + data.length) = b.take i ++ data :=
  List.take_left' (by simp [h])

/-- The data is read back. -/
theorem slice_overwrite {b : List α} {i off len : Nat} {data : List α} (h : i ≤ b.length)
    (hlen : off + len ≤ data.length) :
    slice (overwrite b i data) (i + off) len = slice data off len := by
  refine List.ext_getElem? fun j => ?_
  by_cases hj : j < len
  · simp only [slice, List.getElem?_take_of_lt hj, List.getElem?_drop, overwrite]
    rw [List.append_assoc, List.getElem?_append_right (by simp; omega), List.length_take,
      Nat.min_eq_left h, List.getElem?_append_left (by omega)]
    congr 1
    omega
  · simp [slice, hj]

/-- The four bytes of a word. -/
def wordBytes (n : Nat) : List UInt8 :=
  [UInt8.ofNat n, UInt8.ofNat (n / 2 ^ 8), UInt8.ofNat (n / 2 ^ 16), UInt8.ofNat (n / 2 ^ 24)]

/-- A word is read back from its bytes. -/
theorem leNat_wordBytes {n : Nat} (h : n < 2 ^ 32) : leNat (wordBytes n) = n := by
  simp only [leNat, wordBytes, List.foldr_cons, List.foldr_nil, UInt8.toNat_ofNat']
  omega

/-- The pieces of a length: `size` each, and the rest. -/
def chunks (size len : Nat) : List Nat :=
  List.replicate (len / size) size ++ if len % size = 0 then [] else [len % size]

/-- Each piece has at least one element and at most `size`. -/
theorem mem_chunks {size len n : Nat} (hsize : 0 < size) (h : n ∈ chunks size len) :
    0 < n ∧ n ≤ size := by
  unfold chunks at h
  rcases List.mem_append.1 h with h | h
  · rw [(List.mem_replicate.1 h).2]
    exact ⟨hsize, Nat.le_refl _⟩
  · split at h
    · cases h
    · next hne =>
      rw [List.mem_singleton.1 h]
      exact ⟨Nat.pos_of_ne_zero hne, (Nat.mod_lt _ hsize).le⟩

/-- The pieces make up the length. -/
theorem sum_chunks (size len : Nat) : (chunks size len).sum = len := by
  have hdm := Nat.div_add_mod len size
  unfold chunks
  rw [List.sum_append_nat, List.sum_replicate_nat, Nat.mul_comm]
  split
  · next h => rw [List.sum_nil, ← h, hdm]
  · rw [List.sum_cons, List.sum_nil, Nat.add_zero, hdm]

/-- In front of a piece there are only full ones. -/
theorem dvd_sum_of_prefix_chunks {size len n : Nat} {pre : List Nat}
    (h : pre ++ [n] <+: chunks size len) : size ∣ pre.sum := by
  obtain ⟨post, h⟩ := h
  unfold chunks at h
  have hle : pre.length ≤ len / size := by
    have hlen := congrArg List.length h
    simp only [List.length_append, List.length_replicate, List.length_singleton] at hlen
    split at hlen
    · rw [List.length_nil] at hlen
      omega
    · rw [List.length_singleton] at hlen
      omega
  have hpre := congrArg (List.take pre.length) h
  rw [List.append_assoc, List.take_left, List.take_append_of_le_length (by simpa using hle),
    List.take_replicate] at hpre
  rw [hpre, List.sum_replicate_nat]
  exact Nat.dvd_mul_left _ _

end Bytes
