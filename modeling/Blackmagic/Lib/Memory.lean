import Mathlib
import Blackmagic.Lib.Bytes

/-!
# Memory as bytes at addresses

`bytesAt` is what a read returns, `storeBytes` what a write leaves, and `wordAt` a little-endian
word. A write is read back by `bytesAt_storeBytes`, and `bytesAt_congr` is the frame rule of a read.
`contents` is a part of a ring buffer, from a place on, and `used` the length of the part from its
tail to its head; `wrap_order_iff` compares two places of a ring that is a counter.
-/

namespace Memory

open Bytes

variable {α : Type} {mem mem' : Nat → UInt8} {addr len : Nat} {data : List UInt8}

/-- The bytes from an address on. -/
def bytesAt (mem : Nat → UInt8) (addr len : Nat) : List UInt8 :=
  (List.range len).map fun j => mem (addr + j)

/-- Write bytes from an address on. -/
def storeBytes (mem : Nat → UInt8) (addr : Nat) (data : List UInt8) : Nat → UInt8 :=
  fun x => if addr ≤ x then data.getD (x - addr) (mem x) else mem x

/-- The word at an address. -/
def wordAt (mem : Nat → UInt8) (addr : Nat) : Nat := leNat (bytesAt mem addr 4)

@[simp] theorem length_bytesAt (mem : Nat → UInt8) (addr len : Nat) :
    (bytesAt mem addr len).length = len := by
  simp [bytesAt]

/-- Bytes of memories that agree there. -/
theorem bytesAt_congr (h : ∀ x, addr ≤ x → x < addr + len → mem' x = mem x) :
    bytesAt mem' addr len = bytesAt mem addr len := by
  refine List.map_congr_left fun j hj => ?_
  have := List.mem_range.1 hj
  exact h _ (by omega) (by omega)

/-- Words of memories that agree there. -/
theorem wordAt_congr (h : ∀ x, addr ≤ x → x < addr + 4 → mem' x = mem x) :
    wordAt mem' addr = wordAt mem addr := by
  rw [wordAt, bytesAt_congr h]
  rfl

/-- A store changes nothing below it. -/
theorem storeBytes_of_lt {x : Nat} (h : x < addr) : storeBytes mem addr data x = mem x :=
  if_neg (by omega)

/-- A store changes nothing behind it. -/
theorem storeBytes_of_le {x : Nat} (h : addr + data.length ≤ x) :
    storeBytes mem addr data x = mem x := by
  unfold storeBytes
  rw [if_pos (by omega), List.getD_eq_default _ _ (by omega)]

/-- A write is read back. -/
theorem bytesAt_storeBytes : bytesAt (storeBytes mem addr data) addr data.length = data := by
  refine List.ext_getElem (by simp) fun j h₁ h₂ => ?_
  have hj : j < data.length := h₂
  simp [bytesAt, storeBytes, hj]

/-- A word is read back from where it was stored. -/
theorem wordAt_storeBytes {n : Nat} (h : n < 2 ^ 32) :
    wordAt (storeBytes mem addr (wordBytes n)) addr = n := by
  have hread := @bytesAt_storeBytes mem addr (wordBytes n)
  rw [wordAt, show 4 = (wordBytes n).length from rfl, hread, leNat_wordBytes h]

/-- A field of what was read. -/
theorem slice_bytesAt {off n : Nat} (h : off + n ≤ len) :
    slice (bytesAt mem addr len) off n = bytesAt mem (addr + off) n := by
  refine List.ext_getElem (by simp [slice]; omega) fun j h₁ h₂ => ?_
  simp [slice, bytesAt, Nat.add_assoc]

/-! ## Ring buffers -/

/-- The part of a ring buffer from a place on. -/
def contents (f : Nat → α) (size start n : Nat) : List α :=
  (List.range n).map fun k => f ((start + k) % size)

/-- How much of a ring buffer is between its tail and its head. -/
def used (size head tail : Nat) : Nat := if tail ≤ head then head - tail else head + size - tail

section
variable {f f' : Nat → α} {size start head tail m n : Nat}

@[simp] theorem length_contents (f : Nat → α) (size start n : Nat) :
    (contents f size start n).length = n := by
  simp [contents]

@[simp] theorem contents_zero : contents f size start 0 = [] := rfl

@[simp] theorem contents_mod : contents f size (start % size) n = contents f size start n := by
  simp [contents]

/-- Two stretches of a ring, one behind the other. -/
theorem contents_add :
    contents f size start (m + n) = contents f size start m ++ contents f size (start + m) n := by
  simp [contents, List.range_add, Nat.add_assoc, Function.comp_def]

/-- Stretches of rings that agree there. -/
theorem contents_congr (h : ∀ k < n, f' ((start + k) % size) = f ((start + k) % size)) :
    contents f' size start n = contents f size start n :=
  List.map_congr_left fun k hk => h k (List.mem_range.1 hk)

/-- The first bytes of a stretch. -/
theorem take_contents (h : m ≤ n) : (contents f size start n).take m = contents f size start m := by
  obtain ⟨d, rfl⟩ := Nat.exists_eq_add_of_le h
  rw [contents_add, List.take_left' (length_contents ..)]

/-- The other bytes of a stretch. -/
theorem drop_contents (h : m ≤ n) :
    (contents f size start n).drop m = contents f size (start + m) (n - m) := by
  obtain ⟨d, rfl⟩ := Nat.exists_eq_add_of_le h
  rw [contents_add, List.drop_left' (length_contents ..), Nat.add_sub_cancel_left]

/-- A part that does not go over the end is a read. -/
theorem contents_eq_bytesAt {base : Nat} (h : start + n ≤ size) :
    contents (fun p => mem (base + p)) size start n = bytesAt mem (base + start) n := by
  refine List.map_congr_left fun k hk => ?_
  have hk := List.mem_range.1 hk
  dsimp only
  rw [Nat.mod_eq_of_lt (by omega), Nat.add_assoc]

/-- Places that are less than a turn apart differ. -/
theorem place_ne (hm : m < size) (hn : n < size) (h : m ≠ n) :
    (start + m) % size ≠ (start + n) % size := by
  intro heq
  have := Nat.ModEq.add_left_cancel' start heq
  rw [Nat.ModEq, Nat.mod_eq_of_lt hm, Nat.mod_eq_of_lt hn] at this
  exact h this

/-- A stretch depends on its start up to the size of the ring. -/
theorem contents_congr_mod {start' : Nat} (h : start % size = start' % size) :
    contents f size start n = contents f size start' n := by
  rw [← contents_mod, h, contents_mod]

/-- A value is written behind a part that does not fill the ring. -/
theorem contents_push (hn : n < size) (h : (start + n) % size = head) (a : α) :
    contents (Function.update f head a) size start (n + 1) = contents f size start n ++ [a] := by
  rw [contents_add]
  refine congrArg₂ _ (contents_congr fun k hk => ?_) ?_
  · rw [← h]
    exact Function.update_of_ne (place_ne (by omega) hn (by omega)) ..
  · rw [contents, List.range_one, List.map_cons, List.map_nil, Nat.add_zero, h,
      Function.update_self]

/-- A remainder by one subtraction. -/
theorem mod_of_lt_two_mul {a : Nat} (h : a < 2 * size) : a % size = if a < size then a
    else a - size := by
  split
  · exact Nat.mod_eq_of_lt ‹_›
  · rw [Nat.mod_eq_sub_mod (by omega), Nat.mod_eq_of_lt (by omega)]

/-- A ring never has all its places in use. -/
theorem used_lt (hhead : head < size) (htail : tail < size) : used size head tail < size := by
  unfold used
  split <;> omega

/-- The head is as far from the tail as bytes are used. -/
theorem add_used (hhead : head < size) (htail : tail < size) :
    (tail + used size head tail) % size = head := by
  rw [mod_of_lt_two_mul (by have := used_lt hhead htail; omega)]
  unfold used
  split <;> split <;> omega

/-- Bytes that are put into an empty ring are used. -/
theorem used_add (htail : tail < size) (h : n < size) : used size ((tail + n) % size) tail = n := by
  rw [mod_of_lt_two_mul (by omega)]
  unfold used
  split <;> split <;> omega

/-- A place behind the head, counted from the tail. -/
theorem head_add (hhead : head < size) (htail : tail < size) (k : Nat) :
    (head + k) % size = (tail + (used size head tail + k)) % size := by
  rw [← Nat.add_assoc, ← Nat.mod_add_mod (tail + used size head tail), add_used hhead htail]

/-- A place behind the head is not one between the tail and the head. -/
theorem live_ne_free (hhead : head < size) (htail : tail < size) {j k : Nat}
    (hj : j < used size head tail) (hk : used size head tail + k < size) :
    (tail + j) % size ≠ (head + k) % size := by
  rw [head_add hhead htail]
  exact place_ne (by omega) hk (by omega)

/-- The head may be advanced as long as it does not reach the tail. -/
theorem used_succ_lt (hhead : head < size) (htail : tail < size) (h : tail ≠ (head + 1) % size) :
    used size head tail + 1 < size := by
  rw [mod_of_lt_two_mul (by omega)] at h
  unfold used
  split at h <;> split <;> omega

/-- The head is advanced. -/
theorem used_advance_head (hhead : head < size) (htail : tail < size)
    (h : used size head tail + n < size) :
    used size ((head + n) % size) tail = used size head tail + n := by
  rw [← Nat.mod_add_mod, ← add_used hhead htail, Nat.mod_mod, Nat.mod_add_mod, Nat.add_assoc,
    used_add htail h]
  rw [add_used hhead htail]

/-- The tail is advanced. -/
theorem used_advance_tail (hhead : head < size) (htail : tail < size)
    (h : n ≤ used size head tail) :
    used size head ((tail + n) % size) = used size head tail - n := by
  have hlt := used_lt hhead htail
  rw [mod_of_lt_two_mul (by omega)]
  revert h hlt
  unfold used
  split <;> split <;> split <;> omega

/-- Two readings of a counter that comes round after `2 * half` compare as the times at which they
were taken, for less than half a round, exactly when the counter was not past the middle of its
round. -/
theorem wrap_order_iff {half delay : Nat} (hdelay : delay < half) :
    (∀ d < half, (start + delay) % (2 * half) < (start + d) % (2 * half) ↔ delay < d) ↔
      start % (2 * half) ≤ half := by
  have hstart := Nat.mod_lt start (show 0 < 2 * half by omega)
  have hplace : ∀ d < half, (start + d) % (2 * half) =
      if start % (2 * half) + d < 2 * half then start % (2 * half) + d
        else start % (2 * half) + d - 2 * half := by
    intro d hd
    rw [← Nat.mod_add_mod, mod_of_lt_two_mul (by omega)]
  constructor
  · intro h
    by_contra hpast
    -- past the middle, the delay has wrapped already or the count wraps before half a round is over
    have hnow := h 0 (by omega)
    have hwrap := h (2 * half - start % (2 * half)) (by omega)
    rw [hplace _ hdelay, hplace _ (by omega)] at hnow hwrap
    split_ifs at hnow hwrap <;> omega
  · intro hle d hd
    rw [hplace _ hdelay, hplace _ hd]
    split_ifs <;> omega

end

end Memory
