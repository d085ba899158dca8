import Mathlib

/-!
# Rolling hashes

The hash of a window of a stream of digits is the number that they spell, modulo some number. When
the window moves on by one digit, `roll` gets the new hash from the old one: it takes away the digit
that leaves, with its weight, and appends the one that comes in (`roll_windowHash`).
-/

namespace RollingHash

variable {base modulus : Nat}

/-- The number that digits spell, the first one the highest. -/
def spelled (base : Nat) (digits : List Nat) : Nat := Nat.ofDigits base digits.reverse

/-- The first digit counts most. -/
theorem spelled_cons (base c : Nat) (digits : List Nat) :
    spelled base (c :: digits) = spelled base digits + c * base ^ digits.length := by
  rw [spelled, List.reverse_cons, Nat.ofDigits_append, List.length_reverse, Nat.ofDigits_singleton,
    Nat.mul_comm, spelled]

/-- The last digit counts one. -/
theorem spelled_concat (base c : Nat) (digits : List Nat) :
    spelled base (digits ++ [c]) = spelled base digits * base + c := by
  rw [spelled, List.reverse_append, List.reverse_singleton, List.singleton_append,
    Nat.ofDigits_cons, Nat.mul_comm, Nat.add_comm, spelled]

/-- The hash when the window moves on; the digit that leaves has the given weight. -/
def roll (base modulus weight hash out inn : Nat) : Nat :=
  ((hash + modulus - weight * out % modulus) % modulus * base + inn) % modulus

/-- One step takes the hash of a window to that of the next one. -/
theorem roll_spelled (hmodulus : 0 < modulus) {weight : Nat} {digits : List Nat}
    (hweight : weight = base ^ digits.length % modulus) (out inn : Nat) :
    roll base modulus weight (spelled base (out :: digits) % modulus) out inn =
      spelled base (digits ++ [inn]) % modulus := by
  have hlt : weight * out % modulus < modulus := Nat.mod_lt _ hmodulus
  have hout : weight * out % modulus ≡ out * base ^ digits.length [MOD modulus] := by
    rw [hweight, Nat.mul_comm out]
    exact (Nat.mod_modEq _ _).trans ((Nat.mod_modEq _ _).mul_right out)
  -- what is left is the number that the other digits spell: both sides agree with the outgoing
  -- digit
  have hleft : spelled base (out :: digits) % modulus + modulus - weight * out % modulus ≡
      spelled base digits [MOD modulus] := by
    refine Nat.ModEq.add_right_cancel hout ?_
    rw [Nat.sub_add_cancel (by omega), ← spelled_cons]
    exact (Nat.add_modEq_right (n := modulus)).trans (Nat.mod_modEq _ _)
  rw [roll, spelled_concat]
  exact (((Nat.mod_modEq _ _).trans hleft).mul_right base).add_right inn

/-- Some digits of a stream. -/
def window (stream : Nat → Nat) (size k : Nat) : List Nat :=
  (List.range size).map fun i => stream (k + i)

/-- The hash of a window of a stream. -/
def windowHash (base modulus : Nat) (stream : Nat → Nat) (size k : Nat) : Nat :=
  spelled base (window stream size k) % modulus

/-- Windows of streams that agree there. -/
theorem windowHash_congr {stream stream' : Nat → Nat} {size k k' : Nat}
    (h : ∀ i < size, stream (k + i) = stream' (k' + i)) :
    windowHash base modulus stream size k = windowHash base modulus stream' size k' := by
  rw [windowHash, windowHash, window, window]
  exact congrArg (fun l => spelled base l % modulus)
    (List.map_congr_left fun i hi => h i (List.mem_range.1 hi))

/-- A window by its first digit. -/
theorem window_succ (stream : Nat → Nat) (size k : Nat) :
    window stream (size + 1) k = stream k :: window stream size (k + 1) := by
  rw [window, List.range_succ_eq_map, List.map_cons, List.map_map, Nat.add_zero, window]
  refine congrArg _ (List.map_congr_left fun i _ => congrArg stream ?_)
  rw [Nat.add_assoc, Nat.add_comm 1]

/-- A window by its last digit. -/
theorem window_concat (stream : Nat → Nat) (size k : Nat) :
    window stream (size + 1) k = window stream size k ++ [stream (k + size)] := by
  rw [window, List.range_succ, List.map_append, List.map_singleton, window]

/-- The window moves on by one digit. -/
theorem roll_windowHash (hmodulus : 0 < modulus) {weight size : Nat}
    (hweight : weight = base ^ size % modulus) (stream : Nat → Nat) (k : Nat) :
    roll base modulus weight (windowHash base modulus stream (size + 1) k) (stream k)
        (stream (k + (size + 1))) = windowHash base modulus stream (size + 1) (k + 1) := by
  have hlen : (window stream size (k + 1)).length = size := by
    rw [window, List.length_map, List.length_range]
  rw [windowHash, windowHash, window_succ, window_concat stream size (k + 1), Nat.add_assoc k 1,
    Nat.add_comm 1]
  exact roll_spelled hmodulus (hlen.symm ▸ hweight) _ _

end RollingHash
