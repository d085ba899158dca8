import Blackmagic.Gdb.Codec
import Blackmagic.Gdb.Main

/-!
# Bytes as hexadecimal digits: `hex_utils.c`

`hexify` writes two upper-case digits for each byte and a `NUL`, and `unhexify` takes two digits of
either case for a byte. Whatever two digits stand for each byte, `unhexify` gives the bytes back if
it does so for one of them (`unhexify_pairs`).
-/

namespace Blackmagic

/-- The loop of `hexify`: the characters that it writes, with their places. -/
def hexifyWrites : (dst : Nat) → (src : List UInt8) → List (Nat × UInt8)
  | dst, [] => [(dst, 0)]
  | dst, c :: src => (dst, hexDigit (c >>> 4)) :: (dst + 1, hexDigit (c &&& 0xf)) :: hexifyWrites
      (dst + 2) src

/-- `tolower`, on digits. -/
def lowerCase (c : UInt8) : UInt8 := if 0x41 ≤ c ∧ c ≤ 0x5a then c + 0x20 else c

/-- A byte takes two characters. -/
theorem length_hexify (data : List UInt8) : (hexify data).length = 2 * data.length := by
  induction data with
  | nil => rfl
  | cons d data ih =>
    change (hexify data).length + 2 = 2 * (data.length + 1)
    omega

/-- The digits of the bytes and a `NUL`, one after the other. -/
theorem hexifyWrites_eq (dst : Nat) (src : List UInt8) :
    hexifyWrites dst src = (List.range' dst (2 * src.length + 1)).zip (hexify src ++ [0]) := by
  induction src generalizing dst with
  | nil => rfl
  | cons c src ih =>
    rw [hexifyWrites, ih, List.length_cons, show 2 * (src.length + 1) + 1 =
      2 * src.length + 1 + 1 + 1 by omega, List.range'_succ, List.range'_succ]
    rfl

/-- Any two functions for the digits that `unhexify` undoes. -/
theorem unhexify_pairs {hi lo : UInt8 → UInt8}
    (h : ∀ d, unhexDigit (hi d) <<< 4 ||| unhexDigit (lo d) = d) (data rest : List UInt8) :
    unhexify ((data.flatMap fun d => [hi d, lo d]) ++ rest) data.length = data := by
  induction data with
  | nil => rfl
  | cons d data ih =>
    have hcons : ((d :: data).flatMap fun d => [hi d, lo d]) ++ rest =
        hi d :: lo d :: ((data.flatMap fun d => [hi d, lo d]) ++ rest) := rfl
    rw [hcons, List.length_cons, unhexify, List.range_succ_eq_map, List.map_cons, List.map_map]
    refine congrArg₂ List.cons (h d) (Eq.trans ?_ ih)
    exact List.map_congr_left fun i _ => rfl

/-- Bytes are read back from their digits. -/
theorem unhexify_hexify (data rest : List UInt8) :
    unhexify (hexify data ++ rest) data.length = data :=
  unhexify_pairs unhexDigit_hexByte data rest

/-- Digits in lower case are read like the others. -/
theorem unhexDigit_lowerCase (d : UInt8) :
    unhexDigit (lowerCase (hexDigit (d >>> 4))) <<< 4 |||
      unhexDigit (lowerCase (hexDigit (d &&& 0xf))) = d := by
  have hall : ∀ n : Fin 256, unhexDigit (lowerCase (hexDigit (UInt8.ofFin n >>> 4))) <<< 4 |||
      unhexDigit (lowerCase (hexDigit (UInt8.ofFin n &&& 0xf))) = UInt8.ofFin n := by decide +kernel
  exact hall d.toFin

/-- Bytes are read back from digits in lower case. -/
theorem unhexify_lowerCase (data rest : List UInt8) :
    unhexify ((hexify data).map lowerCase ++ rest) data.length = data := by
  rw [hexify, List.map_flatMap]
  exact unhexify_pairs unhexDigit_lowerCase data rest

end Blackmagic
