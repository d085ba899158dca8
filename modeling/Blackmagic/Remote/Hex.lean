import Blackmagic.Gdb.Hex
import Blackmagic.Remote.Process

/-!
# Numbers as hexadecimal digits

`remote_respond` makes the digits of a 64-bit number from the last one on and sends them the other
way round: they are the upper-case digits of the number, without a zero in front
(`responseText_eq`), and `hex_string_to_num` reads them back up to the first character that is no
digit (`hexStringToNum_upperHex`).
-/

namespace Blackmagic.Remote

/-- A number in upper-case hexadecimal. -/
def upperHex (n : Nat) : List UInt8 := (Nat.toDigits 16 n).map fun c => UInt8.ofNat c.toUpper.toNat

/-- A number below sixteen has one digit. -/
theorem upperHex_of_lt {n : Nat} (h : n < 16) : upperHex n = [hexDigit (UInt8.ofNat n)] := by
  rw [upperHex, Nat.toDigits_of_lt_base h]
  exact (show ∀ n < 16, [UInt8.ofNat n.digitChar.toUpper.toNat] =
    [hexDigit (UInt8.ofNat n)] by decide) n h

/-- A larger one ends with its last digit. -/
theorem upperHex_of_le {n : Nat} (h : 16 ≤ n) :
    upperHex n = upperHex (n / 16) ++ [hexDigit (UInt8.ofNat (n % 16))] := by
  rw [upperHex, Nat.toDigits_of_base_le (by decide) h,
    List.map_append, ← upperHex_of_lt (Nat.mod_lt n (by decide)), upperHex, upperHex,
    Nat.toDigits_of_lt_base (Nat.mod_lt n (by decide))]

/-! ## The digits of a response -/

/-- The low nibble is the last digit. -/
theorem lastDigit_eq (param : UInt64) :
    (param &&& 0xf).toUInt8 = UInt8.ofNat (param.toNat % 16) := by
  rw [← UInt8.toNat_inj, UInt64.toNat_toUInt8, UInt64.toNat_and, UInt8.toNat_ofNat']
  exact congrArg (· % 2 ^ 8) (Nat.and_two_pow_sub_one_eq_mod param.toNat 4)

/-- A shift by four drops the last digit. -/
theorem toNat_shiftDigit (param : UInt64) : (param >>> 4).toNat = param.toNat / 16 := by
  rw [UInt64.toNat_shiftRight]
  exact Nat.shiftRight_eq_div_pow param.toNat 4

/-- Of zero nothing is left to write. -/
theorem responseDigits_zero (left : Nat) : responseDigits left 0 = [] := by
  cases left with
  | zero => rfl
  | succ left => rfl

/-- A parameter other than zero. -/
theorem toNat_ne_zero {param : UInt64} (h : param ≠ 0) : param.toNat ≠ 0 :=
  fun h0 => h (UInt64.toNat_inj.1 h0)

/-- The digits of a number that is not zero, where there is room for them. -/
theorem responseDigits_eq (left : Nat) : ∀ param : UInt64, param ≠ 0 → param.toNat < 16 ^ left →
    (responseDigits left param).reverse = upperHex param.toNat := by
  induction left with
  | zero =>
    intro param hne hlt
    exact absurd (Nat.lt_one_iff.1 hlt) (toNat_ne_zero hne)
  | succ left ih =>
    intro param hne hlt
    have hshift := toNat_shiftDigit param
    rw [responseDigits, if_neg hne, List.reverse_cons, lastDigit_eq]
    by_cases hlast : param.toNat < 16
    · have hzero : param >>> 4 = 0 := UInt64.toNat_inj.1 (hshift.trans (Nat.div_eq_of_lt hlast))
      rw [hzero, responseDigits_zero, upperHex_of_lt hlast, Nat.mod_eq_of_lt hlast]
      rfl
    · have hrest : param >>> 4 ≠ 0 := fun h => by
        rw [h] at hshift
        have := hshift.symm
        rw [UInt64.toNat_zero] at this
        omega
      rw [ih _ hrest (by rw [hshift]; rw [Nat.pow_succ] at hlt; omega), hshift,
        upperHex_of_le (Nat.le_of_not_lt hlast)]

/-- `remote_respond` sends the digits of its number. -/
theorem responseText_eq (param : UInt64) : (responseText param).reverse = upperHex param.toNat := by
  by_cases hzero : param = 0
  · subst hzero
    rfl
  · have hdigits := responseDigits_eq 16 param hzero param.toNat_lt
    rw [responseText]
    split
    · next hnil =>
      rw [hnil] at hdigits
      refine absurd hdigits.symm ?_
      rw [upperHex, List.reverse_nil, List.map_eq_nil_iff]
      exact Nat.toDigits_ne_nil
    · exact hdigits

/-! ## Reading them back -/

/-- Every digit is read back. -/
theorem digit_read : ∀ n < 16, isHex (hexDigit (UInt8.ofNat n)) = true ∧
    unhexDigit (hexDigit (UInt8.ofNat n)) = UInt8.ofNat n := by
  decide

/-- A number is written in digits. -/
theorem isHex_upperHex (n : Nat) : ∀ c ∈ upperHex n, isHex c = true := by
  induction n using Nat.strongRecOn with
  | _ n ih =>
    intro c hc
    rcases Nat.lt_or_ge n 16 with h | h
    · rw [upperHex_of_lt h, List.mem_singleton] at hc
      exact hc ▸ (digit_read n h).1
    · rw [upperHex_of_le h, List.mem_append, List.mem_singleton] at hc
      rcases hc with hc | rfl
      · exact ih (n / 16) (by omega) c hc
      · exact (digit_read (n % 16) (Nat.mod_lt n (by decide))).1

/-- The loop of `hex_string_to_num` over the digits of a number. -/
theorem foldl_upperHex {n : Nat} (hn : n < 2 ^ 64) :
    (upperHex n).foldl (fun (ret : UInt64) value => ret <<< 4 ||| (unhexDigit value).toUInt64) 0 =
      UInt64.ofNat n := by
  induction n using Nat.strongRecOn with
  | _ n ih =>
    rcases Nat.lt_or_ge n 16 with h | h
    · rw [upperHex_of_lt h, List.foldl_cons, List.foldl_nil, (digit_read n h).2]
      exact (show ∀ n < 16, (0 : UInt64) <<< 4 ||| (UInt8.ofNat n).toUInt64 =
        UInt64.ofNat n by decide) n h
    · rw [upperHex_of_le h, List.foldl_append, ih (n / 16) (by omega) (by omega), List.foldl_cons,
        List.foldl_nil, (digit_read (n % 16) (Nat.mod_lt n (by decide))).2, ← UInt64.toNat_inj,
        UInt64.toNat_or]
      have hmod := Nat.mod_lt n (show 0 < 16 by decide)
      have hshift : (UInt64.ofNat (n / 16) <<< 4).toNat = (n / 16) <<< 4 := by
        rw [UInt64.toNat_shiftLeft, UInt64.toNat_ofNat_of_lt' (show n / 16 < 2 ^ 64 by omega)]
        refine Nat.mod_eq_of_lt ?_
        change (n / 16) <<< 4 < 2 ^ 64
        rw [Nat.shiftLeft_eq]
        omega
      have hdigit : ((UInt8.ofNat (n % 16)).toUInt64).toNat = n % 16 := by
        rw [UInt8.toNat_toUInt64, UInt8.toNat_ofNat_of_lt' (show n % 16 < 2 ^ 8 by omega)]
      rw [hshift, hdigit, ← Nat.shiftLeft_add_eq_or_of_lt (show n % 16 < 2 ^ 4 from hmod),
        Nat.shiftLeft_eq, UInt64.toNat_ofNat_of_lt' hn]
      omega

/-- A number is read back up to the character that ends it. -/
theorem hexStringToNum_upperHex (v : UInt64) {limit : Nat}
    (hlimit : (upperHex v.toNat).length ≤ limit) {t : UInt8} (ht : isHex t = false)
    (rest : List UInt8) : hexStringToNum limit (upperHex v.toNat ++ t :: rest) = v := by
  have hdigits : ((upperHex v.toNat ++ t :: rest).take limit).takeWhile isHex =
      upperHex v.toNat := by
    rw [List.take_append, List.take_of_length_le hlimit,
      List.takeWhile_append_of_pos (isHex_upperHex _)]
    cases limit - (upperHex v.toNat).length with
    | zero => exact List.append_nil _
    | succ k => rw [List.take_succ_cons, List.takeWhile_cons, ht]; exact List.append_nil _
  rw [hexStringToNum, hdigits, foldl_upperHex v.toNat_lt, UInt64.ofNat_toNat]

/-- **Round trips.** `unhexify` takes what `hexify` writes, in either case of its letters, back to
the bytes it was written for, and `hexify` writes two characters for each of them and a `NUL`. The
digits that `remote_respond` sends are those of its number, and `hex_string_to_num` takes them back
to it. -/
theorem hexRoundTrips :
    (∀ data rest : List UInt8, unhexify (hexify data ++ rest) data.length = data ∧
      unhexify ((hexify data).map lowerCase ++ rest) data.length = data) ∧
    (∀ data : List UInt8, hexifyWrites 0 data =
      (List.range (2 * data.length + 1)).zip (hexify data ++ [0]) ∧
      (hexify data).length = 2 * data.length) ∧
    (∀ code (v : UInt64), respond code v =
      (unhexifyStores 16 (upperHex v.toNat).length).map .store ++
        [framed code (upperHex v.toNat)]) ∧
    (∀ (v : UInt64) (limit : Nat) (t : UInt8) (rest : List UInt8), (upperHex v.toNat).length ≤
      limit →
      isHex t = false → hexStringToNum limit (upperHex v.toNat ++ t :: rest) = v) := by
  refine ⟨fun data rest => ⟨unhexify_hexify data rest, unhexify_lowerCase data rest⟩, fun data =>
    ⟨?_, length_hexify data⟩,
    fun code v => ?_, fun v limit t rest hlimit ht => hexStringToNum_upperHex v hlimit ht rest⟩
  · rw [hexifyWrites_eq, List.range_eq_range']
  · rw [respond, ← responseText_eq, List.length_reverse]

end Blackmagic.Remote
