import Mathlib

/-!
# Strings in C: `sscanf`, `strtoul`, `strstr`

A string is a list of characters without its terminator. `sscanf` goes through a format until a
directive fails, and leaves the conversions made before. `hex8` and `hex` are what `%08x` and `%x`
print of a word, and `strtoul` reads both back (`strtoulAuto_hex8`, `strtoulAuto_hex`). `hexNat` is
`%x` of a number of any size, of which a conversion with a width takes the first digits
(`scan_int16`). The position that `%n` stores lies in the input (`scan_position_le`). A search with
`strstr` passes a text in which no occurrence begins (`strstr_append`).
-/

namespace Scanf

/-- The characters of a text. -/
def ascii (s : String) : List UInt8 := s.toList.map fun c => UInt8.ofNat c.toNat

/-- The string that a buffer begins with. -/
def cstr (buf : List UInt8) : List UInt8 := buf.takeWhile (· ≠ 0)

/-- `isspace`. -/
def isSpace (c : UInt8) : Bool := c == 0x20 || (0x09 ≤ c && c ≤ 0x0d)

/-- The value of a digit, in upper or lower case. -/
def digitValue (c : UInt8) : Nat :=
  if 0x61 ≤ c then c.toNat - 0x61 + 10
  else if 0x41 ≤ c then c.toNat - 0x41 + 10
  else c.toNat - 0x30

/-- Whether a character is a digit of a base up to 16. -/
def isDigit (base : Nat) (c : UInt8) : Bool :=
  ((0x30 ≤ c && c ≤ 0x39) || (0x41 ≤ c && c ≤ 0x46) || (0x61 ≤ c && c ≤ 0x66)) &&
    digitValue c < base

/-- The value of digits. -/
def digitsValue (base : Nat) (digits : List UInt8) : Nat :=
  digits.foldl (fun n c => n * base + digitValue c) 0

/-- A number as an `unsigned long`, `ULONG_MAX` when it does not fit. -/
def unsignedLong (v : Nat) : UInt32 := UInt32.ofNat (min v 0xffffffff)

/-- A number with a minus sign as an `unsigned long`. One that does not fit is `ULONG_MAX` here as
well. -/
def negatedLong (v : Nat) : UInt32 := if v ≤ 0xffffffff then 0 - UInt32.ofNat v else 0xffffffff

/-- The word that digits are read as. -/
def number (base : Nat) (digits : List UInt8) : UInt32 := unsignedLong (digitsValue base digits)

/-- The digits of a number, after `0x` in base 16: how many characters they take, and the value. -/
def scanDigits (base : Nat) (item : List UInt8) : Option (Nat × Nat) :=
  let skip := if base = 16 ∧ (item.take 2 = ascii "0x" ∨ item.take 2 = ascii "0X") then 2 else 0
  let digits := (item.drop skip).takeWhile (isDigit base)
  if digits = [] then none else some (skip + digits.length, digitsValue base digits)

/-- The conversion of a number, with a sign. -/
def scanSigned (base : Nat) : List UInt8 → Option (Nat × UInt32)
  | 0x2d :: item => (scanDigits base item).map fun (used, v) => (used + 1, negatedLong v)
  | 0x2b :: item => (scanDigits base item).map fun (used, v) => (used + 1, unsignedLong v)
  | item => (scanDigits base item).map fun (used, v) => (used, unsignedLong v)

/-- The characters of a sign. -/
def signLength (item : List UInt8) : Nat :=
  if item.head? = some 0x2d ∨ item.head? = some 0x2b then 1 else 0

/-- `strtoul`: the value, and how many characters were taken; no number takes none. Where `0x`
stands without digits, a conversion of `sscanf` fails, and `strtoul` takes the `0`. -/
def strtoul (base : Nat) (input : List UInt8) : UInt32 × Nat :=
  let spaces := (input.takeWhile isSpace).length
  let item := input.drop spaces
  match scanSigned base item with
  | some (used, v) => (v, spaces + used)
  | none =>
    if (item.drop (signLength item)).head? = some 0x30 then (0, spaces + signLength item + 1)
    else (0, 0)

/-- The base in which `strtoul` takes a text when it is given base 0. -/
def autoBase (input : List UInt8) : Nat :=
  let item := input.dropWhile isSpace
  let item := item.drop (signLength item)
  if item.take 2 = ascii "0x" ∨ item.take 2 = ascii "0X" then 16
  else if item.head? = some 0x30 then 8
  else 10

/-- `strtoul` with base 0: the value. -/
def strtoulAuto (input : List UInt8) : UInt32 := (strtoul (autoBase input) input).1

/-- A directive of a format. A width of zero is no limit. -/
inductive Directive
  | lit (c : UInt8)
  | int (base width : Nat)
  | char
  | skipSet (set : List UInt8)
  | position
  deriving DecidableEq, Repr

/-- The directives of a text. -/
def lits (s : String) : List Directive := (ascii s).map .lit

/-- What a call assigned: the conversions in order, and the position that `%n` stored. -/
structure Scanned where
  values : List UInt32
  position : Option Nat
  deriving DecidableEq, Repr

/-- `sscanf`, at a position of the input. -/
def scan : List Directive → (input : List UInt8) → (pos : Nat) → Scanned
  | [], _, _ => ⟨[], none⟩
  | .lit _ :: _, [], _ => ⟨[], none⟩
  | .lit c :: format, a :: input, pos => if a = c then scan format input (pos + 1) else ⟨[], none⟩
  | .int base width :: format, input, pos =>
    let spaces := (input.takeWhile isSpace).length
    let item := input.drop spaces
    match scanSigned base (if width = 0 then item else item.take width) with
    | some (used, v) =>
      let r := scan format (item.drop used) (pos + spaces + used)
      { r with values := v :: r.values }
    | none => ⟨[], none⟩
  | .char :: _, [], _ => ⟨[], none⟩
  | .char :: format, a :: input, pos =>
    let r := scan format input (pos + 1)
    { r with values := a.toUInt32 :: r.values }
  | .skipSet set :: format, input, pos =>
    let used := (input.takeWhile (set.contains ·)).length
    if used = 0 then ⟨[], none⟩ else scan format (input.drop used) (pos + used)
  | .position :: format, input, pos => { scan format input pos with position := some pos }

/-- `sscanf`. -/
def sscanf (input : List UInt8) (format : List Directive) : Scanned := scan format input 0

example : sscanf (ascii "m8000,1f") (lits "m" ++ [.int 16 0, .lit 0x2c, .int 16 0]) =
    ⟨[0x8000, 0x1f], none⟩ := by decide

example : strtoul 16 (ascii "0xg") = (0, 1) ∧ sscanf (ascii "0xg") [.int 16 0] = ⟨[], none⟩ ∧
    strtoul 16 (ascii "-1ffffffff") = (0xffffffff, 10) := by decide

example : sscanf (ascii "X 20:ab") (lits "X" ++ [.int 16 0, .lit 0x3a, .position]) =
    ⟨[0x20], some 5⟩ := by decide

/-! ## Printing a word -/

/-- The digit of a value in base 16, in lower case. -/
def hexChar (v : Nat) : UInt8 := UInt8.ofNat (if v < 10 then 0x30 + v else 0x61 + (v - 10))

/-- `%08x` of a word. -/
def hex8 (n : Nat) : List UInt8 := [7, 6, 5, 4, 3, 2, 1, 0].map fun i => hexChar (n / 16 ^ i % 16)

/-- `%x` of a word. -/
def hex (n : Nat) : List UInt8 :=
  match (hex8 n).dropWhile (· = 0x30) with
  | [] => [0x30]
  | digits => digits

/-- The character of a value is a digit with that value. -/
theorem hexChar_digit : ∀ v < 16, isDigit 16 (hexChar v) = true ∧ digitValue (hexChar v) = v := by
  decide

/-- `%08x` prints digits. -/
theorem isDigit_hex8 (n : Nat) : ∀ c ∈ hex8 n, isDigit 16 c = true := by
  intro c hc
  obtain ⟨i, -, rfl⟩ := List.mem_map.1 hc
  exact (hexChar_digit _ (Nat.mod_lt _ (by decide))).1

/-- `%x` prints digits. -/
theorem isDigit_hex (n : Nat) : ∀ c ∈ hex n, isDigit 16 c = true := by
  intro c hc
  unfold hex at hc
  split at hc
  · rw [List.mem_singleton.1 hc]
    decide
  · exact isDigit_hex8 n c (List.dropWhile_subset _ hc)

/-- `%x` prints something. -/
theorem hex_ne_nil (n : Nat) : hex n ≠ [] := by
  unfold hex
  split
  · exact nofun
  · next h => exact h

/-- Leading zeros do not count. -/
theorem number_dropWhile (ds : List UInt8) :
    number 16 (ds.dropWhile (· = 0x30)) = number 16 ds := by
  induction ds with
  | nil => rfl
  | cons c ds ih =>
    rw [List.dropWhile_cons]
    split
    · next hc =>
      rw [ih, of_decide_eq_true hc]
      rfl
    · rfl

/-- `%08x` prints the number. -/
theorem number_hex8 {n : Nat} (h : n < 2 ^ 32) : (number 16 (hex8 n)).toNat = n := by
  have hv : ∀ i, digitValue (hexChar (n / 16 ^ i % 16)) = n / 16 ^ i % 16 := fun i =>
    (hexChar_digit _ (Nat.mod_lt _ (by decide))).2
  simp only [number, unsignedLong, digitsValue, hex8, List.map_cons, List.map_nil, List.foldl_cons,
    List.foldl_nil, hv]
  rw [UInt32.toNat_ofNat']
  omega

/-- `%x` prints the same number. -/
theorem number_hex (n : Nat) : number 16 (hex n) = number 16 (hex8 n) := by
  rw [← number_dropWhile (hex8 n)]
  unfold hex
  split
  · next h => rw [h]; rfl
  · rfl

/-- `strtoul` reads digits after `0x` up to a character that is none. -/
theorem strtoulAuto_digits {ds : List UInt8} (hds : ∀ c ∈ ds, isDigit 16 c = true) (hne : ds ≠ [])
    {c : UInt8} (hc : isDigit 16 c = false) (rest : List UInt8) :
    strtoulAuto (0x30 :: 0x78 :: (ds ++ c :: rest)) = number 16 ds := by
  have hbase : autoBase (0x30 :: 0x78 :: (ds ++ c :: rest)) = 16 := rfl
  have htake : (ds ++ c :: rest).takeWhile (isDigit 16) = ds := by
    rw [List.takeWhile_append_of_pos hds, List.takeWhile_cons, hc]
    simp
  have hscan : scanSigned 16 (0x30 :: 0x78 :: (ds ++ c :: rest)) =
      some (2 + ds.length, number 16 ds) := by
    change (if (ds ++ c :: rest).takeWhile (isDigit 16) = [] then none
      else some (2 + ((ds ++ c :: rest).takeWhile (isDigit 16)).length,
        digitsValue 16 ((ds ++ c :: rest).takeWhile (isDigit 16)))).map _ = _
    rw [htake, if_neg hne]
    rfl
  have hspaces : (0x30 :: 0x78 :: (ds ++ c :: rest)).takeWhile isSpace = [] := rfl
  simp only [strtoulAuto, strtoul, hbase, hspaces, List.length_nil, List.drop_zero, hscan]

/-- A word printed by `0x%08x` is read back. -/
theorem strtoulAuto_hex8 {n : Nat} (h : n < 2 ^ 32) {c : UInt8} (hc : isDigit 16 c = false)
    (rest : List UInt8) :
    (strtoulAuto (0x30 :: 0x78 :: (hex8 n ++ c :: rest))).toNat = n := by
  rw [strtoulAuto_digits (isDigit_hex8 n) nofun hc, number_hex8 h]

/-- A word printed by `0x%x` is read back. -/
theorem strtoulAuto_hex {n : Nat} (h : n < 2 ^ 32) {c : UInt8} (hc : isDigit 16 c = false)
    (rest : List UInt8) :
    (strtoulAuto (0x30 :: 0x78 :: (hex n ++ c :: rest))).toNat = n := by
  rw [strtoulAuto_digits (isDigit_hex n) (hex_ne_nil n) hc, number_hex, number_hex8 h]

/-! ## Numbers of any size -/

/-- The value of digits in base 16. -/
def hexValue (digits : List UInt8) : Nat := digitsValue 16 digits

/-- `%x` of a number of any size. -/
def hexNat (n : Nat) : List UInt8 := (Nat.toDigits 16 n).map fun c => UInt8.ofNat c.toNat

/-- The character of a digit of any number. -/
theorem digitChar_digit : ∀ v < 16, isDigit 16 (UInt8.ofNat v.digitChar.toNat) = true ∧
    digitValue (UInt8.ofNat v.digitChar.toNat) = v := by
  decide

/-- A number of one digit. -/
theorem hexNat_of_lt {n : Nat} (h : n < 16) : hexNat n = [UInt8.ofNat n.digitChar.toNat] := by
  rw [hexNat, Nat.toDigits_of_lt_base h]
  rfl

/-- The last digit of a longer number. -/
theorem hexNat_of_le {n : Nat} (h : 16 ≤ n) :
    hexNat n = hexNat (n / 16) ++ [UInt8.ofNat (n % 16).digitChar.toNat] := by
  rw [hexNat, Nat.toDigits_of_base_le (by decide) h, List.map_append]
  rfl

/-- The last digit counts one. -/
theorem hexValue_concat (ds : List UInt8) (c : UInt8) :
    hexValue (ds ++ [c]) = hexValue ds * 16 + digitValue c := by
  rw [hexValue, digitsValue, List.foldl_append]
  rfl

/-- The digits of a number are digits. -/
theorem isDigit_hexNat (n : Nat) : ∀ c ∈ hexNat n, isDigit 16 c = true := by
  induction n using Nat.strongRecOn with
  | _ n ih =>
    intro c hc
    rcases Nat.lt_or_ge n 16 with h | h
    · rw [hexNat_of_lt h, List.mem_singleton] at hc
      rw [hc]
      exact (digitChar_digit n h).1
    · rw [hexNat_of_le h, List.mem_append, List.mem_singleton] at hc
      rcases hc with hc | rfl
      · exact ih (n / 16) (by omega) c hc
      · exact (digitChar_digit (n % 16) (by omega)).1

/-- A number has a digit. -/
theorem hexNat_ne_nil (n : Nat) : hexNat n ≠ [] := by
  rw [hexNat, Ne, List.map_eq_nil_iff]
  exact Nat.toDigits_ne_nil

/-- How many digits a number takes. -/
theorem length_hexNat_le {n k : Nat} (h : 0 < k) : (hexNat n).length ≤ k ↔ n < 16 ^ k := by
  rw [hexNat, List.length_map]
  exact Nat.length_toDigits_le_iff (by decide) h

@[simp] theorem hexValue_hexNat (n : Nat) : hexValue (hexNat n) = n := by
  induction n using Nat.strongRecOn with
  | _ n ih =>
    rcases Nat.lt_or_ge n 16 with h | h
    · rw [hexNat_of_lt h]
      have := (digitChar_digit n h).2
      simp [hexValue, digitsValue, this]
    · rw [hexNat_of_le h, hexValue_concat, ih (n / 16) (by omega),
        (digitChar_digit (n % 16) (by omega)).2]
      omega

/-- The first digits of a number are a number that is not larger, and not zero when it is not. -/
theorem hexValue_take_hexNat {w : Nat} (hw : 0 < w) (n : Nat) :
    hexValue ((hexNat n).take w) ≤ n ∧ (0 < n → 0 < hexValue ((hexNat n).take w)) := by
  induction n using Nat.strongRecOn with
  | _ n ih =>
    rcases Nat.lt_or_ge w (hexNat n).length with hlong | hshort
    · have h : 16 ≤ n := by
        have hbig : ¬ n < 16 ^ w := fun h => by
          have := (length_hexNat_le hw).2 h
          omega
        have : 16 ^ 1 ≤ 16 ^ w := Nat.pow_le_pow_right (by decide) hw
        omega
      rw [hexNat_of_le h, List.length_append, List.length_singleton] at hlong
      rw [hexNat_of_le h, List.take_append_of_le_length (by omega)]
      obtain ⟨hle, hpos⟩ := ih (n / 16) (by omega)
      exact ⟨by omega, fun _ => hpos (by omega)⟩
    · rw [List.take_of_length_le hshort, hexValue_hexNat]
      exact ⟨Nat.le_refl _, id⟩

/-- The value of so many digits is bounded. -/
theorem hexValue_lt {ds : List UInt8} (hds : ∀ c ∈ ds, isDigit 16 c = true) :
    hexValue ds < 16 ^ ds.length := by
  induction ds using List.reverseRecOn with
  | nil => decide
  | append_singleton ds c ih =>
    have hlt := ih fun d hd => hds d (List.mem_append_left _ hd)
    have hc := hds c (List.mem_append_right _ (List.mem_singleton_self c))
    simp only [isDigit, Bool.and_eq_true, decide_eq_true_eq] at hc
    rw [hexValue_concat, List.length_append, List.length_singleton, Nat.pow_succ]
    omega

/-- A number of at most eight digits is read as it is. -/
theorem toNat_number16 {ds : List UInt8} (hds : ∀ c ∈ ds, isDigit 16 c = true)
    (hlen : ds.length ≤ 8) :
    (number 16 ds).toNat = hexValue ds := by
  have hlt := hexValue_lt hds
  have hpow : 16 ^ ds.length ≤ 16 ^ 8 := Nat.pow_le_pow_right (by decide) hlen
  change (UInt32.ofNat (min (hexValue ds) 0xffffffff)).toNat = _
  rw [UInt32.toNat_ofNat']
  omega

/-! ## Reading a number -/

/-- A digit is neither space nor sign, nor the `x` of `0x`. -/
theorem isDigit_plain : ∀ c : UInt8, isDigit 16 c = true → isSpace c = false ∧ c ≠ 0x2d ∧ c ≠ 0x2b ∧
    c ≠ 0x78 ∧ c ≠ 0x58 := by
  intro c hc
  simp only [isDigit, Bool.and_eq_true, Bool.or_eq_true, decide_eq_true_eq,
    UInt8.le_iff_toNat_le] at hc
  simp only [isSpace, Bool.or_eq_false_iff, beq_eq_false_iff_ne, Bool.and_eq_false_iff,
    decide_eq_false_iff_not, UInt8.le_iff_toNat_le, ← UInt8.toNat_inj, ne_eq]
  simp at hc ⊢
  omega

/-- The number that an input begins with ends at a character that is none of its digits. -/
def NumberEnds (rest : List UInt8) : Prop :=
  ∀ c ∈ rest.head?, isDigit 16 c = false ∧ c ≠ 0x78 ∧ c ≠ 0x58

/-- The digits of a number are taken up to its end. -/
theorem scanDigits_append {ds rest : List UInt8} (hds : ∀ c ∈ ds, isDigit 16 c = true)
    (hne : ds ≠ []) (hrest : NumberEnds rest) :
    scanDigits 16 (ds ++ rest) = some (ds.length, hexValue ds) := by
  have htake : (ds ++ rest).takeWhile (isDigit 16) = ds := by
    rw [List.takeWhile_append_of_pos hds]
    cases rest with
    | nil => simp
    | cons c rest => rw [List.takeWhile_cons, (hrest c rfl).1]; simp
  have hx : ¬ ((ds ++ rest).take 2 = ascii "0x" ∨ (ds ++ rest).take 2 = ascii "0X") := by
    intro h
    obtain ⟨a, ds, rfl⟩ := List.exists_cons_of_ne_nil hne
    -- the second character is a digit, or the end of the number
    have hsecond : ∀ b l, ds ++ rest = b :: l → b ≠ 0x78 ∧ b ≠ 0x58 := by
      intro b l hb
      cases ds with
      | nil =>
        rw [List.nil_append] at hb
        exact (hrest b (by rw [hb]; rfl)).2
      | cons d ds =>
        cases hb
        exact (isDigit_plain b (hds b (by simp))).2.2.2
    cases hds' : ds ++ rest with
    | nil =>
      rw [List.cons_append, hds'] at h
      rcases h with h | h <;> cases h
    | cons b l =>
      rw [List.cons_append, hds'] at h
      obtain ⟨hl, hu⟩ := hsecond b l hds'
      rcases h with h | h
      · exact hl (by cases h; rfl)
      · exact hu (by cases h; rfl)
  unfold scanDigits
  simp only [true_and, if_neg hx, List.drop_zero, htake, if_neg hne, Nat.zero_add, hexValue]

/-- The same without a sign. -/
theorem scanSigned_append {ds rest : List UInt8} (hds : ∀ c ∈ ds, isDigit 16 c = true)
    (hne : ds ≠ []) (hrest : NumberEnds rest) :
    scanSigned 16 (ds ++ rest) = some (ds.length, number 16 ds) := by
  have hscan := scanDigits_append hds hne hrest
  obtain ⟨a, ds, rfl⟩ := List.exists_cons_of_ne_nil hne
  obtain ⟨-, hminus, hplus, -⟩ := isDigit_plain a (hds a (by simp))
  rw [List.cons_append] at hscan ⊢
  rw [scanSigned.eq_3, hscan]
  · rfl
  · exact fun _ h => hminus (List.cons.inj h).1
  · exact fun _ h => hplus (List.cons.inj h).1

/-- `%8x` takes the first eight digits of a number. -/
theorem scan_int16 {w : Nat} (hw : 0 < w) {ds rest : List UInt8}
    (hds : ∀ c ∈ ds, isDigit 16 c = true) (hne : ds ≠ []) (hrest : NumberEnds rest)
    (format : List Directive) (pos : Nat) :
    scan (.int 16 w :: format) (ds ++ rest) pos =
      { scan format (ds.drop w ++ rest) (pos + (ds.take w).length) with
        values := number 16 (ds.take w) ::
          (scan format (ds.drop w ++ rest) (pos + (ds.take w).length)).values } := by
  have hspace : (ds ++ rest).takeWhile isSpace = [] := by
    obtain ⟨a, ds, rfl⟩ := List.exists_cons_of_ne_nil hne
    rw [List.cons_append, List.takeWhile_cons, (isDigit_plain a (hds a (by simp))).1]
    rfl
  have hitem : (ds ++ rest).take w = ds.take w ++ rest.take (w - ds.length) := List.take_append
  have hends : NumberEnds (rest.take (w - ds.length)) := by
    intro c hc
    refine hrest c ?_
    cases rest with
    | nil => simp at hc
    | cons d rest =>
      cases hk : w - ds.length with
      | zero => simp [hk] at hc
      | succ k => simpa [hk] using hc
  have hscan : scanSigned 16 ((ds ++ rest).take w) =
      some ((ds.take w).length, number 16 (ds.take w)) := by
    rw [hitem]
    refine scanSigned_append (fun c hc => hds c (List.mem_of_mem_take hc)) ?_ hends
    rw [Ne, List.take_eq_nil_iff]
    exact not_or.2 ⟨by omega, hne⟩
  have hdrop : (ds ++ rest).drop (ds.take w).length = ds.drop w ++ rest := by
    rw [List.length_take]
    rcases Nat.le_total w ds.length with h | h
    · rw [Nat.min_eq_left h, List.drop_append_of_le_length h]
    · rw [Nat.min_eq_right h, List.drop_left, List.drop_of_length_le h, List.nil_append]
  rw [scan]
  simp only [hspace, List.length_nil, List.drop_zero, Nat.add_zero, if_neg (Nat.ne_of_gt hw), hscan,
    hdrop]

/-- `%x` takes all the digits of a number. -/
theorem scan_int16_all {ds rest : List UInt8} (hds : ∀ c ∈ ds, isDigit 16 c = true) (hne : ds ≠ [])
    (hrest : NumberEnds rest) (format : List Directive) (pos : Nat) :
    scan (.int 16 0 :: format) (ds ++ rest) pos =
      { scan format rest (pos + ds.length) with
        values := number 16 ds :: (scan format rest (pos + ds.length)).values } := by
  have hspace : (ds ++ rest).takeWhile isSpace = [] := by
    obtain ⟨a, ds, rfl⟩ := List.exists_cons_of_ne_nil hne
    rw [List.cons_append, List.takeWhile_cons, (isDigit_plain a (hds a (by simp))).1]
    rfl
  rw [scan]
  simp only [hspace, List.length_nil, List.drop_zero, Nat.add_zero, if_true,
    scanSigned_append hds hne hrest, List.drop_left]

/-- A number that was printed is read back. -/
theorem scan_hexNat {n : Nat} (hn : n < 2 ^ 32) {rest : List UInt8} (hrest : NumberEnds rest)
    (format : List Directive) (pos : Nat) :
    scan (.int 16 0 :: format) (hexNat n ++ rest) pos =
      { scan format rest (pos + (hexNat n).length) with
        values := UInt32.ofNat n :: (scan format rest (pos + (hexNat n).length)).values } := by
  have hnumber : number 16 (hexNat n) = UInt32.ofNat n := by
    rw [← UInt32.toNat_inj, toNat_number16 (isDigit_hexNat n) ((length_hexNat_le (by decide)).2 hn),
      hexValue_hexNat, UInt32.toNat_ofNat_of_lt' hn]
  rw [scan_int16_all (isDigit_hexNat n) (hexNat_ne_nil n) hrest, hnumber]

/-! ## How far a call reads -/

/-- A string ends at its terminator. -/
theorem cstr_append_zero (buf rest : List UInt8) : cstr (buf ++ 0 :: rest) = cstr buf := by
  induction buf with
  | nil => rfl
  | cons c buf ih =>
    unfold cstr at ih ⊢
    rw [List.cons_append, List.takeWhile_cons, List.takeWhile_cons, ih]

/-- A string is no longer than its buffer. -/
theorem length_cstr_le (buf : List UInt8) : (cstr buf).length ≤ buf.length :=
  (List.takeWhile_sublist _).length_le

/-- A conversion takes no more than there is. -/
theorem scanDigits_used_le {base used : Nat} {item : List UInt8} {v : Nat}
    (h : scanDigits base item = some (used, v)) : used ≤ item.length := by
  unfold scanDigits at h
  generalize (if base = 16 ∧ (item.take 2 = ascii "0x" ∨ item.take 2 = ascii "0X") then 2 else 0) =
    skip at h
  simp only [Option.ite_none_left_eq_some, Option.some.injEq, Prod.mk.injEq] at h
  obtain ⟨hne, rfl, -⟩ := h
  have hlen := (List.takeWhile_sublist (isDigit base) (l := item.drop skip)).length_le
  have hpos := List.length_pos_of_ne_nil hne
  rw [List.length_drop] at hlen
  omega

/-- The same with a sign. -/
theorem scanSigned_used_le {base used : Nat} {item : List UInt8} {v : UInt32}
    (h : scanSigned base item = some (used, v)) : used ≤ item.length := by
  unfold scanSigned at h
  split at h
  · obtain ⟨⟨u, w⟩, hscan, heq⟩ := Option.map_eq_some_iff.1 h
    cases heq
    exact Nat.succ_le_succ (scanDigits_used_le hscan)
  · obtain ⟨⟨u, w⟩, hscan, heq⟩ := Option.map_eq_some_iff.1 h
    cases heq
    exact Nat.succ_le_succ (scanDigits_used_le hscan)
  · obtain ⟨⟨u, w⟩, hscan, heq⟩ := Option.map_eq_some_iff.1 h
    cases heq
    exact scanDigits_used_le hscan

/-- The position that a call stores lies in its input. -/
theorem scan_position_le {format : List Directive} {input : List UInt8} {pos p : Nat}
    (h : (scan format input pos).position = some p) : p ≤ pos + input.length := by
  fun_induction scan format input pos with
  | case1 | case2 | case4 | case6 | case7 | case9 => cases h
  | case3 format a input pos ih =>
    have := ih h
    rw [List.length_cons]
    omega
  | case5 base width format input pos spaces item used v hscan r ih =>
    have hle := ih h
    have hused := scanSigned_used_le hscan
    have hitem : item.length = input.length - spaces := List.length_drop
    have hspaces : spaces ≤ input.length := (List.takeWhile_sublist _).length_le
    rw [List.length_drop] at hle
    have hwidth : used ≤ item.length := by
      split at hused
      · exact hused
      · exact hused.trans (by simp)
    omega
  | case8 format a input pos r ih =>
    have := ih h
    rw [List.length_cons]
    omega
  | case10 set format input pos used hused ih =>
    have hle := ih h
    have : used ≤ input.length := (List.takeWhile_sublist _).length_le
    rw [List.length_drop] at hle
    omega
  | case11 format input pos ih =>
    cases h
    omega

/-! ## Searching -/

/-- `strstr`: the text from the first occurrence on. -/
def strstr (needle : List UInt8) : List UInt8 → Option (List UInt8)
  | [] => if needle = [] then some [] else none
  | c :: text => if needle.isPrefixOf (c :: text) then some (c :: text) else strstr needle text

/-- Two texts differ where both have a character. -/
def clashes : List UInt8 → List UInt8 → Bool
  | a :: as, b :: bs => a != b || clashes as bs
  | _, _ => false

/-- No occurrence of the needle begins in the text, whatever follows it. -/
def passes (needle : List UInt8) : List UInt8 → Bool
  | [] => true
  | c :: text => clashes needle (c :: text) && passes needle text

/-- Texts that differ somewhere are no prefixes of each other. -/
theorem not_isPrefixOf_of_clashes :
    ∀ {needle text : List UInt8} (rest : List UInt8), clashes needle text = true →
      needle.isPrefixOf (text ++ rest) = false
  | [], _, _, h => by simp [clashes] at h
  | _ :: _, [], _, h => by simp [clashes] at h
  | a :: as, b :: bs, rest, h => by
    simp only [clashes, Bool.or_eq_true, bne_iff_ne] at h
    simp only [List.cons_append, List.isPrefixOf, Bool.and_eq_false_iff, beq_eq_false_iff_ne]
    exact h.imp id (not_isPrefixOf_of_clashes rest)

/-- A search passes a text in which no occurrence begins. -/
theorem strstr_append {needle : List UInt8} (rest : List UInt8) :
    ∀ {text : List UInt8}, passes needle text = true →
      strstr needle (text ++ rest) = strstr needle rest := by
  intro text
  induction text with
  | nil => exact fun _ => rfl
  | cons c text ih =>
    intro h
    simp only [passes, Bool.and_eq_true] at h
    have hno := not_isPrefixOf_of_clashes rest h.1
    rw [List.cons_append] at hno ⊢
    rw [strstr, hno]
    exact ih h.2

/-- A search stops at an occurrence. -/
theorem strstr_self {needle : List UInt8} (rest : List UInt8) (h : needle ≠ []) :
    strstr needle (needle ++ rest) = some (needle ++ rest) := by
  cases needle with
  | nil => exact absurd rfl h
  | cons c needle =>
    have hpre : (c :: needle).isPrefixOf (c :: needle ++ rest) = true :=
      List.isPrefixOf_iff_prefix.2 (List.prefix_append _ _)
    rw [List.cons_append] at hpre ⊢
    rw [strstr, if_pos hpre]

/-- A needle does not begin in a text without its first character. -/
theorem passes_of_not_mem {a : UInt8} {needle : List UInt8} :
    ∀ {text : List UInt8}, a ∉ text → passes (a :: needle) text = true := by
  intro text
  induction text with
  | nil => exact fun _ => rfl
  | cons c text ih =>
    intro h
    rw [List.mem_cons, not_or] at h
    simp only [passes, clashes, Bool.and_eq_true, Bool.or_eq_true, bne_iff_ne]
    exact ⟨.inl h.1, ih h.2⟩

end Scanf
