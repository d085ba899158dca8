import Blackmagic.Lib.Crc
import Blackmagic.Lib.Bytes
import Blackmagic.Lib.Word

/-!
# The two ways a CRC is calculated

`crc32Calc` takes a byte of the message with the help of a table of 256 words. The CRC unit of an
STM32 takes a big-endian word, and the bytes that are left over at the end of a range are taken bit
by bit (`crcTail`). All three leave the remainder of the bits they were given (`crc32Calc_eq`,
`msbs_readBe4`, `crcTail_eq`).
-/

namespace Blackmagic.Crc32

/-- 0x04c11db7. -/
def polynomial : BitVec 32 := 0x04c11db7

/-- The bits of a message, each byte from its most significant end. -/
def bits (data : List UInt8) : List Bool := data.flatMap fun b => Crc.msbs b.toBitVec 8

/-- `crc32_table`. -/
def crc32Table : List UInt32 := [
    0x00000000, 0x04c11db7, 0x09823b6e, 0x0d4326d9, 0x130476dc, 0x17c56b6b, 0x1a864db2, 0x1e475005,
    0x2608edb8, 0x22c9f00f, 0x2f8ad6d6, 0x2b4bcb61, 0x350c9b64, 0x31cd86d3, 0x3c8ea00a, 0x384fbdbd,
    0x4c11db70, 0x48d0c6c7, 0x4593e01e, 0x4152fda9, 0x5f15adac, 0x5bd4b01b, 0x569796c2, 0x52568b75,
    0x6a1936c8, 0x6ed82b7f, 0x639b0da6, 0x675a1011, 0x791d4014, 0x7ddc5da3, 0x709f7b7a, 0x745e66cd,
    0x9823b6e0, 0x9ce2ab57, 0x91a18d8e, 0x95609039, 0x8b27c03c, 0x8fe6dd8b, 0x82a5fb52, 0x8664e6e5,
    0xbe2b5b58, 0xbaea46ef, 0xb7a96036, 0xb3687d81, 0xad2f2d84, 0xa9ee3033, 0xa4ad16ea, 0xa06c0b5d,
    0xd4326d90, 0xd0f37027, 0xddb056fe, 0xd9714b49, 0xc7361b4c, 0xc3f706fb, 0xceb42022, 0xca753d95,
    0xf23a8028, 0xf6fb9d9f, 0xfbb8bb46, 0xff79a6f1, 0xe13ef6f4, 0xe5ffeb43, 0xe8bccd9a, 0xec7dd02d,
    0x34867077, 0x30476dc0, 0x3d044b19, 0x39c556ae, 0x278206ab, 0x23431b1c, 0x2e003dc5, 0x2ac12072,
    0x128e9dcf, 0x164f8078, 0x1b0ca6a1, 0x1fcdbb16, 0x018aeb13, 0x054bf6a4, 0x0808d07d, 0x0cc9cdca,
    0x7897ab07, 0x7c56b6b0, 0x71159069, 0x75d48dde, 0x6b93dddb, 0x6f52c06c, 0x6211e6b5, 0x66d0fb02,
    0x5e9f46bf, 0x5a5e5b08, 0x571d7dd1, 0x53dc6066, 0x4d9b3063, 0x495a2dd4, 0x44190b0d, 0x40d816ba,
    0xaca5c697, 0xa864db20, 0xa527fdf9, 0xa1e6e04e, 0xbfa1b04b, 0xbb60adfc, 0xb6238b25, 0xb2e29692,
    0x8aad2b2f, 0x8e6c3698, 0x832f1041, 0x87ee0df6, 0x99a95df3, 0x9d684044, 0x902b669d, 0x94ea7b2a,
    0xe0b41de7, 0xe4750050, 0xe9362689, 0xedf73b3e, 0xf3b06b3b, 0xf771768c, 0xfa325055, 0xfef34de2,
    0xc6bcf05f, 0xc27dede8, 0xcf3ecb31, 0xcbffd686, 0xd5b88683, 0xd1799b34, 0xdc3abded, 0xd8fba05a,
    0x690ce0ee, 0x6dcdfd59, 0x608edb80, 0x644fc637, 0x7a089632, 0x7ec98b85, 0x738aad5c, 0x774bb0eb,
    0x4f040d56, 0x4bc510e1, 0x46863638, 0x42472b8f, 0x5c007b8a, 0x58c1663d, 0x558240e4, 0x51435d53,
    0x251d3b9e, 0x21dc2629, 0x2c9f00f0, 0x285e1d47, 0x36194d42, 0x32d850f5, 0x3f9b762c, 0x3b5a6b9b,
    0x0315d626, 0x07d4cb91, 0x0a97ed48, 0x0e56f0ff, 0x1011a0fa, 0x14d0bd4d, 0x19939b94, 0x1d528623,
    0xf12f560e, 0xf5ee4bb9, 0xf8ad6d60, 0xfc6c70d7, 0xe22b20d2, 0xe6ea3d65, 0xeba91bbc, 0xef68060b,
    0xd727bbb6, 0xd3e6a601, 0xdea580d8, 0xda649d6f, 0xc423cd6a, 0xc0e2d0dd, 0xcda1f604, 0xc960ebb3,
    0xbd3e8d7e, 0xb9ff90c9, 0xb4bcb610, 0xb07daba7, 0xae3afba2, 0xaafbe615, 0xa7b8c0cc, 0xa379dd7b,
    0x9b3660c6, 0x9ff77d71, 0x92b45ba8, 0x9675461f, 0x8832161a, 0x8cf30bad, 0x81b02d74, 0x857130c3,
    0x5d8a9099, 0x594b8d2e, 0x5408abf7, 0x50c9b640, 0x4e8ee645, 0x4a4ffbf2, 0x470cdd2b, 0x43cdc09c,
    0x7b827d21, 0x7f436096, 0x7200464f, 0x76c15bf8, 0x68860bfd, 0x6c47164a, 0x61043093, 0x65c52d24,
    0x119b4be9, 0x155a565e, 0x18197087, 0x1cd86d30, 0x029f3d35, 0x065e2082, 0x0b1d065b, 0x0fdc1bec,
    0x3793a651, 0x3352bbe6, 0x3e119d3f, 0x3ad08088, 0x2497d08d, 0x2056cd3a, 0x2d15ebe3, 0x29d4f654,
    0xc5a92679, 0xc1683bce, 0xcc2b1d17, 0xc8ea00a0, 0xd6ad50a5, 0xd26c4d12, 0xdf2f6bcb, 0xdbee767c,
    0xe3a1cbc1, 0xe760d676, 0xea23f0af, 0xeee2ed18, 0xf0a5bd1d, 0xf464a0aa, 0xf9278673, 0xfde69bc4,
    0x89b8fd09, 0x8d79e0be, 0x803ac667, 0x84fbdbd0, 0x9abc8bd5, 0x9e7d9662, 0x933eb0bb, 0x97ffad0c,
    0xafb010b1, 0xab710d06, 0xa6322bdf, 0xa2f33668, 0xbcb4666d, 0xb8757bda, 0xb5365d03, 0xb1f740b4]

/-- `crc32_calc`. -/
def crc32Calc (crc : UInt32) (data : UInt8) : UInt32 :=
  (crc <<< 8) ^^^ crc32Table[(((crc >>> 24) ^^^ data.toUInt32) &&& 0xff).toNat]?.getD 0

/-- `read_be4`. -/
def readBe4 (buffer : Nat → UInt8) (offset : Nat) : UInt32 :=
  ((buffer offset).toUInt32 <<< 24) ||| ((buffer (offset + 1)).toUInt32 <<< 16) |||
    ((buffer (offset + 2)).toUInt32 <<< 8) ||| (buffer (offset + 3)).toUInt32

/-- The CRC unit of an STM32 is written a word: its data register takes the word from the most
significant bit on. -/
def crcUnitWrite (dr word : UInt32) : UInt32 :=
  ⟨Crc.remainder polynomial dr.toBitVec (Crc.msbs word.toBitVec 32)⟩

/-- A step of the loop of `stm32_crc32` over the bits of a byte. -/
def tailBit (crc : UInt32) : UInt32 :=
  if crc &&& 0x80000000 ≠ 0 then (crc <<< 1) ^^^ 0x4c11db7 else crc <<< 1

/-- What `stm32_crc32` does with a byte behind the last whole word. -/
def crcTail (crc : UInt32) (data : UInt8) : UInt32 :=
  tailBit^[8] (crc ^^^ (data.toUInt32 <<< 24))

/-- The entries of the table are remainders of one byte. -/
theorem crc32Table_eq : ∀ i < 256, crc32Table[i]?.getD 0 =
    ⟨Crc.steps polynomial 8 (Crc.atTop (BitVec.ofNat 8 i))⟩ := by
  decide +kernel

/-! ## What they calculate -/

section
variable (crc : UInt32) (data : UInt8)

/-- The CRC unit takes the remainder of a word. -/
@[simp] theorem toBitVec_crcUnitWrite (word : UInt32) :
    (crcUnitWrite crc word).toBitVec =
      Crc.remainder polynomial crc.toBitVec (Crc.msbs word.toBitVec 32) := rfl

/-- The index into the table, as a byte. -/
theorem index_eq : (((crc >>> 24) ^^^ data.toUInt32) &&& 0xff).toNat =
    ((crc.toBitVec >>> 24).setWidth 8 ^^^ data.toBitVec).toNat := by
  have hleft : (((crc >>> 24) ^^^ data.toUInt32) &&& 0xff).toNat =
      (crc.toNat >>> 24 ^^^ data.toNat) &&& (2 ^ 8 - 1) :=
    rfl
  have hright : ((crc.toBitVec >>> 24).setWidth 8 ^^^ data.toBitVec).toNat =
      crc.toNat >>> 24 % 2 ^ 8 ^^^ data.toNat := by
    rw [BitVec.toNat_xor, BitVec.toNat_setWidth, BitVec.toNat_ushiftRight]
    rfl
  rw [hleft, hright, Nat.and_two_pow_sub_one_eq_mod, Nat.xor_mod_two_pow,
    Nat.mod_eq_of_lt data.toNat_lt]

/-- `crc32_calc` takes the remainder of a byte. -/
theorem crc32Calc_eq : (crc32Calc crc data).toBitVec =
    Crc.remainder polynomial crc.toBitVec (Crc.msbs data.toBitVec 8) := by
  rw [crc32Calc, index_eq, crc32Table_eq _ (BitVec.isLt _), BitVec.ofNat_toNat, BitVec.setWidth_eq,
    Crc.feed_table (by decide)]
  rfl

/-- One turn of the tail feeds a bit. -/
theorem tailBit_eq : (tailBit crc).toBitVec = Crc.feed polynomial crc.toBitVec false := by
  rw [tailBit, Crc.feed, Bool.xor_false]
  have hmsb : crc &&& 0x80000000 ≠ 0 ↔ crc.toBitVec.msb = true := by
    have hbit := Word.toNat_and_bit crc (show 31 < 32 by decide)
    have hlt := crc.toNat_lt
    rw [BitVec.msb_eq_decide, decide_eq_true_iff, ← UInt32.toNat_inj.ne]
    change (crc &&& UInt32.ofNat (2 ^ 31)).toNat ≠ 0 ↔ 2 ^ 31 ≤ crc.toNat
    omega
  simp only [hmsb]
  split
  · rfl
  · rfl

/-- The tail takes the remainder of a byte. -/
theorem crcTail_eq : (crcTail crc data).toBitVec =
    Crc.remainder polynomial crc.toBitVec (Crc.msbs data.toBitVec 8) := by
  have hsteps : ∀ n c, (tailBit^[n] c).toBitVec = Crc.steps polynomial n c.toBitVec := by
    intro n
    induction n with
    | zero => exact fun _ => rfl
    | succ n ih =>
      intro c
      rw [Function.iterate_succ_apply, ih, tailBit_eq, Crc.steps]
  rw [crcTail, hsteps, UInt32.toBitVec_xor, ← Crc.feed_steps (by decide)]
  rfl

/-- A byte that is shifted into a word keeps its bits. -/
theorem toNat_shiftByte {n : Nat} (hn : n ≤ 24) :
    (data.toUInt32 <<< UInt32.ofNat n).toNat = data.toNat <<< n := by
  have hdata := data.toNat_lt
  have hpow : 2 ^ n ≤ 2 ^ 24 := Nat.pow_le_pow_right (by decide) hn
  have hlt : data.toNat <<< n < 2 ^ 32 := by
    rw [Nat.shiftLeft_eq]
    exact Nat.lt_of_lt_of_le (Nat.mul_lt_mul_of_lt_of_le hdata hpow (by decide)) (by decide)
  rw [UInt32.toNat_shiftLeft, UInt32.toNat_ofNat', UInt8.toNat_toUInt32]
  rw [Nat.mod_mod_of_dvd n (by decide), Nat.mod_eq_of_lt (show n < 32 by omega),
    Nat.mod_eq_of_lt hlt]

/-- A big-endian word has the bits of its bytes in their order. -/
theorem msbs_readBe4 (buffer : Nat → UInt8) (offset : Nat) :
    Crc.msbs (readBe4 buffer offset).toBitVec 32 =
      bits ((List.range 4).map fun i => buffer (offset + i)) := by
  have happend : (readBe4 buffer offset).toBitVec = (buffer offset).toBitVec ++
      (buffer (offset + 1)).toBitVec ++
      (buffer (offset + 2)).toBitVec ++ (buffer (offset + 3)).toBitVec := by
    refine BitVec.eq_of_toNat_eq ?_
    rw [BitVec.toNat_append, BitVec.toNat_append, BitVec.toNat_append]
    simp only [Nat.shiftLeft_or_distrib, ← Nat.shiftLeft_add]
    rw [readBe4, UInt32.toNat_toBitVec, UInt32.toNat_or, UInt32.toNat_or, UInt32.toNat_or]
    exact congrArg₂ _
      (congrArg₂ _
      (congrArg₂ _ (toNat_shiftByte _ (Nat.le_refl 24)) (toNat_shiftByte _ (by decide)))
      (toNat_shiftByte _ (by decide))) rfl
  have hmsbs : ∀ x y z t : BitVec 8, Crc.msbs (x ++ y ++ z ++ t) (8 + 8 + 8 + 8) =
      Crc.msbs x 8 ++ Crc.msbs y 8 ++ Crc.msbs z 8 ++ Crc.msbs t 8 := by
    intro x y z t
    rw [Crc.msbs_append, Crc.msbs_append, Crc.msbs_append]
  rw [happend]
  refine (hmsbs _ _ _ _).trans ?_
  simp [bits, List.range_succ]

end

end Blackmagic.Crc32
