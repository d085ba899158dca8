import Blackmagic.Crc.Table
import Blackmagic.Lib.Effect

/-!
# The CRC of a range of the target's memory

`generic_crc32` reads the range 128 bytes at a time and `stm32_crc32` 1024 bytes at a time, with the
same loop around it (`readRange`): an offset of 32 bits is moved on by the size of the buffer for as
long as it is below the length. An offset that is moved past its last multiple of that size comes
back to zero, so a range that reaches into the last buffer of the address space is read for ever
(`readRange_endless`); of every other one the result is the remainder of its bytes (`readRange_ok`).
-/

namespace Blackmagic.Crc32

open Effect

/-- What a request meets: the readings of the clock one after the other, and what each read of the
target leaves in the buffer, or nothing if it fails. -/
structure Host where
  clock : Nat → UInt32
  read : Nat → (addr len : UInt32) → Option (Nat → UInt8)

/-- How often the clock was read and the target was read, and the characters sent to GDB on the
way. -/
structure Use where
  ticks : Nat
  reads : Nat
  sent : List UInt8

/-- Why a request does not come to its end. -/
inductive Stop
  | divideByZero
  | notYet
  deriving DecidableEq, Repr

abbrev CrcM := EStateM Stop Use

variable (host : Host)

/-- `platform_time_ms`. -/
def timeMs : CrcM UInt32 := do
  let u ← get
  set { u with ticks := u.ticks + 1 }
  return host.clock u.ticks

/-- `target_mem_read`. -/
def targetMemRead (src len : UInt32) : CrcM (Option (Nat → UInt8)) := do
  let u ← get
  set { u with reads := u.reads + 1 }
  return host.read u.reads src len

/-- `gdb_if_putchar`. -/
def gdbIfPutchar (c : UInt8) : CrcM Unit := modify fun u => { u with sent := u.sent ++ [c] }

/-- GDB is sent a character when a second has passed. -/
def keepAlive (lastTime : UInt32) : CrcM UInt32 := do
  let actualTime ← timeMs host
  if lastTime + 1000 < actualTime then
    gdbIfPutchar 0
    return actualTime
  else return lastTime

/-- `MIN`. -/
def minU32 (a b : UInt32) : UInt32 := if a < b then a else b

/-- The loop over a range. A read is of `whole` bytes where `feed` takes what is left of the
range. -/
def readRange (size : UInt32) (whole : UInt32 → UInt32)
    (feed : UInt32 → (Nat → UInt8) → Nat → UInt32) (base len : UInt32) :
    Nat → (offset lastTime crc : UInt32) → CrcM (Option UInt32)
  | 0, _, _, _ => throw .notYet
  | fuel + 1, offset, lastTime, crc =>
    if offset < len then do
      let lastTime ← keepAlive host lastTime
      let readLen := minU32 size (len - offset)
      match ← targetMemRead host (base + offset) (whole readLen) with
      | none => return none
      | some bytes =>
        readRange size whole feed base len fuel (offset + size) lastTime
          (feed crc bytes readLen.toNat)
    else return some crc

/-- `(read_len + 3U) & ~3U`. -/
def wholeWords (readLen : UInt32) : UInt32 := (readLen + 3) &&& ~~~3

/-- The loop of `generic_crc32` over a buffer. -/
def feedBytes (crc : UInt32) (bytes : Nat → UInt8) (n : Nat) : UInt32 :=
  (List.range n).foldl (fun crc i => crc32Calc crc (bytes i)) crc

/-- `generic_crc32`. -/
def genericCrc32 (base len : UInt32) (fuel : Nat) : CrcM (Option UInt32) := do
  let lastTime ← timeMs host
  readRange host 128 wholeWords feedBytes base len fuel 0 lastTime 0xffffffff

/-- The loop of `stm32_crc32` over a buffer. -/
def feedWords (dr : UInt32) (bytes : Nat → UInt8) (n : Nat) : UInt32 :=
  (List.range ((n + 3) / 4)).foldl (fun dr i => crcUnitWrite dr (readBe4 bytes (4 * i))) dr

/-- The bytes behind the last whole word. -/
def feedTail (crc : UInt32) (bytes : Nat → UInt8) (n : Nat) : UInt32 :=
  (List.range n).foldl (fun crc i => crcTail crc (bytes i)) crc

/-- `stm32_crc32`. A reset leaves the CRC unit with all bits set. -/
def stm32Crc32 (base len : UInt32) (fuel : Nat) : CrcM (Option UInt32) := do
  let lastTime ← timeMs host
  let adjustedLen := len &&& ~~~3
  match ← readRange host 1024 id feedWords base adjustedLen fuel 0 lastTime 0xffffffff with
  | none => return none
  | some crc =>
    let remainder := len - adjustedLen
    if remainder ≠ 0 then
      match ← targetMemRead host (base + adjustedLen) remainder with
      | none => return none
      | some bytes => return some (feedTail crc bytes remainder.toNat)
    else return some crc

/-! ## A buffer of the message -/

/-- The remainder of a CRC as bits. -/
def rest (crc : UInt32) (data : List UInt8) : BitVec 32 :=
  Crc.remainder polynomial crc.toBitVec (bits data)

/-- The bits of two messages. -/
theorem bits_append (l m : List UInt8) : bits (l ++ m) = bits l ++ bits m := List.flatMap_append

/-- A message is fed in two parts. -/
theorem rest_append (crc crc' : UInt32) (l m : List UInt8) (h : crc'.toBitVec = rest crc l) :
    rest crc (l ++ m) = rest crc' m := by
  rw [rest, rest, bits_append, Crc.remainder_append, h]
  rfl

/-- A loop that takes a byte in each turn. -/
theorem foldl_bytes {step : UInt32 → UInt8 → UInt32}
    (hstep : ∀ crc b, (step crc b).toBitVec =
      Crc.remainder polynomial crc.toBitVec (Crc.msbs b.toBitVec 8))
    (crc : UInt32) (bytes : Nat → UInt8) (n : Nat) :
    ((List.range n).foldl (fun crc i => step crc (bytes i)) crc).toBitVec =
      rest crc ((List.range n).map bytes) := by
  induction n with
  | zero => rfl
  | succ n ih =>
    rw [List.range_succ, List.foldl_append, List.map_append, rest_append _ _ _ _ ih]
    rw [List.foldl_cons, List.foldl_nil, hstep, rest, bits, List.map_cons, List.map_nil,
      List.flatMap_singleton]

/-- Feeding bytes one by one takes the remainder. -/
theorem feedBytes_eq (crc : UInt32) (bytes : Nat → UInt8) (n : Nat) :
    (feedBytes crc bytes n).toBitVec = rest crc ((List.range n).map bytes) :=
  foldl_bytes crc32Calc_eq crc bytes n

/-- So does feeding the tail bit by bit. -/
theorem feedTail_eq (crc : UInt32) (bytes : Nat → UInt8) (n : Nat) :
    (feedTail crc bytes n).toBitVec = rest crc ((List.range n).map bytes) :=
  foldl_bytes crcTail_eq crc bytes n

/-- The values of a function on two ranges. -/
theorem range_map_add {α : Type} (f : Nat → α) (m n : Nat) :
    (List.range (m + n)).map f = (List.range m).map f ++ (List.range n).map fun i => f (m + i) := by
  rw [List.range_add, List.map_append, List.map_map]
  rfl

/-- So does feeding whole words. -/
theorem feedWords_eq (crc : UInt32) (bytes : Nat → UInt8) {n : Nat} (hn : 4 ∣ n) :
    (feedWords crc bytes n).toBitVec = rest crc ((List.range n).map bytes) := by
  obtain ⟨words, rfl⟩ := hn
  rw [feedWords, show (4 * words + 3) / 4 = words by omega]
  induction words with
  | zero => rfl
  | succ words ih =>
    rw [List.range_succ, List.foldl_append, Nat.mul_succ, range_map_add, rest_append _ _ _ _ ih]
    rw [rest, ← msbs_readBe4]
    exact toBitVec_crcUnitWrite _ _

/-! ## A turn of the loop -/

section
variable {host : Host} {u : Use}

/-- A keep-alive looks at the clock once. -/
theorem keepAlive_run (host : Host) (u : Use) (lastTime : UInt32) :
    ∃ t u', keepAlive host lastTime u = .ok t u' ∧ u'.ticks = u.ticks + 1 ∧ u'.reads = u.reads := by
  rw [keepAlive, run_bind_ok
    (show timeMs host u = .ok (host.clock u.ticks) { u with ticks := u.ticks + 1 } from rfl)]
  split
  · exact ⟨_, _, rfl, rfl, rfl⟩
  · exact ⟨_, _, rfl, rfl, rfl⟩

variable {size : UInt32} {whole : UInt32 → UInt32} {feed : UInt32 → (Nat → UInt8) → Nat → UInt32}
  {base len : UInt32}
  {offset lastTime crc : UInt32}

/-- A range that has been read. -/
theorem readRange_done (fuel : Nat) (h : ¬ offset < len) :
    readRange host size whole feed base len (fuel + 1) offset lastTime crc u =
      .ok (some crc) u := by
  rw [readRange, if_neg h]
  rfl

/-- A read that fails ends the range. -/
theorem readRange_failed (feed : UInt32 → (Nat → UInt8) → Nat → UInt32) (lastTime crc : UInt32)
    (fuel : Nat) (h : offset < len)
    (hread : host.read u.reads (base + offset) (whole (minU32 size (len - offset))) = none) :
    ∃ u', readRange host size whole feed base len (fuel + 1) offset lastTime crc u = .ok none u' ∧
      u'.ticks = u.ticks + 1 := by
  obtain ⟨t, u', hkeep, hticks, hreads⟩ := keepAlive_run host u lastTime
  refine ⟨{ u' with reads := u'.reads + 1 }, ?_, hticks⟩
  rw [readRange, if_pos h]
  refine (run_bind_ok hkeep).trans ?_
  rw [← hreads] at hread
  refine (run_bind_ok (show targetMemRead host _ _ u' = .ok _ { u' with reads := u'.reads + 1 }
    from rfl)).trans ?_
  rw [hread]
  rfl

/-- A read that succeeds is fed, and the range goes on. -/
theorem readRange_next (feed : UInt32 → (Nat → UInt8) → Nat → UInt32) (lastTime crc : UInt32)
    (fuel : Nat) {bytes : Nat → UInt8} (h : offset < len)
    (hread : host.read u.reads (base + offset) (whole (minU32 size (len - offset))) = some bytes) :
    ∃ t u', readRange host size whole feed base len (fuel + 1) offset lastTime crc u =
        readRange host size whole feed base len fuel (offset + size) t
          (feed crc bytes (minU32 size (len - offset)).toNat) u' ∧
      u'.ticks = u.ticks + 1 ∧ u'.reads = u.reads + 1 := by
  obtain ⟨t, u', hkeep, hticks, hreads⟩ := keepAlive_run host u lastTime
  refine ⟨t, { u' with reads := u'.reads + 1 }, ?_, hticks, congrArg (· + 1) hreads⟩
  rw [readRange, if_pos h]
  refine (run_bind_ok hkeep).trans ?_
  rw [← hreads] at hread
  refine (run_bind_ok (show targetMemRead host _ _ u' = .ok _ { u' with reads := u'.reads + 1 }
    from rfl)).trans ?_
  rw [hread]

/-! ## Ranges of a memory -/

/-- Every read succeeds with what a memory holds. -/
def Reads (host : Host) (mem : UInt32 → UInt8) : Prop :=
  ∀ n addr len, host.read n addr len = some fun i => mem (addr + UInt32.ofNat i)

/-- The bytes of a range, whose addresses wrap. -/
def rangeBytes (mem : UInt32 → UInt8) (base : UInt32) (len : Nat) : List UInt8 :=
  (List.range len).map fun i => mem (base + UInt32.ofNat i)

/-- The bytes of two ranges, one behind the other. -/
theorem rangeBytes_add (mem : UInt32 → UInt8) (base : UInt32) (m n : Nat) :
    rangeBytes mem base (m + n) = rangeBytes mem base m ++ rangeBytes mem (base + UInt32.ofNat m)
      n := by
  rw [rangeBytes, range_map_add, rangeBytes, rangeBytes]
  simp only [UInt32.ofNat_add, UInt32.add_assoc]

/-- A range begins with a buffer of it. -/
theorem rangeBytes_chunk (mem : UInt32 → UInt8) (base size : UInt32) (n : Nat) :
    rangeBytes mem base n = rangeBytes mem base (min size.toNat n) ++ rangeBytes mem (base + size)
      (n - size.toNat) := by
  rcases Nat.le_total size.toNat n with h | h
  · rw [Nat.min_eq_left h]
    conv_lhs => rw [← Nat.add_sub_cancel' h, rangeBytes_add, UInt32.ofNat_toNat]
  · rw [Nat.min_eq_right h, Nat.sub_eq_zero_of_le h]
    exact (List.append_nil _).symm

/-- The smaller of two words. -/
theorem toNat_minU32 (a b : UInt32) : (minU32 a b).toNat = min a.toNat b.toNat := by
  rw [minU32]
  split
  · exact (Nat.min_eq_left (Nat.le_of_lt (UInt32.lt_iff_toNat_lt.1 ‹_›))).symm
  · exact (Nat.min_eq_right (UInt32.le_iff_toNat_le.1 (UInt32.not_lt.1 ‹_›))).symm

variable {mem : UInt32 → UInt8} {unit : Nat}

/-- A range that ends below the last buffer of the address space leaves the remainder of its
bytes. -/
theorem readRange_ok (size : UInt32) (whole : UInt32 → UInt32)
    (feed : UInt32 → (Nat → UInt8) → Nat → UInt32) (base len : UInt32) (unit : Nat)
    (hreads : Reads host mem) (hsize : 0 < size.toNat) (hunit : unit ∣ size.toNat)
    (hfeed : ∀ crc bytes n, unit ∣ n → (feed crc bytes n).toBitVec =
    rest crc ((List.range n).map bytes))
    (hlen : len.toNat + size.toNat ≤ 2 ^ 32) (hlenunit : unit ∣ len.toNat) (fuel : Nat) :
    ∀ (offset lastTime crc : UInt32) (u : Use), unit ∣ offset.toNat → size.toNat ∣ offset.toNat →
      len.toNat - offset.toNat + size.toNat ≤ fuel * size.toNat →
      ∃ crc' u', readRange host size whole feed base len fuel offset lastTime crc u =
        .ok (some crc') u' ∧
        crc'.toBitVec = rest crc (rangeBytes mem (base + offset) (len.toNat - offset.toNat)) := by
  induction fuel with
  | zero => intro offset lastTime crc u _ _ hfuel; omega
  | succ fuel ih =>
    intro offset lastTime crc u hoffunit hoffset hfuel
    by_cases hdone : offset < len
    · have hlt := UInt32.lt_iff_toNat_lt.1 hdone
      have hsub : (len - offset).toNat = len.toNat - offset.toNat :=
        UInt32.toNat_sub_of_le _ _ (UInt32.le_iff_toNat_le.2 (Nat.le_of_lt hlt))
      have hnext : (offset + size).toNat = offset.toNat + size.toNat := by
        rw [UInt32.toNat_add, Nat.mod_eq_of_lt (by omega)]
      obtain ⟨t, u', hrun, -, -⟩ := readRange_next feed lastTime crc fuel hdone
        (hreads u.reads (base + offset) (whole (minU32 size (len - offset))))
      rw [hrun, toNat_minU32, hsub]
      have hn : unit ∣ min size.toNat (len.toNat - offset.toNat) := by
        rcases Nat.le_total size.toNat (len.toNat - offset.toNat) with h | h
        · rw [Nat.min_eq_left h]
          exact hunit
        · rw [Nat.min_eq_right h]
          exact Nat.dvd_sub hlenunit hoffunit
      have hfuel' : len.toNat - (offset.toNat + size.toNat) + size.toNat ≤ fuel * size.toNat := by
        rw [Nat.succ_mul] at hfuel
        rcases Nat.le_total (len.toNat - offset.toNat) size.toNat with h | h
        · have := Nat.le_mul_of_pos_left size.toNat
            (show 0 < fuel from Nat.pos_of_ne_zero fun h0 => by subst h0; omega)
          omega
        · omega
      obtain ⟨crc', u'', hloop, hcrc⟩ :=
        ih (offset + size) t _ u' (hnext ▸ Nat.dvd_add hoffunit hunit)
        (hnext ▸ Nat.dvd_add hoffset (Nat.dvd_refl _)) (by rw [hnext]; exact hfuel' )
      refine ⟨crc', u'', hloop, hcrc.trans ?_⟩
      rw [rangeBytes_chunk mem (base + offset) size, hnext, UInt32.add_assoc, Nat.sub_sub]
      exact (rest_append crc _ _ _ (hfeed _ _ _ hn)).symm
    · have hle : len.toNat ≤ offset.toNat :=
        Nat.le_of_not_lt fun h => hdone (UInt32.lt_iff_toNat_lt.2 h)
      refine ⟨crc, u, readRange_done fuel hdone, ?_⟩
      rw [Nat.sub_eq_zero_of_le hle]
      rfl

/-- A range that reaches into the last buffer of the address space is read for ever. -/
theorem readRange_endless (size : UInt32) (whole : UInt32 → UInt32)
    (feed : UInt32 → (Nat → UInt8) → Nat → UInt32) (base len : UInt32)
    (hread : ∀ n addr len, host.read n addr len ≠ none) (hdvd : size.toNat ∣ 2 ^ 32)
    (hlen : 2 ^ 32 < len.toNat + size.toNat) (fuel : Nat) :
    ∀ (offset lastTime crc : UInt32) (u : Use), size.toNat ∣ offset.toNat →
      ∃ u', readRange host size whole feed base len fuel offset lastTime crc u =
        .error .notYet u' := by
  induction fuel with
  | zero => exact fun offset lastTime crc u _ => ⟨u, rfl⟩
  | succ fuel ih =>
    intro offset lastTime crc u hoffset
    have hinside : offset.toNat + size.toNat ≤ 2 ^ 32 := by
      obtain ⟨turns, hturns⟩ := hdvd
      obtain ⟨turn, hturn⟩ := hoffset
      have hlt := offset.toNat_lt
      rw [hturn, hturns] at hlt ⊢
      rw [← Nat.mul_succ]
      exact Nat.mul_le_mul_left _ (Nat.lt_of_mul_lt_mul_left hlt)
    obtain ⟨bytes, hbytes⟩ :=
      Option.ne_none_iff_exists'.1
      (hread u.reads (base + offset) (whole (minU32 size (len - offset))))
    obtain ⟨t, u', hrun, -, -⟩ := readRange_next feed lastTime crc fuel
      (UInt32.lt_iff_toNat_lt.2 (show offset.toNat < len.toNat by omega)) hbytes
    rw [hrun]
    refine ih _ _ _ _ ?_
    rw [UInt32.toNat_add]
    exact (Nat.dvd_mod_iff hdvd).2 (Nat.dvd_add hoffset (Nat.dvd_refl _))

end

/-! ## The two implementations -/

section
variable {host : Host} {mem : UInt32 → UInt8} {base len : UInt32}

/-- Where a calculation starts. -/
def start : Use := ⟨0, 0, []⟩

/-- A calculation comes to its end with a result. -/
def Returns (m : Nat → CrcM (Option UInt32)) (crc : UInt32) : Prop :=
  ∃ fuel u, m fuel start = .ok (some crc) u

/-- The CRC of a range, bit by bit. -/
def crcOf (mem : UInt32 → UInt8) (base len : UInt32) : BitVec 32 :=
  Crc.remainder polynomial (BitVec.allOnes 32) (bits (rangeBytes mem base len.toNat))

/-- `generic_crc32` gives the checksum of a range that does not wrap. -/
theorem genericCrc32_ok (base : UInt32) (hreads : Reads host mem)
    (hlen : len.toNat + 128 ≤ 2 ^ 32) :
    ∃ crc, Returns (genericCrc32 host base len) crc ∧ crc.toBitVec = crcOf mem base len := by
  obtain ⟨crc, u, hrun, hcrc⟩ := readRange_ok 128 wholeWords feedBytes base len 1 hreads
    (by decide) (Nat.one_dvd _) (fun crc bytes n _ => feedBytes_eq crc bytes n) hlen (Nat.one_dvd _)
    (len.toNat + 2) 0 (host.clock 0) 0xffffffff ⟨1, 0, []⟩ (Nat.one_dvd _) (Nat.dvd_zero _)
    (by simp only [UInt32.reduceToNat]; omega)
  refine ⟨crc, ⟨len.toNat + 2, u, hrun⟩, hcrc.trans ?_⟩
  rw [UInt32.add_zero]
  rfl

/-- A range whose offset wraps is never done. -/
theorem genericCrc32_endless (hread : ∀ n addr len, host.read n addr len ≠ none)
    (hlen : 2 ^ 32 < len.toNat + 128) (fuel : Nat) (u : Use) :
    ∃ u', genericCrc32 host base len fuel u = .error .notYet u' :=
  readRange_endless 128 wholeWords feedBytes base len hread (by decide) hlen fuel 0 _ _ _
    (Nat.dvd_zero _)

/-- The whole words of a length. -/
theorem toNat_adjustedLen (len : UInt32) : (len &&& ~~~3).toNat = len.toNat / 4 * 4 := by
  refine (Word.toNat_and_high len (show 2 < 32 by decide)).trans ?_
  omega

/-- `stm32_crc32` gives the checksum of a range that does not wrap. -/
theorem stm32Crc32_ok (base : UInt32) (hreads : Reads host mem)
    (hlen : len.toNat / 4 * 4 + 1024 ≤ 2 ^ 32) :
    ∃ crc, Returns (stm32Crc32 host base len) crc ∧ crc.toBitVec = crcOf mem base len := by
  have hadjusted := toNat_adjustedLen len
  obtain ⟨crc, u, hrun, hcrc⟩ :=
    readRange_ok 1024 id feedWords base (len &&& ~~~3) 4 hreads (by decide) (by decide)
    feedWords_eq
    (by rw [hadjusted]; exact hlen) (by rw [hadjusted]; exact Nat.dvd_mul_left _ _)
    (len.toNat + 2) 0 (host.clock 0) 0xffffffff ⟨1, 0, []⟩ (Nat.dvd_zero _) (Nat.dvd_zero _)
    (by simp only [hadjusted, UInt32.reduceToNat]; omega)
  have hremainder : (len - (len &&& ~~~3)).toNat = len.toNat % 4 := by
    rw [UInt32.toNat_sub_of_le _ _ (UInt32.le_iff_toNat_le.2 (by omega)), hadjusted]
    omega
  have hbytes : rangeBytes mem base len.toNat = rangeBytes mem base (len.toNat / 4 * 4) ++
      rangeBytes mem (base + (len &&& ~~~3)) (len.toNat % 4) := by
    have hsplit : len.toNat = (len &&& ~~~3).toNat + len.toNat % 4 := by omega
    conv_lhs => rw [hsplit, rangeBytes_add, UInt32.ofNat_toNat, hadjusted]
  rw [UInt32.add_zero, hadjusted] at hcrc
  have hwords : ∀ crc' : UInt32,
      crc'.toBitVec = rest crc (rangeBytes mem (base + (len &&& ~~~3)) (len.toNat % 4)) →
      crc'.toBitVec = crcOf mem base len := by
    intro crc' hcrc'
    rw [hcrc', crcOf, hbytes]
    exact (rest_append 0xffffffff crc _ _ hcrc).symm
  have hloop : stm32Crc32 host base len (len.toNat + 2) start = _ :=
    (run_bind_ok (show timeMs host start = .ok (host.clock 0) ⟨1, 0, []⟩ from rfl)).trans
      (run_bind_ok hrun)
  by_cases htail : len - (len &&& ~~~3) = 0
  · refine ⟨crc, ⟨len.toNat + 2, u, hloop.trans ?_⟩, hwords crc ?_⟩
    · dsimp only
      rw [if_neg (not_not.2 htail)]
      rfl
    · rw [← hremainder, htail]
      rfl
  · refine ⟨feedTail crc (fun i => mem (base + (len &&& ~~~3) + UInt32.ofNat i))
      (len - (len &&& ~~~3)).toNat,
      ⟨len.toNat + 2, { u with reads := u.reads + 1 }, hloop.trans ?_⟩, hwords _ ?_⟩
    · dsimp only
      rw [if_pos htail]
      refine (run_bind_ok (show targetMemRead host _ _ u = .ok _ { u with reads := u.reads + 1 }
        from rfl)).trans ?_
      rw [hreads]
      rfl
    · rw [feedTail_eq, hremainder]
      rfl

/-- A range whose offset wraps is never done there either. -/
theorem stm32Crc32_endless (hread : ∀ n addr len, host.read n addr len ≠ none)
    (hlen : 2 ^ 32 < len.toNat / 4 * 4 + 1024) (fuel : Nat) (u : Use) :
    ∃ u', stm32Crc32 host base len fuel u = .error .notYet u' := by
  obtain ⟨u', hrun⟩ := readRange_endless 1024 id feedWords base (len &&& ~~~3) hread (by decide)
    (by rw [toNat_adjustedLen]; exact hlen) fuel 0 (host.clock u.ticks) 0xffffffff
    { u with ticks := u.ticks + 1 } (Nat.dvd_zero _)
  exact ⟨u',
    (run_bind_ok (show timeMs host u = .ok _ { u with ticks := u.ticks + 1 } from rfl)).trans
    (run_bind_error hrun)⟩

/-- `generic_crc32` and `stm32_crc32` both come to their end with the CRC of the range. -/
def CrcsAgree (host : Host) (mem : UInt32 → UInt8) (base len : UInt32) : Prop :=
  ∃ crc, Returns (genericCrc32 host base len) crc ∧ Returns (stm32Crc32 host base len) crc ∧
    crc.toBitVec = crcOf mem base len

/-- What is never done returns nothing. -/
theorem not_returns_of_endless {m : Nat → CrcM (Option UInt32)}
    (h : ∀ fuel, ∃ u, m fuel start = .error .notYet u) (crc : UInt32) : ¬ Returns m crc := by
  rintro ⟨fuel, u, hrun⟩
  obtain ⟨u', herror⟩ := h fuel
  exact absurd (herror.symm.trans hrun) (by simp)

/-- The two implementations agree on every memory, and with the CRC as it is defined, exactly on the
ranges that end below the last buffer of the larger size. -/
theorem crcsAgree_iff (hreads : Reads host mem) :
    CrcsAgree host mem base len ↔ len.toNat / 4 * 4 + 1024 ≤ 2 ^ 32 := by
  constructor
  · rintro ⟨crc, -, hstm32, -⟩
    by_contra hlen
    exact not_returns_of_endless
      (fun fuel => stm32Crc32_endless (fun n addr len => by simp [hreads n addr len])
      (by omega) fuel start) crc hstm32
  · intro hlen
    obtain ⟨crc, hgeneric, hcrc⟩ :=
      genericCrc32_ok base hreads (show len.toNat + 128 ≤ 2 ^ 32 by omega)
    obtain ⟨crc', hstm32, hcrc'⟩ := stm32Crc32_ok base hreads hlen
    have heq : crc' = crc := UInt32.toBitVec_inj.1 (hcrc'.trans hcrc.symm)
    exact ⟨crc, hgeneric, heq ▸ hstm32, hcrc⟩

/-- A host whose clock stands still and that reads a memory. -/
def readingHost (mem : UInt32 → UInt8) : Host :=
  ⟨fun _ => 0, fun _ addr _ => some fun i => mem (addr + UInt32.ofNat i)⟩

/-- A hundred kilobytes and three bytes. -/
theorem crcsAgree_flash :
    CrcsAgree (readingHost fun addr => addr.toUInt8) (fun addr => addr.toUInt8) 0x08000000 102403 :=
  (crcsAgree_iff fun _ _ _ => rfl).2 (by decide)

/-- A request for the whole address space but its last byte. -/
theorem not_crcsAgree_all : ¬ CrcsAgree (readingHost fun _ => 0) (fun _ => 0) 0 0xffffffff := by
  rintro ⟨crc, hgeneric, -, -⟩
  exact not_returns_of_endless
    (fun fuel => genericCrc32_endless (fun _ _ _ => by simp [readingHost]) (by decide)
    fuel start) crc hgeneric

end

end Blackmagic.Crc32
