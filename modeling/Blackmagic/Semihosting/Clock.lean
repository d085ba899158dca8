import Blackmagic.Crc.Table
import Blackmagic.Semihosting.Target

/-!
# The clock of the target: `semihosting_clock`

The time of the host is cut down to centiseconds in 32 bits, which come round every 497 days, and
counted from the smallest one that was read in the run. A run is timed right as long as that one is
as good as the first (`KeepsEpoch`); when the count comes round, it starts anew.
-/

namespace Blackmagic

open Effect Scanf Bytes

namespace Semihosting

/-! ## The call: `semihosting.c` -/

/-- `read_be8`. -/
def readBe8 (buffer : Nat → UInt8) (offset : Nat) : UInt64 :=
  ((buffer offset).toUInt64 <<< 56) ||| ((buffer (offset + 1)).toUInt64 <<< 48) |||
    ((buffer (offset + 2)).toUInt64 <<< 40) ||| ((buffer (offset + 3)).toUInt64 <<< 32) |||
    ((buffer (offset + 4)).toUInt64 <<< 24) ||| ((buffer (offset + 5)).toUInt64 <<< 16) |||
    ((buffer (offset + 6)).toUInt64 <<< 8) ||| (buffer (offset + 7)).toUInt64

/-- `semihosting_time_s`. -/
structure Time where
  microseconds : UInt64
  seconds : UInt32
deriving DecidableEq

/-- The time in a buffer, as it comes from the host. -/
def timeIn (timeValue : List UInt8) : Time where
  microseconds := readBe8 (fun i => timeValue.getD i 0) 4
  seconds := Crc32.readBe4 (fun i => timeValue.getD i 0) 0

example : timeIn [0x65, 0x92, 0x00, 0x80, 0, 0, 0, 0, 0, 0x07, 0xa1, 0x20] =
    ⟨500000, 1704067200⟩ := by decide

section
variable (respond : SemiM Int32) (timeValue : List UInt8)

/-- `semihosting_get_time`; `timeValue` is what the buffer on the stack holds before. -/
def semihostingGetTime : SemiM Time := do
  modify fun s => { s with inSyscall := true, buffer := timeValue }
  let s ← get
  gdbPutpacketF (ascii "Fgettimeofday," ++ hex08 s.ramStart ++ ascii "," ++ hex08 0)
  let result ← respond
  modify fun s => { s with inSyscall := false }
  let s ← get
  if result ≠ 0 then return ⟨0xffffffffffffffff, 0xffffffff⟩
  else return timeIn s.buffer

/-- The time in centiseconds, in 32 bits. -/
def centiseconds (time : Time) : UInt32 := time.seconds * 100 + time.microseconds.toUInt32 / 10000

/-- The epoch after a time was read. -/
def nextEpoch (epoch time : UInt32) : UInt32 := if epoch > time then time else epoch

/-- `semihosting_clock`, with `semihosting_wallclock_epoch`: the result, and the epoch after it. -/
def semihostingClock (epoch : UInt32) : SemiM (Int32 × UInt32) := do
  let currentTime ← semihostingGetTime respond timeValue
  if currentTime.seconds = 0xffffffff ∧ currentTime.microseconds = 0xffffffffffffffff then
    return (currentTime.seconds.toInt32, epoch)
  else
    let epoch := nextEpoch epoch (centiseconds currentTime)
    return (((centiseconds currentTime - epoch) &&& 0x7fffffff).toInt32, epoch)

end

/-! ## The calls of a run -/

/-- A call that succeeds: the response of the host leaves a time in the buffer. -/
structure Reading where
  respond : SemiM Int32
  timeValue : List UInt8
  time : Time
  answers : ∀ s, ∃ s', respond s = .ok 0 s' ∧ timeIn s'.buffer = time
  micros : time.microseconds < 1000000

/-- The calls of a run one after the other. -/
def clockCalls : List Reading → (epoch : UInt32) → SemiM (List Int32)
  | [], _ => return []
  | r :: readings, epoch => do
    let (result, epoch) ← semihostingClock r.respond r.timeValue epoch
    let results ← clockCalls readings epoch
    return result :: results

/-- The time of the host in microseconds, and in centiseconds. -/
def Reading.micro (r : Reading) : Nat := r.time.seconds.toNat * 1000000 + r.time.microseconds.toNat

def Reading.centi (r : Reading) : Nat := r.micro / 10000

/-- From the start of a run on, each call returns the centiseconds since the first one, in 31
bits. -/
def Times (first : Reading) (readings : List Reading) : Prop :=
  ∀ s, ∃ results s', clockCalls (first :: readings) 0xffffffff s = .ok results s' ∧
    results.map Int32.toInt = (first :: readings).map fun r =>
      ((r.centi : Int) - first.centi) % 2 ^ 31

/-- The centiseconds of the readings, where they stand in their round, do not fall below those of
the first one; or the first that does falls below it by half a round, and the rest does not fall
below that. -/
def KeepsEpoch (first : Reading) (readings : List Reading) : Prop :=
  (∀ r ∈ readings, first.centi % 2 ^ 32 ≤ r.centi % 2 ^ 32) ∨
    ∃ before r after, readings = before ++ r :: after ∧
      (∀ r' ∈ before, first.centi % 2 ^ 32 ≤ r'.centi % 2 ^ 32) ∧
      r.centi % 2 ^ 32 + 2 ^ 31 = first.centi % 2 ^ 32 ∧
      ∀ r' ∈ after, r.centi % 2 ^ 32 ≤ r'.centi % 2 ^ 32

section
variable {epoch : UInt32} {first : Reading} {readings : List Reading}

/-- The next epoch is the smaller of the two counts. -/
theorem toNat_nextEpoch (epoch time : UInt32) :
    (nextEpoch epoch time).toNat = min epoch.toNat time.toNat := by
  rw [nextEpoch]
  split
  next h =>
    have := UInt32.lt_iff_toNat_lt.1 h
    omega
  next h =>
    have := UInt32.le_iff_toNat_le.1 (UInt32.not_lt.1 h)
    omega

/-- The centiseconds in 32 bits are those of the host where they stand in their round. -/
theorem Reading.toNat_centiseconds (r : Reading) :
    (centiseconds r.time).toNat = r.centi % 2 ^ 32 := by
  have hmicros : r.time.microseconds.toNat < 1000000 := UInt64.lt_iff_toNat_lt.1 r.micros
  have hcut : r.time.microseconds.toUInt32.toNat = r.time.microseconds.toNat := by
    rw [UInt64.toNat_toUInt32]
    omega
  rw [centiseconds, UInt32.toNat_add, UInt32.toNat_mul, UInt32.toNat_div, hcut, Reading.centi,
    Reading.micro]
  change (r.time.seconds.toNat * 100 % 2 ^ 32 + r.time.microseconds.toNat / 10000) % 2 ^ 32 = _
  omega

/-- Every reading of the clock returns. -/
theorem Reading.getTime_run (r : Reading) (s : Target) :
    ∃ s', semihostingGetTime r.respond r.timeValue s = .ok r.time s' := by
  obtain ⟨s', hrun, htime⟩ :=
    r.answers ({ s with inSyscall := true, buffer := r.timeValue, packets := s.packets ++
    [ascii "Fgettimeofday," ++ hex08 s.ramStart ++ ascii "," ++ hex08 0] } : Target)
  refine ⟨{ s' with inSyscall := false }, ?_⟩
  rw [semihostingGetTime, ← htime]
  refine (run_bind_ok (m := modify _) rfl).trans ?_
  refine (run_bind_ok (m := get) rfl).trans ?_
  refine (run_bind_ok (m := gdbPutpacketF _) rfl).trans ?_
  exact (run_bind_ok hrun).trans rfl

/-- A call that succeeds counts from the epoch. -/
theorem Reading.clock_run (r : Reading) (epoch : UInt32) (s : Target) :
    ∃ s', semihostingClock r.respond r.timeValue epoch s =
      .ok (((centiseconds r.time - nextEpoch epoch (centiseconds r.time)) &&& 0x7fffffff).toInt32,
        nextEpoch epoch (centiseconds r.time)) s' := by
  obtain ⟨s', hrun⟩ := r.getTime_run s
  have htime : ¬ (r.time.seconds = 0xffffffff ∧ r.time.microseconds = 0xffffffffffffffff) := by
    rintro ⟨-, hmicros⟩
    exact absurd (hmicros ▸ r.micros) (by decide)
  refine ⟨s', ?_⟩
  rw [semihostingClock, run_bind_ok hrun, if_neg htime]
  rfl

/-- The results of a run, from the readings. -/
def clockResults : List Reading → (epoch : UInt32) → List Int32
  | [], _ => []
  | r :: readings, epoch =>
    ((centiseconds r.time - nextEpoch epoch (centiseconds r.time)) &&& 0x7fffffff).toInt32 ::
      clockResults readings (nextEpoch epoch (centiseconds r.time))

/-- So does every sequence of calls, by induction on the readings. -/
theorem clockCalls_run (readings : List Reading) : ∀ (epoch : UInt32) (s : Target),
    ∃ s', clockCalls readings epoch s = .ok (clockResults readings epoch) s' := by
  induction readings with
  | nil => exact fun epoch s => ⟨s, rfl⟩
  | cons r readings ih =>
    intro epoch s
    obtain ⟨s₁, hclock⟩ := r.clock_run epoch s
    obtain ⟨s₂, hrest⟩ := ih (nextEpoch epoch (centiseconds r.time)) s₁
    refine ⟨s₂, ?_⟩
    rw [clockCalls, run_bind_ok hclock]
    exact run_bind_ok hrest

/-- A result in 31 bits is the difference to the epoch, in the round of the epoch. -/
theorem toInt_result (time epoch : UInt32) (hle : epoch.toNat ≤ time.toNat) :
    ((time - epoch) &&& 0x7fffffff).toInt32.toInt =
      ((time.toNat : Int) - epoch.toNat) % 2 ^ 31 := by
  have hmask : ((time - epoch) &&& 0x7fffffff).toNat = (time.toNat - epoch.toNat) % 2 ^ 31 := by
    refine (Word.toNat_and_low (time - epoch) (show 31 < 32 by decide)).trans ?_
    rw [UInt32.toNat_sub_of_le _ _ (UInt32.le_iff_toNat_le.2 hle)]
  have hint : ((time - epoch) &&& 0x7fffffff).toInt32.toInt =
      ((time - epoch) &&& 0x7fffffff).toNat := by
    refine BitVec.toInt_eq_toNat_of_lt ?_
    change 2 * ((time - epoch) &&& 0x7fffffff).toNat < 2 ^ 32
    omega
  rw [hint, hmask]
  omega

/-- A result is right if and only if the epoch then is as good as the first reading. -/
theorem result_right_iff (r : Reading) (epoch : UInt32) :
    ((centiseconds r.time - nextEpoch epoch (centiseconds r.time)) &&& 0x7fffffff).toInt32.toInt =
        ((r.centi : Int) - first.centi) % 2 ^ 31 ↔
      (nextEpoch epoch (centiseconds r.time)).toNat % 2 ^ 31 = first.centi % 2 ^ 31 := by
  have hepoch := toNat_nextEpoch epoch (centiseconds r.time)
  have htime := r.toNat_centiseconds
  rw [toInt_result _ _ (by omega), htime]
  omega

/-- After each of some readings the epoch is as good as the first one. -/
def EpochHolds (first : Reading) : List Reading → (epoch : UInt32) → Prop
  | [], _ => True
  | r :: readings, epoch =>
    (nextEpoch epoch (centiseconds r.time)).toNat % 2 ^ 31 = first.centi % 2 ^ 31 ∧
      EpochHolds first readings (nextEpoch epoch (centiseconds r.time))

/-- The results are right exactly when the epoch holds after each reading. -/
theorem clockResults_iff (readings : List Reading) : ∀ epoch : UInt32,
    (clockResults readings epoch).map Int32.toInt =
      readings.map (fun r => ((r.centi : Int) - first.centi) % 2 ^ 31) ↔
      EpochHolds first readings epoch := by
  induction readings with
  | nil => exact fun epoch => ⟨fun _ => trivial, fun _ => rfl⟩
  | cons r readings ih =>
    intro epoch
    rw [clockResults, List.map_cons, List.map_cons, List.cons_eq_cons, result_right_iff, ih,
      EpochHolds]

/-- An epoch half a round below the first reading holds while nothing falls below it. -/
theorem epochHolds_half (readings : List Reading) : ∀ epoch : UInt32,
    epoch.toNat + 2 ^ 31 = first.centi % 2 ^ 32 →
      (EpochHolds first readings epoch ↔ ∀ r ∈ readings, epoch.toNat ≤ r.centi % 2 ^ 32) := by
  induction readings with
  | nil => exact fun epoch _ => ⟨fun _ => List.forall_mem_nil _, fun _ => trivial⟩
  | cons r readings ih =>
    intro epoch hepoch
    have hnext := toNat_nextEpoch epoch (centiseconds r.time)
    rw [r.toNat_centiseconds] at hnext
    rw [EpochHolds, List.forall_mem_cons]
    by_cases hle : epoch.toNat ≤ r.centi % 2 ^ 32
    · have hkeep : (nextEpoch epoch (centiseconds r.time)).toNat = epoch.toNat :=
        hnext.trans (Nat.min_eq_left hle)
      rw [ih _ (by omega), hkeep]
      exact and_congr_left' (iff_of_true (by omega) hle)
    · refine iff_of_false (fun h => ?_) fun h => hle h.1
      omega

/-- The epoch is the first reading, until a reading falls below it. -/
theorem epochHolds_first (readings : List Reading) : ∀ epoch : UInt32,
    epoch.toNat = first.centi % 2 ^ 32 →
      (EpochHolds first readings epoch ↔ KeepsEpoch first readings) := by
  induction readings with
  | nil => exact fun epoch _ => ⟨fun _ => .inl (List.forall_mem_nil _), fun _ => trivial⟩
  | cons r readings ih =>
    intro epoch hepoch
    have hnext := toNat_nextEpoch epoch (centiseconds r.time)
    rw [r.toNat_centiseconds] at hnext
    rw [EpochHolds]
    by_cases hle : first.centi % 2 ^ 32 ≤ r.centi % 2 ^ 32
    · have hkeep : (nextEpoch epoch (centiseconds r.time)).toNat = first.centi % 2 ^ 32 := by omega
      rw [ih _ hkeep, and_iff_right (by omega)]
      constructor
      · rintro (hall | ⟨before, r', after, rfl, hbefore, hhalf, hafter⟩)
        · exact .inl (List.forall_mem_cons.2 ⟨hle, hall⟩)
        · exact .inr ⟨r :: before, r', after, rfl, List.forall_mem_cons.2 ⟨hle, hbefore⟩, hhalf,
            hafter⟩
      · rintro (hall | ⟨_ | ⟨r₀, before⟩, r', after, heq, hbefore, hhalf, hafter⟩)
        · exact .inl (List.forall_mem_cons.1 hall).2
        · cases heq
          omega
        · cases heq
          exact .inr ⟨before, r', after, rfl, (List.forall_mem_cons.1 hbefore).2, hhalf, hafter⟩
    · have hfall : (nextEpoch epoch (centiseconds r.time)).toNat = r.centi % 2 ^ 32 := by omega
      constructor
      · rintro ⟨hmod, hrest⟩
        have hhalf : r.centi % 2 ^ 32 + 2 ^ 31 = first.centi % 2 ^ 32 := by omega
        rw [epochHolds_half readings _ (by omega), hfall] at hrest
        exact .inr ⟨[], r, readings, rfl, List.forall_mem_nil _, hhalf, hrest⟩
      · rintro (hall | ⟨_ | ⟨r₀, before⟩, r', after, heq, hbefore, hhalf, hafter⟩)
        · exact absurd (List.forall_mem_cons.1 hall).1 hle
        · cases heq
          rw [epochHolds_half readings _ (by omega), hfall]
          exact ⟨by omega, hafter⟩
        · cases heq
          exact absurd (List.forall_mem_cons.1 hbefore).1 hle

/-- From the start likewise. -/
theorem times_iff_epochHolds :
    Times first readings ↔ EpochHolds first (first :: readings) 0xffffffff := by
  rw [← clockResults_iff]
  constructor
  · intro h
    obtain ⟨results, s', hrun, hright⟩ := h
      ⟨fun _ => 0, fun _ => false, 0, false, false, [], 0, [], []⟩
    obtain ⟨s'', hrun'⟩ := clockCalls_run (first :: readings) 0xffffffff
      ⟨fun _ => 0, fun _ => false, 0, false, false, [], 0, [], []⟩
    rw [hrun] at hrun'
    cases hrun'
    exact hright
  · intro h s
    obtain ⟨s', hrun⟩ := clockCalls_run (first :: readings) 0xffffffff s
    exact ⟨_, s', hrun, h⟩

end

/-- The calls of a run count the time since the first of them if and only if no reading takes its
place. -/
theorem times_iff_keepsEpoch (first : Reading) (readings : List Reading) :
    Times first readings ↔ KeepsEpoch first readings := by
  have hnext := toNat_nextEpoch 0xffffffff (centiseconds first.time)
  rw [first.toNat_centiseconds] at hnext
  change _ = min 0xffffffff _ at hnext
  have hepoch : (nextEpoch 0xffffffff (centiseconds first.time)).toNat = first.centi % 2 ^ 32 := by
    omega
  rw [times_iff_epochHolds, EpochHolds, epochHolds_first readings _ hepoch]
  exact and_iff_right (by omega)

/-! ## The end of a round -/

/-- The host responds with a time. -/
def answerWith (timeValue : List UInt8) : SemiM Int32 := do
  modify fun s => { s with buffer := timeValue }
  return 0

/-- A time at which the count comes round, in three steps of a centisecond. -/
def endOfRound : List UInt8 := [0x66, 0x66, 0x66, 0x66, 0, 0, 0, 0, 0, 0x05, 0xcc, 0x60]

def endOfRound' : List UInt8 := [0x66, 0x66, 0x66, 0x66, 0, 0, 0, 0, 0, 0x05, 0xf3, 0x70]

def startOfRound : List UInt8 := [0x66, 0x66, 0x66, 0x66, 0, 0, 0, 0, 0, 0x06, 0x1a, 0x80]

/-- The host responds with a time below the next second. -/
def reading (timeValue : List UInt8) (h : (timeIn timeValue).microseconds < 1000000) : Reading :=
  ⟨answerWith timeValue, [], timeIn timeValue, fun _ => ⟨_, rfl, rfl⟩, h⟩

/-- Where the count comes round, the third call returns less than the second one. -/
theorem not_times_endOfRound :
    ¬ ∀ first readings, (first :: readings).Pairwise (fun r r' => r.micro ≤ r'.micro) →
      Times first readings := by
  intro h
  have htimes := h (reading endOfRound (by decide))
    [reading endOfRound' (by decide), reading startOfRound (by decide)]
    (by decide)
  rw [times_iff_epochHolds] at htimes
  exact absurd htimes.2.2.1 (by decide)

end Semihosting

end Blackmagic
