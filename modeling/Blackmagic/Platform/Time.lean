import Blackmagic.Lib.Memory

/-!
# The millisecond clock and its timeouts

`platform_time_ms` cuts the microseconds since start-up down to a 32-bit count of milliseconds,
which comes round after 49.7 days. A timeout is the wrapped sum of that count and a delay, and a
query compares the two counts as they stand. `timesOut_iff` is the part of the count in which this
is right: a timeout that is set in its first half, or at its middle, runs out when it should; one
that is set later either runs out at once or is still running after its delay is over.
-/

namespace Blackmagic.Platform

/-- `platform_time_ms`; `micros` is what `esp_timer_get_time` returns. -/
def platformTimeMs (micros : Nat) : UInt32 := UInt32.ofNat (micros / 1000)

/-- `platform_timeout_s`. -/
structure PlatformTimeout where
  time : UInt32

/-- `platform_timeout_set`, at the time `micros`. -/
def platformTimeoutSet (micros : Nat) (ms : UInt32) : PlatformTimeout where
  time := platformTimeMs micros + ms

/-- `platform_timeout_is_expired`, at the time `micros`. -/
def platformTimeoutIsExpired (t : PlatformTimeout) (micros : Nat) : Bool :=
  platformTimeMs micros > t.time

/-! ## When a timeout runs out -/

section
variable {start later : Nat} {ms : UInt32}

@[simp] theorem toNat_platformTimeMs (micros : Nat) :
    (platformTimeMs micros).toNat = micros / 1000 % 2 ^ 32 := rfl

/-- A query compares the two counts where they stand in the round of the clock. -/
theorem isExpired_iff :
    platformTimeoutIsExpired (platformTimeoutSet start ms) later = true ↔
      (start / 1000 + ms.toNat) % 2 ^ 32 < later / 1000 % 2 ^ 32 := by
  rw [platformTimeoutIsExpired, decide_eq_true_iff, gt_iff_lt, UInt32.lt_iff_toNat_lt,
    toNat_platformTimeMs, platformTimeoutSet, UInt32.toNat_add, toNat_platformTimeMs,
    Nat.mod_add_mod]

/-- A timeout that is set at the time `start` does not run out before `ms` milliseconds are over,
and has run out from then on, for as long as a delay can be. -/
def TimesOut (start : Nat) (ms : UInt32) : Prop :=
  ∀ later, start ≤ later → later / 1000 - start / 1000 < 2 ^ 31 →
    (platformTimeoutIsExpired (platformTimeoutSet start ms) later = true ↔
      ms.toNat < later / 1000 - start / 1000)

/-- A timeout runs out when it should exactly when it is set before the clock is past the middle of
its round. -/
theorem timesOut_iff (start : Nat) (ms : UInt32) (hms : ms.toNat < 2 ^ 31) :
    TimesOut start ms ↔ start / 1000 % 2 ^ 32 ≤ 2 ^ 31 := by
  refine Iff.trans ?_ (@Memory.wrap_order_iff (start / 1000) (2 ^ 31) ms.toNat hms)
  constructor
  · intro h d hd
    have hlater := h ((start / 1000 + d) * 1000 + start % 1000) (by omega) (by omega)
    rw [isExpired_iff, show ((start / 1000 + d) * 1000 + start % 1000) / 1000 =
      start / 1000 + d by omega, Nat.add_sub_cancel_left] at hlater
    exact hlater
  · intro h later hle hlt
    obtain ⟨d, hd⟩ := Nat.exists_eq_add_of_le (Nat.div_le_div_right (c := 1000) hle)
    rw [isExpired_iff, hd, Nat.add_sub_cancel_left]
    exact h d (by omega)

/-- A delay of a tenth of a second, an hour after start-up. -/
theorem timesOut_hour : (100 : UInt32).toNat < 2 ^ 31 ∧ TimesOut 3600000000 100 :=
  ⟨by decide, (timesOut_iff 3600000000 100 (by decide)).2 (by decide)⟩

/-- In the last millisecond of the round a delay of one millisecond is over at once. -/
theorem not_timesOut_lastMillisecond : ¬ TimesOut 4294967295000 1 := by
  intro h
  have hnow := (h 4294967295000 (Nat.le_refl _) (by decide)).1 (by decide)
  exact absurd hnow (by decide)

end

end Blackmagic.Platform
