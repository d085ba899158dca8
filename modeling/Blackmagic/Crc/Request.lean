import Blackmagic.Crc.Range
import Blackmagic.Gdb.Main

/-!
# Requests for a CRC

`bmd_crc32` takes the time before and after it calculates, and for ranges of 512 bytes and more it
prints how fast it was: it divides by the milliseconds that have passed. `ReadsMade` says how many
reads a range takes, and so which reading of the clock is the last one of a request; `completes_iff`
is when `qCRC` is answered.
-/

namespace Blackmagic.Crc32

open Effect Scanf

variable (host : Host)

/-- An unsigned division. -/
def divide (a b : UInt32) : CrcM UInt32 := if b = 0 then throw .divideByZero else return a / b

/-- `bmd_crc32`. What it prints is left out, but not the speed that it calculates for that. -/
def bmdCrc32 (base len : UInt32) (fuel : Nat) : CrcM (Option UInt32) := do
  let startTime ← timeMs host
  let status ← genericCrc32 host base len fuel
  let endTime ← timeMs host
  let timeElapsed := endTime - startTime
  if 512 ≤ len then
    let perSecond ← divide (len * 1000) timeElapsed
    let _ ← divide perSecond 1024
  return status

/-- The reply to a request, where `gdb_putpacket_f` gets the memory for it. -/
def crcReply : Option UInt32 → List UInt8
  | none => ascii "E03"
  | some crc => ascii ("C" ++ formatHex crc.toNat)

/-- `exec_q_crc` with a target, and the reply that it sends. -/
def execQCrc (packet : List UInt8) (fuel : Nat) : CrcM (Option (List UInt8)) := do
  match crcArgs packet with
  | [addr, addrLength] => return some (crcReply (← bmdCrc32 host addr addrLength fuel))
  | _ => return none

/-- A request is answered with the CRC or an error. -/
def Completes (packet : List UInt8) : Prop :=
  ∃ fuel status u, execQCrc host packet fuel start = .ok (some (crcReply status)) u

/-! ## How many reads a request makes -/

section
variable (base len : UInt32)

/-- What a read of `generic_crc32` returns, by its place in the range. -/
def chunkAt (i : Nat) : Option (Nat → UInt8) :=
  host.read i (base + UInt32.ofNat (128 * i))
    (wholeWords (minU32 128 (len - UInt32.ofNat (128 * i))))

/-- The reads from the `i`-th on are those before the `k`-th: with the last of them the range is
done, or it fails. -/
structure ReadsMade (i k : Nat) : Prop where
  le : i ≤ k
  inside : ∀ j, i ≤ j → j < k → UInt32.ofNat (128 * j) < len
  served : ∀ j, i ≤ j → j + 1 < k → chunkAt host base len j ≠ none
  last : ¬ UInt32.ofNat (128 * k) < len ∨ ∃ j, i ≤ j ∧ j + 1 = k ∧ chunkAt host base len j = none

end

section
variable {host : Host} {base len : UInt32} {i k n : Nat}

/-- No number of reads is smaller than another. -/
theorem ReadsMade.le_of_readsMade (h : ReadsMade host base len i k)
    (h' : ReadsMade host base len i n) : k ≤ n := by
  by_contra hlt
  obtain hdone | ⟨j, hij, hj, hfailed⟩ := h'.last
  · exact hdone (h.inside n h'.le (by omega))
  · exact h.served j hij (by omega) hfailed

/-- The number of reads is determined. -/
theorem ReadsMade.unique (h : ReadsMade host base len i k) (h' : ReadsMade host base len i n) :
    k = n :=
  Nat.le_antisymm (h.le_of_readsMade h') (h'.le_of_readsMade h)

/-- No read is made of what has been read. -/
theorem readsMade_done (h : ¬ UInt32.ofNat (128 * i) < len) : ReadsMade host base len i i :=
  ⟨Nat.le_refl i, fun _ hij hj => absurd hij (by omega), fun _ hij hj => absurd hij (by omega),
    .inl h⟩

/-- A read that fails is the last one. -/
theorem readsMade_failed (h : UInt32.ofNat (128 * i) < len)
    (hread : chunkAt host base len i = none) :
    ReadsMade host base len i (i + 1) := by
  refine ⟨Nat.le_succ i, fun j hij hj => ?_, fun j hij hj => absurd hij (by omega),
    .inr ⟨i, Nat.le_refl i, rfl, hread⟩⟩
  rw [show j = i by omega]
  exact h

/-- A read that succeeds is followed by the others. -/
theorem ReadsMade.cons (h : UInt32.ofNat (128 * i) < len) (hread : chunkAt host base len i ≠ none)
    (hmade : ReadsMade host base len (i + 1) k) : ReadsMade host base len i k := by
  refine ⟨Nat.le_of_succ_le hmade.le, fun j hij hj => ?_, fun j hij hj => ?_, ?_⟩
  · rcases Nat.eq_or_lt_of_le hij with rfl | hij
    · exact h
    · exact hmade.inside j hij hj
  · rcases Nat.eq_or_lt_of_le hij with rfl | hij
    · exact hread
    · exact hmade.served j hij hj
  · exact hmade.last.imp_right fun ⟨j, hij, hj, hfailed⟩ => ⟨j, Nat.le_of_succ_le hij, hj, hfailed⟩

/-- The loop comes to its end after the reads that are made, or all reads that it had time for were
inside the range and succeeded. -/
theorem readRange_cases (fuel : Nat) : ∀ (i : Nat) (t crc : UInt32) (u : Use), u.reads = i →
    (∃ k r u', readRange host 128 wholeWords feedBytes base len fuel (UInt32.ofNat (128 * i)) t crc
      u = .ok r u' ∧
      ReadsMade host base len i k ∧ u'.ticks + i = u.ticks + k) ∨
    (∃ u', readRange host 128 wholeWords feedBytes base len fuel (UInt32.ofNat (128 * i)) t crc u =
      .error .notYet u' ∧
      ∀ j, i ≤ j → j < i + fuel → UInt32.ofNat (128 * j) < len ∧ chunkAt host base len j ≠
        none) := by
  induction fuel with
  | zero => exact fun i t crc u _ => .inr ⟨u, rfl, fun j hij hj => absurd hij (by omega)⟩
  | succ fuel ih =>
    rintro i t crc u rfl
    by_cases hinside : UInt32.ofNat (128 * u.reads) < len
    · cases hread : chunkAt host base len u.reads with
      | none =>
        obtain ⟨u', hrun, hticks⟩ := readRange_failed feedBytes t crc fuel hinside
          hread
        exact .inl ⟨u.reads + 1, none, u', hrun, readsMade_failed hinside hread, by omega⟩
      | some bytes =>
        obtain ⟨t', u', hrun, hticks, hreads'⟩ := readRange_next feedBytes t crc fuel
          hinside hread
        have hoffset : UInt32.ofNat (128 * u.reads) + 128 = UInt32.ofNat (128 * (u.reads + 1)) := by
          rw [Nat.mul_succ, UInt32.ofNat_add]
          rfl
        rw [hrun, hoffset]
        have hsome : chunkAt host base len u.reads ≠ none := by
          rw [hread]
          exact Option.some_ne_none _
        refine (ih (u.reads + 1) t'
          (feedBytes crc bytes (minU32 128 (len - UInt32.ofNat (128 * u.reads))).toNat) u'
          hreads').imp ?_ ?_
        · rintro ⟨k, r, u'', hloop, hmade, hk⟩
          exact ⟨k, r, u'', hloop, hmade.cons hinside hsome, by omega⟩
        · rintro ⟨u'', hloop, hall⟩
          refine ⟨u'', hloop, fun j hij hj => ?_⟩
          rcases Nat.eq_or_lt_of_le hij with rfl | hij
          · exact ⟨hinside, hsome⟩
          · exact hall j hij (by omega)
    · exact .inl ⟨u.reads, _, u, readRange_done fuel hinside, readsMade_done hinside, rfl⟩

/-! ## Which requests are answered -/

/-- The loop of a request comes to its end exactly when there is an end to its reads. -/
theorem genericCrc32_cases (fuel : Nat) :
    (∃ k r u', genericCrc32 host base len fuel ⟨1, 0, []⟩ = .ok r u' ∧ ReadsMade host base len 0 k ∧
      u'.ticks = k + 2) ∨
    (∃ u', genericCrc32 host base len fuel ⟨1, 0, []⟩ = .error .notYet u' ∧
      ∀ k, ReadsMade host base len 0 k → fuel ≤ k) := by
  refine (@readRange_cases host base len fuel 0 (host.clock 1) 0xffffffff ⟨2, 0, []⟩ rfl).imp ?_ ?_
  · rintro ⟨k, r, u', hrun, hmade, hk⟩
    exact ⟨k, r, u', hrun, hmade, by simpa [Nat.add_comm] using hk⟩
  · rintro ⟨u', hrun, hall⟩
    refine ⟨u', hrun, fun k hmade => ?_⟩
    by_contra hlt
    obtain hdone | ⟨j, hij, hj, hfailed⟩ := hmade.last
    · exact hdone (hall k (Nat.zero_le k) (by omega)).1
    · exact (hall j hij (by omega)).2 hfailed

/-- A division by anything but 0. -/
theorem divide_ok (a : UInt32) {b : UInt32} (h : b ≠ 0) {u : Use} :
    divide a b u = .ok (a / b) u := by
  rw [divide, if_neg h]
  rfl

/-- The report divides by zero when the clock stands where it stood before. -/
theorem bmdCrc32_run {fuel : Nat} {r : Option UInt32} {u : Use}
    (hrun : genericCrc32 host base len fuel ⟨1, 0, []⟩ = .ok r u) :
    ∃ u', bmdCrc32 host base len fuel start =
      if len < 512 ∨ host.clock u.ticks ≠ host.clock 0 then .ok r u'
        else .error .divideByZero u' := by
  refine ⟨{ u with ticks := u.ticks + 1 }, ?_⟩
  refine (run_bind_ok (show timeMs host start = .ok (host.clock 0) ⟨1, 0, []⟩ from rfl)).trans ?_
  refine (run_bind_ok hrun).trans ?_
  refine (run_bind_ok (show timeMs host u = .ok (host.clock u.ticks) { u with ticks := u.ticks + 1 }
    from rfl)).trans ?_
  dsimp only
  by_cases hlen : 512 ≤ len
  · rw [if_pos hlen]
    by_cases hclock : host.clock u.ticks = host.clock 0
    · rw [if_neg (by simp [UInt32.not_lt.2 hlen, hclock]), hclock, UInt32.sub_self]
      rfl
    · rw [if_pos (.inr hclock)]
      have hdivisor : host.clock u.ticks - host.clock 0 ≠ 0 := sub_ne_zero.2 hclock
      refine (run_bind_ok (divide_ok _ hdivisor)).trans ?_
      exact run_bind_ok (divide_ok _ (show (1024 : UInt32) ≠ 0 by decide))
  · rw [if_neg hlen, if_pos (.inl (UInt32.not_le.1 hlen))]
    rfl

/-- `bmd_crc32` returns exactly when the reads end and the clock moves on for a long range. -/
theorem bmdCrc32_ok_iff :
    (∃ fuel r u, bmdCrc32 host base len fuel start = .ok r u) ↔
      ∃ k, ReadsMade host base len 0 k ∧ (len < 512 ∨ host.clock (k + 2) ≠ host.clock 0) := by
  constructor
  · rintro ⟨fuel, r, u, hrun⟩
    obtain ⟨k, r', u', hloop, hmade, hticks⟩ | ⟨u', hloop, -⟩ := genericCrc32_cases fuel
    · obtain ⟨u'', hreport⟩ := bmdCrc32_run hloop
      rw [hticks] at hreport
      refine ⟨k, hmade, ?_⟩
      by_contra hzero
      rw [if_neg hzero] at hreport
      exact absurd (hreport.symm.trans hrun) (by simp)
    · have herror : bmdCrc32 host base len fuel start = .error .notYet u' :=
        (run_bind_ok (show timeMs host start = .ok (host.clock 0) ⟨1, 0, []⟩ from rfl)).trans
          (run_bind_error hloop)
      exact absurd (herror.symm.trans hrun) (by simp)
  · rintro ⟨k, hmade, hreport⟩
    obtain ⟨k', r, u, hloop, hmade', hticks⟩ | ⟨u, hloop, hall⟩ := genericCrc32_cases (k + 1)
    · obtain ⟨u', hrun⟩ := bmdCrc32_run hloop
      rw [hticks, hmade'.unique hmade, if_pos hreport] at hrun
      exact ⟨k + 1, r, u', hrun⟩
    · exact absurd (hall k hmade) (by omega)

variable {packet : List UInt8}

/-- A request completes exactly when `bmd_crc32` returns. -/
theorem completes_iff_ok (hargs : crcArgs packet = [base, len]) :
    Completes host packet ↔ ∃ fuel r u, bmdCrc32 host base len fuel start = .ok r u := by
  have hrun : ∀ fuel, execQCrc host packet fuel = bmdCrc32 host base len fuel >>= fun r =>
      pure (some (crcReply r)) := by
    intro fuel
    rw [execQCrc, hargs]
  constructor
  · rintro ⟨fuel, status, u, h⟩
    rw [hrun] at h
    cases hbmd : bmdCrc32 host base len fuel start with
    | ok r u' => exact ⟨fuel, r, u', hbmd⟩
    | error e u' => exact absurd ((run_bind_error hbmd).symm.trans h) (by simp)
  · rintro ⟨fuel, r, u, h⟩
    exact ⟨fuel, r, u, (congrFun (hrun fuel) start).trans (run_bind_ok h)⟩

/-- A request is answered exactly when its reads come to an end and the report, if there is one, has
something to divide by. -/
theorem completes_iff (host : Host) (hargs : crcArgs packet = [base, len]) :
    Completes host packet ↔
      ∃ k, ReadsMade host base len 0 k ∧ (len < 512 ∨ host.clock (k + 2) ≠ host.clock 0) :=
  (completes_iff_ok hargs).trans bmdCrc32_ok_iff

/-- A hundred bytes of flash. -/
theorem completes_hundred : Completes (readingHost fun _ => 0) (ascii "8000000,64") := by
  have hdone : ReadsMade (readingHost fun _ => 0) 0x08000000 100 1 1 := readsMade_done (by decide)
  exact (@completes_iff 0x08000000 100 (ascii "8000000,64") _ (by decide +kernel)).2
    ⟨1, hdone.cons (by decide) (Option.some_ne_none _), .inl (by decide)⟩

/-- Half a kilobyte, read while the clock stands still. -/
theorem not_completes_halfKilobyte :
    ¬ Completes (readingHost fun _ => 0) (ascii "8000000,200") := by
  rw [@completes_iff_ok _ 0x08000000 512 _ (by decide +kernel), bmdCrc32_ok_iff]
  rintro ⟨k, -, hlen | hclock⟩
  · exact absurd hlen (by decide)
  · exact hclock rfl

end

end Blackmagic.Crc32
