import Blackmagic.Lib.Effect

/-!
# An access over SWD: `firmware_swdp_low_access`

An access that is answered FAULT writes to ABORT and is repeated, and one that is answered WAIT for
250 ms writes to ABORT and gives up. The write to ABORT is an access of the same kind, so it may
itself be answered FAULT or WAIT, and each of them starts a time-out of its own. An access ends with
one write to ABORT inside of another one exactly when these writes are answered
(`lowAccess_ends_iff`); on a wire that always says FAULT, or always WAIT, no depth is enough.
-/

namespace Blackmagic

open Effect

namespace Swd

/-! ## The wire -/

/-- `SWDP_ACK_OK`. -/
def ackOk : Fin 8 := 1

/-- `SWDP_ACK_WAIT`. -/
def ackWait : Fin 8 := 2

/-- `SWDP_ACK_FAULT`. -/
def ackFault : Fin 8 := 4

/-- `SWDP_ACK_NO_RESPONSE`. -/
def ackNoResponse : Fin 8 := 7

/-- What a wire returns: the acknowledgement, or the word and whether its parity is wrong, that the
operation with a number reads, and the time in milliseconds after so many operations. -/
structure Wire where
  ack : Nat → Fin 8
  word : Nat → UInt32 × Bool
  time : Nat → UInt32

/-- The port: `fault` of the DP, and how many operations there were on the wire. -/
structure Port where
  fault : UInt8
  ops : Nat

/-- How an access is left: by an exception, or because the run has not come to its end at this depth
of calls or within these repetitions. -/
inductive Exit
  | raised (msg : String)
  | tooDeep
  | notYet
deriving DecidableEq

abbrev SwdM := EStateM Exit Port

def seqOut : SwdM Unit := modify fun s => { s with ops := s.ops + 1 }

def setFault (fault : UInt8) : SwdM Unit := modify fun s => { s with fault := fault }

section
variable (w : Wire)

def seqIn : SwdM (Fin 8) := fun s => .ok (w.ack s.ops) { s with ops := s.ops + 1 }

/-- `seq_in_parity`: the word, and whether its parity is wrong. -/
def seqInParity : SwdM (UInt32 × Bool) := fun s => .ok (w.word s.ops) { s with ops := s.ops + 1 }

/-- `platform_timeout_set`. -/
def platformTimeoutSet (ms : UInt32) : SwdM UInt32 := fun s => .ok (w.time s.ops + ms) s

/-- `platform_timeout_is_expired`. -/
def platformTimeoutIsExpired (timeout : UInt32) : SwdM Bool :=
  fun s => .ok (decide (w.time s.ops > timeout)) s

/-! ## The functions -/

/-- `ADIV5_APnDP`. -/
def adiv5APnDP : UInt16 := 0x100

/-- `ADIV5_DP_ABORT`. -/
def adiv5DpAbort : UInt16 := 0

/-- `ADIV5_DP_ABORT_ORUNERRCLR`, `_WDERRCLR`, `_STKERRCLR` and `_STKCMPCLR`. -/
def abortErrors : UInt32 := 0x10 ||| 8 ||| 4 ||| 2

/-- `ADIV5_DP_ABORT_DAPABORT`. -/
def abortDap : UInt32 := 1

/-- The `if` in the loop. -/
def abortOnFault (abort : SwdM Unit) (ack : Fin 8) : SwdM Unit :=
  if ack = ackFault then abort else pure ()

/-- The condition of the loop. -/
def repeats (timeout : UInt32) (ack : Fin 8) : SwdM Bool :=
  if ack = ackWait ∨ ack = ackFault then do
    let expired ← platformTimeoutIsExpired w timeout
    return !expired
  else return false

/-- The loop of `firmware_swdp_low_access`. -/
def ackLoop (abort : SwdM Unit) (timeout : UInt32) : Nat → SwdM (Fin 8)
  | 0 => throw .notYet
  | fuel + 1 => do
    seqOut
    let ack ← seqIn w
    abortOnFault abort ack
    let again ← repeats w timeout ack
    if again then ackLoop abort timeout fuel else return ack

/-- What comes after an acknowledgement `SWDP_ACK_OK`. -/
def dataPhase (rnw : Bool) : SwdM UInt32 :=
  if rnw then do
    let (response, parity) ← seqInParity w
    if parity then do
      setFault 1
      throw (.raised "SWD parity error")
    else do
      seqOut
      return response
  else do
    seqOut
    seqOut
    return 0

/-- `adiv5_dp_write`, with `dp->low_access`. -/
def adiv5DpWrite (lowAccess : Bool → UInt16 → UInt32 → SwdM UInt32) (addr : UInt16)
    (value : UInt32) :
    SwdM Unit := do
  let _ ← lowAccess false addr value
  return ()

/-- `firmware_swdp_abort`. -/
def firmwareSwdpAbort (lowAccess : Bool → UInt16 → UInt32 → SwdM UInt32) (abort : UInt32) :
    SwdM Unit :=
  adiv5DpWrite lowAccess adiv5DpAbort abort

/-- What follows the loop. -/
def afterAck (abort : SwdM Unit) (rnw : Bool) (ack : Fin 8) : SwdM UInt32 :=
  if ack = ackWait then do
    abort
    setFault (UInt8.ofNat ack)
    return 0
  else if ack = ackFault then do
    setFault (UInt8.ofNat ack)
    return 0
  else if ack = ackNoResponse then do
    setFault (UInt8.ofNat ack)
    return 0
  else if ack ≠ ackOk then throw (.raised "SWD invalid ACK")
  else dataPhase w rnw

/-- `firmware_swdp_low_access`, for `depth` calls inside of each other. -/
def firmwareSwdpLowAccess (fuel : Nat) : Nat → Bool → UInt16 → UInt32 → SwdM UInt32
  | 0, _, _, _ => throw .tooDeep
  | depth + 1, rnw, addr, _ => do
    let s ← get
    if addr &&& adiv5APnDP ≠ 0 ∧ s.fault ≠ 0 then return 0
    else do
      let timeout ← platformTimeoutSet w 250
      let ack ← ackLoop w (adiv5DpWrite (firmwareSwdpLowAccess fuel depth) adiv5DpAbort abortErrors)
        timeout fuel
      afterAck w (firmwareSwdpAbort (firmwareSwdpLowAccess fuel depth) abortDap) rnw ack

end

/-! ## Answers -/

/-- An access that starts with the operation `p`, and has the time-out `timeout`, is kept waiting
until the operation `q` reads another acknowledgement than WAIT and FAULT. -/
inductive Answered (w : Wire) (timeout : UInt32) : Nat → Nat → Prop
  | answer {p : Nat} (hwait : w.ack (p + 1) ≠ ackWait) (hfault : w.ack (p + 1) ≠ ackFault) :
    Answered w timeout p (p + 1)
  | wait {p q : Nat} (hwait : w.ack (p + 1) = ackWait) (htime : ¬ w.time (p + 2) > timeout)
    (hrest : Answered w timeout (p + 2) q) : Answered w timeout p q

/-- Where a write ends whose acknowledgement was read by the operation `q`, if it does not raise. -/
def Wire.writeEnd (w : Wire) (q : Nat) : Option Nat :=
  if w.ack q = ackOk then some (q + 3) else if w.ack q = ackNoResponse then some (q + 1) else none

/-- An access that starts with the operation `p` gets an acknowledgement other than WAIT and FAULT
or lets its time pass, and each write to ABORT that it makes on the way is answered within the time
of that write. -/
inductive Calm (w : Wire) (timeout : UInt32) : Nat → Prop
  | answer {p : Nat} (hwait : w.ack (p + 1) ≠ ackWait) (hfault : w.ack (p + 1) ≠ ackFault) :
      Calm w timeout p
  | wait {p : Nat} (hwait : w.ack (p + 1) = ackWait) (htime : ¬ w.time (p + 2) > timeout)
    (hrest : Calm w timeout (p + 2)) : Calm w timeout p
  | gaveUp {p q : Nat} (hwait : w.ack (p + 1) = ackWait) (htime : w.time (p + 2) > timeout)
    (habort : Answered w (w.time (p + 2) + 250) (p + 2) q) : Calm w timeout p
  | retry {p q : Nat} (hfault : w.ack (p + 1) = ackFault)
    (habort : Answered w (w.time (p + 2) + 250) (p + 2) q)
    (hrest : ∀ r, w.writeEnd q = some r → ¬ w.time r > timeout → Calm w timeout r) :
      Calm w timeout p

/-- The exits of a run that has not come to its end. -/
def Exit.Unfinished (e : Exit) : Prop := e = .tooDeep ∨ e = .notYet

/-- An exit for want of turns or depth is no exception. -/
theorem Exit.Unfinished.not_raised {e : Exit} (h : e.Unfinished) (msg : String) :
    e ≠ .raised msg := by
  rintro rfl
  rcases h with h | h
  · cases h
  · cases h

section
variable {w : Wire} {abort : SwdM Unit} {timeout : UInt32} {n : Nat} {s : Port}

/-! ## The loop -/

/-- An answer other than WAIT or FAULT ends the loop. -/
theorem ackLoop_answer (hwait : w.ack (s.ops + 1) ≠ ackWait)
    (hfault : w.ack (s.ops + 1) ≠ ackFault) :
    ackLoop w abort timeout (n + 1) s = .ok (w.ack (s.ops + 1)) { s with ops := s.ops + 2 } := by
  change (abortOnFault abort (w.ack (s.ops + 1)) >>= fun _ => _) { s with ops := s.ops + 2 } = _
  rw [abortOnFault, if_neg hfault, run_bind_ok (show (pure () : SwdM Unit) _ = .ok () _ from rfl),
    repeats, if_neg (not_or.2 ⟨hwait, hfault⟩)]
  rfl

/-- After WAIT the loop ends once the time is up, and goes round again otherwise. -/
theorem ackLoop_wait (hwait : w.ack (s.ops + 1) = ackWait) :
    ackLoop w abort timeout (n + 1) s =
      if w.time (s.ops + 2) > timeout then .ok ackWait { s with ops := s.ops + 2 }
      else ackLoop w abort timeout n { s with ops := s.ops + 2 } := by
  change (abortOnFault abort (w.ack (s.ops + 1)) >>= fun _ => _) { s with ops := s.ops + 2 } = _
  rw [hwait, abortOnFault, if_neg (by decide),
    run_bind_ok (show (pure () : SwdM Unit) _ = .ok () _ from rfl), repeats, if_pos (.inl rfl)]
  by_cases htime : w.time (s.ops + 2) > timeout
  · rw [if_pos htime]
    change (if (!decide (w.time (s.ops + 2) > timeout)) = true then _ else _ : SwdM (Fin 8)) _ = _
    rw [decide_eq_true htime]
    rfl
  · rw [if_neg htime]
    change (if (!decide (w.time (s.ops + 2) > timeout)) = true then _ else _ : SwdM (Fin 8)) _ = _
    rw [decide_eq_false htime]
    rfl

/-- After FAULT and an ABORT that returns, the same test is made. -/
theorem ackLoop_fault_ok {s' : Port} (hfault : w.ack (s.ops + 1) = ackFault)
    (habort : abort { s with ops := s.ops + 2 } = .ok () s') :
    ackLoop w abort timeout (n + 1) s =
      if w.time s'.ops > timeout then .ok ackFault s' else ackLoop w abort timeout n s' := by
  change (abortOnFault abort (w.ack (s.ops + 1)) >>= fun _ => _) { s with ops := s.ops + 2 } = _
  rw [hfault, abortOnFault, if_pos rfl, run_bind_ok habort, repeats, if_pos (.inr rfl)]
  by_cases htime : w.time s'.ops > timeout
  · rw [if_pos htime]
    change (if (!decide (w.time s'.ops > timeout)) = true then _ else _ : SwdM (Fin 8)) _ = _
    rw [decide_eq_true htime]
    rfl
  · rw [if_neg htime]
    change (if (!decide (w.time s'.ops > timeout)) = true then _ else _ : SwdM (Fin 8)) _ = _
    rw [decide_eq_false htime]
    rfl

/-- An ABORT that does not return ends the loop. -/
theorem ackLoop_fault_error {e : Exit} {s' : Port} (hfault : w.ack (s.ops + 1) = ackFault)
    (habort : abort { s with ops := s.ops + 2 } = .error e s') :
    ackLoop w abort timeout (n + 1) s = .error e s' := by
  change (abortOnFault abort (w.ack (s.ops + 1)) >>= fun _ => _) { s with ops := s.ops + 2 } = _
  rw [hfault, abortOnFault, if_pos rfl, run_bind_error habort]

/-- The operation that ends a wait is answered neither by WAIT nor by FAULT. -/
theorem Answered.ack {p q : Nat} (h : Answered w timeout p q) :
    w.ack q ≠ ackWait ∧ w.ack q ≠ ackFault := by
  induction h with
  | answer hwait hfault => exact ⟨hwait, hfault⟩
  | wait _ _ _ ih => exact ih

/-- The loop of an access that is answered. -/
theorem ackLoop_of_answered {p q : Nat} (h : Answered w timeout p q) :
    ∃ n₀, ∀ abort, ∀ n ≥ n₀, ∀ s : Port, s.ops = p →
      ackLoop w abort timeout n s = .ok (w.ack q) { s with ops := q + 1 } := by
  induction h with
  | answer hwait hfault =>
    refine ⟨1, fun abort n hn s hs => ?_⟩
    obtain ⟨n, rfl⟩ := Nat.exists_eq_add_of_le' hn
    subst hs
    rw [ackLoop_answer hwait hfault]
  | wait hwait htime _ ih =>
    obtain ⟨n₀, hn₀⟩ := ih
    refine ⟨n₀ + 1, fun abort n hn s hs => ?_⟩
    obtain ⟨n, rfl⟩ := Nat.exists_eq_add_of_le' (Nat.le_of_add_left_le hn)
    subst hs
    rw [ackLoop_wait hwait, if_neg htime, hn₀ abort n (by omega) _ rfl]

/-- A loop in which no write to ABORT can be made is answered, or it waits until its time has
passed. -/
theorem ackLoop_cases {e : Exit} (he : e.Unfinished) (habort : ∀ s, ∃ s', abort s = .error e s')
    (n : Nat) (s : Port) :
    (∃ q, Answered w timeout s.ops q ∧ ackLoop w abort timeout n s =
      .ok (w.ack q) { s with ops := q + 1 }) ∨
      (∃ s', ackLoop w abort timeout n s = .ok ackWait s') ∨
      ∃ e' s', e'.Unfinished ∧ ackLoop w abort timeout n s = .error e' s' := by
  induction n generalizing s with
  | zero => exact .inr (.inr ⟨.notYet, s, .inr rfl, rfl⟩)
  | succ n ih =>
    by_cases hwait : w.ack (s.ops + 1) = ackWait
    · rw [ackLoop_wait hwait]
      by_cases htime : w.time (s.ops + 2) > timeout
      · rw [if_pos htime]
        exact .inr (.inl ⟨_, rfl⟩)
      · rw [if_neg htime]
        exact (ih { s with ops := s.ops + 2 }).imp_left fun ⟨q, h, hrun⟩ =>
          ⟨q, .wait hwait htime h, hrun⟩
    · by_cases hfault : w.ack (s.ops + 1) = ackFault
      · obtain ⟨s', hrun⟩ := habort { s with ops := s.ops + 2 }
        exact .inr (.inr ⟨e, s', he, ackLoop_fault_error hfault hrun⟩)
      · exact .inl ⟨_, .answer hwait hfault, ackLoop_answer hwait hfault⟩

/-! ## The write to ABORT -/

/-- How a write ends whose acknowledgement was read by the operation `q`. -/
def writeResult (w : Wire) (q : Nat) (s : Port) : EStateM.Result Exit Port Unit :=
  if w.ack q = ackOk then .ok () { s with ops := q + 3 }
  else if w.ack q = ackNoResponse then .ok () { fault := UInt8.ofNat ackNoResponse, ops := q + 1 }
  else .error (.raised "SWD invalid ACK") { s with ops := q + 1 }

/-- What follows an answer. -/
theorem afterAck_answered {q : Nat} (hwait : w.ack q ≠ ackWait) (hfault : w.ack q ≠ ackFault)
    (abort : SwdM Unit) :
    (afterAck w abort false (w.ack q) >>= fun _ => pure ()) { s with ops := q + 1 } =
      writeResult w q s := by
  unfold afterAck writeResult
  rw [if_neg hwait, if_neg hfault]
  by_cases hok : w.ack q = ackOk
  · rw [if_pos hok, hok, if_neg (by decide), if_neg (by decide)]
    rfl
  · rw [if_neg hok]
    by_cases hno : w.ack q = ackNoResponse
    · rw [if_pos hno, if_pos hno, hno]
      rfl
    · rw [if_neg hno, if_neg hno, if_pos hok]
      rfl

/-- A write whose answer is OK returns. -/
theorem writeResult_of_writeEnd {q r : Nat} (h : w.writeEnd q = some r) (s : Port) :
    ∃ s', writeResult w q s = .ok () s' ∧ s'.ops = r := by
  unfold Wire.writeEnd at h
  unfold writeResult
  split at h
  · next hok =>
    rw [if_pos hok]
    exact ⟨_, rfl, Option.some.inj h⟩
  · next hok =>
    split at h
    · next hno =>
      rw [if_neg hok, if_pos hno]
      exact ⟨_, rfl, Option.some.inj h⟩
    · cases h

/-- Any other answer raises an exception. -/
theorem writeResult_of_none {q : Nat} (h : w.writeEnd q = none) (s : Port) :
    ∃ s' msg, writeResult w q s = .error (.raised msg) s' := by
  unfold Wire.writeEnd at h
  unfold writeResult
  split at h
  · cases h
  · next hok =>
    split at h
    · cases h
    · next hno =>
      rw [if_neg hok, if_neg hno]
      exact ⟨_, _, rfl⟩

/-- An access that is made. -/
theorem lowAccess_run {addr : UInt16} (hskip : ¬ (addr &&& adiv5APnDP ≠ 0 ∧ s.fault ≠ 0))
    (fuel depth : Nat) (rnw : Bool) (value : UInt32) :
    firmwareSwdpLowAccess w fuel (depth + 1) rnw addr value s =
      (ackLoop w (adiv5DpWrite (firmwareSwdpLowAccess w fuel depth) adiv5DpAbort abortErrors)
        (w.time s.ops + 250)
          fuel >>=
        fun ack => afterAck w (firmwareSwdpAbort (firmwareSwdpLowAccess w fuel depth) abortDap) rnw
          ack) s := by
  rw [firmwareSwdpLowAccess, run_bind_ok (show (get : SwdM Port) s = .ok s s from rfl),
    if_neg hskip]
  rfl

/-- The write to ABORT that is made inside of an access. -/
def innerAbort (w : Wire) (fuel : Nat) (value : UInt32) : SwdM Unit :=
  adiv5DpWrite (firmwareSwdpLowAccess w fuel 1) adiv5DpAbort value

/-- With no depth left an ABORT is not made. -/
theorem abort_tooDeep (w : Wire) (fuel : Nat) (value : UInt32) (s : Port) :
    adiv5DpWrite (firmwareSwdpLowAccess w fuel 0) adiv5DpAbort value s = .error .tooDeep s := rfl

/-- It runs to its end when its loop does. -/
theorem innerAbort_ok {fuel q : Nat} (hwait : w.ack q ≠ ackWait) (hfault : w.ack q ≠ ackFault)
    (hloop : ackLoop w (adiv5DpWrite (firmwareSwdpLowAccess w fuel 0) adiv5DpAbort abortErrors)
      (w.time s.ops + 250) fuel s = .ok (w.ack q) { s with ops := q + 1 }) (value : UInt32) :
    innerAbort w fuel value s = writeResult w q s := by
  have hskip : ¬ (adiv5DpAbort &&& adiv5APnDP ≠ 0 ∧ s.fault ≠ 0) := fun h => h.1 (by decide)
  have hrun := @lowAccess_run w s _ hskip fuel 0 false value
  rw [run_bind_ok hloop] at hrun
  rw [← afterAck_answered hwait hfault
    (firmwareSwdpAbort (firmwareSwdpLowAccess w fuel 0) abortDap)]
  change EStateM.bind _ _ s = EStateM.bind _ _ _
  rw [EStateM.bind, EStateM.bind, hrun]

/-- An ABORT whose wait ends is a write with that answer. -/
theorem innerAbort_of_answered {p q : Nat} (h : Answered w (w.time p + 250) p q) :
    ∃ n₀, ∀ fuel ≥ n₀, ∀ (value : UInt32) (s : Port), s.ops = p → innerAbort w fuel value s =
      writeResult w q s := by
  obtain ⟨n₀, hn₀⟩ := ackLoop_of_answered h
  obtain ⟨hwait, hfault⟩ := h.ack
  refine ⟨n₀, fun fuel hfuel value s hs => ?_⟩
  subst hs
  exact innerAbort_ok hwait hfault (hn₀ _ fuel hfuel s rfl) value

/-- It is answered, or the run is not at its end. -/
theorem innerAbort_cases (fuel : Nat) (value : UInt32) (s : Port) :
    (∃ q, Answered w (w.time s.ops + 250) s.ops q ∧ innerAbort w fuel value s = writeResult w q s) ∨
      ∃ e s', e.Unfinished ∧ innerAbort w fuel value s = .error e s' := by
  have hskip : ¬ (adiv5DpAbort &&& adiv5APnDP ≠ 0 ∧ s.fault ≠ 0) := fun h => h.1 (by decide)
  have hrun := @lowAccess_run w s _ hskip fuel 0 false value
  rcases @ackLoop_cases w _ (w.time s.ops + 250) .tooDeep (.inl rfl)
    (fun s => ⟨s, abort_tooDeep w fuel abortErrors s⟩) fuel s
      with ⟨q, h, hloop⟩ | ⟨s', hloop⟩ | ⟨e, s', he, hloop⟩
  · obtain ⟨hwait, hfault⟩ := h.ack
    exact .inl ⟨q, h, innerAbort_ok hwait hfault hloop value⟩
  · refine .inr ⟨.tooDeep, s', .inl rfl, ?_⟩
    rw [run_bind_ok hloop] at hrun
    exact run_bind_error hrun
  · refine .inr ⟨e, s', he, ?_⟩
    rw [run_bind_error hloop] at hrun
    exact run_bind_error hrun

/-! ## The access -/

/-- The program returns with `Q`, or raises. -/
def Finishes {α : Type} (m : SwdM α) (s : Port) (Q : α → Port → Prop) : Prop :=
  Ends m s Q fun e _ => ∃ msg, e = .raised msg

/-- What a return without a fault means: the last three operations of the access were an
acknowledgement OK, the data and the idle cycles, and a word that was read has the right parity. -/
def Correct (w : Wire) (rnw : Bool) (response : UInt32) (s : Port) : Prop :=
  s.fault = 0 → w.ack (s.ops - 3) = ackOk ∧ (rnw = true → w.word (s.ops - 2) = (response, false))

/-- A program that is cut short does not finish. -/
theorem not_finishes_error {α : Type} {m : SwdM α} {e : Exit} {s' : Port} {Q : α → Port → Prop}
    (he : e.Unfinished) (hm : m s = .error e s') : ¬ Finishes m s Q := by
  intro h
  obtain ⟨msg, hmsg⟩ := Ends.error h hm
  exact he.not_raised msg hmsg

/-- Every acknowledgement other than OK leaves a fault or raises. -/
theorem ends_afterAck (abort : SwdM Unit) (rnw : Bool) {ack : Fin 8}
    (hack : ack = ackOk → w.ack (s.ops - 1) = ackOk ∧ 0 < s.ops) :
    Ends (afterAck w abort rnw ack) s (Correct w rnw) fun _ _ => True := by
  unfold afterAck
  split
  · next hwait =>
    rw [ends_bind]
    refine (ends_true abort s).imp (fun _ s' _ => ?_) fun _ _ _ => trivial
    rw [hwait]
    exact fun h0 => absurd (show UInt8.ofNat ackWait = 0 from h0) (by decide)
  split
  · next hfault =>
    rw [hfault]
    exact fun h0 => absurd (show UInt8.ofNat ackFault = 0 from h0) (by decide)
  split
  · next hno =>
    rw [hno]
    exact fun h0 => absurd (show UInt8.ofNat ackNoResponse = 0 from h0) (by decide)
  split
  · trivial
  · next hok =>
    obtain ⟨hack, hpos⟩ := hack (not_not.1 hok)
    have h3 : s.ops + 1 + 1 - 3 = s.ops - 1 := by omega
    unfold dataPhase
    cases rnw with
    | false => exact fun _ => ⟨(congrArg w.ack h3).trans hack, fun h => by cases h⟩
    | true =>
      have hread : seqInParity w s = .ok (w.word s.ops) { s with ops := s.ops + 1 } := rfl
      rw [if_pos rfl, ends_bind_of_ok hread]
      cases hword : w.word s.ops with
      | mk response parity =>
        cases parity with
        | true => trivial
        | false =>
          exact fun _ => ⟨(congrArg w.ack h3).trans hack, fun _ => hword⟩

/-- The acknowledgement that a loop returns is the last one it read, unless it is one to write to
ABORT for. -/
theorem ends_ackLoop (abort : SwdM Unit) (timeout : UInt32) (n : Nat) (s : Port) :
    Ends (ackLoop w abort timeout n) s
      (fun ack s' => ack = ackOk → w.ack (s'.ops - 1) = ackOk ∧ 0 < s'.ops) fun _ _ => True := by
  induction n generalizing s with
  | zero => trivial
  | succ n ih =>
    by_cases hwait : w.ack (s.ops + 1) = ackWait
    · unfold Ends
      rw [ackLoop_wait hwait]
      split
      · next htime =>
        split at htime
        · cases htime
          exact fun h => absurd h (by decide)
        · exact (ih _).ok htime
      · trivial
    · by_cases hfault : w.ack (s.ops + 1) = ackFault
      · cases hrun : abort { s with ops := s.ops + 2 } with
        | ok u s' =>
          unfold Ends
          rw [ackLoop_fault_ok hfault hrun]
          split
          · next htime =>
            split at htime
            · cases htime
              exact fun h => absurd h (by decide)
            · exact (ih _).ok htime
          · trivial
        | error e s' =>
          unfold Ends
          rw [ackLoop_fault_error hfault hrun]
          trivial
      · unfold Ends
        rw [ackLoop_answer hwait hfault]
        exact fun h => ⟨h, Nat.succ_pos _⟩

/-- Whatever the depth, a return without a fault comes from an acknowledgement OK. -/
theorem ends_lowAccess (fuel depth : Nat) (rnw : Bool) (addr : UInt16) (value : UInt32) (s : Port) :
    Ends (firmwareSwdpLowAccess w fuel depth rnw addr value) s
      (fun response s' => Correct w rnw response s' ) fun _ _ => True := by
  cases depth with
  | zero => trivial
  | succ depth =>
    by_cases hskip : addr &&& adiv5APnDP ≠ 0 ∧ s.fault ≠ 0
    · rw [firmwareSwdpLowAccess, ends_bind, ends_get, if_pos hskip]
      exact fun h0 => absurd h0 hskip.2
    · have hends :
          Ends
          (ackLoop w (adiv5DpWrite (firmwareSwdpLowAccess w fuel depth) adiv5DpAbort abortErrors)
          (w.time s.ops + 250) fuel >>=
          fun ack => afterAck w (firmwareSwdpAbort (firmwareSwdpLowAccess w fuel depth) abortDap)
            rnw ack) s
          (Correct w rnw) fun _ _ => True := by
        rw [ends_bind]
        exact (ends_ackLoop _ _ _ s).imp (fun _ _ h => ends_afterAck _ _ h) fun _ _ _ => trivial
      unfold Ends at hends ⊢
      rw [lowAccess_run hskip]
      exact hends

/-- The data phase is not cut short. -/
theorem finishes_dataPhase (rnw : Bool) (s : Port) :
    Finishes (dataPhase w rnw) s fun _ _ => True := by
  unfold dataPhase
  cases rnw with
  | false => trivial
  | true =>
    have hread : seqInParity w s = .ok (w.word s.ops) { s with ops := s.ops + 1 } := rfl
    rw [if_pos rfl, Finishes, ends_bind_of_ok hread]
    cases w.word s.ops with
    | mk response parity =>
      cases parity with
      | true => exact ⟨_, rfl⟩
      | false => trivial

/-- What follows an acknowledgement other than WAIT comes to an end. -/
theorem finishes_afterAck (abort : SwdM Unit) (rnw : Bool) {ack : Fin 8} (hwait : ack ≠ ackWait)
    (s : Port) :
    Finishes (afterAck w abort rnw ack) s fun _ _ => True := by
  unfold afterAck
  rw [if_neg hwait]
  split
  · trivial
  split
  · trivial
  split
  · exact ⟨_, rfl⟩
  · exact finishes_dataPhase rnw s

/-- A wait takes at least one operation. -/
theorem Answered.lt {p q : Nat} (h : Answered w timeout p q) : p < q := by
  induction h with
  | answer => exact Nat.lt_succ_self _
  | wait _ _ _ ih => omega

/-- A wire is calm when the time of the access passes for good and every write to ABORT is
answered. -/
theorem calm_of_answered {last : Nat} (htime : ∀ p ≥ last, w.time p > timeout)
    (habort : ∀ p, ∃ q, Answered w (w.time p + 250) p q) (p : Nat) : Calm w timeout p := by
  by_cases hwait : w.ack (p + 1) = ackWait
  · by_cases hexp : w.time (p + 2) > timeout
    · obtain ⟨q, hq⟩ := habort (p + 2)
      exact .gaveUp hwait hexp hq
    · have hlt : p + 2 < last := by
        by_contra hge
        exact hexp (htime (p + 2) (Nat.le_of_not_lt hge))
      exact .wait hwait hexp (calm_of_answered htime habort (p + 2))
  · by_cases hfault : w.ack (p + 1) = ackFault
    · obtain ⟨q, hq⟩ := habort (p + 2)
      refine .retry hfault hq fun r hend hexp => ?_
      have hlt : r < last := by
        by_contra hge
        exact hexp (htime r (Nat.le_of_not_lt hge))
      have hr : q < r := by
        unfold Wire.writeEnd at hend
        split at hend
        · have heq := Option.some.inj hend
          omega
        · split at hend
          · have heq := Option.some.inj hend
            omega
          · cases hend
      have hq' := hq.lt
      exact calm_of_answered htime habort r
    · exact .answer hwait hfault
termination_by last - p

/-- The write to ABORT that ends an access comes to an end. -/
theorem finishes_gaveUp {abort : SwdM Unit} {q : Nat} (habort : abort s = writeResult w q s)
    (rnw : Bool) :
    Finishes (afterAck w abort rnw ackWait) s fun _ _ => True := by
  unfold afterAck
  rw [if_pos rfl]
  cases hend : w.writeEnd q with
  | none =>
    obtain ⟨s', msg, hresult⟩ := writeResult_of_none hend s
    rw [Finishes, ends_bind_of_error (habort.trans hresult)]
    exact ⟨msg, rfl⟩
  | some r =>
    obtain ⟨s', hresult, -⟩ := writeResult_of_writeEnd hend s
    rw [Finishes, ends_bind_of_ok (habort.trans hresult)]
    trivial

/-- A calm wire lets the access come to its end. -/
theorem finishes_of_calm {p : Nat} (h : Calm w timeout p) (rnw : Bool) :
    ∃ n₀, ∀ fuel ≥ n₀, ∀ n ≥ n₀, ∀ s : Port, s.ops = p →
      Finishes (ackLoop w (innerAbort w fuel abortErrors) timeout n >>=
        fun ack => afterAck w (innerAbort w fuel abortDap) rnw ack) s fun _ _ => True := by
  induction h with
  | answer hwait hfault =>
    refine ⟨1, fun fuel _ n hn s hs => ?_⟩
    obtain ⟨n, rfl⟩ := Nat.exists_eq_add_of_le' hn
    subst hs
    rw [Finishes, ends_bind_of_ok (ackLoop_answer hwait hfault)]
    exact finishes_afterAck _ rnw hwait _
  | wait hwait htime _ ih =>
    obtain ⟨n₀, hn₀⟩ := ih
    refine ⟨n₀ + 1, fun fuel hfuel n hn s hs => ?_⟩
    obtain ⟨n, rfl⟩ := Nat.exists_eq_add_of_le' (Nat.le_of_add_left_le hn)
    subst hs
    have hrun := hn₀ fuel (by omega) n (by omega) { s with ops := s.ops + 2 } rfl
    rw [Finishes, ends_bind] at hrun ⊢
    unfold Ends at hrun ⊢
    rw [ackLoop_wait hwait, if_neg htime]
    exact hrun
  | gaveUp hwait htime habort =>
    obtain ⟨n₀, hn₀⟩ := innerAbort_of_answered habort
    refine ⟨n₀ + 1, fun fuel hfuel n hn s hs => ?_⟩
    obtain ⟨n, rfl⟩ := Nat.exists_eq_add_of_le' (Nat.le_of_add_left_le hn)
    subst hs
    have hloop : ackLoop w (innerAbort w fuel abortErrors) timeout (n + 1) s =
        .ok ackWait { s with ops := s.ops + 2 } := by
      rw [ackLoop_wait hwait, if_pos htime]
    rw [Finishes, ends_bind_of_ok hloop]
    exact finishes_gaveUp (hn₀ fuel (by omega) abortDap _ rfl) rnw
  | @retry p q hfault habort _ ih =>
    obtain ⟨n₀, hn₀⟩ := innerAbort_of_answered habort
    cases hend : w.writeEnd q with
    | none =>
      refine ⟨n₀ + 1, fun fuel hfuel n hn s hs => ?_⟩
      obtain ⟨n, rfl⟩ := Nat.exists_eq_add_of_le' (Nat.le_of_add_left_le hn)
      subst hs
      obtain ⟨s', msg, hresult⟩ := writeResult_of_none hend { s with ops := s.ops + 2 }
      have hrun := (hn₀ fuel (by omega) abortErrors { s with ops := s.ops + 2 } rfl).trans hresult
      rw [Finishes, ends_bind_of_error (ackLoop_fault_error hfault hrun)]
      exact ⟨msg, rfl⟩
    | some r =>
      -- the access is repeated when its time has not passed yet
      by_cases htime : w.time r > timeout
      · refine ⟨n₀ + 1, fun fuel hfuel n hn s hs => ?_⟩
        obtain ⟨n, rfl⟩ := Nat.exists_eq_add_of_le' (Nat.le_of_add_left_le hn)
        subst hs
        obtain ⟨s', hresult, hops⟩ := writeResult_of_writeEnd hend { s with ops := s.ops + 2 }
        have hrun := (hn₀ fuel (by omega) abortErrors { s with ops := s.ops + 2 } rfl).trans hresult
        have hloop : ackLoop w (innerAbort w fuel abortErrors) timeout (n + 1) s =
            .ok ackFault s' := by
          rw [ackLoop_fault_ok hfault hrun, hops, if_pos htime]
        rw [Finishes, ends_bind_of_ok hloop]
        exact finishes_afterAck _ rnw (by decide) s'
      · obtain ⟨n₁, hn₁⟩ := ih r hend htime
        refine ⟨max n₀ n₁ + 1, fun fuel hfuel n hn s hs => ?_⟩
        obtain ⟨n, rfl⟩ := Nat.exists_eq_add_of_le' (Nat.le_of_add_left_le hn)
        subst hs
        obtain ⟨s', hresult, hops⟩ := writeResult_of_writeEnd hend { s with ops := s.ops + 2 }
        have hrun := (hn₀ fuel (by omega) abortErrors { s with ops := s.ops + 2 } rfl).trans hresult
        have hrest := hn₁ fuel (by omega) n (by omega) s' hops
        rw [Finishes, ends_bind] at hrest ⊢
        unfold Ends at hrest ⊢
        rw [ackLoop_fault_ok hfault hrun, hops, if_neg htime]
        exact hrest

/-- An access that comes to its end had a calm wire. -/
theorem calm_of_finishes {fuel : Nat} {rnw : Bool} (n : Nat) (s : Port)
    (h : Finishes (ackLoop w (innerAbort w fuel abortErrors) timeout n >>=
      fun ack => afterAck w (innerAbort w fuel abortDap) rnw ack) s fun _ _ => True) :
        Calm w timeout s.ops := by
  induction n generalizing s with
  | zero => exact absurd h (not_finishes_error (.inr rfl) rfl)
  | succ n ih =>
    by_cases hwait : w.ack (s.ops + 1) = ackWait
    · by_cases htime : w.time (s.ops + 2) > timeout
      · have hloop : ackLoop w (innerAbort w fuel abortErrors) timeout (n + 1) s =
            .ok ackWait { s with ops := s.ops + 2 } := by
          rw [ackLoop_wait hwait, if_pos htime]
        rcases innerAbort_cases fuel abortDap { s with ops := s.ops + 2 }
          with ⟨q, habort, -⟩ | ⟨e, s', he, hrun⟩
        · exact .gaveUp hwait htime habort
        · rw [Finishes, ends_bind_of_ok hloop, afterAck, if_pos rfl] at h
          exact absurd h (not_finishes_error he (run_bind_error hrun))
      · refine .wait hwait htime (ih { s with ops := s.ops + 2 } ?_)
        rw [Finishes, ends_bind] at h ⊢
        unfold Ends at h ⊢
        rwa [ackLoop_wait hwait, if_neg htime] at h
    · by_cases hfault : w.ack (s.ops + 1) = ackFault
      · rcases innerAbort_cases fuel abortErrors { s with ops := s.ops + 2 } with
          ⟨q, habort, hrun⟩ | ⟨e, s', he, hrun⟩
        · refine .retry hfault habort fun r hend htime => ?_
          obtain ⟨s', hresult, hops⟩ := writeResult_of_writeEnd hend { s with ops := s.ops + 2 }
          have hrest : Calm w timeout s'.ops := by
            refine ih s' ?_
            rw [Finishes, ends_bind] at h ⊢
            unfold Ends at h ⊢
            rwa [ackLoop_fault_ok hfault (hrun.trans hresult), hops, if_neg htime] at h
          rwa [hops] at hrest
        · exact absurd h (not_finishes_error he (run_bind_error (ackLoop_fault_error hfault hrun)))
      · exact .answer hwait hfault

/-- With one write to ABORT inside of another access, an access returns or raises exactly when it is
skipped or its wire is calm. It then returns without a fault after an acknowledgement OK only. -/
theorem lowAccess_ends_iff (w : Wire) (rnw : Bool) (addr : UInt16) (value : UInt32) (s : Port) :
    (∃ fuel, Finishes (firmwareSwdpLowAccess w fuel 2 rnw addr value) s (Correct w rnw)) ↔
      (addr &&& adiv5APnDP ≠ 0 ∧ s.fault ≠ 0) ∨ Calm w (w.time s.ops + 250) s.ops := by
  by_cases hskip : addr &&& adiv5APnDP ≠ 0 ∧ s.fault ≠ 0
  · refine ⟨fun _ => .inl hskip, fun _ => ⟨0, ?_⟩⟩
    rw [firmwareSwdpLowAccess, Finishes, ends_bind, ends_get, if_pos hskip]
    exact fun h0 => absurd h0 hskip.2
  · have hrun : ∀ fuel (Q : UInt32 → Port → Prop),
        Finishes (firmwareSwdpLowAccess w fuel 2 rnw addr value) s Q ↔
        Finishes (ackLoop w (innerAbort w fuel abortErrors) (w.time s.ops + 250) fuel >>=
          fun ack => afterAck w (innerAbort w fuel abortDap) rnw ack) s Q := by
      intro fuel Q
      unfold Finishes Ends
      rw [lowAccess_run hskip]
      rfl
    rw [or_iff_right hskip]
    refine ⟨fun ⟨fuel, h⟩ => ?_, fun h => ?_⟩
    · rw [hrun] at h
      exact calm_of_finishes fuel s (h.imp (fun _ _ _ => trivial) fun _ _ h => h)
    · obtain ⟨n₀, hn₀⟩ := finishes_of_calm h rnw
      refine ⟨n₀, ?_⟩
      have hfinish := (hrun n₀ _).2 (hn₀ n₀ (Nat.le_refl _) n₀ (Nat.le_refl _) s rfl)
      exact (hfinish.and (ends_lowAccess n₀ 2 rnw addr value s)).imp (fun _ _ h => h.2) fun _ _ h =>
        h.1

end

/-! ## Wires without an end -/

/-- An access on a wire that has no end at any depth when a write to ABORT that is made with it has
none. -/
theorem lowAccess_unfinished {w : Wire}
    (hloop : ∀ abort timeout n s, (∀ s, ∃ e s', e.Unfinished ∧ abort s = .error e s') →
      (∃ s', ackLoop w abort timeout n s = .ok ackWait s') ∨
        ∃ e s', e.Unfinished ∧ ackLoop w abort timeout n s = .error e s')
    (fuel depth : Nat) (rnw : Bool) {addr : UInt16} (haddr : addr &&& adiv5APnDP = 0)
    (value : UInt32) (s : Port) :
    ∃ e s', Exit.Unfinished e ∧ firmwareSwdpLowAccess w fuel depth rnw addr value s =
      .error e s' := by
  induction depth generalizing rnw addr value s with
  | zero => exact ⟨.tooDeep, s, .inl rfl, rfl⟩
  | succ depth ih =>
    have habort : ∀ value s, ∃ e s', Exit.Unfinished e ∧
        adiv5DpWrite (firmwareSwdpLowAccess w fuel depth) adiv5DpAbort value s = .error e s' := by
      intro value s
      obtain ⟨e, s', he, hrun⟩ := ih false (show adiv5DpAbort &&& adiv5APnDP = 0 by decide) value s
      exact ⟨e, s', he, run_bind_error hrun⟩
    rw [lowAccess_run fun h => h.1 haddr]
    rcases hloop _ (w.time s.ops + 250) fuel s (habort abortErrors)
      with ⟨s', hrun⟩ | ⟨e, s', he, hrun⟩
    · obtain ⟨e, s'', he, hrun'⟩ := habort abortDap s'
      refine ⟨e, s'', he, ?_⟩
      rw [run_bind_ok hrun, afterAck, if_pos rfl]
      exact run_bind_error hrun'
    · exact ⟨e, s', he, run_bind_error hrun⟩

/-- A wire that always says FAULT. -/
def faultWire : Wire := ⟨fun _ => ackFault, fun _ => (0, false), fun p => UInt32.ofNat p⟩

/-- A wire that always says WAIT. -/
def waitWire : Wire := ⟨fun _ => ackWait, fun _ => (0, false), fun p => UInt32.ofNat p⟩

/-- On a wire that answers every operation by FAULT the loop is cut short. -/
theorem ackLoop_faultWire (abort : SwdM Unit) (timeout : UInt32) (n : Nat) (s : Port)
    (habort : ∀ s, ∃ e s', Exit.Unfinished e ∧ abort s = .error e s') :
    ∃ e s', Exit.Unfinished e ∧ ackLoop faultWire abort timeout n s = .error e s' := by
  cases n with
  | zero => exact ⟨.notYet, s, .inr rfl, rfl⟩
  | succ n =>
    obtain ⟨e, s', he, hrun⟩ := habort { s with ops := s.ops + 2 }
    exact ⟨e, s', he, ackLoop_fault_error rfl hrun⟩

/-- On a wire that answers every operation by WAIT the loop times out or is cut short. -/
theorem ackLoop_waitWire (abort : SwdM Unit) (timeout : UInt32) (n : Nat) (s : Port) :
    (∃ s', ackLoop waitWire abort timeout n s = .ok ackWait s') ∨
      ∃ e s', Exit.Unfinished e ∧ ackLoop waitWire abort timeout n s = .error e s' := by
  induction n generalizing s with
  | zero => exact .inr ⟨.notYet, s, .inr rfl, rfl⟩
  | succ n ih =>
    rw [ackLoop_wait rfl]
    split
    · exact .inl ⟨_, rfl⟩
    · exact ih _

/-- On a wire that always says FAULT, or always WAIT, a read of a DP register has no end at any
depth. -/
theorem lowAccess_endless :
    ¬ ∃ w ∈ [faultWire, waitWire], ∃ fuel depth,
      Finishes (firmwareSwdpLowAccess w fuel depth true 0 0) ⟨0, 0⟩ fun _ _ => True := by
  rintro ⟨w, hw, fuel, depth, hfinishes⟩
  have hunfinished : ∃ e s', Exit.Unfinished e ∧
      firmwareSwdpLowAccess w fuel depth true 0 0 ⟨0, 0⟩ = .error e s' := by
    rcases List.mem_cons.1 hw with rfl | hw
    · exact lowAccess_unfinished
        (fun abort timeout n s h => .inr (ackLoop_faultWire abort timeout n s h))
        fuel depth true (by decide) 0 ⟨0, 0⟩
    · rw [List.mem_singleton.1 hw]
      exact lowAccess_unfinished (fun abort timeout n s _ => ackLoop_waitWire abort timeout n s)
        fuel depth true (by decide) 0 ⟨0, 0⟩
  obtain ⟨e, s', he, hrun⟩ := hunfinished
  exact not_finishes_error he hrun hfinishes

end Swd

end Blackmagic
