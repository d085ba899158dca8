import Blackmagic.Semihosting.Target

/-!
# Redirected text: `semihosting_remote_write`

With stdout redirected, a text of the target is read in pieces of 64 bytes. Each of the pieces is
read at the start of the text: what is printed is the first piece again and again, and it is the
text exactly when that repeats itself.
-/

namespace Blackmagic

open Effect Scanf Bytes

namespace Semihosting

/-! ## The calls: `semihosting.c` -/

/-- `STDOUT_READ_BUF_SIZE`. -/
abbrev stdoutReadBufSize : UInt32 := 64

/-- The loop of `semihosting_remote_write` from `offset` on, with what `buffer` holds. -/
def stdoutLoop (bufTaddr count : UInt32) : Nat → List UInt8 → UInt32 → SemiM Unit
  | 0, _, _ => throw .notYet
  | fuel + 1, buffer, offset =>
    if offset < count then do
      let amount := if count - offset < stdoutReadBufSize then count - offset else stdoutReadBufSize
      let (bytes, _) ← targetMemRead bufTaddr amount.toNat
      let buffer := overwrite buffer 0 bytes
      debugSerialSendStdout (buffer.take amount.toNat)
      stdoutLoop bufTaddr count fuel buffer (offset + stdoutReadBufSize)
    else return ()

section
variable (respond : SemiM Int32) (fuel : Nat) (buffer : List UInt8)

/-- `semihosting_remote_write`, where `buffer` is what its variable holds at first. -/
def semihostingRemoteWrite (fd : Int32) (bufTaddr count : UInt32) : SemiM Int32 := do
  let s ← get
  if s.stdoutRedirected = true ∧ (fd = stdoutFileno ∨ fd = stderrFileno) then do
    stdoutLoop bufTaddr count fuel buffer 0
    return count.toInt32
  else do
    gdbPutpacketF (ascii "Fwrite," ++ hex08 fd.toUInt32 ++ ascii "," ++ hex08 bufTaddr ++
      ascii "," ++ hex08 count)
    respond

/-- `semihosting_write`. -/
def semihostingWrite (request : Request) : SemiM Int32 :=
  if request.params 0 = 0x7fffffff then return -1
  else do
    let fd := (request.params 0 - 1).toInt32
    let bufTaddr := request.params 1
    let bufLen := request.params 2
    let result ← semihostingRemoteWrite respond fuel buffer fd bufTaddr bufLen
    if 0 ≤ result then return (bufLen - result.toUInt32).toInt32
    else return result

/-- The loop of `semihosting_write0` to the end of the string. -/
def stringEnd : Nat → UInt32 → SemiM UInt32
  | 0, _ => throw .notYet
  | fuel + 1, strEnd => do
    let c ← targetMemRead8 strEnd
    if c ≠ 0 then do
      let error ← targetCheckError strEnd
      if error then return strEnd
      else stringEnd fuel (strEnd + 1)
    else return strEnd

/-- What `semihosting_write0` does with a string of a length. -/
def writeString (strBegin : UInt32) (len : Int32) : SemiM Int32 :=
  if 0 ≤ len then do
    let result ← semihostingRemoteWrite respond fuel buffer stdoutFileno strBegin len.toUInt32
    if result ≠ len then return -1
    else return 0
  else return 0

/-- `semihosting_write0`. -/
def semihostingWrite0 (request : Request) : SemiM Int32 := do
  let strEnd ← stringEnd fuel request.r1
  writeString respond fuel buffer request.r1 (strEnd - request.r1).toInt32

end

/-! ## Runs -/

/-- A call returns a value exactly when it is given enough rounds. -/
def Returns {α : Type} (call : Nat → SemiM α) (s : Target) (a : α) (s' : Target) : Prop :=
  ∃ rounds, ∀ fuel, (rounds ≤ fuel → call fuel s = .ok a s') ∧
    (fuel < rounds → ∃ t, call fuel s = .error .notYet t)

/-- No number of rounds is enough for a call. -/
def Endless {α : Type} (call : Nat → SemiM α) (s : Target) : Prop :=
  ∀ fuel, ∃ t, call fuel s = .error .notYet t

/-- A call returns, and has printed a text. -/
def Prints {α : Type} (call : Nat → SemiM α) (s : Target) (text : List UInt8) (ok : α → Prop) :
    Prop :=
  ∃ fuel a s', call fuel s = .ok a s' ∧ s'.serial = s.serial ++ text ∧ ok a

section
variable {α β : Type} {call : Nat → SemiM α} {s s' : Target} {a : α}

/-- A call that takes no rounds. -/
theorem Returns.of_run {m : SemiM α} (h : m s = .ok a s') : Returns (fun _ => m) s a s' :=
  ⟨0, fun _ => ⟨fun _ => h, fun hlt => absurd hlt (Nat.not_lt_zero _)⟩⟩

/-- Equal calls return alike. -/
theorem Returns.congr {call' : Nat → SemiM α} (h : Returns call s a s')
    (heq : ∀ fuel, call' fuel s = call fuel s) :
    Returns call' s a s' := by
  obtain ⟨rounds, hrun⟩ := h
  exact ⟨rounds, fun fuel => by rw [heq]; exact hrun fuel⟩

/-- Equal calls are endless alike. -/
theorem Endless.congr {call' : Nat → SemiM α} (h : Endless call s)
    (heq : ∀ fuel, call' fuel s = call fuel s) :
    Endless call' s := fun fuel => by rw [heq]; exact h fuel

/-- Calls in a row: the rounds are those of both. -/
theorem Returns.bind {k : Nat → α → SemiM β} {b : β} {s'' : Target} (h : Returns call s a s')
    (hk : Returns (fun fuel => k fuel a) s' b s'') :
    Returns (fun fuel => call fuel >>= k fuel) s b s'' := by
  obtain ⟨rounds, hrun⟩ := h
  obtain ⟨rounds', hrun'⟩ := hk
  refine ⟨max rounds rounds', fun fuel => ⟨fun hle => ?_, fun hlt => ?_⟩⟩
  · exact (run_bind_ok ((hrun fuel).1 (by omega))).trans ((hrun' fuel).1 (by omega))
  · by_cases hfirst : fuel < rounds
    · obtain ⟨t, ht⟩ := (hrun fuel).2 hfirst
      exact ⟨t, run_bind_error ht⟩
    · obtain ⟨t, ht⟩ := (hrun' fuel).2 (by omega)
      exact ⟨t, (run_bind_ok ((hrun fuel).1 (by omega))).trans ht⟩

/-- A call behind an endless one is endless. -/
theorem Endless.bind (h : Endless call s) (k : Nat → α → SemiM β) :
    Endless (fun fuel => call fuel >>= k fuel) s := by
  intro fuel
  obtain ⟨t, ht⟩ := h fuel
  exact ⟨t, run_bind_error ht⟩

/-- A call that returns has printed what it left. -/
theorem Returns.prints_iff (h : Returns call s a s') (text : List UInt8) (ok : α → Prop) :
    Prints call s text ok ↔ s'.serial = s.serial ++ text ∧ ok a := by
  obtain ⟨rounds, hrun⟩ := h
  constructor
  · rintro ⟨fuel, a', t, ht, hserial, ha⟩
    obtain hlt | hle := Nat.lt_or_ge fuel rounds
    · obtain ⟨t', ht'⟩ := (hrun fuel).2 hlt
      rw [ht'] at ht
      cases ht
    · rw [(hrun fuel).1 hle] at ht
      cases ht
      exact ⟨hserial, ha⟩
  · rintro ⟨hserial, ha⟩
    exact ⟨rounds, a, s', (hrun _).1 le_rfl, hserial, ha⟩

/-- An endless one has printed nothing. -/
theorem Endless.not_prints (h : Endless call s) (text : List UInt8) (ok : α → Prop) :
    ¬ Prints call s text ok := by
  rintro ⟨fuel, a, t, ht, -⟩
  obtain ⟨t', ht'⟩ := h fuel
  rw [ht'] at ht
  cases ht

end

/-! ## What is printed -/

/-- The text is printed in pieces of 64 bytes, and every piece is the first one. -/
def repeated (byte : UInt32 → UInt8) (addr : UInt32) (len : Nat) : List UInt8 :=
  (List.range len).map fun i => byte (addr + UInt32.ofNat (i % 64))

/-- The text repeats its first piece, and does not come to the end of the address space. -/
structure Repeats (byte : UInt32 → UInt8) (addr count : UInt32) : Prop where
  fits : count.toNat ≤ 2 ^ 32 - 64
  same : ∀ i < count.toNat, byte (addr + UInt32.ofNat i) = byte (addr + UInt32.ofNat (i % 64))

/-- The text is printed as it is exactly when its chunks repeat the first. -/
theorem repeated_eq_iff (byte : UInt32 → UInt8) (addr : UInt32) (len : Nat) :
    repeated byte addr len = bytesAt byte addr len ↔
      ∀ i < len, byte (addr + UInt32.ofNat i) = byte (addr + UInt32.ofNat (i % 64)) := by
  unfold repeated bytesAt
  rw [List.map_inj_left]
  simp only [List.mem_range, eq_comm]

/-- The first piece, and the rest of the text. -/
theorem repeated_step (byte : UInt32 → UInt8) (addr : UInt32) (len : Nat) (h : 64 ≤ len) :
    repeated byte addr len = bytesAt byte addr 64 ++ repeated byte addr (len - 64) := by
  obtain ⟨rest, rfl⟩ := Nat.exists_eq_add_of_le h
  rw [Nat.add_sub_cancel_left]
  unfold repeated bytesAt
  rw [List.range_add, List.map_append, List.map_map]
  refine congrArg₂ (· ++ ·) (List.map_congr_left fun i hi => ?_) (List.map_congr_left fun i _ => ?_)
  · rw [Nat.mod_eq_of_lt (List.mem_range.1 hi)]
  · rw [Function.comp_apply, Nat.add_mod_left]

/-- A text of one chunk is printed as it is. -/
theorem repeated_of_le (byte : UInt32 → UInt8) (addr : UInt32) {len : Nat} (h : len ≤ 64) :
    repeated byte addr len = bytesAt byte addr len := by
  refine (repeated_eq_iff byte addr len).2 fun i hi => ?_
  rw [Nat.mod_eq_of_lt (by omega)]

/-- What is left does not wrap. -/
theorem toNat_sub_of_lt {offset count : UInt32} (h : offset < count) :
    (count - offset).toNat = count.toNat - offset.toNat :=
  UInt32.toNat_sub_of_le _ _ (Nat.le_of_lt (UInt32.lt_iff_toNat_lt.1 h))

section
variable {s : Target} (addr : UInt32) {count : UInt32}

/-- A round of the loop. -/
theorem stdoutLoop_step (hsys : s.inSyscall = false) (buffer : List UInt8) {offset : UInt32}
    (hlt : offset < count) :
    ∃ buffer', ∀ fuel, stdoutLoop addr count (fuel + 1) buffer offset s =
      stdoutLoop addr count fuel buffer' (offset + 64)
        (s.printed (bytesAt s.byte addr (min (count.toNat - offset.toNat) 64))) := by
  have hamount : (if count - offset < stdoutReadBufSize then count - offset
      else stdoutReadBufSize).toNat =
      min (count.toNat - offset.toNat) 64 := by
    rw [← toNat_sub_of_lt hlt]
    by_cases hlast : count - offset < stdoutReadBufSize
    · rw [if_pos hlast]
      exact (Nat.min_eq_left (Nat.le_of_lt (UInt32.lt_iff_toNat_lt.1 hlast))).symm
    · rw [if_neg hlast]
      exact (Nat.min_eq_right (Nat.le_of_not_lt fun h => hlast (UInt32.lt_iff_toNat_lt.2 h))).symm
  have hread : ∀ len, targetMemRead addr len s = .ok (bytesAt s.byte addr len, s.fails addr) s := by
    intro len
    unfold targetMemRead
    rw [run_bind_ok (show (get : SemiM Target) s = .ok s s from rfl),
      if_neg (by rw [hsys]; exact Bool.false_ne_true)]
    rfl
  have hsent : ∀ len, (overwrite buffer 0 (bytesAt s.byte addr len)).take len =
      bytesAt s.byte addr len := by
    intro len
    unfold overwrite
    rw [List.take_zero, List.nil_append, List.take_append_of_le_length (by simp),
      List.take_of_length_le (by simp)]
  refine ⟨overwrite buffer 0 (bytesAt s.byte addr (min (count.toNat - offset.toNat) 64)),
    fun fuel => ?_⟩
  rw [stdoutLoop, if_pos hlt, run_bind_ok (hread _)]
  simp only [hamount, hsent]
  rfl

/-- Behind its end nothing is left to print. -/
theorem stdoutLoop_done (buffer : List UInt8) {offset : UInt32} (hle : count.toNat ≤ offset.toNat) :
    Returns (fun fuel => stdoutLoop addr count fuel buffer offset) s ()
      (s.printed (repeated s.byte addr (count.toNat - offset.toNat))) := by
  refine ⟨1, fun fuel => ?_⟩
  beta_reduce
  cases fuel with
  | zero => exact ⟨fun h => absurd h (by omega), fun _ => ⟨s, rfl⟩⟩
  | succ fuel =>
    refine ⟨fun _ => ?_, fun h => absurd h (by omega)⟩
    rw [stdoutLoop, if_neg fun h => absurd (UInt32.lt_iff_toNat_lt.1 h) (by omega),
      Nat.sub_eq_zero_of_le hle, show repeated s.byte addr 0 = [] from rfl, printed_nil]
    rfl

/-- A text that does not come to the end of the address space is printed, and each piece is the
first one. -/
theorem stdoutLoop_returns (hsys : s.inSyscall = false) (hfits : count.toNat ≤ 2 ^ 32 - 64)
    (n : Nat) (buffer : List UInt8) (offset : UInt32) (hn : count.toNat - offset.toNat ≤ 64 * n) :
    Returns (fun fuel => stdoutLoop addr count fuel buffer offset) s ()
      (s.printed (repeated s.byte addr (count.toNat - offset.toNat))) := by
  induction n generalizing s buffer offset with
  | zero => exact stdoutLoop_done addr buffer (by omega)
  | succ n ih =>
    by_cases hle : count.toNat ≤ offset.toNat
    · exact stdoutLoop_done addr buffer hle
    have hnext : (offset + 64).toNat = offset.toNat + 64 := by
      rw [UInt32.toNat_add]
      exact Nat.mod_eq_of_lt (by simp only [UInt32.reduceToNat]; omega)
    obtain ⟨buffer', hstep⟩ := stdoutLoop_step addr hsys buffer
      (UInt32.lt_iff_toNat_lt.2 (Nat.lt_of_not_le hle))
    obtain ⟨rounds, hrest⟩ :=
      ih (s := s.printed (bytesAt s.byte addr (min (count.toNat - offset.toNat) 64))) hsys
      buffer' (offset + 64) (by omega)
    refine ⟨rounds + 1, fun fuel => ?_⟩
    beta_reduce at hrest ⊢
    cases fuel with
    | zero => exact ⟨fun h => absurd h (by omega), fun _ => ⟨s, rfl⟩⟩
    | succ fuel =>
      obtain ⟨hok, herror⟩ := hrest fuel
      refine ⟨fun h => ?_, fun h => by rw [hstep]; exact herror (by omega)⟩
      rw [hstep, hok (by omega), printed_printed, printed_byte, hnext]
      by_cases hlast : count.toNat - offset.toNat ≤ 64
      · rw [Nat.min_eq_left hlast, show count.toNat - (offset.toNat + 64) = 0 by omega,
          repeated_of_le s.byte addr hlast, show repeated s.byte addr 0 = [] from rfl,
          List.append_nil]
      · rw [Nat.min_eq_right (by omega),
          repeated_step s.byte addr (count.toNat - offset.toNat) (by omega), Nat.sub_add_eq]

/-- A longer text has no end: the offset starts anew. -/
theorem stdoutLoop_endless (hsys : s.inSyscall = false) (hlong : 2 ^ 32 - 64 < count.toNat)
    (buffer : List UInt8) (offset : UInt32) (hoffset : offset.toNat % 64 = 0) :
    Endless (fun fuel => stdoutLoop addr count fuel buffer offset) s := by
  intro fuel
  induction fuel generalizing s buffer offset with
  | zero => exact ⟨s, rfl⟩
  | succ fuel ih =>
    have hlt : offset < count := by
      rw [UInt32.lt_iff_toNat_lt]
      have := offset.toNat_lt
      omega
    obtain ⟨buffer', hstep⟩ := stdoutLoop_step addr hsys buffer hlt
    beta_reduce
    rw [hstep]
    refine ih (s := s.printed (bytesAt s.byte addr (min (count.toNat - offset.toNat) 64))) hsys
      buffer' (offset + 64) ?_
    rw [UInt32.toNat_add, Nat.mod_mod_of_dvd _ (by decide)]
    simp only [UInt32.reduceToNat]
    omega

/-! ## The calls -/

/-- Stdout is redirected, no call is being served from the probe, and the reads of the target
succeed. -/
structure Redirected (s : Target) : Prop where
  redirected : s.stdoutRedirected = true
  outside : s.inSyscall = false
  reads : ∀ a, s.fails a = false

variable {addr} {respond : SemiM Int32} {buffer : List UInt8} {fd : Int32}

/-- A redirected write is the loop over its chunks. -/
theorem remoteWrite_eq (h : Redirected s) (hfd : fd = stdoutFileno ∨ fd = stderrFileno)
    (fuel : Nat) :
    semihostingRemoteWrite respond fuel buffer fd addr count s =
      (stdoutLoop addr count fuel buffer 0 >>= fun _ => pure count.toInt32) s := by
  unfold semihostingRemoteWrite
  rw [run_bind_ok (show (get : SemiM Target) s = .ok s s from rfl), if_pos ⟨h.redirected, hfd⟩]

/-- What a redirected write does. -/
theorem remoteWrite_returns (h : Redirected s) (hfd : fd = stdoutFileno ∨ fd = stderrFileno)
    (hfits : count.toNat ≤ 2 ^ 32 - 64) :
    Returns (fun fuel => semihostingRemoteWrite respond fuel buffer fd addr count) s count.toInt32
      (s.printed (repeated s.byte addr count.toNat)) := by
  have hloop := stdoutLoop_returns addr h.outside hfits (count.toNat / 64 + 1) buffer 0
    (by simp only [UInt32.reduceToNat]; omega)
  exact (hloop.bind (k := fun _ _ => pure count.toInt32) (Returns.of_run rfl)).congr
    (remoteWrite_eq h hfd)

/-- A count near the top wraps its offset, and the loop goes on. -/
theorem remoteWrite_endless (h : Redirected s) (hfd : fd = stdoutFileno ∨ fd = stderrFileno)
    (hlong : 2 ^ 32 - 64 < count.toNat) :
    Endless (fun fuel => semihostingRemoteWrite respond fuel buffer fd addr count) s :=
  ((stdoutLoop_endless addr h.outside hlong buffer 0 rfl).bind _).congr (remoteWrite_eq h hfd)

/-- The text is printed faithfully exactly when its chunks repeat the first. -/
theorem printed_faithful_iff (len : Nat) :
    (s.printed (repeated s.byte addr len)).serial = s.serial ++ bytesAt s.byte addr len ↔
      ∀ i < len, s.byte (addr + UInt32.ofNat i) = s.byte (addr + UInt32.ofNat (i % 64)) := by
  rw [printed_serial, List.append_cancel_left_eq, repeated_eq_iff]

/-- A redirected write prints the text exactly when it repeats its first piece. -/
theorem remoteWrite_prints_iff (h : Redirected s) (hfd : fd = stdoutFileno ∨ fd = stderrFileno) :
    Prints (fun fuel => semihostingRemoteWrite respond fuel buffer fd addr count) s
        (bytesAt s.byte addr count.toNat) (· = count.toInt32) ↔ Repeats s.byte addr count := by
  by_cases hfits : count.toNat ≤ 2 ^ 32 - 64
  · rw [(remoteWrite_returns h hfd hfits).prints_iff, printed_faithful_iff]
    exact ⟨fun h => ⟨hfits, h.1⟩, fun h => ⟨h.same, rfl⟩⟩
  · exact iff_of_false ((remoteWrite_endless h hfd (Nat.lt_of_not_le hfits)).not_prints _ _)
      fun h => hfits h.fits

/-- `SYS_WRITE` hands a redirected text on. -/
theorem write_prints_iff (h : Redirected s) {request : Request}
    (hfd : request.params 0 = 2 ∨ request.params 0 = 3) :
    Prints (fun fuel => semihostingWrite respond fuel buffer request) s
        (bytesAt s.byte (request.params 1) (request.params 2).toNat) (fun _ => True) ↔
      Repeats s.byte (request.params 1) (request.params 2) := by
  have hfd' : (request.params 0 - 1).toInt32 = stdoutFileno ∨ (request.params 0 - 1).toInt32 =
      stderrFileno := by
    obtain hfd | hfd := hfd
    · rw [hfd]
      exact .inl rfl
    · rw [hfd]
      exact .inr rfl
  have heq : ∀ fuel, semihostingWrite respond fuel buffer request s =
      (semihostingRemoteWrite respond fuel buffer (request.params 0 - 1).toInt32 (request.params 1)
        (request.params 2) >>= fun result =>
          if 0 ≤ result then pure (request.params 2 - result.toUInt32).toInt32
            else pure result) s := by
    intro fuel
    unfold semihostingWrite
    rw [if_neg]
    obtain hfd | hfd := hfd
    · rw [hfd]
      decide
    · rw [hfd]
      decide
  by_cases hfits : (request.params 2).toNat ≤ 2 ^ 32 - 64
  · have hrest : ∀ t : Target, ∃ r, (if 0 ≤ (request.params 2).toInt32 then
        pure (request.params 2 - (request.params 2).toInt32.toUInt32).toInt32
        else pure (request.params 2).toInt32 : SemiM Int32) t = .ok r t := by
      intro t
      split
      · exact ⟨_, rfl⟩
      · exact ⟨_, rfl⟩
    obtain ⟨r, hr⟩ :=
      hrest (s.printed (repeated s.byte (request.params 1) (request.params 2).toNat))
    rw [(((remoteWrite_returns h hfd' hfits).bind (Returns.of_run hr)).congr heq).prints_iff,
      printed_faithful_iff]
    exact ⟨fun h => ⟨hfits, h.1⟩, fun h => ⟨h.same, trivial⟩⟩
  · have hwrite :
        Endless
        (fun fuel => semihostingRemoteWrite respond fuel buffer (request.params 0 - 1).toInt32
        (request.params 1) (request.params 2)) s :=
          remoteWrite_endless h hfd' (Nat.lt_of_not_le hfits)
    have hcall := (hwrite.bind fun _ result =>
      if 0 ≤ result then pure (request.params 2 - result.toUInt32).toInt32
        else pure result).congr heq
    exact iff_of_false (hcall.not_prints _ _) fun h => hfits h.fits

/-- A string of the target: `n` characters and a zero. -/
structure IsString (byte : UInt32 → UInt8) (addr : UInt32) (n : Nat) : Prop where
  lt : n < 2 ^ 32
  nonzero : ∀ i < n, byte (addr + UInt32.ofNat i) ≠ 0
  zero : byte (addr + UInt32.ofNat n) = 0

/-- The search for the terminator ends at the first one, by induction on the characters before it.
-/
theorem stringEnd_returns (hreads : ∀ a, s.fails a = false) (n : Nat) (addr : UInt32)
    (hnonzero : ∀ i < n, s.byte (addr + UInt32.ofNat i) ≠ 0)
    (hzero : s.byte (addr + UInt32.ofNat n) = 0) :
    Returns (fun fuel => stringEnd fuel addr) s (addr + UInt32.ofNat n) s := by
  induction n generalizing addr with
  | zero =>
    rw [show addr + UInt32.ofNat 0 = addr from UInt32.add_zero addr] at hzero ⊢
    refine ⟨1, fun fuel => ?_⟩
    beta_reduce
    cases fuel with
    | zero => exact ⟨fun h => absurd h (by omega), fun _ => ⟨s, rfl⟩⟩
    | succ fuel =>
      refine ⟨fun _ => ?_, fun h => absurd h (by omega)⟩
      rw [stringEnd, run_bind_ok (show targetMemRead8 addr s = .ok (s.byte addr) s from rfl),
        if_neg (not_not.2 hzero)]
      rfl
  | succ n ih =>
    have hshift : ∀ i : Nat, addr + UInt32.ofNat (i + 1) = addr + 1 + UInt32.ofNat i := by
      intro i
      rw [UInt32.ofNat_add, UInt32.add_assoc, UInt32.add_comm 1]
      rfl
    have hfirst : s.byte addr ≠ 0 := by
      have h := hnonzero 0 (by omega)
      rwa [show addr + UInt32.ofNat 0 = addr from UInt32.add_zero addr] at h
    obtain ⟨rounds, hrest⟩ :=
      ih (addr + 1) (fun i hi => hshift i ▸ hnonzero (i + 1) (by omega)) (hshift n ▸ hzero)
    refine ⟨rounds + 1, fun fuel => ?_⟩
    beta_reduce at hrest ⊢
    cases fuel with
    | zero => exact ⟨fun h => absurd h (by omega), fun _ => ⟨s, rfl⟩⟩
    | succ fuel =>
      rw [stringEnd, run_bind_ok (show targetMemRead8 addr s = .ok (s.byte addr) s from rfl),
        if_pos hfirst, run_bind_ok (show targetCheckError addr s = .ok (s.fails addr) s from rfl),
        hreads, if_neg Bool.false_ne_true,
        hshift]
      exact ⟨fun h => (hrest fuel).1 (by omega), fun h => (hrest fuel).2 (by omega)⟩

/-- A result is an error from 2³¹ on. -/
theorem toInt32_nonneg_iff (x : UInt32) : 0 ≤ x.toInt32 ↔ x.toNat < 2 ^ 31 := by
  rw [Int32.le_iff_toInt_le]
  change (0 : Int) ≤ x.toBitVec.toInt ↔ x.toBitVec.toNat < 2 ^ 31
  rw [BitVec.toInt_eq_toNat_cond]
  have hlt := x.toBitVec.isLt
  split
  · omega
  · omega

/-- `SYS_WRITE0` measures a string with a signed length, and hands it on. -/
theorem write0_prints_iff (h : Redirected s) {request : Request} {n : Nat}
    (hstr : IsString s.byte request.r1 n) :
    Prints (fun fuel => semihostingWrite0 respond fuel buffer request) s
      (bytesAt s.byte request.r1 n) (fun _ => True) ↔
      n < 2 ^ 31 ∧ Repeats s.byte request.r1 (UInt32.ofNat n) := by
  have hend := stringEnd_returns h.reads n request.r1 hstr.nonzero hstr.zero
  have hlen : request.r1 + UInt32.ofNat n - request.r1 = UInt32.ofNat n := by
    rw [UInt32.add_comm, UInt32.add_sub_cancel]
  have hcount : (UInt32.ofNat n).toNat = n := UInt32.toNat_ofNat_of_lt' hstr.lt
  have hsign : 0 ≤ (UInt32.ofNat n).toInt32 ↔ n < 2 ^ 31 := by rw [toInt32_nonneg_iff, hcount]
  by_cases hpos : n < 2 ^ 31
  · have hfits : (UInt32.ofNat n).toNat ≤ 2 ^ 32 - 64 := by omega
    have hwrite :
        Returns (fun fuel => semihostingRemoteWrite respond fuel buffer stdoutFileno request.r1
        (UInt32.ofNat n)) s (UInt32.ofNat n).toInt32
          (s.printed (repeated s.byte request.r1 (UInt32.ofNat n).toNat)) :=
      remoteWrite_returns h (.inl rfl) hfits
    have hstring : Returns (fun fuel => writeString respond fuel buffer request.r1
        (request.r1 + UInt32.ofNat n - request.r1).toInt32) s 0
        (s.printed (repeated s.byte request.r1 (UInt32.ofNat n).toNat)) := by
      refine Returns.congr (Returns.bind (k := fun _ result =>
        if result ≠ (UInt32.ofNat n).toInt32 then pure (-1)
          else pure 0) hwrite (Returns.of_run ?_)) fun fuel => ?_
      · rw [if_neg (not_not.2 rfl)]
        rfl
      · rw [hlen, writeString, if_pos (hsign.2 hpos)]
        rfl
    have hcall : Returns (fun fuel => semihostingWrite0 respond fuel buffer request) s 0
        (s.printed (repeated s.byte request.r1 (UInt32.ofNat n).toNat)) := hend.bind hstring
    rw [hcall.prints_iff, hcount, printed_faithful_iff]
    exact ⟨fun h => ⟨hpos, hfits, hcount.symm ▸ h.1⟩, fun h => ⟨hcount ▸ h.2.same, trivial⟩⟩
  · have hstring : Returns (fun fuel => writeString respond fuel buffer request.r1
        (request.r1 + UInt32.ofNat n - request.r1).toInt32) s 0 s := by
      refine Returns.congr (Returns.of_run (show (pure 0 : SemiM Int32) s = .ok 0 s from rfl))
        fun fuel => ?_
      rw [hlen, writeString, if_neg (mt hsign.1 hpos)]
    have hcall : Returns (fun fuel => semihostingWrite0 respond fuel buffer request) s 0 s :=
      hend.bind hstring
    rw [hcall.prints_iff]
    refine iff_of_false (fun hprints => ?_) fun h => hpos h.1
    have hnone := congrArg List.length hprints.1
    rw [List.length_append, length_bytesAt] at hnone
    omega

/-- What a target prints with stdout redirected is its text exactly when the text repeats its first
64 bytes. -/
theorem redirected_faithful_iff (h : Redirected s) (respond : SemiM Int32) (buffer : List UInt8) :
    (∀ fd addr count, fd = stdoutFileno ∨ fd = stderrFileno →
      (Prints (fun fuel => semihostingRemoteWrite respond fuel buffer fd addr count) s
        (bytesAt s.byte addr count.toNat) (· = count.toInt32) ↔ Repeats s.byte addr count)) ∧
    (∀ request : Request, request.params 0 = 2 ∨ request.params 0 = 3 →
      (Prints (fun fuel => semihostingWrite respond fuel buffer request) s
        (bytesAt s.byte (request.params 1) (request.params 2).toNat) (fun _ => True) ↔
          Repeats s.byte (request.params 1) (request.params 2))) ∧
    ∀ (request : Request) (n : Nat), IsString s.byte request.r1 n →
      (Prints (fun fuel => semihostingWrite0 respond fuel buffer request) s
        (bytesAt s.byte request.r1 n) (fun _ => True) ↔ n < 2 ^ 31 ∧
          Repeats s.byte request.r1 (UInt32.ofNat n)) :=
  ⟨fun _ _ _ hfd => remoteWrite_prints_iff h hfd, fun _ hfd => write_prints_iff h hfd,
    fun _ _ hstr => write0_prints_iff h hstr⟩

end

/-! ## A memory that counts -/

/-- A target with stdout redirected, and each byte of its memory is the low byte of its address. -/
def counting : Target where
  byte a := a.toUInt8
  fails _ := false
  ramStart := 0x20000000
  stdoutRedirected := true
  inSyscall := false
  buffer := []
  featuresOffset := 0
  serial := []
  packets := []

/-- The memory that counts has stdout redirected. -/
theorem redirected_counting : Redirected counting := ⟨rfl, rfl, fun _ => rfl⟩

/-- A text of 64 bytes is printed. -/
theorem redirected_faithful_counting : Redirected counting ∧
    Prints (fun fuel => semihostingRemoteWrite (pure 0) fuel [] 1 0x20000000 64) counting
      (bytesAt counting.byte 0x20000000 64) (· = 64) := by
  refine ⟨redirected_counting,
    ((redirected_faithful_iff redirected_counting (pure 0) []).1 1 0x20000000 64 (.inl rfl)).2
      ⟨by decide, ?_⟩⟩
  intro i hi
  have hlt : i < 64 := hi
  rw [Nat.mod_eq_of_lt hlt]

/-- Of a text of 65 bytes, the last is not printed. -/
theorem not_prints_counting :
    ¬ Prints (fun fuel => semihostingRemoteWrite (pure 0) fuel [] 1 0x20000000 65) counting
    (bytesAt counting.byte 0x20000000 65) (· = 65) := by
  intro h
  have hrepeats := (remoteWrite_prints_iff redirected_counting (.inl rfl)).1 h
  exact absurd (hrepeats.same 64 (by decide)) (by decide)

end Semihosting

end Blackmagic
