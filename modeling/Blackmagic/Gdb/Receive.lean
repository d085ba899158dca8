import Blackmagic.Gdb.Codec

/-!
# Reception of arbitrary input

What `gdb_getpacket` makes of any characters, well formed or not. The invariant ties the receiver to
the characters it has seen: while it captures, they end in a `$` that started the packet and a body
whose meaning is in the buffer (`Opened`). From it come the bounds of every store, what a call
returns, and which packets are answered with `-`.
-/

namespace Blackmagic

open Bytes

/-! ## The input seen so far -/

/-- A `$` starts a packet here: the receiver is idle, also in `consume_remote_packet`, or
captures. -/
def Rx.TakesStart (rx : Rx) : Prop :=
  rx.loop = .getpacket .idle ∨ rx.loop = .getpacket .gdbCapture ∨ ∃ offset, rx.loop = .remote offset

/-- The receiver is outside of a GDB packet. -/
def Rx.Outside (rx : Rx) : Prop :=
  rx.loop = .getpacket .idle ∨ ∃ offset, rx.loop = .remote offset

/-- The receiver after a step. -/
def RxStep.rx : RxStep → Rx
  | .more rx => rx
  | .done rx _ => rx

section
variable (noackmode : Bool) (packet : List UInt8) (size : Nat)

/-- The call has taken the characters `seen` and waits in `rx`. -/
def Waits (seen : List UInt8) (rx : Rx) : Prop :=
  gdbGetpacket noackmode packet size seen = .ok (.waiting rx)

/-- The characters `seen` end in a `$` that starts a packet and a body that means `p`, which fits in
the buffer. -/
structure Opened (seen body p : List UInt8) : Prop where
  start : ∃ pre rx, seen = pre ++ packetStart :: body ∧ Waits noackmode packet size pre rx ∧
    rx.TakesStart
  meaning : unescape body = some p
  fits : p.length < size

/-- The characters `seen` end in a complete packet with the digits `upper` and `lower`. -/
def Framed (seen body p : List UInt8) (upper lower : UInt8) : Prop :=
  ∃ seen', seen = seen' ++ [packetEnd, upper, lower] ∧ Opened noackmode packet size seen' body p

/-- The characters `seen` end in a complete packet whose checksum is wrong, outside of NoAckMode. -/
def Rejected (seen : List UInt8) : Prop :=
  noackmode = false ∧ ∃ body p upper lower, Framed noackmode packet size seen body p upper lower ∧
    unhexDigit upper <<< 4 ||| unhexDigit lower ≠ body.sum

/-- What a call may return after the characters `seen`: an end of transmission that came outside of
a GDB packet, or the packet that `seen` ends in, with a right checksum outside of NoAckMode. -/
def Outcome (seen : List UInt8) (rx : Rx) (n : Nat) : Prop :=
  (∃ pre rx₀, seen = pre ++ [eot] ∧ Waits noackmode packet size pre rx₀ ∧ rx₀.Outside ∧ n = 1 ∧
    rx.packet[0]? = some eot) ∨
  ∃ body p upper lower, Framed noackmode packet size seen body p upper lower ∧ n = p.length ∧
    rx.packet.take n = p ∧ rx.packet[n]? = some 0 ∧
    (noackmode = false → unhexDigit upper <<< 4 ||| unhexDigit lower = body.sum)

/-- The capture of `body`, which means `p`. -/
structure Captured (rx : Rx) (body p : List UInt8) : Prop where
  offset : rx.offset = p.length
  stored : rx.packet.take p.length = p
  checksum : rx.checksum = body.sum

/-- The receiver in each loop and state, with the characters `seen`. -/
def LoopInv (seen : List UInt8) (rx : Rx) : Prop :=
  match rx.loop with
  | .getpacket .idle => True
  | .remote offset => offset ≤ size ∧ rx.packet.head? ≠ some eot
  | .getpacket .gdbCapture =>
      ∃ body p, Opened noackmode packet size seen body p ∧ Captured rx body p
  | .getpacket .gdbEscape => ∃ seen' body p, seen = seen' ++ [packetEscape] ∧
    Opened noackmode packet size seen' body p ∧ rx.offset = p.length ∧
    rx.packet.take p.length = p ∧ rx.checksum = body.sum + packetEscape
  | .getpacket .gdbChecksumUpper => ∃ seen' body p, seen = seen' ++ [packetEnd] ∧
    Opened noackmode packet size seen' body p ∧ Captured rx body p
  | .getpacket .gdbChecksumLower => ∃ seen' body p upper, seen = seen' ++ [packetEnd, upper] ∧
    Opened noackmode packet size seen' body p ∧ Captured rx body p ∧
    (noackmode = false → rx.rxChecksum = unhexDigit upper <<< 4)

/-- The invariant of the receiver. -/
structure RxInv (seen : List UInt8) (rx : Rx) : Prop where
  waits : Waits noackmode packet size seen rx
  length : rx.packet.length = size + 1
  loop : LoopInv noackmode packet size seen rx

end

section
variable {noackmode : Bool} {packet : List UInt8} {size : Nat} {seen : List UInt8} {rx : Rx}

/-! ## Runs -/

/-- A run over characters that are all taken goes on with the ones that follow. -/
theorem rxRun_append {input : List UInt8} : ∀ {seen : List UInt8} {rx rx' : Rx},
    rxRun noackmode size rx seen = .ok (.waiting rx') →
      rxRun noackmode size rx (seen ++ input) = rxRun noackmode size rx' input := by
  intro seen
  induction seen with
  | nil =>
    intro rx rx' h
    cases h
    rfl
  | cons c rest ih =>
    intro rx rx' h
    rw [rxRun_cons, Run.bind_eq_ok] at h
    obtain ⟨r, hstep, h⟩ := h
    cases r with
    | more rx₁ =>
      rw [List.cons_append, rxRun_more hstep]
      exact ih h
    | done rx₁ n => cases h

/-- One more character while the packet is waited for. -/
theorem Waits.more {c : UInt8} {rx' : Rx} (h : Waits noackmode packet size seen rx)
    (hstep : rxStep noackmode size rx c = .ok (.more rx')) :
    Waits noackmode packet size (seen ++ [c]) rx' := by
  have happ : gdbGetpacket noackmode packet size (seen ++ [c]) = rxRun noackmode size rx [c] :=
    rxRun_append h
  rw [Waits, happ, rxRun_more hstep]
  rfl

/-- The state of the receiver is determined. -/
theorem Waits.unique {rx' : Rx} (h : Waits noackmode packet size seen rx)
    (h' : Waits noackmode packet size seen rx') : rx = rx' := by
  have heq := h.symm.trans h'
  cases heq
  rfl

/-- The receiver at its start. -/
theorem RxInv.start (hlen : packet.length = size + 1) :
    RxInv noackmode packet size [] (Rx.start packet) :=
  ⟨rfl, hlen, trivial⟩

/-! ## The body of a packet -/

/-- A body that grows by characters with a meaning. -/
theorem Opened.grow {body p tail q : List UInt8} (h : Opened noackmode packet size seen body p)
    (htail : unescape tail = some q) (hfits : p.length + q.length < size) :
    Opened noackmode packet size (seen ++ tail) (body ++ tail) (p ++ q) := by
  obtain ⟨pre, rx, hseen, hwaits, htakes⟩ := h.start
  refine ⟨⟨pre, rx, by rw [hseen, List.append_assoc]; rfl, hwaits, htakes⟩, ?_, ?_⟩
  · rw [unescape, unescapeFrom_append h.meaning]
    rw [unescape] at htail
    rw [htail, Option.map_some]
  · rw [List.length_append]
    exact hfits

/-- A `$` where the receiver takes it opens a packet. -/
theorem Opened.empty (hsize : 0 < size) (hwaits : Waits noackmode packet size seen rx)
    (htakes : rx.TakesStart) : Opened noackmode packet size (seen ++ [packetStart]) [] [] :=
  ⟨⟨seen, rx, rfl, hwaits, htakes⟩, rfl, hsize⟩

/-- A character that stands for itself. -/
theorem unescape_plain {c : UInt8} (hstart : c ≠ packetStart) (hend : c ≠ packetEnd)
    (hesc : c ≠ packetEscape) : unescape [c] = some [c] := by
  simp [unescape, unescapeFrom, hstart, hend, hesc]

/-- A character behind an escape. -/
theorem unescape_escaped (c : UInt8) :
    unescape [packetEscape, c] = some [c ^^^ packetEscapeXor] := by
  have hesc : ¬ (packetEscape = packetStart ∨ packetEscape = packetEnd) := by decide
  simp [unescape, unescapeFrom, hesc]

/-- One more character in the buffer. -/
theorem take_set_append {p : List UInt8} {buf : List UInt8} (hstored : buf.take p.length = p)
    (hin : p.length < buf.length) (c : UInt8) :
    (buf.set p.length c).take (p ++ [c]).length = p ++ [c] := by
  rw [List.length_append, List.length_singleton, List.take_add_one, List.getElem?_set_self hin,
    List.take_set_of_le (Nat.le_refl _), hstored]
  rfl

/-- The first character of a buffer after a store to it. -/
theorem head?_set_zero {buf : List UInt8} (h : 0 < buf.length) (c : UInt8) :
    (buf.set 0 c).head? = some c := by
  cases buf with
  | nil => exact absurd h (by simp)
  | cons d tail => rfl

/-! ## One step -/

/-- What a step leads to: the invariant, or a return that is allowed. -/
def StepSpec (noackmode : Bool) (packet : List UInt8) (size : Nat) (seen : List UInt8) :
    RxStep → Prop
  | .more rx => rx.packet.length = size + 1 ∧ LoopInv noackmode packet size seen rx
  | .done rx n => Outcome noackmode packet size seen rx n

/-- The end of the case `PACKET_IDLE`: without an end of transmission in the buffer. -/
theorem idleEnd_next {state : PacketState} (hhead : rx.packet.head? ≠ some eot) :
    idleEnd size state rx = .ok (rxNext size state rx) := by
  rw [idleEnd, if_neg hhead]

/-- The end of the case `PACKET_IDLE`: with an end of transmission in the buffer. -/
theorem idleEnd_eot {state : PacketState} (hhead : rx.packet.head? = some eot)
    (hlen : 1 < rx.packet.length) :
    idleEnd size state rx = .ok (.done { rx with packet := rx.packet.set 1 0 } 1) := by
  rw [idleEnd, if_pos hhead, putByte_of_lt hlen, Run.ok_bind]

/-- An end of transmission is an outcome. -/
theorem outcome_eot (hwaits : Waits noackmode packet size seen rx) (hout : rx.Outside) {rx' : Rx}
    (hhead : rx'.packet.head? = some eot) :
    Outcome noackmode packet size (seen ++ [eot]) { rx' with packet := rx'.packet.set 1 0 } 1 := by
  refine .inl ⟨seen, rx, rfl, hwaits, hout, rfl, ?_⟩
  rw [List.getElem?_set_ne (by decide), ← List.head?_eq_getElem?]
  exact hhead

/-- A step that abandons the capture or never had one. -/
theorem stepSpec_idle {rx' : Rx} (hlen : rx'.packet.length = size + 1) :
    StepSpec noackmode packet size seen (rxNext size .idle rx') := by
  rw [rxNext, ite_self]
  exact ⟨hlen, trivial⟩

/-- A step to a full buffer abandons the capture; otherwise the next state stands. -/
theorem stepSpec_next {state : PacketState} {rx' : Rx} (hlen : rx'.packet.length = size + 1)
    (h : rx'.offset < size →
      LoopInv noackmode packet size seen { rx' with loop := .getpacket state }) :
    StepSpec noackmode packet size seen (rxNext size state rx') := by
  by_cases hfull : size ≤ rx'.offset
  · rw [rxNext, if_pos hfull]
    exact ⟨hlen, trivial⟩
  · rw [rxNext, if_neg hfull]
    exact ⟨hlen, h (Nat.lt_of_not_le hfull)⟩

/-- A `$` where the receiver takes it starts a capture. -/
theorem stepSpec_start (hwaits : Waits noackmode packet size seen rx) (htakes : rx.TakesStart)
    {rx' : Rx} (hlen : rx'.packet.length = size + 1) (hoffset : rx'.offset = 0)
    (hsum : rx'.checksum = 0) :
    StepSpec noackmode packet size (seen ++ [packetStart]) (rxNext size .gdbCapture rx') := by
  refine stepSpec_next hlen fun hpos => ?_
  exact ⟨[], [], .empty (by omega) hwaits htakes, hoffset, rfl, hsum⟩

/-- A character in the case `PACKET_IDLE`. -/
theorem getpacketStep_idle (hsize : 0 < size) (h : RxInv noackmode packet size seen rx)
    (hloop : rx.loop = .getpacket .idle) (c : UInt8) :
    ∃ r, rxStep noackmode size rx c = .ok r ∧ StepSpec noackmode packet size (seen ++ [c]) r := by
  have hlen := h.length
  have hlen' : (rx.packet.set 0 c).length = size + 1 := by rw [List.length_set, hlen]
  have hhead := head?_set_zero (show 0 < rx.packet.length by omega) c
  simp only [rxStep, hloop, getpacketStep, putByte_of_lt (show 0 < rx.packet.length by omega),
    Run.ok_bind]
  by_cases hstart : c = packetStart
  · subst hstart
    rw [if_pos rfl, idleEnd_next (by rw [hhead]; decide)]
    exact ⟨_, rfl, stepSpec_start h.waits (.inl hloop) hlen' rfl rfl⟩
  by_cases hsom : c = remoteSom
  · rw [if_neg hstart, if_pos hsom]
    refine ⟨_, rfl, hlen', Nat.zero_le _, ?_⟩
    rw [hhead, hsom]
    decide
  rw [if_neg hstart, if_neg hsom]
  by_cases heot : c = eot
  · subst heot
    rw [idleEnd_eot hhead (by rw [hlen']; omega)]
    exact ⟨_, rfl, outcome_eot h.waits (.inl hloop) hhead⟩
  · rw [idleEnd_next (by rw [hhead]; simpa using heot)]
    exact ⟨_, rfl, stepSpec_idle hlen'⟩

/-- A character in `consume_remote_packet`. -/
theorem consumeRemoteStep_spec (hsize : 0 < size) (h : RxInv noackmode packet size seen rx)
    {offset : Nat} (hloop : rx.loop = .remote offset) (c : UInt8) :
    ∃ r, rxStep noackmode size rx c = .ok r ∧ StepSpec noackmode packet size (seen ++ [c]) r := by
  have hlen := h.length
  have hinv := h.loop
  simp only [LoopInv, hloop] at hinv
  obtain ⟨hoffset, hnoeot⟩ := hinv
  have hpos : 0 < rx.packet.length := by omega
  have hset : ∀ (i : Nat) (b : UInt8), (rx.packet.set i b).length = size + 1 := by
    intro i b
    rw [List.length_set, hlen]
  simp only [rxStep, hloop, consumeRemoteStep, remoteReturn]
  by_cases heot : c = eot
  · subst heot
    have hhead := head?_set_zero hpos eot
    rw [if_pos rfl, putByte_of_lt hpos, Run.ok_bind, idleEnd_eot hhead (by rw [hset]; omega)]
    exact ⟨_, rfl, outcome_eot h.waits (.inr ⟨offset, hloop⟩) hhead⟩
  rw [if_neg heot]
  by_cases hsom : c = remoteSom
  · rw [if_pos hsom]
    exact ⟨_, rfl, hlen, Nat.zero_le _, hnoeot⟩
  rw [if_neg hsom]
  by_cases hend : c = packetEnd
  · have hpos' : 0 < (rx.packet.set offset 0).length := by rw [hset]; omega
    have hhead := head?_set_zero hpos' 0
    rw [if_pos hend, putByte_of_lt (by omega), Run.ok_bind, putByte_of_lt hpos', Run.ok_bind,
      idleEnd_next (by rw [hhead]; decide)]
    exact ⟨_, rfl, stepSpec_idle (by rw [List.length_set, hset])⟩
  rw [if_neg hend]
  by_cases hstart : c = packetStart
  · subst hstart
    rw [if_pos rfl, idleEnd_next (by exact hnoeot)]
    exact ⟨_, rfl, stepSpec_start h.waits (.inr (.inr ⟨offset, hloop⟩)) hlen rfl rfl⟩
  rw [if_neg hstart]
  by_cases hfull : offset < size
  · rw [if_pos hfull, putByte_of_lt (by omega), Run.ok_bind]
    refine ⟨_, rfl, hset offset c, hfull, ?_⟩
    cases hbuf : rx.packet with
    | nil => simp [hbuf] at hpos
    | cons d tail =>
      rw [hbuf] at hnoeot
      cases offset with
      | zero => simpa using heot
      | succ k => simpa using hnoeot
  · have hhead := head?_set_zero hpos 0
    rw [if_neg hfull, putByte_of_lt hpos, Run.ok_bind, idleEnd_next (by rw [hhead]; decide)]
    exact ⟨_, rfl, stepSpec_idle (hset 0 0)⟩

/-- A character that is stored extends the body that is captured. -/
theorem stepSpec_store {seen' tail body p buf : List UInt8} {rx' : Rx} {c : UInt8}
    (hopen : Opened noackmode packet size seen' body p) (htail : unescape tail = some [c])
    (hstored : buf.take p.length = p) (hlen : buf.length = size + 1)
    (hoffset : rx'.offset = p.length + 1) (hpacket : rx'.packet = buf.set p.length c)
    (hsum : rx'.checksum = (body ++ tail).sum) :
    StepSpec noackmode packet size (seen' ++ tail) (rxNext size .gdbCapture rx') := by
  have hfits := hopen.fits
  refine stepSpec_next (by rw [hpacket, List.length_set, hlen]) fun hlt => ?_
  have hgrow := hopen.grow htail (by rw [List.length_singleton]; omega)
  refine ⟨body ++ tail, p ++ [c], hgrow, ?_, ?_, hsum⟩
  · rw [List.length_append]
    exact hoffset
  · dsimp only
    rw [hpacket]
    exact take_set_append hstored (by omega) c

/-- A character in the case `PACKET_GDB_CAPTURE`. -/
theorem getpacketStep_capture (h : RxInv noackmode packet size seen rx)
    (hloop : rx.loop = .getpacket .gdbCapture) (c : UInt8) :
    ∃ r, rxStep noackmode size rx c = .ok r ∧ StepSpec noackmode packet size (seen ++ [c]) r := by
  have hlen := h.length
  have hinv := h.loop
  simp only [LoopInv, hloop] at hinv
  obtain ⟨body, p, hopen, hcap⟩ := hinv
  have hoffset := hcap.offset
  have hfits := hopen.fits
  simp only [rxStep, hloop, getpacketStep]
  by_cases hstart : c = packetStart
  · subst hstart
    rw [if_pos rfl]
    exact ⟨_, rfl, stepSpec_start h.waits (.inr (.inl hloop)) hlen rfl rfl⟩
  rw [if_neg hstart]
  by_cases hend : c = packetEnd
  · subst hend
    rw [if_pos rfl]
    exact ⟨_, rfl, stepSpec_next hlen fun _ =>
      ⟨seen, body, p, rfl, hopen, hcap.offset, hcap.stored, hcap.checksum⟩⟩
  rw [if_neg hend]
  by_cases hesc : c = packetEscape
  · subst hesc
    rw [if_pos rfl]
    refine ⟨_, rfl, stepSpec_next hlen fun _ =>
      ⟨seen, body, p, rfl, hopen, hoffset, hcap.stored, ?_⟩⟩
    dsimp only
    rw [hcap.checksum]
  · rw [if_neg hesc, putByte_of_lt (show rx.offset < rx.packet.length by omega), Run.ok_bind]
    refine ⟨_, rfl, stepSpec_store hopen (unescape_plain hstart hend hesc) hcap.stored hlen
      (by rw [hoffset]) (by rw [hoffset]) ?_⟩
    rw [hcap.checksum, List.sum_append, List.sum_singleton]

/-- A character in the case `PACKET_GDB_ESCAPE`. -/
theorem getpacketStep_escape (h : RxInv noackmode packet size seen rx)
    (hloop : rx.loop = .getpacket .gdbEscape) (c : UInt8) :
    ∃ r, rxStep noackmode size rx c = .ok r ∧ StepSpec noackmode packet size (seen ++ [c]) r := by
  have hlen := h.length
  have hinv := h.loop
  simp only [LoopInv, hloop] at hinv
  obtain ⟨seen', body, p, rfl, hopen, hoffset, hstored, hsum⟩ := hinv
  have hfits := hopen.fits
  simp only [rxStep, hloop, getpacketStep]
  rw [putByte_of_lt (show rx.offset < rx.packet.length by omega), Run.ok_bind, List.append_assoc]
  refine ⟨_, rfl, stepSpec_store hopen (unescape_escaped c) hstored hlen
    (by rw [hoffset]) (by rw [hoffset]) ?_⟩
  rw [hsum, List.sum_append, List.sum_append, List.sum_singleton, List.sum_singleton,
    UInt8.add_assoc]

/-- The first digit of the checksum. -/
theorem getpacketStep_upper (h : RxInv noackmode packet size seen rx)
    (hloop : rx.loop = .getpacket .gdbChecksumUpper) (c : UInt8) :
    ∃ r, rxStep noackmode size rx c = .ok r ∧ StepSpec noackmode packet size (seen ++ [c]) r := by
  have hinv := h.loop
  simp only [LoopInv, hloop] at hinv
  obtain ⟨seen', body, p, rfl, hopen, hcap⟩ := hinv
  have hoffset := hcap.offset
  have hfits := hopen.fits
  rw [rxStep_upper hloop (by omega)]
  refine ⟨_, rfl, h.length, ?_⟩
  rw [List.append_assoc]
  refine ⟨seen', body, p, c, rfl, hopen, ⟨hoffset, hcap.stored, hcap.checksum⟩, fun hack => ?_⟩
  simp [hack]

/-- The second digit of the checksum. -/
theorem getpacketStep_lower (h : RxInv noackmode packet size seen rx)
    (hloop : rx.loop = .getpacket .gdbChecksumLower) (c : UInt8) :
    ∃ r, rxStep noackmode size rx c = .ok r ∧ StepSpec noackmode packet size (seen ++ [c]) r := by
  have hlen := h.length
  have hinv := h.loop
  simp only [LoopInv, hloop] at hinv
  obtain ⟨seen', body, p, upper, rfl, hopen, hcap, hdigit⟩ := hinv
  have hoffset := hcap.offset
  have hfits := hopen.fits
  have hframed : Framed noackmode packet size (seen' ++ [packetEnd, upper] ++ [c]) body p upper c :=
    ⟨seen', by rw [List.append_assoc]; rfl, hopen⟩
  have htake : (rx.packet.set rx.offset 0).take rx.offset = p := by
    rw [List.take_set_of_le (Nat.le_refl _), hoffset]
    exact hcap.stored
  have hnul : (rx.packet.set rx.offset 0)[rx.offset]? = some 0 :=
    List.getElem?_set_self (by omega)
  rw [rxStep_lower hloop (by omega)]
  cases noackmode with
  | true => exact ⟨_, rfl, .inr ⟨body, p, upper, c, hframed, hoffset, htake, hnul, nofun⟩⟩
  | false =>
    rw [hdigit rfl, hcap.checksum, if_neg (by decide)]
    by_cases hsum : unhexDigit upper <<< 4 ||| unhexDigit c = body.sum
    · rw [if_pos hsum]
      exact ⟨_, rfl, .inr ⟨body, p, upper, c, hframed, hoffset, htake, hnul, fun _ => hsum⟩⟩
    · rw [if_neg hsum]
      exact ⟨_, rfl, hlen, trivial⟩

/-- **One character.** It is taken without a fault, and leads to the invariant or to an outcome. -/
theorem rxStep_spec (hsize : 0 < size) (h : RxInv noackmode packet size seen rx) (c : UInt8) :
    ∃ r, rxStep noackmode size rx c = .ok r ∧ StepSpec noackmode packet size (seen ++ [c]) r := by
  cases hloop : rx.loop with
  | remote offset => exact consumeRemoteStep_spec hsize h hloop c
  | getpacket state =>
    cases state with
    | idle => exact getpacketStep_idle hsize h hloop c
    | gdbCapture => exact getpacketStep_capture h hloop c
    | gdbEscape => exact getpacketStep_escape h hloop c
    | gdbChecksumUpper => exact getpacketStep_upper h hloop c
    | gdbChecksumLower => exact getpacketStep_lower h hloop c

/-- A character keeps the invariant of the receiver. -/
theorem RxInv.more (hsize : 0 < size) (h : RxInv noackmode packet size seen rx) {c : UInt8}
    {rx' : Rx} (hstep : rxStep noackmode size rx c = .ok (.more rx')) :
    RxInv noackmode packet size (seen ++ [c]) rx' := by
  obtain ⟨r, hr, hspec⟩ := rxStep_spec hsize h c
  rw [hstep] at hr
  cases hr
  exact ⟨h.waits.more hstep, hspec.1, hspec.2⟩

/-! ## Whole runs -/

/-- **A run.** Every run from the invariant is without a fault; it waits with the invariant, or it
returned an outcome of the characters that it took. -/
theorem rxRun_spec (hsize : 0 < size) : ∀ {input seen : List UInt8} {rx : Rx},
    RxInv noackmode packet size seen rx →
    (∃ rx', rxRun noackmode size rx input = .ok (.waiting rx') ∧
      RxInv noackmode packet size (seen ++ input) rx') ∨
    ∃ rx' n taken rest, rxRun noackmode size rx input = .ok (.returned rx' n rest) ∧
      input = taken ++ rest ∧ Outcome noackmode packet size (seen ++ taken) rx' n := by
  intro input
  induction input with
  | nil =>
    intro seen rx h
    exact .inl ⟨rx, rfl, by rwa [List.append_nil]⟩
  | cons c input ih =>
    intro seen rx h
    obtain ⟨r, hstep, hspec⟩ := rxStep_spec hsize h c
    cases r with
    | more rx₁ =>
      rw [rxRun_more hstep]
      rcases ih (h.more hsize hstep) with ⟨rx', hrun, hinv⟩ | ⟨rx', n, taken, rest, hrun, rfl, hout⟩
      · rw [List.append_assoc] at hinv
        exact .inl ⟨rx', hrun, hinv⟩
      · rw [List.append_assoc] at hout
        exact .inr ⟨rx', n, c :: taken, rest, hrun, rfl, hout⟩
    | done rx' n =>
      exact .inr ⟨rx', n, [c], input, rxRun_done hstep, rfl, hspec⟩

/-- So do all characters while the packet is waited for. -/
theorem Waits.inv (hsize : 0 < size) (hlen : packet.length = size + 1)
    (h : Waits noackmode packet size seen rx) : RxInv noackmode packet size seen rx := by
  rcases @rxRun_spec noackmode packet size hsize seen [] _ (RxInv.start hlen) with
    ⟨rx', hrun, hinv⟩ | ⟨rx', n, taken, rest, hrun, -, -⟩
  · cases Waits.unique h hrun
    exact hinv
  · cases h.symm.trans hrun

/-! ## Rejected packets -/

/-- A `$` where the receiver takes it. -/
theorem rxStep_start (hsize : 0 < size) (h : RxInv noackmode packet size seen rx)
    (htakes : rx.TakesStart) : ∃ buf, buf.length = size + 1 ∧
      rxStep noackmode size rx packetStart = .ok (.more { rx with
        loop := .getpacket .gdbCapture, offset := 0, checksum := 0, packet := buf }) := by
  have hlen := h.length
  have hpos : 0 < rx.packet.length := by omega
  rcases htakes with hloop | hloop | ⟨offset, hloop⟩
  · have hhead := head?_set_zero hpos packetStart
    refine ⟨rx.packet.set 0 packetStart, by rw [List.length_set, hlen], ?_⟩
    simp only [rxStep, hloop, getpacketStep, putByte_of_lt hpos, Run.ok_bind, if_true]
    rw [idleEnd_next (by rw [hhead]; decide), rxNext_of_lt (by exact hsize)]
  · refine ⟨rx.packet, hlen, ?_⟩
    simp only [rxStep, hloop, getpacketStep, if_true]
    rw [rxNext_of_lt (by exact hsize)]
  · have hinv := h.loop
    simp only [LoopInv, hloop] at hinv
    have heot : packetStart ≠ eot := by decide
    have hsom : packetStart ≠ remoteSom := by decide
    have hend : packetStart ≠ packetEnd := by decide
    refine ⟨rx.packet, hlen, ?_⟩
    simp only [rxStep, hloop, consumeRemoteStep, remoteReturn, if_neg heot, if_neg hsom,
      if_neg hend, if_true]
    rw [idleEnd_next (by exact hinv.2), rxNext_of_lt (by exact hsize)]

/-- The receiver before the second digit of a complete packet. -/
theorem Opened.state (hsize : 0 < size) (hlen : packet.length = size + 1) {body p : List UInt8}
    {upper : UInt8} (h : Opened noackmode packet size seen body p)
    (hwaits : Waits noackmode packet size (seen ++ [packetEnd, upper]) rx) :
    rx.loop = .getpacket .gdbChecksumLower ∧ rx.checksum = body.sum ∧
      (noackmode = false → rx.rxChecksum = unhexDigit upper <<< 4) := by
  obtain ⟨pre, rx₀, rfl, hpre, htakes⟩ := h.start
  have hfits := h.fits
  obtain ⟨buf, hbuf, hstart⟩ := rxStep_start hsize (hpre.inv hsize hlen) htakes
  have hrun : gdbGetpacket noackmode packet size
      (pre ++ packetStart :: body ++ [packetEnd, upper]) = .ok (.waiting { rx₀ with
        loop := .getpacket .gdbChecksumLower, offset := p.length, checksum := body.sum,
        packet := overwrite buf 0 p,
        rxChecksum := if noackmode then rx₀.rxChecksum else unhexDigit upper <<< 4 }) := by
    rw [List.append_assoc, gdbGetpacket, rxRun_append hpre, List.cons_append, rxRun_more hstart,
      rxRun_body rfl h.meaning (by dsimp only; omega) (by exact hbuf),
      rxRun_more (rxStep_end rfl (by dsimp only; omega)),
      rxRun_more (rxStep_upper rfl (by dsimp only; omega) upper)]
    simp only [Nat.zero_add, UInt8.zero_add]
    rfl
  cases hwaits.unique hrun
  refine ⟨rfl, rfl, fun hack => ?_⟩
  simp [hack]

/-- The end of a packet that is ignored sends nothing. -/
theorem idleEnd_out {state : PacketState} {r : RxStep} (h : idleEnd size state rx = .ok r) :
    r.rx.out = rx.out := by
  unfold idleEnd at h
  split at h
  · obtain ⟨buf, -, h⟩ := Run.bind_eq_ok.1 h
    cases h
    rfl
  · cases h
    rfl

/-- Only the second digit of a checksum is answered. -/
theorem rxStep_out {c : UInt8} {r : RxStep} (hloop : rx.loop ≠ .getpacket .gdbChecksumLower)
    (h : rxStep noackmode size rx c = .ok r) :
    ∃ new, r.rx.out = rx.out ++ new ∧ .char packetNack ∉ new := by
  have hsame : ∀ {out : List RxOut}, out = rx.out → ∃ new, out = rx.out ++ new ∧
      RxOut.char packetNack ∉ new := fun h => ⟨[], by rw [h, List.append_nil], nofun⟩
  cases hl : rx.loop with
  | remote offset =>
    simp only [rxStep, hl, consumeRemoteStep, remoteReturn] at h
    split at h
    · obtain ⟨buf, -, h⟩ := Run.bind_eq_ok.1 h
      have hout := idleEnd_out h
      exact hsame hout
    split at h
    · cases h
      exact hsame rfl
    split at h
    · obtain ⟨buf, -, h⟩ := Run.bind_eq_ok.1 h
      obtain ⟨buf', -, h⟩ := Run.bind_eq_ok.1 h
      exact ⟨[.remotePacket (buf.take offset)], idleEnd_out h, by simp⟩
    split at h
    · have hout := idleEnd_out h
      exact hsame hout
    split at h
    · obtain ⟨buf, -, h⟩ := Run.bind_eq_ok.1 h
      cases h
      exact hsame rfl
    · obtain ⟨buf, -, h⟩ := Run.bind_eq_ok.1 h
      have hout := idleEnd_out h
      exact hsame hout
  | getpacket state =>
    simp only [rxStep, hl] at h
    cases state with
    | idle =>
      obtain ⟨buf, -, h⟩ := Run.bind_eq_ok.1 h
      dsimp only at h
      split at h
      · have hout := idleEnd_out h
        exact hsame hout
      split at h
      · cases h
        exact hsame rfl
      · have hout := idleEnd_out h
        exact hsame hout
    | gdbCapture =>
      simp only [getpacketStep] at h
      split at h
      · cases h
        exact hsame rfl
      split at h
      · cases h
        exact hsame rfl
      split at h
      · cases h
        exact hsame rfl
      · obtain ⟨buf, -, h⟩ := Run.bind_eq_ok.1 h
        cases h
        exact hsame rfl
    | gdbEscape =>
      obtain ⟨buf, -, h⟩ := Run.bind_eq_ok.1 h
      cases h
      exact hsame rfl
    | gdbChecksumUpper =>
      cases h
      exact hsame rfl
    | gdbChecksumLower => exact absurd hl hloop

/-- **Which packets are rejected.** A character makes the receiver send `-` exactly when it
completes a packet with a wrong checksum outside of NoAckMode, and then it sends one and nothing
else. -/
theorem rxStep_nack (hsize : 0 < size) (hlen : packet.length = size + 1)
    (hwaits : Waits noackmode packet size seen rx) {c : UInt8} {r : RxStep}
    (hstep : rxStep noackmode size rx c = .ok r) :
    ∃ new, r.rx.out = rx.out ++ new ∧
      (Rejected noackmode packet size (seen ++ [c]) → new = [.char packetNack]) ∧
      (¬ Rejected noackmode packet size (seen ++ [c]) → .char packetNack ∉ new) := by
  have hinv := hwaits.inv hsize hlen
  -- a complete packet puts the receiver before its second digit
  have hstate : Rejected noackmode packet size (seen ++ [c]) → noackmode = false ∧
      rx.loop = .getpacket .gdbChecksumLower ∧ rx.rxChecksum ||| unhexDigit c ≠ rx.checksum := by
    rintro ⟨hack, body, p, upper, lower, ⟨seen', heq, hopen⟩, hsum⟩
    have heq' : seen ++ [c] = (seen' ++ [packetEnd, upper]) ++ [lower] := by
      rw [heq, List.append_assoc]
      rfl
    obtain ⟨rfl, hc⟩ := List.append_inj' heq' rfl
    cases hc
    obtain ⟨hloop, hcsum, hdigit⟩ := hopen.state hsize hlen hwaits
    refine ⟨hack, hloop, ?_⟩
    rw [hdigit hack, hcsum]
    exact hsum
  by_cases hloop : rx.loop = .getpacket .gdbChecksumLower
  · have hinv' := hinv.loop
    simp only [LoopInv, hloop] at hinv'
    obtain ⟨seen', body, p, upper, hseen, hopen, hcap, hdigit⟩ := hinv'
    have hin : rx.offset < rx.packet.length := by
      have := hopen.fits
      rw [hcap.offset, hinv.length]
      omega
    rw [rxStep_lower hloop hin] at hstep
    cases noackmode with
    | true =>
      cases hstep
      exact ⟨[], (List.append_nil _).symm, fun hrej => absurd hrej.1 (by decide), fun _ => nofun⟩
    | false =>
      rw [if_neg (by decide)] at hstep
      by_cases hsum : rx.rxChecksum ||| unhexDigit c = rx.checksum
      · rw [if_pos hsum] at hstep
        cases hstep
        exact ⟨[.char packetAck], rfl, fun hrej => absurd hsum (hstate hrej).2.2, fun _ =>
          by decide⟩
      · rw [if_neg hsum] at hstep
        cases hstep
        refine ⟨[.char packetNack], rfl, fun _ => rfl, fun hno => absurd ?_ hno⟩
        refine ⟨rfl, body, p, upper, c, ⟨seen', ?_, hopen⟩, ?_⟩
        · rw [hseen, List.append_assoc]
          rfl
        · rw [← hdigit rfl, ← hcap.checksum]
          exact hsum
  · obtain ⟨new, hout, hnone⟩ := rxStep_out hloop hstep
    exact ⟨new, hout, fun hrej => absurd (hstate hrej).2.1 hloop, fun _ => hnone⟩

end

/-- **Reception of arbitrary input.** For every input that has come so far: no store leaves the
buffer of `size + 1` bytes; a call that has returned took an end of transmission outside of a GDB
packet, or a complete packet that it has unescaped into the buffer, with a right checksum outside of
NoAckMode; and every complete packet with a wrong checksum outside of NoAckMode is answered with one
`-`, and nothing else is. -/
theorem gdbGetpacket_spec (noackmode : Bool) (packet : List UInt8) (size : Nat) (hsize : 0 < size)
    (hlen : packet.length = size + 1) (input : List UInt8) :
    (∀ f, gdbGetpacket noackmode packet size input ≠ .error f) ∧
    (∀ rx n rest, gdbGetpacket noackmode packet size input = .ok (.returned rx n rest) →
      ∃ seen, input = seen ++ rest ∧ Outcome noackmode packet size seen rx n) ∧
    (∀ seen c rest rx, input = seen ++ c :: rest → Waits noackmode packet size seen rx →
      ∃ r new, rxStep noackmode size rx c = .ok r ∧ r.rx.out = rx.out ++ new ∧
        (Rejected noackmode packet size (seen ++ [c]) → new = [.char packetNack]) ∧
        (¬ Rejected noackmode packet size (seen ++ [c]) → .char packetNack ∉ new)) := by
  have hrun := @rxRun_spec noackmode packet size hsize input [] _ (RxInv.start hlen)
  refine ⟨fun f hf => ?_, fun rx n rest hret => ?_, fun seen c rest rx hinput hwaits => ?_⟩
  · rcases hrun with ⟨rx', hok, -⟩ | ⟨rx', n, taken, rest, hok, -⟩
    · cases hf.symm.trans hok
    · cases hf.symm.trans hok
  · rcases hrun with ⟨rx', hok, -⟩ | ⟨rx', n', taken, rest', hok, hinput, hout⟩
    · cases hret.symm.trans hok
    · cases hret.symm.trans hok
      exact ⟨taken, hinput, hout⟩
  · obtain ⟨r, hstep, -⟩ := rxStep_spec hsize (hwaits.inv hsize hlen) c
    obtain ⟨new, hout, hnack⟩ := rxStep_nack hsize hlen hwaits hstep
    exact ⟨r, new, hstep, hout, hnack⟩

/-- An end of transmission right after a remote control packet. -/
theorem gdbGetpacket_spec_eot : ∃ rx, gdbGetpacket false (List.replicate 5 0) 4
      [0x21, 0x47, 0x41, 0x23, 0x04] = .ok (.returned rx 1 []) ∧
    ∃ seen, [0x21, 0x47, 0x41, 0x23, 0x04] = seen ++ [] ∧
      Outcome false (List.replicate 5 0) 4 seen rx 1 :=
  ⟨_, rfl, (gdbGetpacket_spec false (List.replicate 5 0) 4 (by decide) (by decide)
    [0x21, 0x47, 0x41, 0x23, 0x04]).2.1 _ 1 [] rfl⟩

end Blackmagic
