import Blackmagic.Gdb.Packet

/-!
# What the receiver makes of the body of a packet

`unescapeFrom` is the meaning of the bytes between `$` and `#`, said without the receiver. A body
with a meaning takes the receiver from capture to capture and leaves that meaning in the buffer
(`rxRun_body`), and the body that is sent for a packet has that packet as its meaning
(`gdbNextChars_spec`). Together they give the round trip.
-/

namespace Blackmagic

open Bytes

/-! ## The meaning of a body -/

/-- The meaning of the bytes of a body, after an escape character or not: none when a `$` or `#`
stands unescaped in it, or when it ends in an escape character. -/
def unescapeFrom (escaped : Bool) : List UInt8 → Option (List UInt8)
  | [] => if escaped then none else some []
  | c :: rest =>
    if escaped then (unescapeFrom false rest).map ((c ^^^ packetEscapeXor) :: ·)
    else if c = packetStart ∨ c = packetEnd then none
    else if c = packetEscape then unescapeFrom true rest
    else (unescapeFrom false rest).map (c :: ·)

/-- The meaning of a body. -/
def unescape (body : List UInt8) : Option (List UInt8) := unescapeFrom false body

/-- Two bodies, one behind the other. -/
theorem unescapeFrom_append {body tail p : List UInt8} : ∀ {escaped : Bool},
    unescapeFrom escaped body = some p →
      unescapeFrom escaped (body ++ tail) = (unescapeFrom false tail).map (p ++ ·) := by
  induction body generalizing p with
  | nil =>
    intro escaped h
    cases escaped with
    | true => cases h
    | false =>
      cases h
      simp
  | cons c rest ih =>
    intro escaped h
    cases escaped with
    | true =>
      simp only [unescapeFrom, if_true, List.cons_append, Option.map_eq_some_iff] at h ⊢
      obtain ⟨q, hq, rfl⟩ := h
      rw [ih hq]
      simp [Function.comp_def]
    | false =>
      simp only [unescapeFrom, Bool.false_eq_true, if_false, List.cons_append] at h ⊢
      split at h
      · cases h
      next hplain =>
      rw [if_neg hplain]
      split at h
      · next hesc =>
        rw [if_pos hesc]
        exact ih h
      · next hesc =>
        rw [if_neg hesc]
        simp only [Option.map_eq_some_iff] at h
        obtain ⟨q, hq, rfl⟩ := h
        rw [ih hq]
        simp [Function.comp_def]

/-- The meaning of what is sent for a packet is the packet, and its sum is the checksum. -/
theorem gdbNextChars_spec (packet : List UInt8) : ∀ csum : UInt8,
    unescape (gdbNextChars packet csum).1 = some packet ∧
      (gdbNextChars packet csum).2 = csum + (gdbNextChars packet csum).1.sum := by
  induction packet with
  | nil =>
    intro csum
    simp [gdbNextChars, unescape, unescapeFrom]
  | cons value rest ih =>
    intro csum
    by_cases hspecial : value = packetStart ∨ value = packetEnd ∨ value = packetEscape ∨
        value = packetRunlengthStart
    · obtain ⟨hmean, hsum⟩ := ih (csum + (packetEscape + (value ^^^ packetEscapeXor)))
      simp only [gdbNextChars, gdbNextChar, if_pos hspecial]
      constructor
      · have hback : (value ^^^ packetEscapeXor) ^^^ packetEscapeXor = value := by
          rw [UInt8.xor_assoc, UInt8.xor_self, UInt8.xor_zero]
        have hesc : ¬ (packetEscape = packetStart ∨ packetEscape = packetEnd) := by decide
        unfold unescape at hmean ⊢
        simp only [List.cons_append, List.nil_append, unescapeFrom, Bool.false_eq_true, if_false,
          if_neg hesc, if_true, hback, hmean, Option.map_some]
      · rw [hsum, List.sum_append, List.sum_cons, List.sum_cons, List.sum_nil, UInt8.add_zero,
          UInt8.add_assoc]
    · obtain ⟨hmean, hsum⟩ := ih (csum + value)
      simp only [gdbNextChars, gdbNextChar, if_neg hspecial]
      push Not at hspecial
      obtain ⟨hstart, hend, hesc, -⟩ := hspecial
      constructor
      · unfold unescape at hmean ⊢
        simp only [List.cons_append, List.nil_append, unescapeFrom, Bool.false_eq_true, if_false,
          if_neg hesc, hmean, Option.map_some]
        rw [if_neg (by rintro (h | h) <;> contradiction)]
      · rw [hsum, List.sum_append, List.sum_cons, List.sum_nil, UInt8.add_zero, UInt8.add_assoc]

/-- Two packets one after the other are sent as their concatenation. -/
theorem gdbNextChars_append (packet1 packet2 : List UInt8) : ∀ csum : UInt8,
    gdbNextChars (packet1 ++ packet2) csum =
      ((gdbNextChars packet1 csum).1 ++ (gdbNextChars packet2 (gdbNextChars packet1 csum).2).1,
        (gdbNextChars packet2 (gdbNextChars packet1 csum).2).2) := by
  induction packet1 with
  | nil =>
    intro csum
    rfl
  | cons value rest ih =>
    intro csum
    simp only [List.cons_append, gdbNextChars, ih, List.append_assoc]

/-- Two parts are sent as one packet. -/
theorem gdbTransmit2_eq (packet1 packet2 : List UInt8) :
    gdbTransmit2 packet1 packet2 = gdbTransmit (packet1 ++ packet2) := by
  simp only [gdbTransmit2, gdbTransmit, gdbNextChars_append, List.append_assoc, List.cons_append]

/-- A packet goes out as copies of one transmission, at most four of them. -/
theorem putLoop_turns (noackmode : Bool) (turn : List UInt8) (tries : Nat) :
    ∀ answers, ∃ k ≤ tries, putLoop noackmode turn tries answers =
      (List.replicate (k + 1) turn).flatten := by
  induction tries with
  | zero =>
    intro answers
    exact ⟨0, Nat.le_refl _, by simp [putLoop]⟩
  | succ tries ih =>
    intro answers
    rw [putLoop]
    split
    · obtain ⟨k, hk, heq⟩ := ih answers.tail
      refine ⟨k + 1, by omega, ?_⟩
      rw [heq, List.replicate_succ (n := k + 1), List.flatten_cons]
    · exact ⟨0, by omega, by simp⟩

/-! ## The digits of the checksum -/

/-- The two digits are read back. -/
theorem unhexDigit_hexByte (csum : UInt8) :
    unhexDigit (hexDigit (csum >>> 4)) <<< 4 ||| unhexDigit (hexDigit (csum &&& 0xf)) = csum := by
  have hall : ∀ n : Fin 256, unhexDigit (hexDigit (UInt8.ofFin n >>> 4)) <<< 4 |||
      unhexDigit (hexDigit (UInt8.ofFin n &&& 0xf)) = UInt8.ofFin n := by decide +kernel
  exact hall csum.toFin

/-! ## Runs of the receiver -/

section
variable {noackmode : Bool} {size : Nat} {rx : Rx} {input : List UInt8}

/-- A byte is put where there is room. -/
theorem putByte_of_lt {packet : List UInt8} {i : Nat} (h : i < packet.length) (c : UInt8) :
    putByte packet i c = .ok (packet.set i c) :=
  if_pos h

/-- Where there is room the next character is waited for. -/
theorem rxNext_of_lt {state : PacketState} (h : rx.offset < size) :
    rxNext size state rx = .more { rx with loop := .getpacket state } := by
  rw [rxNext, if_neg (Nat.not_le.2 h)]

/-- A run takes its first character. -/
theorem rxRun_cons (c : UInt8) : rxRun noackmode size rx (c :: input) =
    (rxStep noackmode size rx c >>= fun
      | .more rx => rxRun noackmode size rx input
      | .done rx n => .ok (.returned rx n input)) := rfl

/-- A step that waits for more. -/
theorem rxRun_more {c : UInt8} {rx' : Rx} (h : rxStep noackmode size rx c = .ok (.more rx')) :
    rxRun noackmode size rx (c :: input) = rxRun noackmode size rx' input := by
  rw [rxRun_cons, h]
  rfl

/-- A step that returns. -/
theorem rxRun_done {c : UInt8} {rx' : Rx} {n : Nat}
    (h : rxStep noackmode size rx c = .ok (.done rx' n)) :
    rxRun noackmode size rx (c :: input) = .ok (.returned rx' n input) := by
  rw [rxRun_cons, h]
  rfl

/-- One more character of the buffer and then the rest of the data. -/
theorem overwrite_set {packet : List UInt8} {i : Nat} (h : i < packet.length) (c : UInt8)
    (data : List UInt8) : overwrite (packet.set i c) (i + 1) data =
      overwrite packet i (c :: data) := by
  unfold overwrite
  rw [List.take_add_one, List.getElem?_set_self h, List.take_set_of_le (Nat.le_refl _),
    List.drop_set_of_lt (by omega), List.length_cons]
  simp [Nat.add_comm data.length, Nat.add_assoc]

/-- The state in which a body is captured, after an escape character or not. -/
def captureState (escaped : Bool) : PacketState := if escaped then .gdbEscape else .gdbCapture

/-- **A body that has a meaning leaves it in the buffer.** -/
theorem rxRun_body {body : List UInt8} : ∀ {escaped : Bool} {rx : Rx} {p : List UInt8},
    rx.loop = .getpacket (captureState escaped) → unescapeFrom escaped body = some p →
    rx.offset + p.length < size → rx.packet.length = size + 1 →
    rxRun noackmode size rx (body ++ input) = rxRun noackmode size { rx with
      loop := .getpacket .gdbCapture, offset := rx.offset + p.length,
      checksum := rx.checksum + body.sum, packet := overwrite rx.packet rx.offset p } input := by
  induction body with
  | nil =>
    intro escaped rx p hloop hmean hlt hlen
    cases escaped with
    | true => cases hmean
    | false =>
      cases hmean
      have hsame : overwrite rx.packet rx.offset [] = rx.packet := by simp [overwrite]
      simp only [captureState, Bool.false_eq_true, if_false] at hloop
      simp [hsame, ← hloop]
  | cons c rest ih =>
    intro escaped rx p hloop hmean hlt hlen
    cases escaped with
    | true =>
      simp only [unescapeFrom, if_true, Option.map_eq_some_iff] at hmean
      obtain ⟨q, hq, rfl⟩ := hmean
      rw [List.length_cons] at hlt
      have hin : rx.offset < rx.packet.length := by omega
      have hstep : rxStep noackmode size rx c = .ok (.more { rx with
          loop := .getpacket .gdbCapture, offset := rx.offset + 1, checksum := rx.checksum + c,
          packet := rx.packet.set rx.offset (c ^^^ packetEscapeXor) }) := by
        simp only [rxStep, hloop, captureState, if_true, getpacketStep, putByte_of_lt hin,
          Run.ok_bind]
        rw [rxNext_of_lt (by dsimp only; omega)]
      rw [List.cons_append, rxRun_more hstep,
        ih rfl hq (by dsimp only; omega) (by simpa using hlen)]
      rw [overwrite_set hin, List.length_cons, List.sum_cons, ← UInt8.add_assoc]
      simp only [Nat.add_assoc, Nat.add_comm 1]
    | false =>
      simp only [unescapeFrom, Bool.false_eq_true, if_false] at hmean
      split at hmean
      · cases hmean
      next hplain =>
      push Not at hplain
      split at hmean
      · next hesc =>
        have hstep : rxStep noackmode size rx c = .ok (.more { rx with
            loop := .getpacket .gdbEscape, checksum := rx.checksum + c }) := by
          simp only [rxStep, hloop, captureState, Bool.false_eq_true, if_false, getpacketStep,
            if_neg hplain.1, if_neg hplain.2, if_pos hesc]
          rw [rxNext_of_lt (by dsimp only; omega)]
        rw [List.cons_append, rxRun_more hstep, ih rfl hmean (by exact hlt) (by exact hlen),
          List.sum_cons, ← UInt8.add_assoc]
      · next hesc =>
        simp only [Option.map_eq_some_iff] at hmean
        obtain ⟨q, hq, rfl⟩ := hmean
        rw [List.length_cons] at hlt
        have hin : rx.offset < rx.packet.length := by omega
        have hstep : rxStep noackmode size rx c = .ok (.more { rx with
            loop := .getpacket .gdbCapture, offset := rx.offset + 1, checksum := rx.checksum + c,
            packet := rx.packet.set rx.offset c }) := by
          simp only [rxStep, hloop, captureState, Bool.false_eq_true, if_false, getpacketStep,
            if_neg hplain.1, if_neg hplain.2, if_neg hesc, putByte_of_lt hin, Run.ok_bind]
          rw [rxNext_of_lt (by dsimp only; omega)]
        rw [List.cons_append, rxRun_more hstep, ih rfl hq (by dsimp only; omega)
          (by simpa using hlen)]
        rw [overwrite_set hin, List.length_cons, List.sum_cons, ← UInt8.add_assoc]
        simp only [Nat.add_assoc, Nat.add_comm 1]

/-- Noise before a packet only leaves its last character in the buffer. -/
theorem rxRun_noise {noise : List UInt8} : ∀ {rx : Rx}, rx.loop = .getpacket .idle →
    0 < rx.packet.length → (∀ c ∈ noise, c ≠ packetStart ∧ c ≠ remoteSom ∧ c ≠ eot) →
    ∃ packet, packet.length = rx.packet.length ∧
      rxRun noackmode size rx (noise ++ input) =
        rxRun noackmode size { rx with packet := packet } input := by
  induction noise with
  | nil =>
    intro rx _ _ _
    exact ⟨rx.packet, rfl, rfl⟩
  | cons c rest ih =>
    intro rx hloop hpos hnoise
    obtain ⟨⟨hstart, hsom, heot⟩, hrest⟩ := List.forall_mem_cons.1 hnoise
    have hhead : (rx.packet.set 0 c).head? = some c := by
      cases hp : rx.packet with
      | nil =>
        rw [hp] at hpos
        exact absurd hpos (by simp)
      | cons d tail => rfl
    have hstep : rxStep noackmode size rx c =
        .ok (.more { rx with packet := rx.packet.set 0 c }) := by
      simp only [rxStep, hloop, getpacketStep, putByte_of_lt hpos, Run.ok_bind, if_neg hstart,
        if_neg hsom, idleEnd, hhead, Option.some.injEq, if_neg heot, rxNext, ite_self]
    obtain ⟨packet, hlen, hrun⟩ := @ih { rx with packet := rx.packet.set 0 c } hloop
      (by simpa using hpos) hrest
    exact ⟨packet, by simpa using hlen, by rw [List.cons_append, rxRun_more hstep, hrun]⟩

/-- The `#` that ends a body. -/
theorem rxStep_end (hloop : rx.loop = .getpacket .gdbCapture) (hlt : rx.offset < size) :
    rxStep noackmode size rx packetEnd =
      .ok (.more { rx with loop := .getpacket .gdbChecksumUpper }) := by
  have hstart : packetEnd ≠ packetStart := by decide
  simp only [rxStep, hloop, getpacketStep, if_neg hstart, if_true]
  rw [rxNext_of_lt hlt]

/-- The first digit of the checksum. -/
theorem rxStep_upper (hloop : rx.loop = .getpacket .gdbChecksumUpper) (hlt : rx.offset < size)
    (upper : UInt8) : rxStep noackmode size rx upper = .ok (.more { rx with
      loop := .getpacket .gdbChecksumLower,
      rxChecksum := if noackmode then rx.rxChecksum else unhexDigit upper <<< 4 }) := by
  simp only [rxStep, hloop, getpacketStep]
  rw [rxNext_of_lt (by exact hlt)]

/-- The second digit of the checksum: the packet is returned or rejected. -/
theorem rxStep_lower (hloop : rx.loop = .getpacket .gdbChecksumLower)
    (hin : rx.offset < rx.packet.length) (lower : UInt8) :
    rxStep noackmode size rx lower =
      if noackmode then .ok (.done { rx with packet := rx.packet.set rx.offset 0 } rx.offset)
      else if rx.rxChecksum ||| unhexDigit lower = rx.checksum then .ok (.done { rx with
        packet := rx.packet.set rx.offset 0, rxChecksum := rx.rxChecksum ||| unhexDigit lower,
        out := rx.out ++ [.char packetAck] } rx.offset)
      else .ok (.more { rx with
        loop := .getpacket .idle, rxChecksum := rx.rxChecksum ||| unhexDigit lower,
        out := rx.out ++ [.char packetNack] }) := by
  cases noackmode with
  | true =>
    simp only [rxStep, hloop, getpacketStep, if_true, true_or, putByte_of_lt hin, Run.ok_bind]
  | false =>
    simp only [rxStep, hloop, getpacketStep, Bool.false_eq_true, if_false, false_or]
    by_cases hsum : rx.rxChecksum ||| unhexDigit lower = rx.checksum
    · simp only [hsum, if_true, putByte_of_lt hin, Run.ok_bind]
    · simp only [if_neg hsum, rxNext, ite_self]

end

/-- **Round trip.** After noise without `$`, `!` and `0x04`, what is sent for a packet is received
as that packet: the call returns its length, has it in the buffer with a `NUL` after it, leaves the
rest of the input, and acknowledges it once unless in NoAckMode. -/
theorem gdbGetpacket_transmit (noackmode : Bool) (packet : List UInt8) (size : Nat)
    (p noise sent rest : List UInt8) (hlen : packet.length = size + 1) (hp : p.length < size)
    (hnoise : ∀ c ∈ noise, c ≠ packetStart ∧ c ≠ remoteSom ∧ c ≠ eot)
    (hsent : sent = gdbTransmit p ∨
      ∃ packet1 packet2, p = packet1 ++ packet2 ∧ sent = gdbTransmit2 packet1 packet2) :
    ∃ rx, gdbGetpacket noackmode packet size (noise ++ sent ++ rest) =
      .ok (.returned rx p.length rest) ∧
      rx.packet.take p.length = p ∧ rx.packet[p.length]? = some 0 ∧
      rx.out = if noackmode then [] else [.char packetAck] := by
  have hturn : sent = gdbTransmit p := by
    rcases hsent with rfl | ⟨packet1, packet2, rfl, rfl⟩
    · rfl
    · exact gdbTransmit2_eq packet1 packet2
  obtain ⟨hmean, hsum⟩ := gdbNextChars_spec p 0
  rw [UInt8.zero_add] at hsum
  obtain ⟨packet', hlen', hrun⟩ := @rxRun_noise noackmode size (sent ++ rest) noise
    (Rx.start packet) rfl (show 0 < packet.length by omega) hnoise
  change packet'.length = packet.length at hlen'
  have hhead : (packet'.set 0 packetStart).head? = some packetStart := by
    cases packet' with
    | nil => simp at hlen'; omega
    | cons d tail => rfl
  have heot : packetStart ≠ eot := by decide
  have hstart : rxStep noackmode size { Rx.start packet with packet := packet' } packetStart =
      .ok (.more { Rx.start packet with
        loop := .getpacket .gdbCapture, packet := packet'.set 0 packetStart }) := by
    simp only [rxStep, Rx.start, getpacketStep, putByte_of_lt (show 0 < packet'.length by omega),
      Run.ok_bind, if_true, idleEnd, hhead, Option.some.injEq, if_neg heot]
    rw [rxNext_of_lt (show 0 < size by omega)]
  -- the packet stands in the buffer from 0 on
  have hbuf : ∀ i, (overwrite (packet'.set 0 packetStart) 0 p)[i]? =
      if i < p.length then p[i]? else (packet'.set 0 packetStart)[i]? := by
    intro i
    rw [getElem?_overwrite (by rw [List.length_set]; omega)]
    simp
  have hsize : (overwrite (packet'.set 0 packetStart) 0 p).length = size + 1 := by
    rw [length_overwrite (by rw [List.length_set]; omega), List.length_set]
    omega
  have hbody : rxRun noackmode size { Rx.start packet with
        loop := .getpacket .gdbCapture, packet := packet'.set 0 packetStart }
      ((gdbNextChars p 0).1 ++ (packetEnd :: hexByte (gdbNextChars p 0).2 ++ rest)) =
      rxRun noackmode size { Rx.start packet with
        loop := .getpacket .gdbCapture, offset := p.length, checksum := (gdbNextChars p 0).2,
        packet := overwrite (packet'.set 0 packetStart) 0 p }
        (packetEnd :: hexByte (gdbNextChars p 0).2 ++ rest) := by
    rw [rxRun_body rfl hmean (by simpa [Rx.start] using hp) (by simp; omega), hsum]
    simp [Rx.start]
  have hdigits := unhexDigit_hexByte (gdbNextChars p 0).2
  have htake : ((overwrite (packet'.set 0 packetStart) 0 p).set p.length 0).take p.length = p := by
    refine List.ext_getElem? fun i => ?_
    rw [List.take_set_of_le (Nat.le_refl _), List.getElem?_take]
    by_cases hi : i < p.length
    · rw [if_pos hi, hbuf, if_pos hi]
    · rw [if_neg hi, List.getElem?_eq_none (by omega)]
  have hnul : ((overwrite (packet'.set 0 packetStart) 0 p).set p.length 0)[p.length]? = some 0 :=
    List.getElem?_set_self (by omega)
  have hwhole : gdbGetpacket noackmode packet size (noise ++ sent ++ rest) =
      rxRun noackmode size { Rx.start packet with
        loop := .getpacket .gdbCapture, offset := p.length, checksum := (gdbNextChars p 0).2,
        packet := overwrite (packet'.set 0 packetStart) 0 p }
        (packetEnd :: hexByte (gdbNextChars p 0).2 ++ rest) := by
    rw [← hbody, gdbGetpacket, List.append_assoc, hrun, hturn, ← rxRun_more hstart]
    simp [gdbTransmit]
  rw [hwhole]
  change ∃ rx, rxRun _ _ _ (packetEnd :: hexDigit ((gdbNextChars p 0).2 >>> 4) ::
    hexDigit ((gdbNextChars p 0).2 &&& 0xf) :: rest) = _ ∧ _
  rw [rxRun_more (rxStep_end rfl hp), rxRun_more (rxStep_upper rfl hp _), rxRun_cons,
    rxStep_lower rfl (show p.length < _ by dsimp only; omega)]
  cases noackmode with
  | true => exact ⟨_, rfl, htake, hnul, rfl⟩
  | false =>
    simp only [Bool.false_eq_true, if_false]
    rw [if_pos hdigits]
    exact ⟨_, rfl, htake, hnul, rfl⟩

/-- A packet of two escaped characters and one that is not, after a stray acknowledgement. -/
theorem gdbGetpacket_transmit_escapes : ∃ rx, gdbGetpacket false (List.replicate 5 0) 4
      ([0x2b] ++ gdbTransmit [0x24, 0x7d, 0x61] ++ []) = .ok (.returned rx 3 []) ∧
    rx.packet.take 3 = [0x24, 0x7d, 0x61] ∧ rx.packet[3]? = some 0 ∧ rx.out = [.char packetAck] :=
  gdbGetpacket_transmit false (List.replicate 5 0) 4 [0x24, 0x7d, 0x61] [0x2b]
    (gdbTransmit [0x24, 0x7d, 0x61]) [] (by decide) (by decide)
    (List.forall_mem_singleton.2 (by decide)) (.inl rfl)

end Blackmagic
