import Blackmagic.Gdb.Codec
import Blackmagic.Gdb.Replies

/-!
# Reading an object in pieces: `qXfer`

The memory map and the target description do not fit in a packet, and a client asks for them piece
by piece. `xferRead` is such a client: it prints offsets and lengths, and takes the replies from
what was transmitted. One request is answered from the string that the target has
(`xferAsk_request`), and from there on the client has the string up to its offset (`xferRead_from`).
-/

namespace Blackmagic

open Effect Scanf

/-! ## The client -/

/-- The objects that a client reads. -/
inductive XferObject
  | memoryMap
  | features
  deriving DecidableEq, Repr

/-- The command that asks for an object. -/
def XferObject.command : XferObject → List UInt8
  | .memoryMap => ascii "qXfer:memory-map:read::"
  | .features => ascii "qXfer:features:read:target.xml:"

/-- A request, with the digits of an offset and of a length. -/
def XferObject.request (object : XferObject) (offset len : List UInt8) : List UInt8 :=
  object.command ++ (offset ++ 0x2c :: len)

/-- The packet that a client takes from the bytes of a transmission, when the checksum is right. -/
def unframe : List UInt8 → Option (List UInt8)
  | [] => none
  | c :: rest =>
    let body := rest.takeWhile (· ≠ packetEnd)
    if c = packetStart ∧ rest.dropWhile (· ≠ packetEnd) = packetEnd :: hexByte body.sum then
      unescape body
    else none

/-- The replies among what a session did. -/
def replyPackets (out : List GdbOut) : List (List UInt8) :=
  out.filterMap fun
    | .reply packet => some packet
    | _ => none

/-- A client sends a request and takes the reply, which it acknowledges. `stale` is what an earlier
packet left in the buffer behind the request. -/
def xferAsk (env : GdbEnv) (s : GdbSession) (request stale : List UInt8) :
    Option (List UInt8 × GdbSession) :=
  match gdbMain env (request ++ 0 :: stale) request.length s with
  | .ok _ s' =>
    match replyPackets (s'.out.drop s.out.length) with
    | [packet] => (unframe (gdbPutpacket s.noackmode packet [packetAck])).map (·, s')
    | _ => none
  | .error _ _ => none

/-- The loop of a client: it asks at `offset` for `lens turn` characters, appends what an `m` reply
carries, and stops at an `l` reply. -/
def xferRead (env : GdbEnv) (object : XferObject) (lens : Nat → Nat) (stale : Nat → List UInt8) :
    (fuel turn : Nat) → GdbSession → (offset : Nat) → (got : List UInt8) → Option (List UInt8)
  | 0, _, _, _, _ => none
  | fuel + 1, turn, s, offset, got =>
    match xferAsk env s (object.request (hexNat offset) (hexNat (lens turn))) (stale turn) with
    | some (0x6d :: data, s') =>
      xferRead env object lens stale fuel (turn + 1) s' (offset + data.length) (got ++ data)
    | some (0x6c :: data, _) => some (got ++ data)
    | _ => none


/-- The handler of the requests for an object. -/
def XferObject.query : XferObject → QCommand
  | .memoryMap => .memoryMap
  | .features => .featureRead

/-- The target function that an object comes from. -/
def XferObject.op : XferObject → TargetOp
  | .memoryMap => .memMap
  | .features => .regsDescription

/-- The string that a target has for an object. -/
def XferObject.printed (env : GdbEnv) (id : Nat) : XferObject → List UInt8
  | .memoryMap => cstr (env.fns.memMap id)
  | .features => cstr ((env.fns.regsDescription id).getD [])

/-- The string that requests for an object are answered from. There is none without a target, and
when the function of the target raises an exception. -/
def XferObject.text (env : GdbEnv) (s : Targets) (object : XferObject) : Option (List UInt8) :=
  match s.cur <|> s.last with
  | some id =>
    if (s.find id).isSome ∧ (env.fns.raises object.op id).isNone then some (object.printed env id)
    else none
  | none => none

/-! ## Transmission -/

/-- What is sent between `$` and `#` has no `#` in it. -/
theorem packetEnd_not_mem_gdbNextChars (packet : List UInt8) :
    ∀ csum, packetEnd ∉ (gdbNextChars packet csum).1 := by
  induction packet with
  | nil => exact fun _ h => nomatch h
  | cons value rest ih =>
    intro csum
    simp only [gdbNextChars, gdbNextChar]
    split
    · next hspecial =>
      simp only [List.cons_append, List.nil_append, List.mem_cons, not_or]
      refine ⟨by decide, ?_, ih _⟩
      rcases hspecial with rfl | rfl | rfl | rfl <;> decide
    · next hplain =>
      simp only [List.cons_append, List.nil_append, List.mem_cons, not_or]
      exact ⟨fun h => hplain (.inr (.inl h.symm)), ih _⟩

/-- A client takes from a transmission the packet that was sent. -/
theorem unframe_gdbTransmit (packet : List UInt8) : unframe (gdbTransmit packet) = some packet := by
  obtain ⟨hmean, hsum⟩ := gdbNextChars_spec packet 0
  have hno := packetEnd_not_mem_gdbNextChars packet 0
  rw [UInt8.zero_add] at hsum
  have hpass : ∀ c ∈ (gdbNextChars packet 0).1, decide (c ≠ packetEnd) = true := fun c hc =>
    decide_eq_true fun h => hno (h ▸ hc)
  have htake :
      ((gdbNextChars packet 0).1 ++ packetEnd :: hexByte (gdbNextChars packet 0).2).takeWhile
      (· ≠ packetEnd) = (gdbNextChars packet 0).1 := by
    rw [List.takeWhile_append_of_pos hpass, List.takeWhile_cons]
    simp
  have hdrop :
      ((gdbNextChars packet 0).1 ++ packetEnd :: hexByte (gdbNextChars packet 0).2).dropWhile
      (· ≠ packetEnd) = packetEnd :: hexByte (gdbNextChars packet 0).2 := by
    rw [List.dropWhile_append_of_pos hpass, List.dropWhile_cons]
    simp
  simp only [gdbTransmit, List.cons_append, unframe, htake, hdrop, ← hsum, and_self, if_true, hmean]

/-- A reply that the client acknowledges is sent once. -/
theorem gdbPutpacket_acked (noackmode : Bool) (packet : List UInt8) :
    gdbPutpacket noackmode packet [packetAck] = gdbTransmit packet := by
  simp [gdbPutpacket, putLoop]

/-! ## One request -/

/-- The reply to a request for `len` characters at `addr`. -/
def xferPacket (text : List UInt8) (addr len : Nat) : List UInt8 :=
  if text.length < addr then ascii "E01"
  else if addr = text.length then ascii "l"
  else ascii "m" ++ (text.drop addr).take len

/-- A text without a terminator, and its terminator. -/
theorem cstr_append {l : List UInt8} (h : 0 ∉ l) (rest : List UInt8) :
    cstr (l ++ 0 :: rest) = l := by
  rw [cstr, List.takeWhile_append_of_pos, List.takeWhile_cons]
  · simp
  · exact fun c hc => decide_eq_true fun h0 => h (h0 ▸ hc)

/-- Digits are no terminators. -/
theorem zero_not_mem_of_digits {ds : List UInt8} (hds : ∀ c ∈ ds, isDigit 16 c = true) : 0 ∉ ds :=
  fun h => absurd (hds 0 h) (by decide)

section
variable {env : GdbEnv} {s : GdbSession} {object : XferObject} {text offset len stale : List UInt8}

/-- The fields of a request, as the server reads them: eight digits of the length, and an offset of
at most eight. -/
theorem sscanf_fields (hoff : ∀ c ∈ offset, isDigit 16 c = true) (hoffne : offset ≠ [])
    (hlen : ∀ c ∈ len, isDigit 16 c = true) (hlenne : len ≠ []) :
    (sscanf (offset ++ 0x2c :: len) [.int 16 8, .lit 0x2c, .int 16 8]).values =
      number 16 (offset.take 8) ::
        if offset.length ≤ 8 then [number 16 (len.take 8)] else [] := by
  have hends : NumberEnds (0x2c :: len) := by
    intro c hc
    cases hc
    decide
  rw [sscanf, scan_int16 (by decide) hoff hoffne hends]
  dsimp only
  congr 1
  split
  · next hle =>
    rw [List.drop_of_length_le hle, List.nil_append, scan, if_pos rfl]
    have hempty : NumberEnds [] := fun c hc => by cases hc
    have := scan_int16 (w := 8) (by decide) hlen hlenne hempty [] (0 + (offset.take 8).length + 1)
    rw [List.append_nil] at this
    rw [this]
    rfl
  · next hgt =>
    obtain ⟨d, ds, hd⟩ := List.exists_cons_of_ne_nil (l := offset.drop 8) (by
      rw [Ne, List.drop_eq_nil_iff]
      omega)
    have hdigit : isDigit 16 d = true := hoff d (List.drop_subset 8 offset (by rw [hd]; simp))
    rw [hd, List.cons_append, scan, if_neg]
    intro h
    rw [h] at hdigit
    exact absurd hdigit (by decide)

/-- The server finds the command of a request. -/
theorem findCommand_request {pbuf param : List UInt8} (h : cstr pbuf = object.command ++ param) :
    findCommand pbuf = some (object.command, object.query) := by
  unfold findCommand
  rw [h]
  cases object with
  | memoryMap => rfl
  | features => rfl

/-- What `handle_q_string_reply` is given for a request. -/
theorem ends_execQ (htext : object.text env s.targets = some text) (pbuf packet : List UInt8)
    (length : Nat) {Q : Unit → GdbSession → Prop} {E : Stop → GdbSession → Prop}
    (h : ∀ o, o.isReply = false →
      Ends (handleQStringReply text packet) { s with out := s.out ++ [o] } Q E) :
    Ends (execQ env pbuf packet length object.query) s Q E := by
  unfold XferObject.text at htext
  split at htext
  · next id hid =>
    split at htext
    · next hcall =>
      have hquiet := Option.isNone_iff_eq_none.1 hcall.2
      have htext := Option.some.inj htext
      cases object with
      | memoryMap =>
        simp only [XferObject.query, execQ, execQMemoryMap, queryTarget, ends_bind, ends_get,
          ends_pure, hid, call]
        refine (ends_callTarget_some hcall.1 (by exact hquiet)).2 ?_
        have := h (.call id .memMap) rfl
        rwa [← htext] at this
      | features =>
        simp only [XferObject.query, execQ, execQFeatureRead, queryTarget, ends_bind, ends_get,
          ends_pure, hid, call]
        refine (ends_callTarget_some hcall.1 (by exact hquiet)).2 ?_
        have := h (.call id .regsDescription) rfl
        rwa [← htext] at this
    · cases htext
  · cases htext

/-- A request is answered by one packet, and leaves the targets as they were. -/
theorem xferAsk_request (htext : object.text env s.targets = some text)
    (hoff : ∀ c ∈ offset, isDigit 16 c = true) (hoffne : offset ≠ [])
    (hlen : ∀ c ∈ len, isDigit 16 c = true) (hlenne : len ≠ []) :
    ∃ s', s'.targets = s.targets ∧ xferAsk env s (object.request offset len) stale =
      some (if offset.length ≤ 8 then xferPacket text (hexValue offset) (hexValue (len.take 8))
        else ascii "E01", s') := by
  have hcommand : 0 ∉ object.command := by cases object <;> decide
  have hparam : 0 ∉ offset ++ 0x2c :: len := by
    rw [List.mem_append, List.mem_cons, not_or, not_or]
    exact ⟨zero_not_mem_of_digits hoff, by decide, zero_not_mem_of_digits hlen⟩
  have hrequest : 0 ∉ object.request offset len := by
    rw [XferObject.request, List.mem_append, not_or]
    exact ⟨hcommand, hparam⟩
  have hhead : gdbCommand ((object.request offset len ++ 0 :: stale).headD 0) = .query := by
    cases object <;> rfl
  have hdrop : (object.request offset len ++ 0 :: stale).drop object.command.length =
      offset ++ 0x2c :: len ++ 0 :: stale := by
    rw [XferObject.request, List.append_assoc, List.drop_left]
  -- the parameters are a string of their own
  have hreply : handleQStringReply text (offset ++ 0x2c :: len ++ 0 :: stale) =
      putPacket (if offset.length ≤ 8 then xferPacket text (hexValue offset) (hexValue (len.take 8))
        else ascii "E01") := by
    unfold handleQStringReply
    rw [cstr_append hparam, sscanf_fields hoff hoffne hlen hlenne]
    split
    · next addr n hvalues =>
      split at hvalues
      · next hle =>
        cases hvalues
        have haddr : (number 16 (offset.take 8)).toNat = hexValue offset := by
          rw [List.take_of_length_le hle, toNat_number16 hoff hle]
        have hn : (number 16 (len.take 8)).toNat = hexValue (len.take 8) :=
          toNat_number16 (fun c hc => hlen c (List.mem_of_mem_take hc)) (List.length_take_le 8 len)
        rw [if_pos hle, haddr, hn, xferPacket]
        split
        · rfl
        · split <;> rfl
      · cases hvalues
    · next hvalues =>
      split at hvalues
      · exact absurd rfl (hvalues _ _)
      · next hgt => rw [if_neg hgt]; rfl
  have hmain : Ends (gdbMain env (object.request offset len ++ 0 :: stale)
      (object.request offset len).length) s (fun _ s' => ∃ o : GdbOut, o.isReply = false ∧
        s' = { s with out := s.out ++ [o, .reply (if offset.length ≤ 8 then
          xferPacket text (hexValue offset) (hexValue (len.take 8)) else ascii "E01")] })
      fun _ _ => False := by
    rw [gdbMain, hhead]
    dsimp only
    rw [handleQPacket, findCommand_request (cstr_append hrequest stale)]
    dsimp only
    refine ends_execQ htext _ _ _ fun o ho => ?_
    rw [hdrop, hreply, ends_putPacket]
    exact ⟨o, ho, by simp⟩
  cases hrun : gdbMain env (object.request offset len ++ 0 :: stale)
      (object.request offset len).length s with
  | error e s' => exact (hmain.error hrun).elim
  | ok _ s' =>
    obtain ⟨o, ho, hs'⟩ := hmain.ok hrun
    refine ⟨s', by rw [hs'], ?_⟩
    have hpackets : ∀ packet, replyPackets [o, .reply packet] = [packet] := by
      cases o with
      | reply p => cases ho
      | _ => exact fun _ => rfl
    simp only [xferAsk, hrun, hs', List.drop_left, hpackets, gdbPutpacket_acked,
      unframe_gdbTransmit, Option.map_some]

/-- A request of a client, which prints numbers without leading zeros. -/
theorem xferAsk_hexNat (htext : object.text env s.targets = some text) {addr : Nat}
    (haddr : addr < 2 ^ 32) (n : Nat) (stale : List UInt8) :
    ∃ s' : GdbSession, s'.targets = s.targets ∧
      xferAsk env s (object.request (hexNat addr) (hexNat n)) stale =
        some (xferPacket text addr (hexValue ((hexNat n).take 8)), s') := by
  have hshort : (hexNat addr).length ≤ 8 := (length_hexNat_le (by decide)).2 (by omega)
  obtain ⟨s', htargets, hask⟩ := @xferAsk_request _ _ _ _ _ _ stale htext (isDigit_hexNat addr)
    (hexNat_ne_nil addr) (isDigit_hexNat n) (hexNat_ne_nil n)
  rw [if_pos hshort, hexValue_hexNat] at hask
  exact ⟨s', htargets, hask⟩

/-- A client that has the string up to `offset` reads it to the end. -/
theorem xferRead_from {lens : Nat → Nat} {stale : Nat → List UInt8} (hlens : ∀ i, 1 ≤ lens i)
    (hsize : text.length < 2 ^ 32) (fuel : Nat) : ∀ (turn : Nat) (s : GdbSession) (addr : Nat),
      object.text env s.targets = some text → addr ≤ text.length → text.length < fuel + addr →
      xferRead env object lens stale fuel turn s addr (text.take addr) = some text := by
  induction fuel with
  | zero =>
    intro turn s addr htext hle hfuel
    omega
  | succ fuel ih =>
    intro turn s addr htext hle hfuel
    obtain ⟨s', htargets, hask⟩ :=
      xferAsk_hexNat htext (show addr < 2 ^ 32 by omega) (lens turn) (stale turn)
    rw [xferRead, hask, xferPacket, if_neg (by omega)]
    rcases Nat.eq_or_lt_of_le hle with rfl | hlt
    · rw [if_pos rfl]
      change some (text.take text.length ++ []) = some text
      rw [List.take_length, List.append_nil]
    · rw [if_neg (by omega)]
      have hpos := (hexValue_take_hexNat (w := 8) (by decide) (lens turn)).2 (hlens turn)
      generalize hexValue ((hexNat (lens turn)).take 8) = n at hpos
      have hgot : text.take addr ++ (text.drop addr).take n =
          text.take (addr + ((text.drop addr).take n).length) := by
        rw [List.length_take, List.length_drop, ← List.take_add, List.take_eq_take_iff]
        omega
      change xferRead env object lens stale fuel (turn + 1) s'
        (addr + ((text.drop addr).take n).length) (text.take addr ++ (text.drop addr).take n) = _
      rw [hgot]
      have hgrow : ((text.drop addr).take n).length = min n (text.length - addr) := by simp
      exact ih (turn + 1) s' _ (htargets ▸ htext) (by omega) (by omega)

end

/-- A client that asks for an object piece by piece, in pieces of any lengths, gets the whole string
after finitely many requests. No reply carries more than was asked for, and a request beyond the end
is refused. -/
theorem xferRead_reassembles (env : GdbEnv) (s : GdbSession) (object : XferObject)
    (text : List UInt8) (htext : object.text env s.targets = some text)
    (hsize : text.length < 2 ^ 32) :
    (∀ (lens : Nat → Nat) (stale : Nat → List UInt8), (∀ i, 1 ≤ lens i) →
      ∃ fuel, xferRead env object lens stale fuel 0 s 0 [] = some text) ∧
    (∀ (addr len : Nat) (stale packet : List UInt8) (s' : GdbSession),
      xferAsk env s (object.request (hexNat addr) (hexNat len)) stale = some (packet, s') →
      ∀ c data, packet = c :: data → c = 0x6d ∨ c = 0x6c → data.length ≤ len) ∧
    ∀ offset len stale : List UInt8, (∀ c ∈ offset, isDigit 16 c = true) →
      (∀ c ∈ len, isDigit 16 c = true) → len ≠ [] → text.length < hexValue offset →
      ∃ s', xferAsk env s (object.request offset len) stale = some (ascii "E01", s') := by
  refine ⟨fun lens stale hlens => ⟨text.length + 1, ?_⟩, ?_, ?_⟩
  · exact xferRead_from hlens hsize (text.length + 1) 0 s 0 htext (Nat.zero_le _) (by omega)
  · intro addr len stale packet s' hask c data hpacket hc
    obtain ⟨s'', -, hask'⟩ := @xferAsk_request _ _ _ _ _ _ stale htext (isDigit_hexNat addr)
      (hexNat_ne_nil addr) (isDigit_hexNat len) (hexNat_ne_nil len)
    rw [hask] at hask'
    have hle := (hexValue_take_hexNat (w := 8) (by decide) len).1
    obtain ⟨hp, -⟩ := Prod.mk.inj (Option.some.inj hask')
    rw [hpacket] at hp
    have hE : ∀ c data, c :: data = ascii "E01" → c ≠ 0x6d ∧ c ≠ 0x6c := by
      intro c data h
      rw [(List.cons.inj h).1]
      decide
    split at hp
    · rw [xferPacket] at hp
      split at hp
      · exact (hc.elim (hE c data hp).1 (hE c data hp).2).elim
      · split at hp
        · rw [(List.cons.inj hp).2]
          exact Nat.zero_le _
        · rw [(List.cons.inj hp).2]
          exact Nat.le_trans (List.length_take_le _ _) hle
    · exact (hc.elim (hE c data hp).1 (hE c data hp).2).elim
  · intro offset len stale hoff hlen hlenne hbeyond
    have hoffne : offset ≠ [] := by
      rintro rfl
      exact absurd hbeyond (Nat.not_lt_zero _)
    obtain ⟨s', -, hask⟩ := @xferAsk_request _ _ _ _ _ _ stale htext hoff hoffne hlen hlenne
    refine ⟨s', ?_⟩
    rw [hask, xferPacket, if_pos hbeyond, ite_self]

/-- A target with a memory map, read in pieces that grow. -/
theorem xferRead_reassembles_map :
    ∃ fuel, xferRead { plainEnv true with
        fns := { (plainEnv true).fns with memMap := fun _ => ascii "<memory-map/>" } }
      .memoryMap (fun i => i + 1) (fun _ => []) fuel 0 (oneTarget (some 0) none) 0 [] =
        some (ascii "<memory-map/>") :=
  (xferRead_reassembles _ (oneTarget (some 0) none) .memoryMap (ascii "<memory-map/>") (by decide)
    (by decide)).1 (fun i => i + 1) (fun _ => []) fun i => Nat.le_add_left 1 i

end Blackmagic
