import Blackmagic.Flash.Target
import Blackmagic.Gdb.Bounds
import Blackmagic.Gdb.Hex
import Blackmagic.Gdb.Xfer

/-!
# Memory and flash through packets

A client reads and writes memory with `m`, `M` and `X`, and programs flash with `vFlashErase`,
`vFlashWrite` and `vFlashDone`. Each of these packets makes one call of a target function
(`storeCall`), with what the client printed in the packet (`storeCall_request`), and the reply is
what the call answers (`storedAsk_request`). So a client that talks to the server talks to the
target behind it (`clientRun_answers`).
-/

namespace Blackmagic

open Effect Scanf

/-! ## Calls -/

/-- A call of a memory or flash function of a target. -/
inductive StoreCall
  | memRead (addr len : UInt32)
  | memWrite (addr : UInt32) (data : List UInt8)
  | flashErase (addr len : UInt32)
  | flashWrite (addr : UInt32) (data : List UInt8)
  | flashComplete
  deriving DecidableEq, Repr

/-- A target behind these functions. A call answers with data, or fails. -/
abbrev StoredTarget (τ : Type) := StoreCall → τ → Except BufFault (Option (List UInt8) × τ)

/-- The call that the handler of a packet makes, when it makes one. -/
def storeCall (locals : Locals) (pbuf : List UInt8) (size : Nat) : Option StoreCall :=
  match gdbCommand (pbuf.headD 0) with
  | .readMem =>
    let args := (sscanf (cstr pbuf) (lits "m" ++ [.int 16 0, .lit 0x2c, .int 16 0])).values
    let addr := args.getD 0 locals.addr
    let len := args.getD 1 locals.len
    if gdbPacketBufferSize / 2 < len.toNat then none else some (.memRead addr len)
  | .writeMem =>
    let r := writeArgs "M" pbuf
    let len := r.values.getD 1 0
    let hex := r.position.getD locals.position
    if (UInt32.ofNat size - UInt32.ofNat hex) / 2 < len then none
    else some (.memWrite (r.values.getD 0 0) (unhexify (pbuf.drop hex) len.toNat))
  | .writeBinary =>
    let r := writeArgs "X" pbuf
    let len := r.values.getD 1 locals.len
    let bin := r.position.getD locals.position
    if UInt32.ofNat size - UInt32.ofNat bin < len then none
    else some (.memWrite (r.values.getD 0 locals.addr) ((pbuf.drop bin).take len.toNat))
  | .verbose =>
    match vPacket pbuf with
    | .flashErase addr len => some (.flashErase addr len)
    | .flashWrite addr position =>
      let bin := position.getD locals.position
      some (.flashWrite addr ((pbuf.drop bin).take (UInt32.ofNat size - UInt32.ofNat bin).toNat))
    | .flashDone => some .flashComplete
    | _ => none
  | _ => none

/-- Make a call, and reply. -/
def serveCall (env : GdbEnv) : StoreCall → GdbM Unit
  | .memRead addr len => do
    match ← call env .memRead (← curTarget) (env.fns.memRead addr len) with
    | none => putPacketz "E01"
    | some mem => putPacket (hexify (mem.take len.toNat))
  | .memWrite addr data => memWriteReply env addr data
  | .flashErase addr len => handleVFlashErase env addr len
  | .flashWrite addr data => handleVFlashWrite env addr data
  | .flashComplete => handleVFlashDone env

/-- A packet with such a call makes it and replies, and that is all. -/
theorem gdbMain_storeCall {env : GdbEnv} {pbuf : List UInt8} {size : Nat} {c : StoreCall}
    {s : GdbSession} (hcall : storeCall env.locals pbuf size = some c)
    (hcur : s.targets.cur.isSome) :
    gdbMain env pbuf size s = serveCall env c s := by
  have htarget : ∀ m : GdbM Unit, errorIfNoTarget m s = m s := by
    intro m
    have hnone : s.targets.cur.isNone = false := by simpa using hcur
    unfold errorIfNoTarget
    rw [run_bind_ok (show curTarget s = .ok s.targets.cur s from rfl), hnone]
    rfl
  unfold storeCall at hcall
  unfold gdbMain
  split at hcall
  · next hcommand =>
    rw [hcommand]
    dsimp only at hcall ⊢
    rw [htarget, handleReadMem]
    split at hcall
    · cases hcall
    · next hle =>
      cases hcall
      exact congrFun (if_neg hle) s
  · next hcommand =>
    rw [hcommand]
    dsimp only at hcall ⊢
    rw [htarget, handleWriteMem]
    split at hcall
    · cases hcall
    · next hle =>
      cases hcall
      exact congrFun (if_neg hle) s
  · next hcommand =>
    rw [hcommand]
    dsimp only at hcall ⊢
    rw [htarget, handleWriteBinary]
    split at hcall
    · cases hcall
    · next hle =>
      cases hcall
      exact congrFun (if_neg hle) s
  · next hcommand =>
    rw [hcommand]
    dsimp only
    unfold handleVPacket
    generalize vPacket pbuf = v at hcall ⊢
    cases v with
    | flashErase addr len =>
      cases hcall
      rfl
    | flashWrite addr position =>
      cases hcall
      rfl
    | flashDone =>
      cases hcall
      rfl
    | attach | kill | run | cont | stopped | unsupported => cases hcall
  · cases hcall

/-! ## The target behind the server -/

section
variable {τ : Type} (T : StoredTarget τ)

/-- What a call answers. -/
def StoredTarget.answer (t : τ) (c : StoreCall) : Option (List UInt8) :=
  match T c t with
  | .ok (answer, _) => answer
  | .error _ => none

/-- The target after a call. -/
def StoredTarget.after (t : τ) (c : StoreCall) : τ :=
  match T c t with
  | .ok (_, t) => t
  | .error _ => t

/-- A call that starts or goes on with a session of the flash, which ends when the call fails. -/
def StoreCall.ofSession : StoreCall → Bool
  | .flashErase _ _ | .flashWrite _ _ => true
  | _ => false

/-- The functions of the target, as a packet meets them. `target_flash_complete` is called after the
packet's own call of the session, when there is one. -/
def StoredTarget.env (base : GdbEnv) (t : τ) (c : Option StoreCall) : GdbEnv where
  fns := { base.fns with
    memRead := fun addr len _ => T.answer t (.memRead addr len)
    memWrite := fun addr data _ => (T.answer t (.memWrite addr data)).isSome
    flashErase := fun addr len _ => (T.answer t (.flashErase addr len)).isSome
    flashWrite := fun addr data _ => (T.answer t (.flashWrite addr data)).isSome
    flashComplete := fun _ =>
      let t := match c with
        | some c => if c.ofSession then T.after t c else t
        | none => t
      (T.answer t .flashComplete).isSome }
  monitor := base.monitor
  locals := base.locals
  vasprintf := base.vasprintf

/-- The target after a packet. -/
def StoredTarget.packet (t : τ) : Option StoreCall → Except BufFault τ
  | none => .ok t
  | some c => do
    let (answer, t) ← T c t
    if c.ofSession ∧ answer.isNone then
      let (_, t) ← T .flashComplete t
      return t
    else return t

/-- A client sends a request to a server with a target behind it, and takes the reply. `stale` is
what an earlier packet left in the buffer. -/
def storedAsk (base : GdbEnv) (request stale : List UInt8) (s : GdbSession) (t : τ) :
    Option (List UInt8 × GdbSession × τ) :=
  let c := storeCall base.locals (request ++ 0 :: stale) request.length
  match xferAsk (T.env base t c) s request stale, T.packet t c with
  | some (packet, s), .ok t => some (packet, s, t)
  | _, _ => none

end

/-! ## Requests -/

/-- What a client asks for. -/
inductive ClientOp
  | read (addr len : Nat)
  | write (addr : Nat) (data : List UInt8)
  | writeBinary (addr : Nat) (data : List UInt8)
  | erase (addr len : Nat)
  | program (addr : Nat) (data : List UInt8)
  | done

/-- The packet for it. -/
def ClientOp.request : ClientOp → List UInt8
  | .read addr len => ascii "m" ++ (hexNat addr ++ 0x2c :: hexNat len)
  | .write addr data => ascii "M" ++
      (hexNat addr ++ 0x2c :: (hexNat data.length ++ 0x3a :: hexify data))
  | .writeBinary addr data =>
      ascii "X" ++ (hexNat addr ++ 0x2c :: (hexNat data.length ++ 0x3a :: data))
  | .erase addr len => ascii "vFlashErase:" ++ (hexNat addr ++ 0x2c :: hexNat len)
  | .program addr data => ascii "vFlashWrite:" ++ (hexNat addr ++ 0x3a :: data)
  | .done => ascii "vFlashDone"

/-- The call that it stands for. -/
def ClientOp.call : ClientOp → StoreCall
  | .read addr len => .memRead (UInt32.ofNat addr) (UInt32.ofNat len)
  | .write addr data | .writeBinary addr data => .memWrite (UInt32.ofNat addr) data
  | .erase addr len => .flashErase (UInt32.ofNat addr) (UInt32.ofNat len)
  | .program addr data => .flashWrite (UInt32.ofNat addr) data
  | .done => .flashComplete

/-- A request with numbers of 32 bits, for at most half of a buffer, in a packet that the server
takes. -/
def ClientOp.Fits (op : ClientOp) : Prop :=
  op.request.length ≤ gdbPacketBufferSize ∧
    match op with
    | .read addr len => addr < 2 ^ 32 ∧ len ≤ gdbPacketBufferSize / 2
    | .write addr _ | .writeBinary addr _ | .program addr _ => addr < 2 ^ 32
    | .erase addr len => addr < 2 ^ 32 ∧ len < 2 ^ 32
    | .done => True

/-- A comma or a colon ends a number. -/
theorem numberEnds_of {c : UInt8} (h : c = 0x2c ∨ c = 0x3a) (rest : List UInt8) :
    NumberEnds (c :: rest) := by
  intro d hd
  cases hd
  rcases h with rfl | rfl <;> decide

/-- A number may end with the input. -/
theorem numberEnds_nil : NumberEnds [] := fun _ h => nomatch h

/-- A string goes on behind a text without a terminator. -/
theorem cstr_append_of {l : List UInt8} (h : 0 ∉ l) (rest : List UInt8) :
    cstr (l ++ rest) = l ++ cstr rest :=
  List.takeWhile_append_of_pos fun _ hc => decide_eq_true fun h0 => h (h0 ▸ hc)

/-- Two numbers, separated by a comma. -/
theorem scan_pair {addr len : Nat} (haddr : addr < 2 ^ 32) (hlen : len < 2 ^ 32) {rest : List UInt8}
    (hrest : NumberEnds rest) (format : List Directive) (pos : Nat) :
    scan (.int 16 0 :: .lit 0x2c :: .int 16 0 :: format)
      (hexNat addr ++ 0x2c :: (hexNat len ++ rest)) pos =
      { scan format rest (pos + (hexNat addr).length + 1 + (hexNat len).length) with
        values := UInt32.ofNat addr :: UInt32.ofNat len ::
          (scan format rest (pos + (hexNat addr).length + 1 + (hexNat len).length)).values } := by
  rw [scan_hexNat haddr (numberEnds_of (.inl rfl) _), scan, if_pos rfl, scan_hexNat hlen hrest]

/-- `%8x` reads a word back that was printed. -/
theorem scan_hexNat_width {n : Nat} (hn : n < 2 ^ 32) {rest : List UInt8} (hrest : NumberEnds rest)
    (format : List Directive) (pos : Nat) :
    scan (.int 16 8 :: format) (hexNat n ++ rest) pos =
      { scan format rest (pos + (hexNat n).length) with
        values := UInt32.ofNat n :: (scan format rest (pos + (hexNat n).length)).values } := by
  have hshort : (hexNat n).length ≤ 8 := (length_hexNat_le (by decide)).2 hn
  have hnumber : number 16 (hexNat n) = UInt32.ofNat n := by
    rw [← UInt32.toNat_inj, toNat_number16 (isDigit_hexNat n) hshort, hexValue_hexNat,
      UInt32.toNat_ofNat_of_lt' hn]
  rw [scan_int16 (by decide) (isDigit_hexNat n) (hexNat_ne_nil n) hrest,
    List.take_of_length_le hshort, List.drop_of_length_le hshort, List.nil_append, hnumber]

section
variable {addr len : Nat} {data stale : List UInt8}

/-- A number has no terminator in it. -/
theorem zero_not_mem_hexNat (n : Nat) : 0 ∉ hexNat n := zero_not_mem_of_digits (isDigit_hexNat n)

/-- The fields of `m`. -/
theorem sscanf_read (haddr : addr < 2 ^ 32) (hlen : len < 2 ^ 32) :
    sscanf (cstr ((ClientOp.read addr len).request ++ 0 :: stale))
        (lits "m" ++ [.int 16 0, .lit 0x2c, .int 16 0]) =
          ⟨[UInt32.ofNat addr, UInt32.ofNat len], none⟩ := by
  have hzero : 0 ∉ (ClientOp.read addr len).request := by
    rw [ClientOp.request, List.mem_append, List.mem_append, List.mem_cons, not_or, not_or, not_or]
    exact ⟨by decide, zero_not_mem_hexNat addr, by decide, zero_not_mem_hexNat len⟩
  rw [cstr_append hzero]
  change scan [.int 16 0, .lit 0x2c, .int 16 0] (hexNat addr ++ 0x2c :: hexNat len) 1 = _
  have hpair := scan_pair haddr hlen numberEnds_nil [] 1
  rwa [List.append_nil] at hpair

/-- The fields of `M` and `X`, up to the data. -/
theorem writeArgs_request {command : String} {c : UInt8} (hcommand : ascii command = [c])
    (hc : c ≠ 0) (haddr : addr < 2 ^ 32) (hlen : len < 2 ^ 32) (rest : List UInt8) :
    writeArgs command (ascii command ++ (hexNat addr ++ 0x2c :: (hexNat len ++ 0x3a :: rest))) =
      ⟨[UInt32.ofNat addr, UInt32.ofNat len],
        some ((ascii command ++ (hexNat addr ++ 0x2c :: (hexNat len ++ [0x3a]))).length)⟩ := by
  have hzero : 0 ∉ ascii command ++ (hexNat addr ++ 0x2c :: (hexNat len ++ [0x3a])) := by
    simp [hcommand, hc.symm, zero_not_mem_hexNat]
  have hsplit : ascii command ++ (hexNat addr ++ 0x2c :: (hexNat len ++ 0x3a :: rest)) =
      ascii command ++ (hexNat addr ++ 0x2c :: (hexNat len ++ [0x3a])) ++ rest := by simp
  have hlits : lits command = [.lit c] := by rw [lits, hcommand]; rfl
  rw [writeArgs, hsplit, cstr_append_of hzero, hlits, hcommand]
  have hrest : [c] ++ (hexNat addr ++ 0x2c :: (hexNat len ++ [0x3a])) ++ cstr rest =
      c :: (hexNat addr ++ 0x2c :: (hexNat len ++ 0x3a :: cstr rest)) := by simp
  rw [hrest, sscanf, List.cons_append, scan, if_pos rfl, List.nil_append,
    scan_pair haddr hlen (numberEnds_of (.inr rfl) _), scan, if_pos rfl, scan, scan]
  simp
  omega

/-- The packet for an erase is read as one. -/
theorem vPacket_erase (haddr : addr < 2 ^ 32) (hlen : len < 2 ^ 32) :
    vPacket ((ClientOp.erase addr len).request ++ 0 :: stale) =
      .flashErase (UInt32.ofNat addr) (UInt32.ofNat len) := by
  have hzero : 0 ∉ (ClientOp.erase addr len).request := by
    rw [ClientOp.request, List.mem_append, List.mem_append, List.mem_cons, not_or, not_or, not_or]
    exact ⟨by decide, zero_not_mem_hexNat addr, by decide, zero_not_mem_hexNat len⟩
  have hscan : sscanf (ClientOp.erase addr len).request
      (lits "vFlashErase:" ++ [.int 16 8, .lit 0x2c, .int 16 8]) =
        ⟨[UInt32.ofNat addr, UInt32.ofNat len], none⟩ := by
    change scan [.int 16 8, .lit 0x2c, .int 16 8] (hexNat addr ++ 0x2c :: hexNat len) 12 = _
    rw [scan_hexNat_width haddr (numberEnds_of (.inl rfl) _), scan, if_pos rfl]
    have := scan_hexNat_width hlen numberEnds_nil [] (12 + (hexNat addr).length + 1)
    rw [List.append_nil] at this
    rw [this]
    rfl
  unfold vPacket
  rw [cstr_append hzero]
  dsimp only
  rw [hscan]
  rfl

/-- The packet for a write is read as one. -/
theorem vPacket_program (haddr : addr < 2 ^ 32) (rest : List UInt8) :
    vPacket (ascii "vFlashWrite:" ++ (hexNat addr ++ 0x3a :: rest)) =
      .flashWrite (UInt32.ofNat addr)
        (some (ascii "vFlashWrite:" ++ (hexNat addr ++ [0x3a])).length) := by
  have hzero : 0 ∉ ascii "vFlashWrite:" ++ (hexNat addr ++ [0x3a]) := by
    rw [List.mem_append, List.mem_append, not_or, not_or]
    exact ⟨by decide, zero_not_mem_hexNat addr, by decide⟩
  have hsplit : ascii "vFlashWrite:" ++ (hexNat addr ++ 0x3a :: rest) =
      ascii "vFlashWrite:" ++ (hexNat addr ++ [0x3a]) ++ rest := by simp
  have hcstr : cstr (ascii "vFlashWrite:" ++ (hexNat addr ++ 0x3a :: rest)) =
      ascii "vFlashWrite:" ++ (hexNat addr ++ 0x3a :: cstr rest) := by
    rw [hsplit, cstr_append_of hzero]
    simp
  have hscan : sscanf (ascii "vFlashWrite:" ++ (hexNat addr ++ 0x3a :: cstr rest))
      (lits "vFlashWrite:" ++ [.int 16 8, .lit 0x3a, .position]) =
        ⟨[UInt32.ofNat addr], some (12 + (hexNat addr).length + 1)⟩ := by
    change scan [.int 16 8, .lit 0x3a, .position] (hexNat addr ++ 0x3a :: cstr rest) 12 = _
    rw [scan_hexNat_width haddr (numberEnds_of (.inr rfl) _), scan, if_pos rfl]
    rfl
  have hlen : (ascii "vFlashWrite:" ++ (hexNat addr ++ [0x3a])).length =
      12 + (hexNat addr).length + 1 := by
    rw [List.length_append, List.length_append, ← Nat.add_assoc]
    rfl
  unfold vPacket
  rw [hcstr]
  dsimp only
  rw [hscan, hlen]
  rfl

/-- What is left of a packet behind its fields. -/
theorem ofNat_left (pre data : List UInt8) :
    UInt32.ofNat (pre ++ data).length - UInt32.ofNat pre.length = UInt32.ofNat data.length := by
  rw [List.length_append, Word.ofNat_add_sub]

/-- A request to write memory in hexadecimal makes its call. -/
theorem storeCall_write (hsize : (ClientOp.write addr data).request.length ≤ gdbPacketBufferSize)
    (haddr : addr < 2 ^ 32) (locals : Locals) :
    storeCall locals ((ClientOp.write addr data).request ++ 0 :: stale)
        (ClientOp.write addr data).request.length =
      some (.memWrite (UInt32.ofNat addr) data) := by
  have hbuf : gdbPacketBufferSize = 1024 := rfl
  have hhead : gdbCommand (((ClientOp.write addr data).request ++ 0 :: stale).headD 0) =
    .writeMem := rfl
  have hpacket : (ClientOp.write addr data).request ++ 0 :: stale =
      ascii "M" ++
        (hexNat addr ++ 0x2c :: (hexNat data.length ++ 0x3a :: (hexify data ++ 0 :: stale))) := by
    simp [ClientOp.request]
  have hrequest : (ClientOp.write addr data).request =
      ascii "M" ++ (hexNat addr ++ 0x2c :: (hexNat data.length ++ [0x3a])) ++ hexify data := by
    simp [ClientOp.request]
  have hlen : data.length ≤ 512 := by
    rw [hrequest, List.length_append, length_hexify] at hsize
    omega
  have hcount : (UInt32.ofNat data.length).toNat = data.length :=
    UInt32.toNat_ofNat_of_lt' (Nat.lt_of_le_of_lt hlen (by decide))
  have hargs := @writeArgs_request addr data.length "M" 0x4d rfl (by decide) haddr (by omega)
    (hexify data ++ 0 :: stale)
  rw [← hpacket] at hargs
  have hdouble : ¬ (UInt32.ofNat (ClientOp.write addr data).request.length -
      UInt32.ofNat
        (ascii "M" ++ (hexNat addr ++ 0x2c :: (hexNat data.length ++ [0x3a]))).length) / 2 <
        UInt32.ofNat data.length := by
    have hdigits : (UInt32.ofNat (2 * data.length)).toNat = 2 * data.length :=
      UInt32.toNat_ofNat_of_lt' (show 2 * data.length < 2 ^ 32 by omega)
    rw [hrequest, ofNat_left, UInt32.lt_iff_toNat_lt, UInt32.toNat_div, length_hexify, hdigits,
      hcount, show (2 : UInt32).toNat = 2 from rfl]
    omega
  unfold storeCall
  rw [hhead]
  dsimp only
  rw [hargs]
  refine (if_neg hdouble).trans ?_
  refine congrArg some (congrArg (StoreCall.memWrite (UInt32.ofNat addr)) ?_)
  have hgiven : ([UInt32.ofNat addr, UInt32.ofNat data.length].getD 1 0).toNat = data.length :=
    hcount
  dsimp only [Option.getD_some]
  rw [hrequest, List.append_assoc, List.drop_left, hgiven, unhexify_hexify]

/-- A request to write memory in binary makes its call. -/
theorem storeCall_writeBinary
    (hsize : (ClientOp.writeBinary addr data).request.length ≤ gdbPacketBufferSize)
    (haddr : addr < 2 ^ 32) (locals : Locals) :
    storeCall locals ((ClientOp.writeBinary addr data).request ++ 0 :: stale)
        (ClientOp.writeBinary addr data).request.length =
      some (.memWrite (UInt32.ofNat addr) data) := by
  have hbuf : gdbPacketBufferSize = 1024 := rfl
  have hhead : gdbCommand (((ClientOp.writeBinary addr data).request ++ 0 :: stale).headD 0) =
    .writeBinary := rfl
  have hpacket : (ClientOp.writeBinary addr data).request ++ 0 :: stale =
      ascii "X" ++
        (hexNat addr ++ 0x2c :: (hexNat data.length ++ 0x3a :: (data ++ 0 :: stale))) := by
    simp [ClientOp.request]
  have hrequest : (ClientOp.writeBinary addr data).request =
      ascii "X" ++ (hexNat addr ++ 0x2c :: (hexNat data.length ++ [0x3a])) ++ data := by
    simp [ClientOp.request]
  have hlen : data.length ≤ 1024 := by
    rw [hrequest, List.length_append] at hsize
    omega
  have hcount : (UInt32.ofNat data.length).toNat = data.length :=
    UInt32.toNat_ofNat_of_lt' (Nat.lt_of_le_of_lt hlen (by decide))
  have hargs := @writeArgs_request addr data.length "X" 0x58 rfl (by decide) haddr (by omega)
    (data ++ 0 :: stale)
  rw [← hpacket] at hargs
  have hleft : ¬ UInt32.ofNat (ClientOp.writeBinary addr data).request.length -
      UInt32.ofNat (ascii "X" ++ (hexNat addr ++ 0x2c :: (hexNat data.length ++ [0x3a]))).length <
        UInt32.ofNat data.length := by
    rw [hrequest, ofNat_left]
    exact UInt32.lt_irrefl _
  unfold storeCall
  rw [hhead]
  dsimp only
  rw [hargs]
  refine (if_neg hleft).trans ?_
  refine congrArg some (congrArg (StoreCall.memWrite (UInt32.ofNat addr)) ?_)
  have hgiven : ([UInt32.ofNat addr, UInt32.ofNat data.length].getD 1 locals.len).toNat =
    data.length := hcount
  dsimp only [Option.getD_some]
  rw [hrequest, List.append_assoc, List.drop_left, hgiven, List.take_left]

/-- A request to write flash makes its call. -/
theorem storeCall_program
    (hsize : (ClientOp.program addr data).request.length ≤ gdbPacketBufferSize)
    (haddr : addr < 2 ^ 32) (locals : Locals) :
    storeCall locals ((ClientOp.program addr data).request ++ 0 :: stale)
        (ClientOp.program addr data).request.length =
      some (.flashWrite (UInt32.ofNat addr) data) := by
  have hbuf : gdbPacketBufferSize = 1024 := rfl
  have hhead : gdbCommand (((ClientOp.program addr data).request ++ 0 :: stale).headD 0) =
    .verbose := rfl
  have hpacket : (ClientOp.program addr data).request ++ 0 :: stale =
      ascii "vFlashWrite:" ++ (hexNat addr ++ 0x3a :: (data ++ 0 :: stale)) := by
    simp [ClientOp.request]
  have hrequest : (ClientOp.program addr data).request =
      ascii "vFlashWrite:" ++ (hexNat addr ++ [0x3a]) ++ data := by
    simp [ClientOp.request]
  have hlen : data.length ≤ 1024 := by
    rw [hrequest, List.length_append] at hsize
    omega
  have hcount : (UInt32.ofNat data.length).toNat = data.length :=
    UInt32.toNat_ofNat_of_lt' (Nat.lt_of_le_of_lt hlen (by decide))
  have hv := vPacket_program haddr (data ++ 0 :: stale)
  rw [← hpacket] at hv
  unfold storeCall
  rw [hhead]
  dsimp only
  rw [hv]
  dsimp only [Option.getD_some]
  rw [hrequest, ofNat_left, hcount, List.append_assoc, List.drop_left, List.take_left]

/-- A request makes its call. -/
theorem storeCall_request {op : ClientOp} (hfit : op.Fits) (locals : Locals) (stale : List UInt8) :
    storeCall locals (op.request ++ 0 :: stale) op.request.length = some op.call := by
  obtain ⟨hsize, hfit⟩ := hfit
  have hbuf : gdbPacketBufferSize = 1024 := rfl
  cases op with
  | read addr len =>
    have hhead : gdbCommand (((ClientOp.read addr len).request ++ 0 :: stale).headD 0) = .readMem :=
      rfl
    have hlen : (UInt32.ofNat len).toNat = len :=
      UInt32.toNat_ofNat_of_lt' (Nat.lt_of_le_of_lt hfit.2 (by decide))
    unfold storeCall
    rw [hhead]
    dsimp only
    rw [sscanf_read hfit.1 (by omega)]
    change (if gdbPacketBufferSize / 2 < (UInt32.ofNat len).toNat then _ else _) = _
    rw [hlen, if_neg (by omega)]
    rfl
  | write addr data => exact storeCall_write hsize hfit locals
  | writeBinary addr data => exact storeCall_writeBinary hsize hfit locals
  | erase addr len =>
    have hhead : gdbCommand (((ClientOp.erase addr len).request ++ 0 :: stale).headD 0) =
      .verbose := rfl
    unfold storeCall
    rw [hhead]
    dsimp only
    rw [vPacket_erase hfit.1 hfit.2]
    rfl
  | program addr data => exact storeCall_program hsize hfit locals
  | done =>
    have hhead : gdbCommand ((ClientOp.done.request ++ 0 :: stale).headD 0) = .verbose := rfl
    have hv : vPacket (ClientOp.done.request ++ 0 :: stale) = .flashDone := by
      have hcstr : cstr (ClientOp.done.request ++ 0 :: stale) = ascii "vFlashDone" :=
        cstr_append (by decide) stale
      unfold vPacket
      rw [hcstr]
      rfl
    unfold storeCall
    rw [hhead]
    dsimp only
    rw [hv]
    rfl

end

/-! ## Replies -/

/-- The reply to a call, by what it answers. -/
def StoreCall.reply : StoreCall → Option (List UInt8) → List UInt8
  | .memRead _ len, some mem => hexify (mem.take len.toNat)
  | .memRead _ _, none | .memWrite _ _, none => ascii "E01"
  | .flashErase _ _, none | .flashWrite _ _, none | .flashComplete, none => ascii "EFF"
  | _, some _ => ascii "OK"

section
variable {τ : Type} {T : StoredTarget τ} {base : GdbEnv} {s : GdbSession} {t t' : τ} {id : Nat}
  {c : StoreCall}
  {answer : Option (List UInt8)}

/-- The surroundings of a stored target raise no exception. -/
theorem StoredTarget.env_quiet (hquiet : base.Quiet) (call : Option StoreCall) :
    (T.env base t call).Quiet :=
  ⟨hquiet.fns, hquiet.monitor⟩

/-- A call that is made is replied to, once. -/
theorem ends_serveCall (hquiet : base.Quiet) (hcur : s.targets.cur = some id)
    (hfind : (s.targets.find id).isSome) :
    Ends (serveCall (T.env base t (some c)) c) s
      (fun _ s' => ∃ calls : List GdbOut, replyPackets calls = [] ∧
      s' = { s with out := s.out ++ calls ++ [.reply (c.reply (T.answer t c))] }) fun _ _ =>
        False := by
  have hquiet : (T.env base t (some c)).Quiet := StoredTarget.env_quiet hquiet _
  cases c with
  | memRead addr len =>
    have hanswer : (T.env base t (some (.memRead addr len))).fns.memRead addr len id =
      T.answer t (.memRead addr len) := rfl
    simp only [serveCall, ends_bind, ends_curTarget, hcur, ends_call hquiet hfind, hanswer]
    cases T.answer t (.memRead addr len) with
    | none => exact ⟨[.call id .memRead], rfl, rfl⟩
    | some mem => exact ⟨[.call id .memRead], rfl, rfl⟩
  | memWrite addr data =>
    have hanswer : (T.env base t (some (.memWrite addr data))).fns.memWrite addr data id =
      (T.answer t (.memWrite addr data)).isSome := rfl
    simp only [serveCall, memWriteReply, ends_bind, ends_curTarget, hcur, ends_call hquiet hfind,
      hanswer]
    cases T.answer t (.memWrite addr data) with
    | none => exact ⟨[.call id .memWrite], rfl, rfl⟩
    | some mem => exact ⟨[.call id .memWrite], rfl, rfl⟩
  | flashErase addr len =>
    have hanswer : (T.env base t (some (.flashErase addr len))).fns.flashErase addr len id =
      (T.answer t (.flashErase addr len)).isSome := rfl
    simp only [serveCall, handleVFlashErase, ends_bind, ends_curTarget, hcur, Option.isNone_some,
      Bool.false_eq_true, if_false, ends_call hquiet hfind, hanswer]
    cases T.answer t (.flashErase addr len) with
    | none =>
      simp only [Option.isSome_none, Bool.false_eq_true, if_false, ends_bind, ends_curTarget, hcur]
      refine (ends_call hquiet (by exact hfind)).2
        ⟨[.call id .flashErase, .call id .flashComplete], rfl, ?_⟩
      simp [StoreCall.reply]
    | some mem => exact ⟨[.call id .flashErase], rfl, rfl⟩
  | flashWrite addr data =>
    have hanswer : (T.env base t (some (.flashWrite addr data))).fns.flashWrite addr data id =
      (T.answer t (.flashWrite addr data)).isSome := rfl
    simp only [serveCall, handleVFlashWrite, tryFlashWrite, ends_bind, ends_curTarget, hcur,
      Option.isNone_some, Bool.false_eq_true, if_false, ends_call hquiet hfind, hanswer]
    cases T.answer t (.flashWrite addr data) with
    | none =>
      simp only [Option.isSome_none, Bool.false_eq_true, if_false, ends_bind, ends_curTarget, hcur]
      refine (ends_call hquiet (by exact hfind)).2
        ⟨[.call id .flashWrite, .call id .flashComplete], rfl, ?_⟩
      simp [StoreCall.reply]
    | some mem => exact ⟨[.call id .flashWrite], rfl, rfl⟩
  | flashComplete =>
    have hanswer : (T.env base t (some .flashComplete)).fns.flashComplete id =
      (T.answer t .flashComplete).isSome := rfl
    simp only [serveCall, handleVFlashDone, ends_bind, ends_curTarget, hcur, ends_call hquiet hfind,
      hanswer]
    cases T.answer t .flashComplete with
    | none => exact ⟨[.call id .flashComplete], rfl, rfl⟩
    | some mem => exact ⟨[.call id .flashComplete], rfl, rfl⟩

/-- The replies of two outputs. -/
theorem replyPackets_append (out out' : List GdbOut) :
    replyPackets (out ++ out') = replyPackets out ++ replyPackets out' := List.filterMap_append

/-- A request of a client is answered as the target answers its call, and leaves the target as it
does. -/
theorem storedAsk_request (hquiet : base.Quiet) (hcur : s.targets.cur = some id)
    (hfind : (s.targets.find id).isSome) {op : ClientOp} (hfit : op.Fits) (stale : List UInt8)
    (hcall : T op.call t = .ok (answer, t')) (hok : op.call.ofSession → answer.isSome) :
    ∃ s', s'.targets = s.targets ∧ storedAsk T base op.request stale s t =
      some (op.call.reply answer, s', t') := by
  have hstore := storeCall_request hfit base.locals stale
  have hanswer : T.answer t op.call = answer := by rw [StoredTarget.answer, hcall]
  have hpacket : T.packet t (some op.call) = .ok t' := by
    have hnot : ¬ (op.call.ofSession ∧ answer.isNone) := by
      rintro ⟨hsession, hnone⟩
      have := hok hsession
      rw [Option.isNone_iff_eq_none.1 hnone] at this
      cases this
    simp only [StoredTarget.packet, hcall, bind, Except.bind, if_neg hnot]
    rfl
  have hmain := @gdbMain_storeCall (T.env base t (some op.call)) _ _ _ _ hstore (by rw [hcur]; rfl)
  have hserve := @ends_serveCall _ T base s t id op.call hquiet hcur hfind
  cases hrun : serveCall (T.env base t (some op.call)) op.call s with
  | error e s' => exact (hserve.error hrun).elim
  | ok u s' =>
    obtain ⟨calls, hcalls, hs'⟩ := hserve.ok hrun
    refine ⟨s', by rw [hs'], ?_⟩
    have hout : replyPackets (s'.out.drop s.out.length) = [op.call.reply answer] := by
      rw [hs', List.append_assoc, List.drop_left, replyPackets_append, hcalls, hanswer]
      rfl
    rw [hrun] at hmain
    simp only [storedAsk, hstore, hpacket, xferAsk, hmain, hout, gdbPutpacket_acked,
      unframe_gdbTransmit, Option.map_some]

end

/-! ## Runs -/

section
variable {τ : Type} (T : StoredTarget τ)

/-- Calls, one after the other, with what they answer. -/
def StoredTarget.run : List StoreCall → τ → Except BufFault (List (Option (List UInt8)) × τ)
  | [], t => .ok ([], t)
  | c :: cs, t => do
    let (answer, t) ← T c t
    let (answers, t) ← StoredTarget.run cs t
    return (answer :: answers, t)

/-- A client makes its requests, each with what is in the buffer then, and takes the replies. -/
def clientRun (base : GdbEnv) : List (ClientOp × List UInt8) → GdbSession → τ →
    Option (List (List UInt8) × GdbSession × τ)
  | [], s, t => some ([], s, t)
  | (op, stale) :: ops, s, t => do
    let (packet, s, t) ← storedAsk T base op.request stale s t
    let (packets, s, t) ← clientRun base ops s t
    return (packet :: packets, s, t)

variable {T}

/-- A run whose first call returns. -/
theorem StoredTarget.run_cons {c : StoreCall} {cs : List StoreCall} {t t₁ t' : τ}
    {answer : Option (List UInt8)} {answers : List (Option (List UInt8))}
    (h : T c t = .ok (answer, t₁)) (hrun : T.run cs t₁ = .ok (answers, t')) :
    T.run (c :: cs) t = .ok (answer :: answers, t') := by
  simp only [run, h, hrun, bind, Except.bind]
  rfl

/-- A run from a call on. -/
theorem StoredTarget.run_cons_ok {c : StoreCall} {cs : List StoreCall} {t t' : τ}
    {answers : List (Option (List UInt8))} (hrun : T.run (c :: cs) t = .ok (answers, t')) :
    ∃ answer t₁ rest, T c t = .ok (answer, t₁) ∧ T.run cs t₁ = .ok (rest, t') ∧
      answers = answer :: rest := by
  cases hc : T c t with
  | error e =>
    simp only [run, hc, bind, Except.bind] at hrun
    cases hrun
  | ok r =>
    cases hcs : T.run cs r.2 with
    | error e =>
      simp only [run, hc, hcs, bind, Except.bind] at hrun
      cases hrun
    | ok r' =>
      simp only [run, hc, hcs, bind, Except.bind] at hrun
      cases hrun
      exact ⟨_, _, _, rfl, hcs, rfl⟩

/-- Every call has an answer. -/
theorem StoredTarget.length_run {t' : τ} :
    ∀ {cs : List StoreCall} {t : τ} {answers : List (Option (List UInt8))},
    T.run cs t = .ok (answers, t') → answers.length = cs.length := by
  intro cs
  induction cs with
  | nil =>
    intro t answers hrun
    cases hrun
    rfl
  | cons c cs ih =>
    intro t answers hrun
    obtain ⟨answer, t₁, rest, -, hrest, rfl⟩ := run_cons_ok hrun
    rw [List.length_cons, List.length_cons, ih hrest]

/-- A run in two parts. -/
theorem StoredTarget.run_append {cs cs' : List StoreCall} {t₁ t' : τ}
    {answers' : List (Option (List UInt8))} (hrun' : T.run cs' t₁ = .ok (answers', t')) :
    ∀ {t : τ} {answers : List (Option (List UInt8))},
    T.run cs t = .ok (answers, t₁) → T.run (cs ++ cs') t = .ok (answers ++ answers', t') := by
  induction cs with
  | nil =>
    intro t answers hrun
    cases hrun
    exact hrun'
  | cons c cs ih =>
    intro t answers hrun
    obtain ⟨answer, t₁, rest, hc, hrest, rfl⟩ := run_cons_ok hrun
    exact run_cons hc (ih hrest)

/-- The replies of a run are those to its calls, when no call of a session fails. -/
theorem clientRun_answers {base : GdbEnv} (hquiet : base.Quiet) {id : Nat} {t' : τ} :
    ∀ {ops : List (ClientOp × List UInt8)} {s : GdbSession} {t : τ} {answers : List
      (Option (List UInt8))},
      s.targets.cur = some id → (s.targets.find id).isSome → (∀ op ∈ ops, op.1.Fits) →
      T.run (ops.map fun op => op.1.call) t = .ok (answers, t') →
      (∀ p ∈ (ops.map fun op => op.1.call).zip answers, p.1.ofSession → p.2.isSome) →
      ∃ s', s'.targets = s.targets ∧ clientRun T base ops s t =
        some (((ops.map fun op => op.1.call).zip answers).map fun p => p.1.reply p.2, s', t') := by
  intro ops
  induction ops with
  | nil =>
    intro s t answers _ _ _ hrun _
    cases hrun
    exact ⟨s, rfl, rfl⟩
  | cons op ops ih =>
    intro s t answers hcur hfind hfits hrun hok
    obtain ⟨op, stale⟩ := op
    obtain ⟨hfit, hfits⟩ := List.forall_mem_cons.1 hfits
    obtain ⟨answer, t₁, rest, hc, hcs, rfl⟩ := StoredTarget.run_cons_ok hrun
    obtain ⟨hok₀, hok⟩ := List.forall_mem_cons.1 hok
    obtain ⟨s₁, htargets, hask⟩ := storedAsk_request hquiet hcur hfind hfit stale hc hok₀
    rw [← htargets] at hcur hfind
    obtain ⟨s', htargets', hrest⟩ := ih hcur hfind hfits hcs hok
    refine ⟨s', htargets'.trans htargets, ?_⟩
    simp only [clientRun, hask, hrest, Option.bind_eq_bind, Option.bind_some]
    rfl

end

end Blackmagic
