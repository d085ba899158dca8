import Blackmagic.Gdb.Hex
import Blackmagic.Lib.Word
import Blackmagic.Semihosting.Target

/-!
# The buffers of the probe during a call

File length, time and read character have the host write its result into a buffer of the probe,
which stands in for the target's memory until the response comes. The memory functions look at no
address there: each packet of the host is copied to the start of the buffer.
-/

namespace Blackmagic

open Effect Scanf Bytes

namespace Semihosting

/-! ## The packets of the host: `gdb_main.c` -/

/-- What a packet asks of the memory functions. -/
inductive Access
  | write (addr : UInt32) (data : List UInt8)
  | read (addr len : UInt32)
deriving DecidableEq

/-- The write that `X` asks for. -/
def binaryAccess (locals : Locals) (pbuf : List UInt8) (size : Nat) : Option Access :=
  let r := sscanf (cstr pbuf) (lits "X" ++ [.int 16 0, .lit 0x2c, .int 16 0, .lit 0x3a, .position])
  let len := r.values.getD 1 locals.len
  let bin := r.position.getD locals.position
  if UInt32.ofNat size - UInt32.ofNat bin < len then none
  else some (.write (r.values.getD 0 locals.addr) ((pbuf.drop bin).take len.toNat))

/-- The write that `M` asks for. -/
def hexAccess (locals : Locals) (pbuf : List UInt8) (size : Nat) : Option Access :=
  let r := sscanf (cstr pbuf) (lits "M" ++ [.int 16 0, .lit 0x2c, .int 16 0, .lit 0x3a, .position])
  let len := r.values.getD 1 0
  let hex := r.position.getD locals.position
  if (UInt32.ofNat size - UInt32.ofNat hex) / 2 < len then none
  else some (.write (r.values.getD 0 0) (unhexify (pbuf.drop hex) len.toNat))

/-- The read that `m` asks for. -/
def readAccess (locals : Locals) (pbuf : List UInt8) : Option Access :=
  let args := (sscanf (cstr pbuf) (lits "m" ++ [.int 16 0, .lit 0x2c, .int 16 0])).values
  let len := args.getD 1 locals.len
  if gdbPacketBufferSize / 2 < len.toNat then none
  else some (.read (args.getD 0 locals.addr) len)

/-- What the packet in `pbuf` asks for. -/
def packetAccess (locals : Locals) (pbuf : List UInt8) (size : Nat) : Option Access :=
  match gdbCommand (pbuf.headD 0) with
  | .writeBinary => binaryAccess locals pbuf size
  | .writeMem => hexAccess locals pbuf size
  | .readMem => readAccess locals pbuf
  | _ => none

/-- The handler of a write hands the access on, or answers with an error. -/
def writeHandler (env : GdbEnv) : Option Access → GdbM Unit
  | some (.write addr data) => memWriteReply env addr data
  | _ => putPacketz "E02"

/-- The handler of `X` acts on the access that its packet asks for. -/
theorem handleWriteBinary_access (env : GdbEnv) (pbuf : List UInt8) (size : Nat) :
    handleWriteBinary env pbuf size = writeHandler env (binaryAccess env.locals pbuf size) := by
  unfold handleWriteBinary binaryAccess
  dsimp only
  split
  · rfl
  · rfl

/-- So does the handler of `M`. -/
theorem handleWriteMem_access (env : GdbEnv) (pbuf : List UInt8) (size : Nat) :
    handleWriteMem env pbuf size = writeHandler env (hexAccess env.locals pbuf size) := by
  unfold handleWriteMem hexAccess
  dsimp only
  split
  · rfl
  · rfl

/-- `"%c%x,%x:"`, the head of a packet that writes. -/
def writeHead (c : UInt8) (addr len : Nat) : List UInt8 :=
  c :: (hexNat addr ++ (0x2c :: (hexNat len ++ [0x3a])))

/-- A packet of the host: binary or hexadecimal data for an address, or a request for memory. -/
inductive HostPacket
  | binary (addr : UInt32) (data : List UInt8)
  | hex (addr : UInt32) (data : List UInt8)
  | read (addr len : UInt32)
deriving DecidableEq

namespace HostPacket

/-- Its text. -/
def text : HostPacket → List UInt8
  | binary addr data => writeHead 0x58 addr.toNat data.length ++ data
  | hex addr data => writeHead 0x4d addr.toNat data.length ++ hexify data
  | read addr len => 0x6d :: (hexNat addr.toNat ++ (0x2c :: hexNat len.toNat))

/-- What it asks for, where the reply fits into a packet. -/
def access : HostPacket → Option Access
  | binary addr data => some (.write addr data)
  | hex addr data => some (.write addr data)
  | read addr len => if gdbPacketBufferSize / 2 < len.toNat then none else some (.read addr len)

end HostPacket

/-! ## Packets are read back -/

/-- A comma ends a number. -/
theorem numberEnds_comma (rest : List UInt8) : NumberEnds (0x2c :: rest) := by
  intro c hc
  cases hc
  decide

/-- So does a colon. -/
theorem numberEnds_colon (rest : List UInt8) : NumberEnds (0x3a :: rest) := by
  intro c hc
  cases hc
  decide

/-- So does the end of the input. -/
theorem numberEnds_nil : NumberEnds [] := fun _ hc => by cases hc

/-- A write is scanned up to its data. -/
theorem sscanf_writeHead {addr len : Nat} (c : UInt8) (haddr : addr < 2 ^ 32) (hlen : len < 2 ^ 32)
    (tail : List UInt8) :
    sscanf (writeHead c addr len ++ tail)
      [.lit c, .int 16 0, .lit 0x2c, .int 16 0, .lit 0x3a, .position] =
      ⟨[UInt32.ofNat addr, UInt32.ofNat len], some (writeHead c addr len).length⟩ := by
  have happend : writeHead c addr len ++ tail =
      c :: (hexNat addr ++ (0x2c :: (hexNat len ++ (0x3a :: tail)))) := by
    simp [writeHead]
  have hlength : (writeHead c addr len).length =
      0 + 1 + (hexNat addr).length + 1 + (hexNat len).length + 1 := by
    simp [writeHead]
    omega
  rw [sscanf, happend, hlength, scan, if_pos rfl, scan_hexNat haddr (numberEnds_comma _), scan,
    if_pos rfl, scan_hexNat hlen (numberEnds_colon _), scan, if_pos rfl, scan]
  rfl

/-- A number has no terminator in it. -/
theorem nonzero_hexNat (n : Nat) : ∀ c ∈ hexNat n, c ≠ 0 := by
  intro c hc hzero
  have hdigit := isDigit_hexNat n c hc
  rw [hzero] at hdigit
  exact absurd hdigit (by decide)

/-- A string goes on behind a text without a terminator. -/
theorem cstr_append_of_nonzero {head : List UInt8} (h : ∀ c ∈ head, c ≠ 0) (tail : List UInt8) :
    cstr (head ++ tail) = head ++ cstr tail := by
  unfold cstr
  exact List.takeWhile_append_of_pos fun c hc => decide_eq_true (h c hc)

/-- The head of a write packet has none. -/
theorem cstr_writeHead {c : UInt8} (hc : c ≠ 0) (addr len : Nat) (tail : List UInt8) :
    cstr (writeHead c addr len ++ tail) = writeHead c addr len ++ cstr tail := by
  refine cstr_append_of_nonzero (fun a ha => ?_) tail
  simp only [writeHead, List.mem_cons, List.mem_append, List.not_mem_nil, or_false] at ha
  obtain rfl | ha | rfl | ha | rfl := ha
  · exact hc
  · exact nonzero_hexNat _ a ha
  · decide
  · exact nonzero_hexNat _ a ha
  · decide

/-- The text of a binary write is read as that write. -/
theorem binaryAccess_text {locals : Locals} {addr : UInt32} {data : List UInt8} (rest : List UInt8)
    (hfits : (HostPacket.binary addr data).text.length < 2 ^ 32) :
    binaryAccess locals ((HostPacket.binary addr data).text ++ 0 :: rest)
      (HostPacket.binary addr data).text.length =
      some (.write addr data) := by
  simp only [HostPacket.text, List.length_append] at hfits ⊢
  have hdata : data.length < 2 ^ 32 := by omega
  have hscan : sscanf (writeHead 0x58 addr.toNat data.length ++ cstr (data ++ 0 :: rest))
      (lits "X" ++ [.int 16 0, .lit 0x2c, .int 16 0, .lit 0x3a, .position]) = _ :=
    sscanf_writeHead 0x58 addr.toNat_lt hdata (cstr (data ++ 0 :: rest))
  unfold binaryAccess
  rw [List.append_assoc, cstr_writeHead (by decide), hscan]
  simp only [List.getD_cons_zero, List.getD_cons_succ, Option.getD_some, Word.ofNat_add_sub,
    UInt32.ofNat_toNat, UInt32.toNat_ofNat_of_lt' hdata, List.drop_left, List.take_left,
    if_neg (UInt32.lt_irrefl _)]

/-- The text of a hexadecimal write is read as that write. -/
theorem hexAccess_text {locals : Locals} {addr : UInt32} {data : List UInt8} (rest : List UInt8)
    (hfits : (HostPacket.hex addr data).text.length < 2 ^ 32) :
    hexAccess locals ((HostPacket.hex addr data).text ++ 0 :: rest)
      (HostPacket.hex addr data).text.length =
      some (.write addr data) := by
  simp only [HostPacket.text, List.length_append, length_hexify] at hfits ⊢
  have hdata : data.length < 2 ^ 32 := by omega
  have hscan : sscanf (writeHead 0x4d addr.toNat data.length ++ cstr (hexify data ++ 0 :: rest))
      (lits "M" ++ [.int 16 0, .lit 0x2c, .int 16 0, .lit 0x3a, .position]) = _ :=
    sscanf_writeHead 0x4d addr.toNat_lt hdata (cstr (hexify data ++ 0 :: rest))
  have hhalf : UInt32.ofNat (2 * data.length) / 2 = UInt32.ofNat data.length := by
    rw [← UInt32.toNat_inj, UInt32.toNat_div,
      UInt32.toNat_ofNat_of_lt' (show 2 * data.length < 2 ^ 32 by omega),
      UInt32.toNat_ofNat_of_lt' hdata]
    exact Nat.mul_div_cancel_left _ (by decide)
  unfold hexAccess
  rw [List.append_assoc, cstr_writeHead (by decide), hscan]
  simp only [List.getD_cons_zero, List.getD_cons_succ, Option.getD_some, Word.ofNat_add_sub, hhalf,
    UInt32.ofNat_toNat, UInt32.toNat_ofNat_of_lt' hdata, List.drop_left,
    if_neg (UInt32.lt_irrefl _), unhexify_hexify]

/-- The text of a read is read as that read. -/
theorem readAccess_text {locals : Locals} {addr len : UInt32} (rest : List UInt8) :
    readAccess locals ((HostPacket.read addr len).text ++ 0 :: rest) =
      (HostPacket.read addr len).access := by
  have hcstr : cstr ((HostPacket.read addr len).text ++ 0 :: rest) =
      (HostPacket.read addr len).text ++ [] := by
    rw [cstr_append_zero, List.append_nil]
    refine List.takeWhile_eq_self_iff.2 fun c hc => decide_eq_true ?_
    simp only [HostPacket.text, List.mem_cons, List.mem_append] at hc
    obtain rfl | hc | rfl | hc := hc
    · decide
    · exact nonzero_hexNat _ c hc
    · decide
    · exact nonzero_hexNat _ c hc
  have hscan : sscanf (HostPacket.read addr len).text
      (lits "m" ++ [.int 16 0, .lit 0x2c, .int 16 0]) =
      ⟨[addr, len], none⟩ := by
    change scan [.lit 0x6d, .int 16 0, .lit 0x2c, .int 16 0]
      (0x6d :: (hexNat addr.toNat ++ (0x2c :: hexNat len.toNat)))
      0 = _
    rw [scan, if_pos rfl, scan_hexNat addr.toNat_lt (numberEnds_comma _), scan, if_pos rfl,
      ← List.append_nil (hexNat len.toNat), scan_hexNat len.toNat_lt numberEnds_nil, scan,
      UInt32.ofNat_toNat,
      UInt32.ofNat_toNat]
  unfold readAccess
  rw [hcstr, List.append_nil, hscan]
  rfl

/-- A packet asks for its access, whatever is left in the packet buffer behind it. -/
theorem packetAccess_text (locals : Locals) (p : HostPacket) (rest : List UInt8)
    (hfits : p.text.length < 2 ^ 32) :
    packetAccess locals (p.text ++ 0 :: rest) p.text.length = p.access := by
  cases p with
  | binary addr data => exact binaryAccess_text rest hfits
  | hex addr data => exact hexAccess_text rest hfits
  | read addr len => exact readAccess_text rest

/-! ## The packets are served: `target.c` -/

/-- An access, and the bytes that are sent back: those of `mem` that nothing was copied to are not
known. -/
def serveAccess : Access → SemiM (List (Option UInt8))
  | .write addr data => do
    let _ ← targetMemWrite addr data
    return []
  | .read addr len => do
    let (mem, error) ← targetMemRead addr len.toNat
    if error then return []
    else return mem.map some ++ List.replicate (len.toNat - mem.length) none

/-- A packet, with what is behind it in the packet buffer. -/
def servePacket (locals : Locals) (p : HostPacket) (rest : List UInt8) :
    SemiM (List (Option UInt8)) :=
  match packetAccess locals (p.text ++ 0 :: rest) p.text.length with
  | some access => serveAccess access
  | none => return []

/-- The packets that come: for each, the buffer of the probe as it found it, and what was sent
back. -/
def serve (locals : Locals) :
    List (HostPacket × List UInt8) → SemiM (List (List UInt8 × List (Option UInt8)))
  | [] => return []
  | (p, rest) :: packets => do
    let s ← get
    let reply ← servePacket locals p rest
    let events ← serve locals packets
    return (s.buffer, reply) :: events

/-! ## What the host sends -/

/-- A piece of the result of the host, and which of the two packets it is sent in. -/
structure Piece where
  hex : Bool
  off : Nat
  len : Nat
deriving DecidableEq

/-- What the host does: it sends a piece of its result, or reads. -/
inductive Action
  | send (piece : Piece)
  | read (addr len : UInt32)
deriving DecidableEq

/-- The packet for an action, where the result is for `start`. -/
def Action.packet (start : UInt32) (result : List UInt8) : Action → HostPacket
  | send piece =>
    if piece.hex then .hex (start + UInt32.ofNat piece.off) (slice result piece.off piece.len)
    else .binary (start + UInt32.ofNat piece.off) (slice result piece.off piece.len)
  | read addr len => .read addr len

def Action.piece? : Action → Option Piece
  | send piece => some piece
  | read _ _ => none

/-- The pieces of a result are its bytes, each of them once. -/
structure Splits (n : Nat) (pieces : List Piece) : Prop where
  within : ∀ piece ∈ pieces, piece.off + piece.len ≤ n
  once : ∀ p < n, (pieces.filter fun piece => piece.off ≤ p ∧ p < piece.off + piece.len).length = 1

/-- The last piece that is longer than `p`. -/
def lastPiece (pieces : List Piece) (p : Nat) : Option Piece := (pieces.filter (p < ·.len)).getLast?

/-- The byte that ends up at `p`. -/
def sourceByte (buffer result : List UInt8) (pieces : List Piece) (p : Nat) : Option UInt8 :=
  match lastPiece pieces p with
  | some piece => result[piece.off + p]?
  | none => buffer[p]?

/-! ## What becomes of the buffer -/

/-- The target with another buffer of the probe. -/
def Target.withBuffer (s : Target) (buffer : List UInt8) : Target := { s with buffer := buffer }

@[simp] theorem withBuffer_buffer (s : Target) (b : List UInt8) : (s.withBuffer b).buffer = b := rfl

@[simp] theorem withBuffer_inSyscall (s : Target) (b : List UInt8) :
    (s.withBuffer b).inSyscall = s.inSyscall := rfl

@[simp] theorem withBuffer_withBuffer (s : Target) (b b' : List UInt8) :
    (s.withBuffer b).withBuffer b' = s.withBuffer b' := rfl

/-- Data at the start of a buffer, as far as it fits. -/
def copy (buffer data : List UInt8) : List UInt8 :=
  overwrite buffer 0 (data.take (min data.length buffer.length))

/-- What fits a buffer is as long as the shorter of the two. -/
theorem length_fitting (buffer data : List UInt8) :
    (data.take (min data.length buffer.length)).length = min data.length buffer.length := by
  rw [List.length_take]
  omega

@[simp] theorem length_copy (buffer data : List UInt8) :
    (copy buffer data).length = buffer.length :=
  length_overwrite (by rw [length_fitting]; omega)

/-- A copy overwrites the front of the buffer. -/
theorem getElem?_copy {buffer : List UInt8} (data : List UInt8) {p : Nat} (hp : p < buffer.length) :
    (copy buffer data)[p]? = if p < data.length then data[p]? else buffer[p]? := by
  unfold copy
  rw [getElem?_overwrite (by rw [length_fitting]; omega), length_fitting]
  by_cases h : p < data.length
  · rw [if_pos (by omega), if_pos h, Nat.sub_zero, List.getElem?_take_of_lt (by omega)]
  · rw [if_neg (by omega), if_neg h]

/-- The buffer after the pieces of a result have come in. -/
def filledWith (result : List UInt8) (pieces : List Piece) (buffer : List UInt8) : List UInt8 :=
  pieces.foldl (fun buffer piece => copy buffer (slice result piece.off piece.len)) buffer

/-- The buffer keeps its length. -/
theorem length_filledWith (result : List UInt8) (pieces : List Piece) (buffer : List UInt8) :
    (filledWith result pieces buffer).length = buffer.length := by
  induction pieces generalizing buffer with
  | nil => rfl
  | cons piece pieces ih => exact (ih _).trans (length_copy _ _)

/-- A byte of the buffer is the last one that came in at its place, by induction on the pieces. -/
theorem getElem?_filledWith {result : List UInt8} {pieces : List Piece}
    (hwithin : ∀ piece ∈ pieces, piece.off + piece.len ≤ result.length) {buffer : List UInt8}
    {p : Nat} (hp : p < buffer.length) :
    (filledWith result pieces buffer)[p]? = sourceByte buffer result pieces p := by
  induction pieces generalizing buffer with
  | nil => rfl
  | cons piece pieces ih =>
    have hpiece := hwithin piece List.mem_cons_self
    have hcopy := getElem?_copy (slice result piece.off piece.len) hp
    rw [length_slice hpiece] at hcopy
    change (filledWith result pieces (copy buffer (slice result piece.off piece.len)))[p]? = _
    rw [ih (fun q hq => hwithin q (List.mem_cons_of_mem _ hq)) (by rwa [length_copy])]
    unfold sourceByte lastPiece
    rw [List.filter_cons]
    by_cases hlong : p < piece.len
    · rw [if_pos (decide_eq_true hlong), List.getLast?_cons]
      cases (pieces.filter (p < ·.len)).getLast? with
      | some q => rfl
      | none =>
        simp only [Option.getD_none]
        rw [hcopy, if_pos hlong, slice, List.getElem?_take_of_lt hlong, List.getElem?_drop]
    · rw [if_neg (by rwa [decide_eq_true_eq])]
      cases (pieces.filter (p < ·.len)).getLast? with
      | some q => rfl
      | none => exact hcopy.trans (if_neg hlong)

/-! ## The run -/

/-- What a read of the buffer sends back. -/
def bufferReply (buffer : List UInt8) (len : UInt32) : List (Option UInt8) :=
  if gdbPacketBufferSize / 2 < len.toNat then []
  else (buffer.take (min len.toNat buffer.length)).map some ++
    List.replicate (len.toNat - min len.toNat buffer.length) none

/-- A reply has bytes of a buffer only. -/
def OfBuffer (buffer : List UInt8) (reply : List (Option UInt8)) : Prop :=
  ∀ x ∈ reply, ∃ c ∈ buffer, x = some c

/-- A reply has bytes of the buffer only when it is no longer than the buffer, or is refused. -/
theorem ofBuffer_bufferReply_iff (buffer : List UInt8) (len : UInt32) :
    OfBuffer buffer (bufferReply buffer len) ↔ len.toNat ≤ buffer.length ∨ gdbPacketBufferSize / 2 <
      len.toNat := by
  unfold bufferReply
  by_cases hlong : gdbPacketBufferSize / 2 < len.toNat
  · rw [if_pos hlong]
    exact iff_of_true (fun x hx => by cases hx) (.inr hlong)
  rw [if_neg hlong, or_iff_left hlong]
  constructor
  · intro h
    by_contra hmore
    obtain ⟨c, -, hc⟩ := h none (List.mem_append_right _ (List.mem_replicate.2 ⟨by omega, rfl⟩))
    cases hc
  · intro hle x hx
    rw [Nat.min_eq_left hle, Nat.sub_self, List.replicate_zero, List.append_nil, List.mem_map] at hx
    obtain ⟨c, hc, rfl⟩ := hx
    exact ⟨c, List.mem_of_mem_take hc, rfl⟩

section
variable {locals : Locals} {s : Target} {start : UInt32} {result : List UInt8}

/-- In a syscall a write goes to the front of the buffer. -/
theorem targetMemWrite_inside (hsys : s.inSyscall = true) (dest : UInt32) (src : List UInt8) :
    targetMemWrite dest src s = .ok false (s.withBuffer (copy s.buffer src)) := by
  unfold targetMemWrite copyToBuffer
  rw [run_bind_ok (show (get : SemiM Target) s = .ok s s from rfl), if_pos hsys]
  have hfits : (src.take (min src.length s.buffer.length)).length ≤ s.buffer.length := by
    rw [length_fitting]
    omega
  have hcopy : (do
      let t ← get
      if (src.take (min src.length s.buffer.length)).length ≤ t.buffer.length then
        set { t with buffer := overwrite t.buffer 0 (src.take (min src.length s.buffer.length)) }
      else throw .outOfBounds : SemiM Unit) s = .ok () (s.withBuffer (copy s.buffer src)) := by
    rw [run_bind_ok (show (get : SemiM Target) s = .ok s s from rfl), if_pos hfits]
    rfl
  exact run_bind_ok hcopy

/-- The packet for a piece asks for a write of that piece. -/
theorem access_send (piece : Piece) : ((Action.send piece).packet start result).access =
    some (.write (start + UInt32.ofNat piece.off) (slice result piece.off piece.len)) := by
  obtain ⟨hex, off, len⟩ := piece
  cases hex with
  | true => rfl
  | false => rfl

/-- Serving it copies the piece to the front of the buffer. -/
theorem servePacket_send (hsys : s.inSyscall = true) (piece : Piece) (rest : List UInt8)
    (hfits : ((Action.send piece).packet start result).text.length < 2 ^ 32) :
    servePacket locals ((Action.send piece).packet start result) rest s =
      .ok [] (s.withBuffer (copy s.buffer (slice result piece.off piece.len))) := by
  unfold servePacket
  rw [packetAccess_text locals _ rest hfits, access_send]
  exact run_bind_ok (targetMemWrite_inside hsys _ _)

/-- Serving a read answers from the buffer. -/
theorem servePacket_read (hsys : s.inSyscall = true) (addr len : UInt32) (rest : List UInt8)
    (hfits : ((Action.read addr len).packet start result).text.length < 2 ^ 32) :
    servePacket locals ((Action.read addr len).packet start result) rest s =
      .ok (bufferReply s.buffer len) s := by
  have hread : targetMemRead addr len.toNat s =
      .ok (s.buffer.take (min len.toNat s.buffer.length), false) s := by
    unfold targetMemRead
    rw [run_bind_ok (show (get : SemiM Target) s = .ok s s from rfl), if_pos hsys]
    rfl
  have haccess : ((Action.read addr len).packet start result).access =
      if gdbPacketBufferSize / 2 < len.toNat then none else some (.read addr len) := rfl
  unfold servePacket bufferReply
  rw [packetAccess_text locals _ rest hfits, haccess]
  by_cases hlong : gdbPacketBufferSize / 2 < len.toNat
  · rw [if_pos hlong, if_pos hlong]
    rfl
  · rw [if_neg hlong, if_neg hlong]
    refine (run_bind_ok hread).trans ?_
    dsimp only
    rw [if_neg Bool.false_ne_true, List.length_take, Nat.min_assoc, Nat.min_self]
    rfl

/-- The packets that the actions of the host arrive as, each with what is behind it in the packet
buffer. -/
def arrivals (start : UInt32) (result : List UInt8) (actions : List (Action × List UInt8)) :
    List (HostPacket × List UInt8) := actions.map fun a => (a.1.packet start result, a.2)

/-- The pieces in the order in which they are sent. -/
def pieces (actions : List (Action × List UInt8)) : List Piece :=
  actions.filterMap fun a => a.1.piece?

/-- The packets are served, the buffer is filled, and what is sent back is bytes of the buffer where
no read goes beyond it. -/
theorem serve_run (locals : Locals) (hsys : s.inSyscall = true) (start : UInt32)
    (result : List UInt8) (actions : List (Action × List UInt8))
    (hfits : ∀ a ∈ actions, (a.1.packet start result).text.length < 2 ^ 32) :
    ∃ events, serve locals (arrivals start result actions) s =
        .ok events (s.withBuffer (filledWith result (pieces actions) s.buffer)) ∧
      ((∀ e ∈ events, OfBuffer e.1 e.2) ↔ ∀ addr len rest, (Action.read addr len, rest) ∈ actions →
        len.toNat ≤ s.buffer.length ∨ gdbPacketBufferSize / 2 < len.toNat) := by
  induction actions generalizing s with
  | nil => exact ⟨[], rfl, iff_of_true (fun e he => by cases he) fun _ _ _ h => by cases h⟩
  | cons a actions ih =>
    obtain ⟨action, rest⟩ := a
    have hfit := hfits _ List.mem_cons_self
    have hfits' : ∀ a ∈ actions, (a.1.packet start result).text.length < 2 ^ 32 := fun a ha =>
      hfits a (List.mem_cons_of_mem _ ha)
    rw [arrivals, List.map_cons, serve,
      run_bind_ok (show (get : SemiM Target) s = .ok s s from rfl)]
    cases action with
    | send piece =>
      obtain ⟨events, hrun, hreads⟩ :=
        ih (s := s.withBuffer (copy s.buffer (slice result piece.off piece.len))) hsys hfits'
      rw [run_bind_ok (servePacket_send hsys piece rest hfit)]
      refine ⟨(s.buffer, []) :: events, run_bind_ok hrun, ?_⟩
      rw [List.forall_mem_cons, hreads, withBuffer_buffer, length_copy]
      constructor
      · rintro ⟨-, h⟩ addr len rest' hmem
        obtain heq | hmem := List.mem_cons.1 hmem
        · cases heq
        · exact h addr len rest' hmem
      · exact fun h => ⟨fun x hx => (by cases hx), fun addr len rest' hmem =>
          h addr len rest' (List.mem_cons_of_mem _ hmem)⟩
    | read addr len =>
      obtain ⟨events, hrun, hreads⟩ := ih hsys hfits'
      rw [run_bind_ok (servePacket_read hsys addr len rest hfit)]
      refine ⟨(s.buffer, bufferReply s.buffer len) :: events, run_bind_ok hrun, ?_⟩
      rw [List.forall_mem_cons, hreads, ofBuffer_bufferReply_iff]
      constructor
      · rintro ⟨hhead, htail⟩ addr' len' rest' hmem
        obtain heq | hmem := List.mem_cons.1 hmem
        · cases heq
          exact hhead
        · exact htail addr' len' rest' hmem
      · exact fun h => ⟨h addr len rest List.mem_cons_self, fun addr' len' rest' hmem =>
          h addr' len' rest' (List.mem_cons_of_mem _ hmem)⟩

/-- How a run of packets is to end: the buffer holds the result, what was sent back are bytes of the
buffer, and nothing else is written. -/
structure Served (s : Target) (result : List UInt8)
    (events : List (List UInt8 × List (Option UInt8))) (s' : Target) : Prop where
  filled : s'.buffer.take result.length = result
  reads : ∀ e ∈ events, OfBuffer e.1 e.2
  others : s'.withBuffer s.buffer = s
  length : s'.buffer.length = s.buffer.length

/-- A result reaches the buffer exactly when at each place the last piece that is longer has the
right byte there. -/
theorem served_iff (hsys : s.inSyscall = true) (hlen : result.length ≤ s.buffer.length)
    {actions : List (Action × List UInt8)} (hsplits : Splits result.length (pieces actions))
    (hfits : ∀ a ∈ actions, (a.1.packet s.ramStart result).text.length < 2 ^ 32) (locals : Locals) :
    (∃ events s', serve locals (arrivals s.ramStart result actions) s = .ok events s' ∧
      Served s result events s') ↔
      (∀ p < result.length, sourceByte s.buffer result (pieces actions) p = result[p]?) ∧
        ∀ addr len rest, (Action.read addr len, rest) ∈ actions →
          len.toNat ≤ s.buffer.length ∨ gdbPacketBufferSize / 2 < len.toNat := by
  obtain ⟨events, hrun, hreads⟩ := serve_run locals hsys s.ramStart result actions hfits
  have hfilled : (filledWith result (pieces actions) s.buffer).take result.length = result ↔
      ∀ p < result.length, sourceByte s.buffer result (pieces actions) p = result[p]? := by
    have hbyte : ∀ p < result.length,
        ((filledWith result (pieces actions) s.buffer).take result.length)[p]? =
        sourceByte s.buffer result (pieces actions) p := fun p hp => by
      rw [List.getElem?_take_of_lt hp, getElem?_filledWith hsplits.within (by omega)]
    constructor
    · intro h p hp
      rw [← hbyte p hp, h]
    · intro h
      refine List.ext_getElem? fun p => ?_
      by_cases hp : p < result.length
      · rw [hbyte p hp, h p hp]
      · have hshort : ((filledWith result (pieces actions) s.buffer).take result.length).length ≤
            p := by
          rw [List.length_take]
          omega
        rw [List.getElem?_eq_none hshort, List.getElem?_eq_none (by omega)]
  constructor
  · rintro ⟨events', s', hrun', hserved⟩
    rw [hrun] at hrun'
    cases hrun'
    exact ⟨hfilled.1 hserved.filled, hreads.1 hserved.reads⟩
  · rintro ⟨hbytes, hshort⟩
    exact ⟨events, _, hrun, hfilled.2 hbytes, hreads.2 hshort, rfl, length_filledWith _ _ _⟩

end

/-! ## The time of day in two packets -/

/-- A call that waits for the time of day. -/
def awaitingTime : Target where
  byte _ := 0
  fails _ := false
  ramStart := 0x20000000
  stdoutRedirected := false
  inSyscall := true
  buffer := List.replicate 12 0
  featuresOffset := 0
  serial := []
  packets := []

/-- A time of day, as it comes from the host. -/
def timeOfDay : List UInt8 := [0x65, 0x92, 0x00, 0x80, 0, 0, 0, 0, 0, 0x07, 0xa1, 0x20]

/-- The seconds and the microseconds apart. -/
def inTwo : List (Action × List UInt8) := [(.send ⟨false, 0, 4⟩, []), (.send ⟨false, 4, 8⟩, [])]

/-- Sent at once, the time of day reaches the buffer, with reads of the buffer before and after
it. -/
theorem served_timeOfDay :
    ∃ events s', serve (plainEnv true).locals (arrivals 0x20000000 timeOfDay
        [(.read 0x20000000 4, []), (.send ⟨false, 0, 12⟩, []), (.read 0x20000000 12, [])])
          awaitingTime =
      .ok events s' ∧ Served awaitingTime timeOfDay events s' := by
  refine (served_iff (s := awaitingTime) rfl (by decide) ⟨by decide, by decide⟩ ?_ _).2
    ⟨by decide, ?_⟩
  · decide +kernel
  · intro addr len rest h
    simp only [List.mem_cons, Prod.mk.injEq, Action.read.injEq, reduceCtorEq, false_and, false_or,
      List.not_mem_nil, or_false] at h
    rcases h with ⟨⟨-, rfl⟩, -⟩ | ⟨⟨-, rfl⟩, -⟩
    · exact .inl (by decide)
    · exact .inl (by decide)

/-- Sent in two packets, its second part takes the place of the first. -/
theorem not_served_inTwo :
    ¬ ∃ events s', serve (plainEnv true).locals (arrivals 0x20000000 timeOfDay inTwo) awaitingTime =
      .ok events s' ∧
      Served awaitingTime timeOfDay events s' := by
  rintro ⟨events', s', hrun', hserved⟩
  obtain ⟨events, hrun, -⟩ :=
    serve_run (plainEnv true).locals (s := awaitingTime) rfl 0x20000000 timeOfDay inTwo
    (by decide +kernel)
  rw [hrun] at hrun'
  cases hrun'
  exact absurd hserved.filled (by decide)

end Semihosting

end Blackmagic
