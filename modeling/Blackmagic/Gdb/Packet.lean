import Blackmagic.Lib.Bytes
import Blackmagic.Lib.Run

/-!
# GDB packets: `gdb_packet.c` and `hex_utils.c`

The transmission of a packet and its reception. `gdb_getpacket` waits for one character at a time,
and so does the loop of `consume_remote_packet` that it calls, so reception is a machine that takes
one byte at a step: `RxLoop` says which of the two loops is waiting. A store outside of the packet
buffer is a fault.
-/

namespace Blackmagic

/-! ## Characters -/

/-- `GDB_PACKET_START`. -/
def packetStart : UInt8 := 0x24

/-- `GDB_PACKET_END`, which is also `REMOTE_EOM`. -/
def packetEnd : UInt8 := 0x23

/-- `GDB_PACKET_ACK`. -/
def packetAck : UInt8 := 0x2b

/-- `GDB_PACKET_NACK`. -/
def packetNack : UInt8 := 0x2d

/-- `GDB_PACKET_ESCAPE`. -/
def packetEscape : UInt8 := 0x7d

/-- `GDB_PACKET_RUNLENGTH_START`. -/
def packetRunlengthStart : UInt8 := 0x2a

/-- `GDB_PACKET_ESCAPE_XOR`. -/
def packetEscapeXor : UInt8 := 0x20

/-- `REMOTE_SOM`. -/
def remoteSom : UInt8 := 0x21

/-- End of transmission: the connection was closed. -/
def eot : UInt8 := 0x04

/-- `hex_digit`. -/
def hexDigit (value : UInt8) : UInt8 := (if 9 < value then value + 7 else value) + 0x30

/-- `unhex_digit`. -/
def unhexDigit (hex : UInt8) : UInt8 :=
  let tmp := hex - 0x30
  let tmp := if 9 < tmp then tmp - 7 else tmp
  if 16 < tmp then tmp - 32 else tmp

/-! ## Transmission -/

/-- `gdb_next_char`: what is sent for a character, and the checksum with it. -/
def gdbNextChar (value csum : UInt8) : List UInt8 × UInt8 :=
  if value = packetStart ∨ value = packetEnd ∨ value = packetEscape ∨
      value = packetRunlengthStart then
    ([packetEscape, value ^^^ packetEscapeXor], csum + (packetEscape + (value ^^^ packetEscapeXor)))
  else ([value], csum + value)

/-- The loop over the characters of a packet. -/
def gdbNextChars : List UInt8 → UInt8 → List UInt8 × UInt8
  | [], csum => ([], csum)
  | value :: rest, csum =>
    let (sent, csum) := gdbNextChar value csum
    let (sent', csum) := gdbNextChars rest csum
    (sent ++ sent', csum)

/-- The two digits of `"%02X"`. -/
def hexByte (csum : UInt8) : List UInt8 := [hexDigit (csum >>> 4), hexDigit (csum &&& 0xf)]

/-- One turn of the loop of `gdb_putpacket`. -/
def gdbTransmit (packet : List UInt8) : List UInt8 :=
  let (body, csum) := gdbNextChars packet 0
  packetStart :: body ++ packetEnd :: hexByte csum

/-- One turn of the loop of `gdb_putpacket2`. -/
def gdbTransmit2 (packet1 packet2 : List UInt8) : List UInt8 :=
  let (body1, csum) := gdbNextChars packet1 0
  let (body2, csum) := gdbNextChars packet2 csum
  packetStart :: body1 ++ body2 ++ packetEnd :: hexByte csum

/-- The loop of `gdb_putpacket` and `gdb_putpacket2`, with `tries` left after this turn. `answers`
are the characters that `gdb_if_getchar_to` gives, `(char)-1` on a timeout. -/
def putLoop (noackmode : Bool) (turn : List UInt8) :
    (tries : Nat) → (answers : List UInt8) → List UInt8
  | 0, _ => turn
  | tries + 1, answers =>
    if !noackmode && answers.headD 0xff != packetAck then
      turn ++ putLoop noackmode turn tries answers.tail
    else turn

/-- `gdb_putpacket`. -/
def gdbPutpacket (noackmode : Bool) (packet answers : List UInt8) : List UInt8 :=
  putLoop noackmode (gdbTransmit packet) 3 answers

/-! ## Reception -/

/-- `packet_state_e`. -/
inductive PacketState
  | idle
  | gdbCapture
  | gdbEscape
  | gdbChecksumUpper
  | gdbChecksumLower
  deriving DecidableEq, Repr

/-- The loop that waits for a character: `gdb_getpacket` in a state, or `consume_remote_packet` at
an offset of its own. -/
inductive RxLoop
  | getpacket (state : PacketState)
  | remote (offset : Nat)
  deriving DecidableEq, Repr

/-- What the receiver does towards the outside: it sends a character, or has a remote control packet
processed. -/
inductive RxOut
  | char (c : UInt8)
  | remotePacket (packet : List UInt8)
  deriving DecidableEq, Repr

/-- The receiver: where it waits, the variables of `gdb_getpacket`, the buffer, and what went
out. -/
structure Rx where
  loop : RxLoop
  offset : Nat
  checksum : UInt8
  rxChecksum : UInt8
  packet : List UInt8
  out : List RxOut
  deriving DecidableEq, Repr

/-- A store outside of the buffer. -/
inductive RxFault
  | outOfBounds (index : Nat)
  deriving DecidableEq, Repr

/-- `packet[i] = c`. -/
def putByte (packet : List UInt8) (i : Nat) (c : UInt8) : Except RxFault (List UInt8) :=
  if i < packet.length then .ok (packet.set i c) else .error (.outOfBounds i)

/-- A step of the receiver: it waits for the next character, or `gdb_getpacket` returns. -/
inductive RxStep
  | more (rx : Rx)
  | done (rx : Rx) (size : Nat)

/-- The end of an iteration: a full buffer restarts the capture. -/
def rxNext (size : Nat) (state : PacketState) (rx : Rx) : RxStep :=
  .more { rx with loop := .getpacket (if size ≤ rx.offset then .idle else state) }

/-- The end of the case `PACKET_IDLE`, once the character or the remote control packet has been
handled. -/
def idleEnd (size : Nat) (state : PacketState) (rx : Rx) : Except RxFault RxStep := do
  if rx.packet.head? = some eot then
    let packet ← putByte rx.packet 1 0
    .ok (.done { rx with packet := packet } 1)
  else .ok (rxNext size state rx)

/-- An iteration of the loop of `gdb_getpacket`. -/
def getpacketStep (noackmode : Bool) (size : Nat) (state : PacketState) (rx : Rx) (c : UInt8) :
    Except RxFault RxStep :=
  match state with
  | .idle => do
    let packet ← putByte rx.packet 0 c
    let rx := { rx with packet := packet }
    if c = packetStart then idleEnd size .gdbCapture { rx with offset := 0, checksum := 0 }
    else if c = remoteSom then .ok (.more { rx with loop := .remote 0 })
    else idleEnd size .idle rx
  | .gdbCapture => do
    if c = packetStart then .ok (rxNext size .gdbCapture { rx with offset := 0, checksum := 0 })
    else if c = packetEnd then .ok (rxNext size .gdbChecksumUpper rx)
    else
      let rx := { rx with checksum := rx.checksum + c }
      if c = packetEscape then .ok (rxNext size .gdbEscape rx)
      else
        let packet ← putByte rx.packet rx.offset c
        .ok (rxNext size .gdbCapture { rx with packet := packet, offset := rx.offset + 1 })
  | .gdbEscape => do
    let packet ← putByte rx.packet rx.offset (c ^^^ packetEscapeXor)
    .ok (rxNext size .gdbCapture
      { rx with checksum := rx.checksum + c, packet := packet, offset := rx.offset + 1 })
  | .gdbChecksumUpper =>
    let rxChecksum := if noackmode then rx.rxChecksum else unhexDigit c <<< 4
    .ok (rxNext size .gdbChecksumLower { rx with rxChecksum := rxChecksum })
  | .gdbChecksumLower => do
    let rxChecksum := if noackmode then rx.rxChecksum else rx.rxChecksum ||| unhexDigit c
    let ack := if rxChecksum = rx.checksum then packetAck else packetNack
    let rx := { rx with
      rxChecksum := rxChecksum, out := if noackmode then rx.out else rx.out ++ [.char ack] }
    if noackmode ∨ rxChecksum = rx.checksum then
      let packet ← putByte rx.packet rx.offset 0
      .ok (.done { rx with packet := packet } rx.offset)
    else .ok (rxNext size .idle rx)

/-- What `gdb_getpacket` does when `consume_remote_packet` returns. -/
def remoteReturn (size : Nat) (state : PacketState) (rx : Rx) : Except RxFault RxStep :=
  idleEnd size state { rx with offset := 0, checksum := 0 }

/-- An iteration of the loop of `consume_remote_packet`. -/
def consumeRemoteStep (size offset : Nat) (rx : Rx) (c : UInt8) : Except RxFault RxStep := do
  if c = eot then
    let packet ← putByte rx.packet 0 c
    remoteReturn size .idle { rx with packet := packet }
  else if c = remoteSom then .ok (.more { rx with loop := .remote 0 })
  else if c = packetEnd then
    let packet ← putByte rx.packet offset 0
    let out := rx.out ++ [.remotePacket (packet.take offset)]
    let packet ← putByte packet 0 0
    remoteReturn size .idle { rx with packet := packet, out := out }
  else if c = packetStart then remoteReturn size .gdbCapture rx
  else if offset < size then
    let packet ← putByte rx.packet offset c
    .ok (.more { rx with loop := .remote (offset + 1), packet := packet })
  else
    let packet ← putByte rx.packet 0 0
    remoteReturn size .idle { rx with packet := packet }

/-- The loop that waits takes a character. -/
def rxStep (noackmode : Bool) (size : Nat) (rx : Rx) (c : UInt8) : Except RxFault RxStep :=
  match rx.loop with
  | .getpacket state => getpacketStep noackmode size state rx c
  | .remote offset => consumeRemoteStep size offset rx c

/-- How a call stands after the characters that have come: it waits, or it has returned and left
`rest`. -/
inductive RxEnd
  | waiting (rx : Rx)
  | returned (rx : Rx) (size : Nat) (rest : List UInt8)

/-- Feed characters to the receiver. -/
def rxRun (noackmode : Bool) (size : Nat) (rx : Rx) : List UInt8 → Except RxFault RxEnd
  | [] => .ok (.waiting rx)
  | c :: input => do
    match ← rxStep noackmode size rx c with
    | .more rx => rxRun noackmode size rx input
    | .done rx n => .ok (.returned rx n input)

/-- The receiver at the start of a call. -/
def Rx.start (packet : List UInt8) : Rx :=
  { loop := .getpacket .idle, offset := 0, checksum := 0, rxChecksum := 0, packet := packet,
    out := [] }

/-- `gdb_getpacket`, on the characters that have come so far. -/
def gdbGetpacket (noackmode : Bool) (packet : List UInt8) (size : Nat) (input : List UInt8) :
    Except RxFault RxEnd :=
  rxRun noackmode size (Rx.start packet) input

end Blackmagic
