import Mathlib
import Blackmagic.Lib.Bytes
import Blackmagic.Lib.Word
import Blackmagic.Lib.Prog

/-!
# Polling the channels: `rtt.c`

`poll_rtt` is a program over the accesses to the target's memory and the calls of the terminal
interface. What the search for the control block finds is an argument of a call, as is the time. The
halt of a target that has to stand still for an access, and the messages to the debugger, are left
out.
-/

namespace Blackmagic

open Word Bytes

/-! ## Accesses -/

/-- What a poll asks for. The channel of a call of `rtt_getchar` or `rtt_write` is there for the
logs. -/
inductive RttOp
  | memRead (addr len : Nat)
  | memWrite (addr : Nat) (data : List UInt8)
  | nodata
  | getchar (channel : Nat)
  | write (channel : Nat) (buf : List UInt8)

/-- The answers: the bytes of a read that does not fail, whether a write fails, whether the host has
sent nothing, and a character if there is one. -/
abbrev RttOp.Ans : RttOp → Type
  | memRead _ _ => Option (List UInt8)
  | memWrite _ _ => Bool
  | nodata => Bool
  | getchar _ => Option UInt8
  | write _ _ => Unit

/-- A program over the accesses. -/
abbrev RttProg (α : Type) := Prog RttOp RttOp.Ans α

/-- `target_mem_read`. -/
def rttMemRead (addr len : Nat) : RttProg (Option (List UInt8)) := Prog.op (RttOp.memRead addr len)

/-- `target_mem_write`. -/
def rttMemWrite (addr : Nat) (data : List UInt8) : RttProg Bool :=
  Prog.op (RttOp.memWrite addr data)

/-- `rtt_nodata`. -/
def rttNodata : RttProg Bool := Prog.op RttOp.nodata

/-- `rtt_getchar`. -/
def rttGetchar (channel : Nat) : RttProg (Option UInt8) := Prog.op (RttOp.getchar channel)

/-- `rtt_write`. -/
def rttWrite (channel : Nat) (buf : List UInt8) : RttProg Unit := Prog.op (RttOp.write channel buf)

/-! ## Globals -/

/-- `MAX_RTT_CHAN`. -/
def maxRttChan : Nat := 16

/-- `RTT_UP_BUF_SIZE`. -/
def rttUpBufSize : Nat := 1024 + 8

/-- `rtt_channel_s`. -/
structure RttChannel where
  nameAddr : Nat
  bufAddr : Nat
  bufSize : Nat
  head : Nat
  tail : Nat
  flag : Nat
  deriving DecidableEq, Repr

/-- The channel `i` of an array of channels in the target's memory. -/
def rttChannelAt (cblock : List UInt8) (i : Nat) : RttChannel where
  nameAddr := leNat (slice cblock (24 * i) 4)
  bufAddr := leNat (slice cblock (24 * i + 4) 4)
  bufSize := leNat (slice cblock (24 * i + 8) 4)
  head := leNat (slice cblock (24 * i + 12) 4)
  tail := leNat (slice cblock (24 * i + 16) 4)
  flag := leNat (slice cblock (24 * i + 20) 4)

/-- The globals of `rtt.c`. -/
structure RttState where
  rttEnabled : Bool
  rttFound : Bool
  rttAutoChannel : Bool
  rttCbaddr : Nat
  rttNumUpChan : Nat
  rttNumDownChan : Nat
  rttChannelEnabled : Nat → Bool
  rttChannel : Nat → RttChannel
  rttMinPollMs : Nat
  rttMaxPollMs : Nat
  rttMaxPollErrs : Nat
  pollMs : Nat
  pollErrs : Nat
  lastPollMs : Nat
  rttFlagSkip : Bool
  rttFlagBlock : Bool
  savedCblockHeader : List UInt8
  xmitBuf : List UInt8

/-- `rtt_retval_e`. -/
inductive RttRetval
  | ok
  | idle
  | err
  deriving DecidableEq, Repr

/-- Set the local head of a channel. -/
def RttState.setHead (g : RttState) (i head : Nat) : RttState :=
  { g with rttChannel := Function.update g.rttChannel i { g.rttChannel i with head := head } }

/-- Set the local tail of a channel. -/
def RttState.setTail (g : RttState) (i tail : Nat) : RttState :=
  { g with rttChannel := Function.update g.rttChannel i { g.rttChannel i with tail := tail } }

/-- The head of the channel that is set. -/
@[simp] theorem RttState.setHead_self (g : RttState) (i n : Nat) :
    (g.setHead i n).rttChannel i = { g.rttChannel i with head := n } := Function.update_self _ _ _

/-- The tail of the channel that is set. -/
@[simp] theorem RttState.setTail_self (g : RttState) (i n : Nat) :
    (g.setTail i n).rttChannel i = { g.rttChannel i with tail := n } := Function.update_self _ _ _

/-! ## The control block -/

/-- How many channels there are, from the two words of the control block. -/
def rttCounts (numBuf : List UInt8) : Nat × Nat :=
  let up := min (leNat (slice numBuf 0 4)) maxRttChan
  let down := leNat (slice numBuf 4 4)
  (up, if maxRttChan < add32 up down then maxRttChan - up else down)

/-- The channels that are enabled when none were chosen. -/
def autoChannels (up down i : Nat) : Bool :=
  i = 0 ∧ 0 < up ∨ i = 1 ∧ 1 < up ∨ i = up ∧ up < maxRttChan ∧ 0 < down

/-- `find_rtt`, with what the search through the target's memory returns. -/
def findRtt (search : Nat) (g : RttState) : RttProg RttState :=
  let g := { g with
    rttFound := false, pollMs := g.rttMaxPollMs, pollErrs := 0, lastPollMs := 0, rttCbaddr :=
      search }
  if search = 0 then pure g
  else do
    match ← rttMemRead (add32 search 16) 8 with
    | none => pure g
    | some numBuf =>
      let up := (rttCounts numBuf).1
      let down := (rttCounts numBuf).2
      let g := { g with rttNumUpChan := up, rttNumDownChan := down }
      if 255 < up ∨ 255 < down then pure { g with rttEnabled := false }
      else if up = 0 ∧ down = 0 then pure { g with rttEnabled := false }
      else do
        let g := { g with
          rttChannel := fun _ => ⟨0, 0, 0, 0, 0, 0⟩,
          rttChannelEnabled :=
            if g.rttAutoChannel then autoChannels up down else g.rttChannelEnabled }
        match ← rttMemRead search 24 with
        | none => pure g
        | some header => pure { g with savedCblockHeader := header, rttFound := true }

/-! ## Host to target -/

/-- The loop of `read_rtt`. Each turn takes a free place of the buffer, so there are never more than
`bufSize` turns. -/
def readRttLoop (i : Nat) : Nat → RttState → RttProg (Bool × RttState)
  | 0, g => pure (false, g)
  | fuel + 1, g => do
    let ch := g.rttChannel i
    let nextHead := (ch.head + 1) % ch.bufSize
    if ch.tail = nextHead then pure (false, g)
    else
      match ← rttGetchar i with
      | none => pure (false, g)
      | some c =>
        if ← rttMemWrite (add32 ch.bufAddr ch.head) [c] then pure (true, g)
        else readRttLoop i fuel (g.setHead i nextHead)

/-- `read_rtt`. -/
def readRtt (g : RttState) (i : Nat) : RttProg (RttRetval × RttState) := do
  if ← rttNodata then pure (.idle, g)
  else if (g.rttChannel i).bufAddr = 0 ∨ (g.rttChannel i).bufSize = 0 then pure (.idle, g)
  else if (g.rttChannel i).bufSize ≤ (g.rttChannel i).head ∨
      (g.rttChannel i).bufSize ≤ (g.rttChannel i).tail then pure (.err, g)
  else do
    let (failed, g) ← readRttLoop i (g.rttChannel i).bufSize g
    if failed then pure (.err, g)
    else if ← rttMemWrite (add32 g.rttCbaddr (24 + i * 24 + 12)) (wordBytes (g.rttChannel i).head)
        then
      pure (.err, g)
    else pure (.ok, g)

/-! ## Target to host -/

/-- `rtt_aligned_mem_read` into `xmit_buf` at an offset. -/
def rttAlignedMemRead (xmit : List UInt8) (dest src len : Nat) : RttProg (Bool × List UInt8) := do
  let offset := src % 4
  let src₀ := src - offset
  let len₀ := if (len + offset) % 4 = 0 then len + offset else (len + offset + 4) / 4 * 4
  if src₀ = src ∧ len₀ = len then
    match ← rttMemRead src len with
    | none => pure (true, xmit)
    | some bytes => pure (false, overwrite xmit dest bytes)
  else
    match ← rttMemRead src₀ len₀ with
    | none => pure (true, overwrite xmit dest (slice xmit (dest + offset) len))
    | some bytes =>
      let xmit := overwrite xmit dest bytes
      pure (false, overwrite xmit dest (slice xmit (dest + offset) len))

/-- Read a part of the buffer that does not wrap, and advance the local tail over it. -/
def rttSegment (g : RttState) (i bytesRead len : Nat) : RttProg (Bool × RttState) := do
  let ch := g.rttChannel i
  let (failed, xmit) ← rttAlignedMemRead g.xmitBuf bytesRead (add32 ch.bufAddr ch.tail) len
  if failed then pure (true, { g with xmitBuf := xmit })
  else pure (false, { g with xmitBuf := xmit }.setTail i ((ch.tail + len) % ch.bufSize))

/-- The read of `print_rtt` up to the end of the buffer. -/
def rttFirst (g : RttState) (i : Nat) : RttProg (Bool × RttState × Nat) :=
  let ch := g.rttChannel i
  if ch.head < ch.tail then do
    let len := min (ch.bufSize - ch.tail) (rttUpBufSize - 8)
    let (failed, g) ← rttSegment g i 0 len
    pure (failed, g, len)
  else pure (false, g, 0)

/-- The read of `print_rtt` up to the head. -/
def rttSecond (g : RttState) (i bytesRead : Nat) : RttProg (Bool × RttState × Nat) :=
  let ch := g.rttChannel i
  let bytesFree := rttUpBufSize - 8 - bytesRead
  if ch.tail < ch.head ∧ 0 < bytesFree then do
    let len := min (ch.head - ch.tail) bytesFree
    let (failed, g) ← rttSegment g i bytesRead len
    pure (failed, g, bytesRead + len)
  else pure (false, g, bytesRead)

/-- Both reads. -/
def rttCollect (g : RttState) (i : Nat) : RttProg (Bool × RttState × Nat) := do
  let (failed, g, bytesRead) ← rttFirst g i
  if failed then pure (true, g, bytesRead) else rttSecond g i bytesRead

/-- `print_rtt`. -/
def printRtt (g : RttState) (i : Nat) : RttProg (RttRetval × RttState) :=
  let ch := g.rttChannel i
  if ch.bufAddr = 0 ∨ ch.bufSize = 0 then pure (.idle, g)
  else if ch.bufSize ≤ ch.head ∨ ch.bufSize ≤ ch.tail then pure (.err, g)
  else if ch.head = ch.tail then pure (.idle, g)
  else do
    let (failed, g, bytesRead) ← rttCollect g i
    if failed then pure (.err, g)
    else if ← rttMemWrite (add32 g.rttCbaddr (24 + i * 24 + 16)) (wordBytes (g.rttChannel i).tail)
        then
      pure (.err, g)
    else do
      rttWrite i (g.xmitBuf.take bytesRead)
      pure (.ok, g)

/-! ## Top level -/

/-- The body of the loop over the channels. -/
def pollChannel (g : RttState) (i : Nat) : RttProg (RttRetval × RttState) :=
  if g.rttChannelEnabled i then
    if i < g.rttNumUpChan then printRtt g i
    else readRtt { g with
      rttFlagSkip := (g.rttChannel i).flag = 0, rttFlagBlock := (g.rttChannel i).flag = 2 } i
  else pure (.idle, g)

/-- The loop over the channels, with `rtt_busy` and `rtt_err`. -/
def pollChannels : List Nat → Bool → Bool → RttState → RttProg (Bool × Bool × RttState)
  | [], busy, err, g => pure (busy, err, g)
  | i :: is, busy, err, g => do
    let (result, g) ← pollChannel g i
    pollChannels is (busy || result = .ok) (err || result = .err) g

/-- Search for the control block unless it is known. -/
def locateRtt (search : Nat) (g : RttState) : RttProg RttState :=
  if g.rttFound then pure g else findRtt search g

/-- Check that the control block has not changed. -/
def checkHeader (g : RttState) : RttProg RttState :=
  if g.rttFound then do
    match ← rttMemRead g.rttCbaddr 24 with
    | none => pure { g with rttFound := false }
    | some header => pure { g with rttFound := header = g.savedCblockHeader }
  else pure g

/-- Copy the channels from the target and serve them. -/
def pollBlock (g : RttState) : RttProg (Bool × Bool × RttState) :=
  if g.rttFound ∧ g.rttCbaddr ≠ 0 then do
    let count := add32 g.rttNumUpChan g.rttNumDownChan
    match ← rttMemRead (add32 g.rttCbaddr 24) (24 * count) with
    | none => pure (false, true, g)
    | some cblock =>
      pollChannels (List.range count) false false
        { g with
          rttChannel := fun i => if i < count then rttChannelAt cblock i else g.rttChannel i }
  else pure (false, false, g)

/-- The time until the next poll, and the count of errors. -/
def pollTiming (now : Nat) (busy err : Bool) (g : RttState) : RttState :=
  let pollMs := if busy ∧ ¬ err then g.pollMs / 2 else g.pollMs * 2 % 2 ^ 32
  let pollMs :=
    if g.rttMaxPollMs < pollMs then g.rttMaxPollMs
    else if pollMs < g.rttMinPollMs then g.rttMinPollMs else pollMs
  let g := { g with lastPollMs := now, pollMs := pollMs }
  if err then
    let g := { g with pollErrs := add32 g.pollErrs 1 }
    if g.rttMaxPollErrs ≠ 0 ∧ g.rttMaxPollErrs < g.pollErrs then { g with rttEnabled := false }
      else g
  else g

/-- `poll_rtt`. -/
def pollRtt (now search : Nat) (g : RttState) : RttProg RttState :=
  if g.rttEnabled ∧ (add32 g.lastPollMs g.pollMs ≤ now ∨ now < g.lastPollMs) then do
    let g ← locateRtt search g
    let g ← checkHeader g
    let (busy, err, g) ← pollBlock g
    pure (pollTiming now busy err g)
  else pure g

end Blackmagic
