import Mathlib
import Blackmagic.Lib.Memory
import Blackmagic.Rtt.Poll

/-!
# The target and the host beside `poll_rtt`

The target keeps a control block and its buffers at fixed places (`RttLayout`). Between two accesses
of a poll it stores bytes into the free part of an up buffer, advances a head over bytes that it has
stored, advances a tail over bytes that it has read from a down buffer, and changes any other
memory. The logs say what went through each channel.
-/

namespace Blackmagic

open Word Bytes Memory

/-! ## Layout -/

/-- Where the control block and the buffers are. The header of the control block has the number of
channels. -/
structure RttLayout where
  cb : Nat
  header : List UInt8
  up : Nat
  down : Nat
  bufAddr : Nat → Nat
  bufSize : Nat → Nat
  counts : rttCounts (slice header 16 8) = (up, down)
  cb_fits : cb + 24 + 24 * (up + down) ≤ 2 ^ 32
  buf_fits : ∀ i < up + down, bufAddr i + bufSize i ≤ 2 ^ 32
  buf_cb : ∀ i < up + down, bufAddr i + bufSize i ≤ cb ∨ cb + 24 + 24 * (up + down) ≤ bufAddr i
  buf_buf : ∀ i < up + down, ∀ j < up + down, i ≠ j →
    bufAddr i + bufSize i ≤ bufAddr j ∨ bufAddr j + bufSize j ≤ bufAddr i

namespace RttLayout

variable (L : RttLayout)

/-- Where a channel is in the control block. -/
def desc (i : Nat) : Nat := L.cb + 24 + 24 * i

/-- The head of a channel. -/
def head (mem : Nat → UInt8) (i : Nat) : Nat := wordAt mem (L.desc i + 12)

/-- The tail of a channel. -/
def tail (mem : Nat → UInt8) (i : Nat) : Nat := wordAt mem (L.desc i + 16)

/-- How many bytes are in the buffer of a channel. -/
def fill (mem : Nat → UInt8) (i : Nat) : Nat := used (L.bufSize i) (L.head mem i) (L.tail mem i)

/-- A part of the buffer of a channel. -/
def ring (mem : Nat → UInt8) (i start n : Nat) : List UInt8 :=
  contents (fun p => mem (L.bufAddr i + p)) (L.bufSize i) start n

/-- The bytes in the buffer of a channel. -/
def pending (mem : Nat → UInt8) (i : Nat) : List UInt8 := L.ring mem i (L.tail mem i) (L.fill mem i)

/-- The head and the tail of a channel are in its buffer. -/
def Sane (mem : Nat → UInt8) (i : Nat) : Prop :=
  L.head mem i < L.bufSize i ∧ L.tail mem i < L.bufSize i

instance (mem : Nat → UInt8) (i : Nat) : Decidable (L.Sane mem i) :=
  inferInstanceAs (Decidable (_ ∧ _))

/-- The header and the addresses and sizes of the buffers are in memory. -/
structure Stable (mem : Nat → UInt8) : Prop where
  header : bytesAt mem L.cb 24 = L.header
  bufAddr : ∀ j < L.up + L.down, wordAt mem (L.desc j + 4) = L.bufAddr j
  bufSize : ∀ j < L.up + L.down, wordAt mem (L.desc j + 8) = L.bufSize j

/-- Memory that is neither the control block nor a buffer. -/
def Outside (x : Nat) : Prop :=
  (x < L.cb ∨ L.cb + 24 + 24 * (L.up + L.down) ≤ x) ∧
    ∀ j < L.up + L.down, x < L.bufAddr j ∨ L.bufAddr j + L.bufSize j ≤ x

instance (x : Nat) : Decidable (L.Outside x) := inferInstanceAs (Decidable (_ ∧ _))

/-- What belongs to a channel: its words, its buffer, and what all channels share. -/
def Region (i x : Nat) : Prop :=
  (L.cb ≤ x ∧ x < L.cb + 24) ∨ (∃ j < L.up + L.down, L.desc j + 4 ≤ x ∧ x < L.desc j + 12) ∨
    (L.desc i ≤ x ∧ x < L.desc i + 24) ∨ (L.bufAddr i ≤ x ∧ x < L.bufAddr i + L.bufSize i)

end RttLayout

/-! ## The world -/

/-- The target's memory, the characters from the host, and the logs of each channel: what
`rtt_getchar` returned, what was passed to `rtt_write`, what the target wrote and what it read. -/
structure RttWorld where
  mem : Nat → UInt8
  input : List UInt8
  got : Nat → List UInt8
  sent : Nat → List UInt8
  written : Nat → List UInt8
  consumed : Nat → List UInt8

/-- An access. A read or a write that fails has no effect. -/
def rttPerform (w : RttWorld) : (o : RttOp) → Bool → o.Ans × RttWorld
  | .memRead addr len, fails => (if fails then none else some (bytesAt w.mem addr len), w)
  | .memWrite addr data, fails =>
    if fails then (true, w) else (false, { w with mem := storeBytes w.mem addr data })
  | .nodata, _ => (w.input.isEmpty, w)
  | .getchar i, _ =>
    match w.input with
    | [] => (none, w)
    | c :: cs => (some c, { w with input := cs, got := Function.update w.got i (w.got i ++ [c]) })
  | .write i buf, _ => ((), { w with sent := Function.update w.sent i (w.sent i ++ buf) })

/-- A step of the host or of the target. -/
inductive RttEnv
  | host (bytes : List UInt8)
  | store (i k : Nat) (b : UInt8)
  | publish (i n : Nat)
  | consume (i n : Nat)
  | other (x : Nat) (b : UInt8)

/-- Take a step. One that does not follow the protocol is not taken. -/
def RttLayout.env (L : RttLayout) (w : RttWorld) : RttEnv → RttWorld
  | .host bytes => { w with input := w.input ++ bytes }
  | .store i k b =>
    if i < L.up ∧ L.Sane w.mem i ∧ L.fill w.mem i + k + 1 < L.bufSize i then
      { w with mem :=
        storeBytes w.mem (L.bufAddr i + (L.head w.mem i + k) % L.bufSize i) [b] }
    else w
  | .publish i n =>
    if i < L.up ∧ L.Sane w.mem i ∧ L.fill w.mem i + n < L.bufSize i then
      { w with
        mem := storeBytes w.mem (L.desc i + 12) (wordBytes ((L.head w.mem i + n) % L.bufSize i)),
        written := Function.update w.written i
          (w.written i ++ L.ring w.mem i (L.head w.mem i) n) }
    else w
  | .consume i n =>
    if L.up ≤ i ∧ i < L.up + L.down ∧ L.Sane w.mem i ∧ n ≤ L.fill w.mem i then
      { w with
        mem := storeBytes w.mem (L.desc i + 16) (wordBytes ((L.tail w.mem i + n) % L.bufSize i)),
        consumed := Function.update w.consumed i
          (w.consumed i ++ L.ring w.mem i (L.tail w.mem i) n) }
    else w
  | .other x b => if L.Outside x then { w with mem := storeBytes w.mem x [b] } else w

/-- A call of `poll_rtt`: the time, and whether the search finds the control block. -/
structure RttCall where
  now : Nat
  found : Bool

/-- The run of polls beside the target and the host. -/
def RttLayout.step (L : RttLayout) :=
  Prog.step rttPerform L.env fun (c : RttCall) g => pollRtt c.now (if c.found then L.cb else 0) g

/-! ## What a channel sees -/

section
variable {L : RttLayout} {i : Nat} {w w' w'' : RttWorld}

/-- Nothing of a channel has changed. -/
structure Agree (L : RttLayout) (i : Nat) (w w' : RttWorld) : Prop where
  mem : ∀ x, L.Region i x → w'.mem x = w.mem x
  got : w'.got i = w.got i
  sent : w'.sent i = w.sent i
  written : w'.written i = w.written i
  consumed : w'.consumed i = w.consumed i

/-- Nothing has changed. -/
theorem Agree.refl (L : RttLayout) (i : Nat) (w : RttWorld) : Agree L i w w :=
  ⟨fun _ _ => rfl, rfl, rfl, rfl, rfl⟩

/-- The head of the channel is the same. -/
theorem Agree.head (h : Agree L i w w') : L.head w'.mem i = L.head w.mem i :=
  wordAt_congr fun x hx hx' => h.mem x (.inr (.inr (.inl ⟨by omega, by omega⟩)))

/-- The tail is the same. -/
theorem Agree.tail (h : Agree L i w w') : L.tail w'.mem i = L.tail w.mem i :=
  wordAt_congr fun x hx hx' => h.mem x (.inr (.inr (.inl ⟨by omega, by omega⟩)))

/-- The number of bytes is the same. -/
theorem Agree.fill (h : Agree L i w w') : L.fill w'.mem i = L.fill w.mem i := by
  rw [RttLayout.fill, h.head, h.tail]
  rfl

/-- The channel is in use as before. -/
theorem Agree.sane (h : Agree L i w w') : L.Sane w'.mem i ↔ L.Sane w.mem i := by
  rw [RttLayout.Sane, h.head, h.tail]
  rfl

/-- Its buffer holds the same bytes. -/
theorem Agree.ring (h : Agree L i w w') (hsize : 0 < L.bufSize i) (start n : Nat) :
    L.ring w'.mem i start n = L.ring w.mem i start n := by
  refine contents_congr fun k _ => h.mem _ (.inr (.inr (.inr ⟨by omega, ?_⟩)))
  have := Nat.mod_lt (start + k) hsize
  omega

/-- It has the same bytes pending. -/
theorem Agree.pending (h : Agree L i w w') (hsize : 0 < L.bufSize i) :
    L.pending w'.mem i = L.pending w.mem i := by
  rw [RttLayout.pending, h.tail, h.fill, h.ring hsize]
  rfl

/-- The block is stable as long as only buffers, heads and tails change. -/
theorem RttLayout.Stable.of_shared {mem mem' : Nat → UInt8} (h : L.Stable mem)
    (hmem : ∀ x, (L.cb ≤ x ∧ x < L.cb + 24) ∨
      (∃ j < L.up + L.down, L.desc j + 4 ≤ x ∧ x < L.desc j + 12) → mem' x = mem x) :
    L.Stable mem' := by
  refine ⟨?_, fun j hj => ?_, fun j hj => ?_⟩
  · rw [bytesAt_congr fun x hx hx' => hmem x (.inl ⟨hx, hx'⟩)]
    exact h.header
  · rw [wordAt_congr fun x hx hx' => hmem x (.inr ⟨j, hj, by omega, by omega⟩)]
    exact h.bufAddr j hj
  · rw [wordAt_congr fun x hx hx' => hmem x (.inr ⟨j, hj, by omega, by omega⟩)]
    exact h.bufSize j hj

/-- A channel that has not changed leaves the block stable. -/
theorem Agree.stable (h : Agree L i w w') (hs : L.Stable w.mem) : L.Stable w'.mem :=
  hs.of_shared fun x hx => h.mem x (by rcases hx with hx | hx; exacts [.inl hx, .inr (.inl hx)])

/-- The control block is stable and the channel is in use. -/
def Ready (L : RttLayout) (i : Nat) (w : RttWorld) : Prop := L.Stable w.mem ∧ L.Sane w.mem i

/-- A channel in use has a buffer. -/
theorem Ready.pos (h : Ready L i w) : 0 < L.bufSize i := Nat.zero_lt_of_lt h.2.1

/-- The channel is ready as before. -/
theorem Agree.ready (h : Agree L i w w') (hready : Ready L i w) : Ready L i w' :=
  ⟨h.stable hready.1, h.sane.2 hready.2⟩

/-- There are as many bytes pending as the head and the tail say. -/
theorem length_pending (L : RttLayout) (mem : Nat → UInt8) (i : Nat) :
    (L.pending mem i).length = L.fill mem i := by
  rw [RttLayout.pending, RttLayout.ring, length_contents]

/-! ## Writing a byte of a buffer -/

variable {mem : Nat → UInt8} {j off n : Nat}

section
variable {p : Nat} {b : UInt8}

/-- A stored byte changes one address. -/
theorem storeByte_other {addr x : Nat} (h : x ≠ addr) : storeBytes mem addr [b] x = mem x := by
  rcases Nat.lt_or_gt_of_ne h with hlt | hgt
  · exact storeBytes_of_lt hlt
  · exact storeBytes_of_le hgt

/-- A byte of a buffer is not in the control block. -/
theorem RttLayout.cb_storeByte (hi : i < L.up + L.down) (hp : p < L.bufSize i) {x : Nat}
    (hx : L.cb ≤ x) (hx' : x < L.cb + 24 + 24 * (L.up + L.down)) :
    storeBytes mem (L.bufAddr i + p) [b] x = mem x := by
  have := L.buf_cb i hi
  exact storeByte_other (by omega)

/-- A byte stored to a buffer leaves the head. -/
theorem RttLayout.head_storeByte (hi : i < L.up + L.down) (hp : p < L.bufSize i) :
    L.head (storeBytes mem (L.bufAddr i + p) [b]) i = L.head mem i := by
  refine wordAt_congr fun x hx hx' => L.cb_storeByte hi hp ?_ ?_
  · rw [desc] at hx
    omega
  · rw [desc] at hx'
    omega

/-- It leaves the tail. -/
theorem RttLayout.tail_storeByte (hi : i < L.up + L.down) (hp : p < L.bufSize i) :
    L.tail (storeBytes mem (L.bufAddr i + p) [b]) i = L.tail mem i := by
  refine wordAt_congr fun x hx hx' => L.cb_storeByte hi hp ?_ ?_
  · rw [desc] at hx
    omega
  · rw [desc] at hx'
    omega

/-- It leaves the block stable. -/
theorem RttLayout.Stable.storeByte (hs : L.Stable mem) (hi : i < L.up + L.down)
    (hp : p < L.bufSize i) : L.Stable (storeBytes mem (L.bufAddr i + p) [b]) := by
  refine hs.of_shared fun x hx => ?_
  rcases hx with hx | ⟨j, hj, hx⟩
  · exact L.cb_storeByte hi hp (by omega) (by omega)
  · rw [desc] at hx
    exact L.cb_storeByte hi hp (by omega) (by omega)

/-- It leaves the other places of the buffer. -/
theorem RttLayout.ring_storeByte {start : Nat} (h : ∀ k < n, (start + k) % L.bufSize i ≠ p) :
    L.ring (storeBytes mem (L.bufAddr i + p) [b]) i start n = L.ring mem i start n :=
  contents_congr fun k hk => storeByte_other (by have := h k hk; omega)

end

/-! ## Writing a head or a tail -/

/-- A stored word changes four addresses. -/
theorem storeWord_other {addr x : Nat} (h : x < addr ∨ addr + 4 ≤ x) :
    storeBytes mem addr (wordBytes n) x = mem x := by
  rcases h with h | h
  · exact storeBytes_of_lt h
  · exact storeBytes_of_le h

/-- A head or a tail that is stored leaves the block stable. -/
theorem RttLayout.Stable.storeWord (hs : L.Stable mem) (hoff : 12 ≤ off) (hoff' : off ≤ 20) :
    L.Stable (storeBytes mem (L.desc i + off) (wordBytes n)) := by
  refine hs.of_shared fun x hx => storeWord_other ?_
  rcases hx with hx | ⟨j, -, hx⟩
  · rw [desc]
    omega
  · rw [desc] at hx ⊢
    omega

/-- It leaves the buffer. -/
theorem RttLayout.ring_storeWord (hi : i < L.up + L.down) (hsize : 0 < L.bufSize i)
    (hoff : off ≤ 20) (start k : Nat) :
    L.ring (storeBytes mem (L.desc i + off) (wordBytes n)) i start k = L.ring mem i start k := by
  refine contents_congr fun p _ => storeWord_other ?_
  have hp := Nat.mod_lt (start + p) hsize
  have := L.buf_cb i hi
  rw [desc]
  omega

/-- The head is the one that was stored. -/
theorem RttLayout.head_storeHead (hn : n < 2 ^ 32) :
    L.head (storeBytes mem (L.desc i + 12) (wordBytes n)) i = n := wordAt_storeBytes hn

/-- The tail is the one that was stored. -/
theorem RttLayout.tail_storeTail (hn : n < 2 ^ 32) :
    L.tail (storeBytes mem (L.desc i + 16) (wordBytes n)) i = n := wordAt_storeBytes hn

/-- A stored head leaves the tail. -/
theorem RttLayout.tail_storeHead :
    L.tail (storeBytes mem (L.desc i + 12) (wordBytes n)) i = L.tail mem i :=
  wordAt_congr fun _ hx _ => storeWord_other (.inr (by omega))

/-- A stored tail leaves the head. -/
theorem RttLayout.head_storeTail :
    L.head (storeBytes mem (L.desc i + 16) (wordBytes n)) i = L.head mem i :=
  wordAt_congr fun _ _ hx => storeWord_other (.inl (by omega))

/-- The address of a word of a channel, as the code computes it. -/
theorem RttLayout.add32_desc (hi : i < L.up + L.down) (hoff : off ≤ 20) :
    add32 L.cb (24 + i * 24 + off) = L.desc i + off := by
  have hfits := L.cb_fits
  rw [add32_of_lt (by omega), desc]
  omega

/-- A place in a buffer is a word. -/
theorem RttLayout.place_lt (hi : i < L.up + L.down) (hsize : 0 < L.bufSize i) (p : Nat) :
    p % L.bufSize i < 2 ^ 32 := by
  have := Nat.mod_lt p hsize
  have := L.buf_fits i hi
  omega

/-- The head is advanced. -/
theorem RttLayout.pending_storeHead (hi : i < L.up + L.down) (hsane : L.Sane mem i)
    (hn : L.fill mem i + n < L.bufSize i) :
    L.pending (storeBytes mem (L.desc i + 12) (wordBytes ((L.head mem i + n) % L.bufSize i))) i =
      L.pending mem i ++ L.ring mem i (L.head mem i) n := by
  have hpos : 0 < L.bufSize i := by omega
  have hlt := L.place_lt hi hpos (L.head mem i + n)
  rw [pending, fill, head_storeHead hlt, tail_storeHead, used_advance_head hsane.1 hsane.2 hn,
    ring_storeWord hi hpos (by decide), ring, contents_add]
  congr 1
  rw [← contents_mod, add_used hsane.1 hsane.2]
  rfl

/-- The tail is advanced. -/
theorem RttLayout.pending_storeTail (hi : i < L.up + L.down) (hsane : L.Sane mem i)
    (hn : n ≤ L.fill mem i) :
    L.pending (storeBytes mem (L.desc i + 16) (wordBytes ((L.tail mem i + n) % L.bufSize i))) i =
      (L.pending mem i).drop n := by
  have hpos : 0 < L.bufSize i := Nat.zero_lt_of_lt hsane.1
  have hlt := L.place_lt hi hpos (L.tail mem i + n)
  rw [pending, fill, head_storeTail, tail_storeTail hlt, used_advance_tail hsane.1 hsane.2 hn,
    ring_storeWord hi hpos (by decide), ring, contents_mod, pending, ring, drop_contents hn]
  rfl

end

/-! ## A channel each way -/

/-- A control block with a channel each way. -/
def RttLayout.oneEach : RttLayout where
  cb := 0x20000000
  header := [0x53, 0x45, 0x47, 0x47, 0x45, 0x52, 0x20, 0x52, 0x54, 0x54, 0, 0, 0, 0, 0, 0] ++
    wordBytes 1 ++ wordBytes 1
  up := 1
  down := 1
  bufAddr i := 0x20000100 + 16 * i
  bufSize _ := 16
  counts := by decide
  cb_fits := by decide
  buf_fits := by decide
  buf_cb := by decide
  buf_buf := by decide

/-- A channel in the control block. -/
def channelBytes (bufAddr head tail : Nat) : List UInt8 :=
  wordBytes 0 ++ wordBytes bufAddr ++ wordBytes 16 ++ wordBytes head ++ wordBytes tail ++
    wordBytes 0

/-- The memory with both buffers empty, and the next byte at their ends. -/
def oneEachWorld : RttWorld where
  mem := storeBytes (fun _ => 0) 0x20000000
    (RttLayout.oneEach.header ++ channelBytes 0x20000100 15 15 ++ channelBytes 0x20000110 15 15)
  input := []
  got _ := []
  sent _ := []
  written _ := []
  consumed _ := []

/-- The globals at boot, with RTT enabled and a poll due. -/
def RttState.boot : RttState where
  rttEnabled := true
  rttFound := false
  rttAutoChannel := true
  rttCbaddr := 0
  rttNumUpChan := 0
  rttNumDownChan := 0
  rttChannelEnabled _ := false
  rttChannel _ := ⟨0, 0, 0, 0, 0, 0⟩
  rttMinPollMs := 8
  rttMaxPollMs := 256
  rttMaxPollErrs := 10
  pollMs := 0
  pollErrs := 0
  lastPollMs := 0
  rttFlagSkip := false
  rttFlagBlock := false
  savedCblockHeader := []
  xmitBuf := List.replicate rttUpBufSize 0

/-- The control block of the example is stable. -/
theorem oneEach_stable : RttLayout.oneEach.Stable oneEachWorld.mem :=
  ⟨by decide +kernel, by decide +kernel, by decide +kernel⟩

end Blackmagic
