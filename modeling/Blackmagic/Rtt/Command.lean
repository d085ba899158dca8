import Mathlib
import Blackmagic.Lib.Scanf
import Blackmagic.Rtt.Poll

/-!
# The `rtt` command, and the indices of the channels

`cmd_rtt` changes the globals of `rtt.c` between the polls. The counts of channels come from the
target as two words of any value. What keeps every index in the arrays is `RttState.InRange`: the
clamp of `find_rtt` gives it (`rttCounts_inRange`), a turn of a channel and a command keep it, and
so does a poll whatever the target answers (`pollRtt_inRange`).
-/

namespace Blackmagic

open Word Bytes Scanf Prog

/-! ## The command -/

/-- The globals that say what to search for, and where. -/
structure RttSearch where
  rttIdent : List UInt8
  rttFlagRam : Bool
  rttRamStart : Nat
  rttRamEnd : Nat
  deriving DecidableEq, Repr

/-- A line of the table of channels: the index, whether the channel is enabled, whether it is an
output, and what is known of it. -/
structure RttRow where
  index : Nat
  enabled : Bool
  output : Bool
  channel : RttChannel
  deriving DecidableEq, Repr

/-- What the command prints. -/
inductive RttReply
  | silent
  | status (enabled found : Bool) (ident : List UInt8) (halt auto : Bool) (channels : List Nat)
      (ram : Option (Nat × Nat)) (maxPollMs minPollMs maxErrs : Nat)
  | poll (maxPollMs minPollMs maxErrs : Nat)
  | cblock (cbaddr : Nat) (rows : List RttRow)
  | address
  | what
  deriving DecidableEq, Repr

/-- The channels that the loops of a poll and of `rtt cblock` go through. -/
def RttState.served (g : RttState) : List Nat := List.range (add32 g.rttNumUpChan g.rttNumDownChan)

/-- How many bytes of the control block a poll copies to the channels. -/
def RttState.copySize (g : RttState) : Nat := 24 * add32 g.rttNumUpChan g.rttNumDownChan

/-- Whether the word after the command is an abbreviation of a word. -/
def abbreviates (argv : List (List UInt8)) (word : String) : Bool :=
  (argv.getD 1 []).isPrefixOf (ascii word)

/-- `strtoul` of an argument. -/
def argument (argv : List (List UInt8)) (i : Nat) : Nat := (strtoulAuto (argv.getD i [])).toNat

/-- `sscanf` of an argument as a number in hexadecimal. -/
def hexArgument (argv : List (List UInt8)) (i : Nat) : Option Nat :=
  ((sscanf (argv.getD i []) [.int 16 0]).values.head?).map UInt32.toNat

/-- The loop of `rtt channel` over the arguments. -/
def selectChannels (args : List (List UInt8)) : Nat → Bool :=
  args.foldl (fun enabled arg =>
    let channel := (strtoulAuto arg).toNat
    if channel < maxRttChan then Function.update enabled channel true else enabled) fun _ => false

/-- The identifier that `rtt ident` stores. -/
def storedIdent (arg : List UInt8) : List UInt8 :=
  ((arg ++ List.replicate 16 0).take 15 ++ [0]).map fun c => if c = 0x5f then 0x20 else c

/-- `cmd_rtt`, for a target that has to be halted for an access or not. -/
def cmdRtt (needsHalt : Bool) (argv : List (List UInt8)) (g : RttState) (c : RttSearch) :
    (RttState × RttSearch) × RttReply :=
  let argc := argv.length
  if argc = 1 ∨ argc = 2 ∧ abbreviates argv "enabled" then
    (({ g with rttEnabled := true, rttFound := false, rttChannel := fun _ => ⟨0, 0, 0, 0, 0, 0⟩ },
      c), .silent)
  else if argc = 2 ∧ abbreviates argv "disabled" then
    (({ g with rttEnabled := false, rttFound := false }, c), .silent)
  else if argc = 2 ∧ abbreviates argv "status" then
    ((g, c), .status g.rttEnabled g.rttFound (cstr c.rttIdent) needsHalt g.rttAutoChannel
      ((List.range maxRttChan).filter g.rttChannelEnabled)
      (if c.rttFlagRam then some (c.rttRamStart, c.rttRamEnd) else none)
      g.rttMaxPollMs g.rttMinPollMs g.rttMaxPollErrs)
  else if 2 ≤ argc ∧ abbreviates argv "channel" then
    if argc = 2 then (({ g with rttChannelEnabled := fun _ => false, rttAutoChannel := true }, c),
      .silent)
    else
      (({ g with rttChannelEnabled := selectChannels (argv.drop 2), rttAutoChannel := false }, c),
        .silent)
  else if argc = 2 ∧ abbreviates argv "ident" then
    ((g, { c with rttIdent := c.rttIdent.set 0 0 }), .silent)
  else if argc = 2 ∧ abbreviates argv "poll" then
    ((g, c), .poll g.rttMaxPollMs g.rttMinPollMs g.rttMaxPollErrs)
  else if argc = 2 ∧ abbreviates argv "cblock" then
    -- `rtt_found` is not looked at, so these may be the counts of a control block that was rejected
    ((g, c), .cblock g.rttCbaddr (g.served.map fun i =>
      ⟨i, g.rttChannelEnabled i, i < g.rttNumUpChan, g.rttChannel i⟩))
  else if argc = 3 ∧ abbreviates argv "ident" then
    ((g, { c with rttIdent := storedIdent (argv.getD 2 []) }), .silent)
  else if argc = 2 ∧ abbreviates argv "ram" then ((g, { c with rttFlagRam := false }), .silent)
  else if argc = 4 ∧ abbreviates argv "ram" then
    let start := (hexArgument argv 2).getD c.rttRamStart
    let stop := (hexArgument argv 3).getD c.rttRamEnd
    let flag := (hexArgument argv 2).isSome && (hexArgument argv 3).isSome && decide (start < stop)
    ((g, { c with rttRamStart := start, rttRamEnd := stop, rttFlagRam := flag }),
      if flag then .silent else .address)
  else if argc = 5 ∧ abbreviates argv "poll" then
    (({ g with
      rttMaxPollMs := argument argv 2, rttMinPollMs := argument argv 3,
      rttMaxPollErrs := argument argv 4 }, c), .silent)
  else ((g, c), .what)

example : (cmdRtt false [ascii "rtt", ascii "ram", ascii "20000000", ascii "0xffffffff"]
    ⟨false, false, true, 0, 0, 0, fun _ => false, fun _ => ⟨0, 0, 0, 0, 0, 0⟩, 8, 256, 10, 0, 0, 0,
      false, false, [], []⟩ ⟨[], false, 0, 0⟩).1.2 = ⟨[], true, 0x20000000, 0xffffffff⟩ := by
  decide +kernel

/-! ## What keeps the indices in the arrays -/

/-- The counts fit the arrays, and nothing is enabled or stored behind their end. -/
structure RttState.InRange (g : RttState) : Prop where
  up : g.rttNumUpChan ≤ maxRttChan
  sum : add32 g.rttNumUpChan g.rttNumDownChan ≤ maxRttChan
  enabled : ∀ i, g.rttChannelEnabled i = true → i < maxRttChan
  channel : ∀ i, maxRttChan ≤ i → g.rttChannel i = ⟨0, 0, 0, 0, 0, 0⟩

/-- A call for a channel is for one of the arrays. -/
def RttOp.InArrays : RttOp → Prop
  | .getchar i => i < maxRttChan
  | .write i _ => i < maxRttChan
  | _ => True

/-- The indices that are printed are indices of the arrays. -/
def RttReply.InArrays : RttReply → Prop
  | .status _ _ _ _ _ channels _ _ _ _ => ∀ i ∈ channels, i < maxRttChan
  | .cblock _ rows => ∀ row ∈ rows, row.index < maxRttChan
  | _ => True

namespace RttState.InRange

variable {g : RttState} {i : Nat}

/-- The channels that are served are in bounds. -/
theorem served (h : g.InRange) : ∀ i ∈ g.served, i < maxRttChan := fun _ hi =>
  Nat.lt_of_lt_of_le (List.mem_range.1 hi) h.sum

/-- The copy of the control block fits. -/
theorem copySize (h : g.InRange) : g.copySize ≤ 24 * maxRttChan := Nat.mul_le_mul_left 24 h.sum

/-- A channel of the arrays, and globals that are no indices, may change. -/
theorem update (h : g.InRange) (hi : i < maxRttChan) {ch : RttChannel} {xmit : List UInt8} :
    ({ g with rttChannel := Function.update g.rttChannel i ch, xmitBuf := xmit } :
      RttState).InRange :=
  ⟨h.up, h.sum, h.enabled, fun j hj => by
    dsimp only
    rw [Function.update_of_ne (by omega), h.channel j hj]⟩

/-- A head is stored in bounds. -/
theorem setHead (h : g.InRange) (hi : i < maxRttChan) (n : Nat) : (g.setHead i n).InRange :=
  h.update hi

/-- So is a tail. -/
theorem setTail (h : g.InRange) (hi : i < maxRttChan) (n : Nat) (xmit : List UInt8) :
    ({ g with xmitBuf := xmit }.setTail i n).InRange := h.update hi

/-- The transmit buffer says nothing about the channels. -/
theorem xmitBuf (h : g.InRange) (xmit : List UInt8) :
    ({ g with xmitBuf := xmit } : RttState).InRange :=
  ⟨h.up, h.sum, h.enabled, h.channel⟩

end RttState.InRange

/-- The clamp, also when the sum of the two words wraps. -/
theorem rttCounts_inRange (numBuf : List UInt8) :
    (rttCounts numBuf).1 ≤ maxRttChan ∧
      add32 (rttCounts numBuf).1 (rttCounts numBuf).2 ≤ maxRttChan := by
  have hup : min (leNat (slice numBuf 0 4)) maxRttChan ≤ maxRttChan := Nat.min_le_right _ _
  unfold rttCounts
  dsimp only
  refine ⟨hup, ?_⟩
  split
  · have hlt : min (leNat (slice numBuf 0 4)) maxRttChan +
        (maxRttChan - min (leNat (slice numBuf 0 4)) maxRttChan) < 2 ^ 32 := by
      rw [Nat.add_sub_cancel' hup]
      decide
    rw [add32_of_lt hlt, Nat.add_sub_cancel' hup]
  · rename_i hle
    exact Nat.le_of_not_lt hle

/-- The sum of these words wraps to 8, so they are not clamped. -/
example : rttCounts (wordBytes 16 ++ wordBytes 0xfffffff8) = (16, 0xfffffff8) := by decide +kernel

/-- The channels chosen by default are in bounds. -/
theorem autoChannels_inRange {up down i : Nat} (h : autoChannels up down i = true) :
    i < maxRttChan := by
  rw [autoChannels, decide_eq_true_iff, maxRttChan] at h
  rw [maxRttChan]
  omega

/-! ## A turn of a channel -/

section
variable {P : RttOp → Prop} {β : Type} {R : β → Prop}

/-- The rule for a read of the target. -/
theorem asks_memRead {addr len : Nat} {f : Option (List UInt8) → RttProg β}
    (hop : P (.memRead addr len)) (hnone : Asks P R (f none))
    (hsome : ∀ bytes, Asks P R (f (some bytes))) :
    Asks P R (rttMemRead addr len >>= f) := by
  refine asks_bind.2 ⟨hop, fun x => ?_⟩
  cases x with
  | none => exact hnone
  | some bytes => exact hsome bytes

/-- The rule for a write to the target. -/
theorem asks_memWrite {addr : Nat} {data : List UInt8} {f : Bool → RttProg β}
    (hop : P (.memWrite addr data)) (hfails : Asks P R (f true)) (hdone : Asks P R (f false)) :
    Asks P R (rttMemWrite addr data >>= f) := by
  refine asks_bind.2 ⟨hop, fun x => ?_⟩
  cases x with
  | true => exact hfails
  | false => exact hdone

end

section
variable {g : RttState} {i : Nat}

/-- The loop over the characters for a channel stays in its arrays, by induction on the characters
left. -/
theorem readRttLoop_inRange (hi : i < maxRttChan) : ∀ (fuel : Nat) {g : RttState}, g.InRange →
    Asks RttOp.InArrays (fun r => r.2.InRange) (readRttLoop i fuel g) := by
  intro fuel
  induction fuel with
  | zero => exact fun hg => hg
  | succ fuel ih =>
    intro g hg
    unfold readRttLoop
    dsimp only
    split
    · exact hg
    · rw [rttGetchar, asks_bind]
      refine ⟨hi, fun x => ?_⟩
      cases x with
      | none => exact hg
      | some c =>
        exact asks_memWrite trivial hg (ih (hg.setHead hi _))

/-- So does the whole turn of a down channel. -/
theorem readRtt_inRange (hi : i < maxRttChan) (hg : g.InRange) :
    Asks RttOp.InArrays (fun r => r.2.InRange) (readRtt g i) := by
  unfold readRtt
  rw [rttNodata, asks_bind]
  refine ⟨trivial, fun x => ?_⟩
  change Asks _ _ (if x = true then _ else _)
  split
  · exact hg
  split
  · exact hg
  split
  · exact hg
  rw [asks_bind]
  refine (readRttLoop_inRange hi _ hg).imp fun r hr => ?_
  obtain ⟨failed, g'⟩ := r
  dsimp only at hr ⊢
  split
  · exact hr
  · exact asks_memWrite trivial hr hr

/-- A read of an up channel stays in the arrays. -/
theorem rttSegment_inRange (hi : i < maxRttChan) (hg : g.InRange) (dest len : Nat) :
    Asks RttOp.InArrays (fun r => r.2.InRange) (rttSegment g i dest len) := by
  have hread : ∀ src, Asks RttOp.InArrays (fun _ => True)
      (rttAlignedMemRead g.xmitBuf dest src len) := by
    intro src
    unfold rttAlignedMemRead
    dsimp only
    generalize (if (len + src % 4) % 4 = 0 then _ else _) = len₀
    split
    · exact asks_memRead trivial trivial fun _ => trivial
    · exact asks_memRead trivial trivial fun _ => trivial
  unfold rttSegment
  rw [asks_bind]
  refine (hread _).imp fun r _ => ?_
  dsimp only
  split
  · exact hg.xmitBuf _
  · exact hg.setTail hi _ _

/-- So do both reads of its bytes. -/
theorem rttCollect_inRange (hi : i < maxRttChan) (hg : g.InRange) :
    Asks RttOp.InArrays (fun r => r.2.1.InRange) (rttCollect g i) := by
  have hfirst : Asks RttOp.InArrays (fun r => r.2.1.InRange) (rttFirst g i) := by
    unfold rttFirst
    dsimp only
    split
    · rw [asks_bind]
      exact (rttSegment_inRange hi hg _ _).imp fun r hr => hr
    · exact hg
  unfold rttCollect
  rw [asks_bind]
  refine hfirst.imp fun r hr => ?_
  dsimp only
  split
  · exact hr
  unfold rttSecond
  dsimp only
  split
  · rw [asks_bind]
    exact (rttSegment_inRange hi hr _ _).imp fun r' hr' => hr'
  · exact hr

/-- So does the whole turn of an up channel. -/
theorem printRtt_inRange (hi : i < maxRttChan) (hg : g.InRange) :
    Asks RttOp.InArrays (fun r => r.2.InRange) (printRtt g i) := by
  unfold printRtt
  dsimp only
  split
  · exact hg
  split
  · exact hg
  split
  · exact hg
  rw [asks_bind]
  refine (rttCollect_inRange hi hg).imp fun r hr => ?_
  split
  · exact hr
  · exact asks_memWrite trivial hr ⟨hi, fun _ => hr⟩

/-- The turn of a channel stays in the arrays. -/
theorem pollChannel_inRange (hi : i < maxRttChan) (hg : g.InRange) :
    Asks RttOp.InArrays (fun r => r.2.InRange) (pollChannel g i) := by
  unfold pollChannel
  split
  · split
    · exact printRtt_inRange hi hg
    · exact readRtt_inRange hi ⟨hg.up, hg.sum, hg.enabled, hg.channel⟩
  · exact hg

/-- So do the turns of all channels, by induction on them. -/
theorem pollChannels_inRange : ∀ (is : List Nat) (busy err : Bool) {g : RttState},
    (∀ i ∈ is, i < maxRttChan) → g.InRange →
      Asks RttOp.InArrays (fun r => r.2.2.InRange) (pollChannels is busy err g) := by
  intro is
  induction is with
  | nil => exact fun _ _ _ _ hg => hg
  | cons i is ih =>
    intro busy err g his hg
    unfold pollChannels
    rw [asks_bind]
    refine (pollChannel_inRange (his i List.mem_cons_self) hg).imp fun r hr => ?_
    exact ih _ _ (fun j hj => his j (List.mem_cons_of_mem i hj)) hr

end

/-! ## A poll -/

section
variable {g : RttState}

/-- Reading the control block stays in the arrays. -/
theorem findRtt_inRange (hg : g.InRange) (search : Nat) :
    Asks RttOp.InArrays RttState.InRange (findRtt search g) := by
  unfold findRtt
  dsimp only
  split
  · exact ⟨hg.up, hg.sum, hg.enabled, hg.channel⟩
  refine asks_memRead trivial ⟨hg.up, hg.sum, hg.enabled, hg.channel⟩ fun numBuf => ?_
  obtain ⟨hup, hsum⟩ := rttCounts_inRange numBuf
  dsimp only
  split
  · -- counts whose sum wrapped are rejected here, with the globals already set to them
    exact ⟨hup, hsum, hg.enabled, hg.channel⟩
  split
  · exact ⟨hup, hsum, hg.enabled, hg.channel⟩
  have henabled : ∀ i, (if g.rttAutoChannel then
      autoChannels (rttCounts numBuf).1 (rttCounts numBuf).2 else g.rttChannelEnabled) i = true →
        i < maxRttChan := by
    intro i
    split
    · exact autoChannels_inRange
    · exact hg.enabled i
  exact asks_memRead trivial ⟨hup, hsum, henabled, fun _ _ => rfl⟩
    fun header => ⟨hup, hsum, henabled, fun _ _ => rfl⟩

/-- So does looking for it. -/
theorem locateRtt_inRange (hg : g.InRange) (search : Nat) :
    Asks RttOp.InArrays RttState.InRange (locateRtt search g) := by
  unfold locateRtt
  split
  · exact hg
  · exact findRtt_inRange hg search

/-- So does checking that it is still there. -/
theorem checkHeader_inRange (hg : g.InRange) :
    Asks RttOp.InArrays RttState.InRange (checkHeader g) := by
  unfold checkHeader
  split
  · exact asks_memRead trivial ⟨hg.up, hg.sum, hg.enabled, hg.channel⟩
      fun header => ⟨hg.up, hg.sum, hg.enabled, hg.channel⟩
  · exact hg

/-- A poll copies `copySize` bytes and goes through the channels of `served`. -/
theorem pollBlock_served (g : RttState) : pollBlock g =
    if g.rttFound ∧ g.rttCbaddr ≠ 0 then do
      match ← rttMemRead (add32 g.rttCbaddr 24) g.copySize with
      | none => pure (false, true, g)
      | some cblock =>
        pollChannels g.served false false
          { g with
            rttChannel := fun i => if i < g.served.length then rttChannelAt cblock i
              else g.rttChannel i }
    else pure (false, false, g) := by
  simp only [RttState.served, List.length_range]
  rfl

/-- So does the poll of the block. -/
theorem pollBlock_inRange (hg : g.InRange) :
    Asks RttOp.InArrays (fun r => r.2.2.InRange) (pollBlock g) := by
  rw [pollBlock_served]
  split
  · refine asks_memRead trivial hg fun cblock => ?_
    refine pollChannels_inRange _ _ _ hg.served ⟨hg.up, hg.sum, hg.enabled, fun i hi => ?_⟩
    have hlen : g.served.length ≤ maxRttChan := (List.length_range).trans_le hg.sum
    exact (if_neg (by omega)).trans (hg.channel i hi)
  · exact hg

/-- The timing says nothing about the channels. -/
theorem pollTiming_inRange (hg : g.InRange) (now : Nat) (busy err : Bool) :
    (pollTiming now busy err g).InRange := by
  unfold pollTiming
  dsimp only
  split
  · split
    · exact ⟨hg.up, hg.sum, hg.enabled, hg.channel⟩
    · exact ⟨hg.up, hg.sum, hg.enabled, hg.channel⟩
  · exact ⟨hg.up, hg.sum, hg.enabled, hg.channel⟩

/-- A poll keeps the indices in the arrays, whatever the target answers. -/
theorem pollRtt_inRange (hg : g.InRange) (now search : Nat) :
    Asks RttOp.InArrays RttState.InRange (pollRtt now search g) := by
  unfold pollRtt
  split
  · rw [asks_bind]
    refine (locateRtt_inRange hg search).imp fun g hg => ?_
    rw [asks_bind]
    refine (checkHeader_inRange hg).imp fun g hg => ?_
    rw [asks_bind]
    exact (pollBlock_inRange hg).imp fun r hr => pollTiming_inRange hr _ _ _
  · exact hg

end

/-! ## Commands -/

/-- The channels named in a command are in bounds. -/
theorem selectChannels_inRange (args : List (List UInt8)) {i : Nat}
    (h : selectChannels args i = true) : i < maxRttChan := by
  have hkeep : ∀ (args : List (List UInt8)) (enabled : Nat → Bool),
      (∀ i, enabled i = true → i < maxRttChan) →
        ∀ i, args.foldl (fun enabled arg =>
          let channel := (strtoulAuto arg).toNat
          if channel < maxRttChan then Function.update enabled channel true
            else enabled) enabled i = true →
            i < maxRttChan := by
    intro args
    induction args with
    | nil => exact fun _ henabled => henabled
    | cons arg args ih =>
      intro enabled henabled
      refine ih _ fun i hi => ?_
      dsimp only at hi
      split at hi
      · rename_i hchannel
        by_cases hne : i = (strtoulAuto arg).toNat
        · exact hne ▸ hchannel
        · rw [Function.update_of_ne hne] at hi
          exact henabled i hi
      · exact henabled i hi
  exact hkeep args (fun _ => false) (fun i hi => absurd hi Bool.false_ne_true) i h

/-- The globals that a command leaves and the indices that it prints are in range. -/
def CommandInRange (r : (RttState × RttSearch) × RttReply) : Prop := r.1.1.InRange ∧ r.2.InArrays

/-- Every `rtt` command leaves the channels in bounds. -/
theorem cmdRtt_inRange {g : RttState} (hg : g.InRange) (needsHalt : Bool) (argv : List (List UInt8))
    (c : RttSearch) : CommandInRange (cmdRtt needsHalt argv g c) := by
  have hsame : ∀ {g' : RttState}, g'.rttNumUpChan = g.rttNumUpChan →
      g'.rttNumDownChan = g.rttNumDownChan → g'.rttChannelEnabled = g.rttChannelEnabled →
      g'.rttChannel = g.rttChannel → g'.InRange := by
    intro g' hup hdown henabled hchannel
    exact ⟨hup ▸ hg.up, hup ▸ hdown ▸ hg.sum, henabled ▸ hg.enabled, hchannel ▸ hg.channel⟩
  have hrest : ∀ {p : Prop} [Decidable p] {x y : (RttState × RttSearch) × RttReply},
      CommandInRange x → CommandInRange y → CommandInRange (if p then x else y) := by
    intro p _ x y hx hy
    split
    · exact hx
    · exact hy
  refine hrest ⟨⟨hg.up, hg.sum, hg.enabled, fun _ _ => rfl⟩, trivial⟩ ?_
  refine hrest ⟨hsame rfl rfl rfl rfl, trivial⟩ ?_
  refine hrest ⟨hg, fun i hi => List.mem_range.1 (List.mem_filter.1 hi).1⟩ ?_
  refine hrest (hrest ?_ ?_) ?_
  · exact ⟨⟨hg.up, hg.sum, fun _ hi => absurd hi Bool.false_ne_true, hg.channel⟩, trivial⟩
  · exact ⟨⟨hg.up, hg.sum, fun _ hi => selectChannels_inRange _ hi, hg.channel⟩, trivial⟩
  refine hrest ⟨hg, trivial⟩ (hrest ⟨hg, trivial⟩ (hrest ?_ ?_))
  · refine ⟨hg, fun row hrow => ?_⟩
    obtain ⟨i, hi, rfl⟩ := List.mem_map.1 hrow
    exact hg.served i hi
  refine hrest ⟨hg, trivial⟩ (hrest ⟨hg, trivial⟩ (hrest ⟨hg, ?_⟩ ?_))
  · dsimp only
    split
    · trivial
    · trivial
  · exact hrest ⟨hsame rfl rfl rfl rfl, trivial⟩ ⟨hg, trivial⟩

/-! ## Runs -/

/-- What happens to the globals: a poll with the answers that the target and the terminal give, a
`rtt` command, and the start of the target's program from its entry. -/
inductive RttEvent
  | poll (now search : Nat) (answers : Nat → (o : RttOp) → o.Ans)
  | command (needsHalt : Bool) (argv : List (List UInt8))
  | vRun

/-- The globals after an event. -/
def rttEvent (s : RttState × RttSearch) : RttEvent → RttState × RttSearch
  | .poll now search answers => ((pollRtt now search s.1).answered answers 0, s.2)
  | .command needsHalt argv => (cmdRtt needsHalt argv s.1 s.2).1
  | .vRun => ({ s.1 with rttFound := false }, s.2)

/-- The globals at power on, with the identifier that was compiled in. -/
def rttPowerOn (ident : List UInt8) : RttState × RttSearch :=
  ({ rttEnabled := false
     rttFound := false
     rttAutoChannel := true
     rttCbaddr := 0
     rttNumUpChan := 0
     rttNumDownChan := 0
     rttChannelEnabled := fun _ => false
     rttChannel := fun _ => ⟨0, 0, 0, 0, 0, 0⟩
     rttMinPollMs := 8
     rttMaxPollMs := 256
     rttMaxPollErrs := 10
     pollMs := 0
     pollErrs := 0
     lastPollMs := 0
     rttFlagSkip := false
     rttFlagBlock := false
     savedCblockHeader := List.replicate 24 0
     xmitBuf := List.replicate rttUpBufSize 0 },
    ⟨ident, false, 0, 0⟩)

/-- So does every event. -/
theorem rttEvent_inRange {s : RttState × RttSearch} (hg : s.1.InRange) (e : RttEvent) :
    (rttEvent s e).1.InRange := by
  cases e with
  | poll now search answers => exact (pollRtt_inRange hg now search).answered answers 0
  | command needsHalt argv => exact (cmdRtt_inRange hg needsHalt argv s.2).1
  | vRun => exact ⟨hg.up, hg.sum, hg.enabled, hg.channel⟩

/-- So does every sequence of events, by induction on it. -/
theorem foldl_rttEvent_inRange :
    ∀ (events : List RttEvent) {s : RttState × RttSearch}, s.1.InRange →
    (events.foldl rttEvent s).1.InRange := by
  intro events
  induction events with
  | nil => exact fun hg => hg
  | cons e events ih => exact fun hg => ih (rttEvent_inRange hg e)

/-- In every state that polls and commands lead to, the counts fit the arrays; so they do when the
next poll comes to the channels, where every index and the size of the copy are in the arrays; and
the next command prints only channels of the arrays. -/
theorem channels_inRange (ident : List UInt8) (events : List RttEvent) :
    let s := events.foldl rttEvent (rttPowerOn ident)
    s.1.InRange ∧
      (∀ now search, Asks RttOp.InArrays RttState.InRange (pollRtt now search s.1)) ∧
      (∀ search, Asks RttOp.InArrays
        (fun g => g.InRange ∧ (∀ i ∈ g.served, i < maxRttChan) ∧ g.copySize ≤ 24 * maxRttChan)
        (locateRtt search s.1 >>= checkHeader)) ∧
      ∀ needsHalt argv, (cmdRtt needsHalt argv s.1 s.2).2.InArrays := by
  intro s
  have hs : s.1.InRange :=
    foldl_rttEvent_inRange events
      ⟨Nat.zero_le _, Nat.zero_le _, fun _ hi => absurd hi Bool.false_ne_true, fun _ _ => rfl⟩
  refine ⟨hs, pollRtt_inRange hs, fun search => ?_, fun needsHalt argv => ?_⟩
  · rw [asks_bind]
    refine (locateRtt_inRange hs search).imp fun g hg => ?_
    exact (checkHeader_inRange hg).imp fun g hg => ⟨hg, hg.served, hg.copySize⟩
  · exact (cmdRtt_inRange hs needsHalt argv s.2).2

end Blackmagic
