import Blackmagic.Usb.Glue

/-!
# Reception of GDB characters: `usb.c` and `gdb-glue.c`

The path of a character from the host to `gdb_if_getchar_to`: the FIFO of the CDC interface, the
receive callback, and a stream buffer. The callback runs in the task of TinyUSB and the GDB thread
takes characters at any time, so a run interleaves the steps of the callback with the transfers of
the host and the calls of the GDB thread.
-/

namespace Blackmagic

/-! ## The callback and the stream buffer -/

/-- `GDB_RX_BUFFER_SIZE`. -/
def gdbRxBufferSize : Nat := 4096

/-- `GDB_BUF_RX_SIZE`, `GDB_RX_PACKET_MAX_SIZE` and the size of a transfer. -/
def gdbBufRxSize : Nat := 64

/-- Where `usb_gdb_rx_callback` stands: it is not running, or it is about to check for free space,
to ask how much there is, to read from the FIFO, or to send to the stream buffer. -/
inductive GdbRxPoint
  | idle
  | canReceive
  | getFreeSize
  | gdbReceive (maxLen : Nat)
  | glueReceive (buffer : List UInt8)
  deriving DecidableEq, Repr

/-- The FIFO of the GDB interface, the stream buffer with `rx_stream_full`, and the callback. `sent`
is what the host has sent and `got` what the GDB thread was given. -/
structure GdbRx where
  fifo : List UInt8
  stream : List UInt8
  streamFull : Bool
  callback : GdbRxPoint
  sent : List UInt8
  got : List UInt8

/-- The state after `gdb_glue_init`. -/
def GdbRx.init : GdbRx :=
  { fifo := [], stream := [], streamFull := false, callback := .idle, sent := [], got := [] }

/-- `esp_system_abort` in the callback, and the failed check in `gdb_glue_receive`. -/
inductive GdbRxAbort
  | noFreeSpace
  | errorCheck
  deriving DecidableEq, Repr

/-- `xStreamBufferSpacesAvailable`. -/
def GdbRx.free (s : GdbRx) : Nat := gdbRxBufferSize - s.stream.length

/-- A transfer of the host. TinyUSB takes it when its FIFO has room, and calls back when the FIFO is
not empty; while the callback runs it takes none. -/
def usbOut (fifoSize : Nat) (data : List UInt8) (s : GdbRx) : GdbRx :=
  if s.callback = .idle ∧ data.length ≤ gdbBufRxSize ∧ s.fifo.length + data.length ≤ fifoSize then
    { s with
      fifo := s.fifo ++ data, sent := s.sent ++ data,
      callback := if s.fifo ++ data = [] then .idle else .canReceive }
  else s

/-- A step of `usb_gdb_rx_callback`. -/
def usbGdbRxCallback (s : GdbRx) : Except GdbRxAbort GdbRx :=
  match s.callback with
  | .idle => .ok s
  | .canReceive =>
    -- `gdb_glue_can_receive` sets the flag before the callback aborts
    if s.free = 0 then .error .noFreeSpace else .ok { s with callback := .getFreeSize }
  | .getFreeSize =>
    .ok { s with callback := .gdbReceive (if gdbBufRxSize < s.free then gdbBufRxSize else s.free) }
  | .gdbReceive maxLen =>
    let buffer := s.fifo.take maxLen
    .ok { s with
      fifo := s.fifo.drop maxLen, callback := if 0 < buffer.length then .glueReceive buffer
        else .idle }
  | .glueReceive buffer =>
    -- `gdb_glue_receive`
    if buffer.length ≤ s.free then .ok { s with stream := s.stream ++ buffer, callback := .idle }
    else .error .errorCheck

/-- `gdb_if_getchar_to`: nothing when the timeout passes. -/
def gdbIfGetcharTo (s : GdbRx) : GdbRx :=
  match s.stream with
  | [] => s
  | c :: rest =>
    let s := { s with stream := rest, got := s.got ++ [c] }
    if s.streamFull ∧ gdbBufRxSize ≤ s.free then { s with streamFull := false } else s

/-- An event of a run. -/
inductive GdbRxEvent
  | out (data : List UInt8)
  | callback
  | getchar
  deriving DecidableEq, Repr

/-- One event. -/
def gdbRxStep (fifoSize : Nat) (s : GdbRx) : GdbRxEvent → Except GdbRxAbort GdbRx
  | .out data => .ok (usbOut fifoSize data s)
  | .callback => usbGdbRxCallback s
  | .getchar => .ok (gdbIfGetcharTo s)

/-- A run. -/
def gdbRxRun (fifoSize : Nat) (s : GdbRx) : List GdbRxEvent → Except GdbRxAbort GdbRx
  | [] => .ok s
  | e :: es => do
    let s ← gdbRxStep fifoSize s e
    gdbRxRun fifoSize s es

/-! ## The invariant -/

/-- What the callback holds. -/
def GdbRxPoint.pending : GdbRxPoint → List UInt8
  | .glueReceive buffer => buffer
  | _ => []

/-- What the callback knows about the free space: the GDB thread can only add to it. -/
def GdbRxPoint.Fits (free : Nat) : GdbRxPoint → Prop
  | .getFreeSize => 0 < free
  | .gdbReceive maxLen => maxLen ≤ free
  | .glueReceive buffer => buffer.length ≤ free
  | _ => True

/-- The characters are in the queues in the order in which they were sent. -/
structure GdbRxInv (s : GdbRx) : Prop where
  order : s.sent = s.got ++ s.stream ++ s.callback.pending ++ s.fifo
  bound : s.stream.length ≤ gdbRxBufferSize
  fits : s.callback.Fits s.free

/-- More room admits what less room does. -/
theorem GdbRxPoint.Fits.mono {p : GdbRxPoint} {free free' : Nat} (h : p.Fits free)
    (hle : free ≤ free') : p.Fits free' := by
  cases p with
  | idle => trivial
  | canReceive => trivial
  | getFreeSize => exact Nat.lt_of_lt_of_le h hle
  | gdbReceive maxLen => exact Nat.le_trans h hle
  | glueReceive buffer => exact Nat.le_trans h hle

/-- The invariant at the start. -/
theorem GdbRxInv.init : GdbRxInv GdbRx.init := ⟨rfl, Nat.zero_le _, trivial⟩

/-- Data from the host keeps the invariant. -/
theorem usbOut_inv {s : GdbRx} (h : GdbRxInv s) (fifoSize : Nat) (data : List UInt8) :
    GdbRxInv (usbOut fifoSize data s) := by
  unfold usbOut
  split
  · next hroom =>
    have horder := h.order
    rw [hroom.1] at horder
    have hpoint : ∀ p : GdbRxPoint, p = .idle ∨ p = .canReceive → p.pending = [] ∧
        p.Fits s.free := by
      rintro p (rfl | rfl) <;> exact ⟨rfl, trivial⟩
    have hnext := hpoint (if s.fifo ++ data = [] then .idle else .canReceive) (by split <;> simp)
    refine ⟨?_, h.bound, hnext.2⟩
    dsimp only
    rw [hnext.1, horder]
    simp [GdbRxPoint.pending]
  · exact h

/-- Taking a character keeps it. -/
theorem gdbIfGetcharTo_inv {s : GdbRx} (h : GdbRxInv s) : GdbRxInv (gdbIfGetcharTo s) := by
  have horder := h.order
  have hbound := h.bound
  unfold gdbIfGetcharTo
  cases hs : s.stream with
  | nil => exact h
  | cons c rest =>
    rw [hs] at horder hbound
    rw [List.length_cons] at hbound
    have hfits : s.callback.Fits (gdbRxBufferSize - rest.length) := by
      refine h.fits.mono ?_
      rw [GdbRx.free, hs, List.length_cons]
      omega
    have horder' : s.sent = s.got ++ [c] ++ rest ++ s.callback.pending ++ s.fifo := by
      rw [horder]
      simp
    dsimp only
    split
    · exact ⟨horder', Nat.le_of_succ_le hbound, hfits⟩
    · exact ⟨horder', Nat.le_of_succ_le hbound, hfits⟩

/-- **A step of the callback.** It aborts exactly when it checks for space and there is none. -/
theorem usbGdbRxCallback_spec {s : GdbRx} (h : GdbRxInv s) :
    (∃ s', usbGdbRxCallback s = .ok s' ∧ GdbRxInv s' ∧
      (s.callback = .canReceive → s.stream.length < gdbRxBufferSize)) ∨
    usbGdbRxCallback s = .error .noFreeSpace ∧ s.callback = .canReceive ∧
      ¬ s.stream.length < gdbRxBufferSize := by
  have horder := h.order
  have hbound := h.bound
  have hfits := h.fits
  unfold usbGdbRxCallback
  cases hc : s.callback with
  | idle => exact .inl ⟨s, rfl, h, nofun⟩
  | canReceive =>
    rw [hc] at horder
    by_cases hfull : s.free = 0
    · right
      unfold GdbRx.free at hfull
      exact ⟨if_pos (by unfold GdbRx.free; exact hfull), rfl, by omega⟩
    · left
      refine ⟨_, if_neg hfull, ⟨horder, hbound, Nat.pos_of_ne_zero hfull⟩, fun _ => ?_⟩
      unfold GdbRx.free at hfull
      omega
  | getFreeSize =>
    left
    rw [hc] at horder
    refine ⟨_, rfl, ⟨horder, hbound, ?_⟩, nofun⟩
    show (if gdbBufRxSize < s.free then gdbBufRxSize else s.free) ≤ s.free
    split <;> omega
  | gdbReceive maxLen =>
    left
    rw [hc] at horder hfits
    refine ⟨_, rfl, ⟨?_, hbound, ?_⟩, nofun⟩
    · dsimp only
      rw [horder]
      split
      · simp [GdbRxPoint.pending]
      · next hempty =>
        have hnil : s.fifo.take maxLen = [] := List.length_eq_zero_iff.1 (by omega)
        have hdrop : s.fifo.drop maxLen = s.fifo := by
          have := List.take_append_drop maxLen s.fifo
          rwa [hnil, List.nil_append] at this
        simp [GdbRxPoint.pending, hdrop]
    · dsimp only
      split
      · refine Nat.le_trans ?_ hfits
        rw [List.length_take]
        exact Nat.min_le_left _ _
      · trivial
  | glueReceive buffer =>
    left
    rw [hc] at horder hfits
    have hroom : buffer.length ≤ s.free := hfits
    refine ⟨_, if_pos hroom, ⟨?_, ?_, trivial⟩, nofun⟩
    · dsimp only
      rw [horder]
      simp [GdbRxPoint.pending]
    · unfold GdbRx.free at hroom
      rw [List.length_append]
      omega

/-- The callback never checks for space while the stream buffer is full. -/
def RoomWhenChecked (s : GdbRx) (e : GdbRxEvent) : Prop :=
  e = .callback → s.callback = .canReceive → s.stream.length < gdbRxBufferSize

/-- Every event of the run of `es` from `s` meets `P` in the state before it. -/
def GdbRxAlong (fifoSize : Nat) (P : GdbRx → GdbRxEvent → Prop) (s : GdbRx) (es : List GdbRxEvent) :
    Prop :=
  ∀ es₁ e es₂ s', es = es₁ ++ e :: es₂ → gdbRxRun fifoSize s es₁ = .ok s' → P s' e

/-- One event keeps the invariant, and aborts exactly when the condition fails. -/
theorem gdbRxStep_spec {s : GdbRx} (h : GdbRxInv s) (fifoSize : Nat) (e : GdbRxEvent) :
    (∃ s', gdbRxStep fifoSize s e = .ok s' ∧ GdbRxInv s' ∧ RoomWhenChecked s e) ∨
    gdbRxStep fifoSize s e = .error .noFreeSpace ∧ ¬ RoomWhenChecked s e := by
  cases e with
  | out data => exact .inl ⟨_, rfl, usbOut_inv h fifoSize data, nofun⟩
  | getchar => exact .inl ⟨_, rfl, gdbIfGetcharTo_inv h, nofun⟩
  | callback =>
    rcases usbGdbRxCallback_spec h with ⟨s', hok, hinv, hroom⟩ | ⟨hab, hpoint, hfull⟩
    · exact .inl ⟨s', hok, hinv, fun _ => hroom⟩
    · exact .inr ⟨hab, fun hroom => hfull (hroom rfl hpoint)⟩

/-- **A run.** From the invariant a run keeps it, and it goes through exactly when the condition
holds at every event. -/
theorem gdbRxRun_spec (fifoSize : Nat) : ∀ {es : List GdbRxEvent} {s : GdbRx}, GdbRxInv s →
    (∀ s', gdbRxRun fifoSize s es = .ok s' → GdbRxInv s') ∧
    ((∃ s', gdbRxRun fifoSize s es = .ok s') ↔ GdbRxAlong fifoSize RoomWhenChecked s es) := by
  intro es
  induction es with
  | nil =>
    intro s h
    refine ⟨fun s' hs' => ?_, ⟨fun _ es₁ e es₂ s' hes _ => ?_, fun _ => ⟨s, rfl⟩⟩⟩
    · cases hs'
      exact h
    · simp at hes
  | cons e es ih =>
    intro s h
    rcases gdbRxStep_spec h fifoSize e with ⟨s₁, hstep, hinv, hroom⟩ | ⟨hstep, hfull⟩
    · have hrun : gdbRxRun fifoSize s (e :: es) = gdbRxRun fifoSize s₁ es := by
        rw [gdbRxRun, hstep]
        rfl
      have htail : GdbRxAlong fifoSize RoomWhenChecked s (e :: es) ↔
          GdbRxAlong fifoSize RoomWhenChecked s₁ es := by
        constructor
        · intro hall es₁ e' es₂ s' hes hs'
          refine hall (e :: es₁) e' es₂ s' (by rw [hes]; rfl) ?_
          rw [gdbRxRun, hstep]
          exact hs'
        · intro hall es₁ e' es₂ s' hes hs'
          cases es₁ with
          | nil =>
            cases hes
            cases hs'
            exact hroom
          | cons e₁ es₁ =>
            cases hes
            rw [gdbRxRun, hstep] at hs'
            exact hall es₁ e' es₂ s' rfl hs'
      rw [hrun, htail]
      exact ih hinv
    · have hrun : gdbRxRun fifoSize s (e :: es) = .error .noFreeSpace := by
        rw [gdbRxRun, hstep]
        rfl
      rw [hrun]
      refine ⟨nofun, iff_of_false (by rintro ⟨s', h⟩; cases h) fun hall => ?_⟩
      exact hfull (hall [] e es s rfl rfl)

/-- **Reception of GDB characters.** In every interleaving what the GDB thread was given is a prefix
of what the host sent. No abort is reached exactly when the callback never checks for space while
the stream buffer is full. -/
theorem gdbRxRun_lossless (fifoSize : Nat) (es : List GdbRxEvent) :
    (∀ s, gdbRxRun fifoSize GdbRx.init es = .ok s → s.got <+: s.sent) ∧
    ((∃ s, gdbRxRun fifoSize GdbRx.init es = .ok s ∧ s.got <+: s.sent) ↔
      GdbRxAlong fifoSize RoomWhenChecked GdbRx.init es) := by
  obtain ⟨hinv, hiff⟩ := @gdbRxRun_spec fifoSize es _ GdbRxInv.init
  have hpre : ∀ s, gdbRxRun fifoSize GdbRx.init es = .ok s → s.got <+: s.sent := by
    intro s hs
    rw [(hinv s hs).order, List.append_assoc, List.append_assoc]
    exact List.prefix_append _ _
  refine ⟨hpre, ⟨fun ⟨s, hs, _⟩ => hiff.1 ⟨s, hs⟩, fun hall => ?_⟩⟩
  obtain ⟨s, hs⟩ := hiff.2 hall
  exact ⟨s, hs, hpre s hs⟩

/-! ## A full stream buffer -/

/-- A run in two parts. -/
theorem gdbRxRun_append (fifoSize : Nat) (es es' : List GdbRxEvent) : ∀ s : GdbRx,
    gdbRxRun fifoSize s (es ++ es') = gdbRxRun fifoSize s es >>= fun s =>
      gdbRxRun fifoSize s es' := by
  induction es with
  | nil =>
    intro s
    rfl
  | cons e es ih =>
    intro s
    simp only [List.cons_append, gdbRxRun]
    cases gdbRxStep fifoSize s e with
    | error a => rfl
    | ok s₁ => exact ih s₁

/-- A full transfer and the steps of the callback that it starts. -/
def transferRound : List GdbRxEvent :=
  [.out (List.replicate 64 0), .callback, .callback, .callback, .callback]

/-- A full transfer into an empty FIFO starts the callback. -/
theorem usbOut_full {s : GdbRx} (hidle : s.callback = .idle) (hfifo : s.fifo = []) :
    usbOut 64 (List.replicate 64 0) s = { s with
      fifo := List.replicate 64 0, sent := s.sent ++ List.replicate 64 0, callback :=
  .canReceive } := by
  have hroom : s.callback = .idle ∧ (List.replicate 64 (0 : UInt8)).length ≤ gdbBufRxSize ∧
      s.fifo.length + (List.replicate 64 (0 : UInt8)).length ≤ 64 := by
    rw [hfifo, List.length_replicate]
    exact ⟨hidle, Nat.le_refl _, Nat.le_refl _⟩
  rw [usbOut, if_pos hroom, hfifo]
  rfl

/-- With room for it, a full transfer ends up in the stream buffer. -/
theorem transferRound_ok {s : GdbRx} (hidle : s.callback = .idle) (hfifo : s.fifo = [])
    (hroom : s.stream.length + 64 ≤ gdbRxBufferSize) :
    gdbRxRun 64 s transferRound = .ok { s with
      stream := s.stream ++ List.replicate 64 0, sent := s.sent ++ List.replicate 64 0 } := by
  have hfree : 64 ≤ s.free := by
    unfold GdbRx.free
    omega
  have hmax : (if gdbBufRxSize < s.free then gdbBufRxSize else s.free) = 64 := by
    unfold gdbBufRxSize
    split <;> omega
  have hfree' : ∀ (fifo sent : List UInt8) (p : GdbRxPoint),
      GdbRx.free { s with fifo := fifo, sent := sent, callback := p } = s.free := fun _ _ _ => rfl
  simp only [transferRound, gdbRxRun, gdbRxStep, Run.ok_bind, usbOut_full hidle hfifo,
    usbGdbRxCallback, hfree', if_neg (show ¬ s.free = 0 by omega), hmax, List.take_replicate,
    List.drop_replicate, List.length_replicate, Nat.min_self, if_pos (show 0 < 64 by decide),
    if_pos hfree, Nat.sub_self, List.replicate_zero]
  rw [← hidle, ← hfifo]

/-- Full transfers pile up in the stream buffer while the GDB thread is busy. -/
theorem transferRounds_ok (k : Nat) : ∀ s : GdbRx, s.callback = .idle → s.fifo = [] →
    s.stream.length + 64 * k ≤ gdbRxBufferSize →
    ∃ s', gdbRxRun 64 s (List.replicate k transferRound).flatten = .ok s' ∧ s'.callback = .idle ∧
      s'.fifo = [] ∧ s'.stream.length = s.stream.length + 64 * k := by
  induction k with
  | zero =>
    intro s hidle hfifo _
    exact ⟨s, rfl, hidle, hfifo, rfl⟩
  | succ k ih =>
    intro s hidle hfifo hroom
    obtain ⟨s', hrun, hidle', hfifo', hlen⟩ := ih { s with
      stream := s.stream ++ List.replicate 64 0, sent := s.sent ++ List.replicate 64 0 } hidle hfifo
      (by rw [List.length_append, List.length_replicate]; omega)
    refine ⟨s', ?_, hidle', hfifo', ?_⟩
    · rw [List.replicate_succ, List.flatten_cons, gdbRxRun_append,
        transferRound_ok hidle hfifo (by omega)]
      exact hrun
    · rw [hlen, List.length_append, List.length_replicate]
      omega

/-- Sixty-five full transfers while the GDB thread is busy: the last one finds no room and
aborts. -/
theorem gdbRxRun_aborts : ¬ ∃ s, gdbRxRun 64 GdbRx.init (List.replicate 65 transferRound).flatten =
    .ok s ∧ s.got <+: s.sent := by
  obtain ⟨s, hrun, hidle, hfifo, hlen⟩ :=
    transferRounds_ok 64 GdbRx.init rfl rfl (show 0 + 64 * 64 ≤ 4096 by decide)
  have hfree : s.free = 0 := by
    unfold GdbRx.free
    rw [hlen]
    decide
  have haborts : gdbRxRun 64 GdbRx.init (List.replicate 65 transferRound).flatten =
      .error .noFreeSpace := by
    rw [List.replicate_succ' (n := 64), List.flatten_append, gdbRxRun_append, hrun, Run.ok_bind]
    have hfree' : ∀ (fifo sent : List UInt8) (p : GdbRxPoint),
        GdbRx.free { s with fifo := fifo, sent := sent, callback := p } = s.free := fun _ _ _ => rfl
    simp only [List.flatten_cons, List.flatten_nil, List.append_nil, transferRound, gdbRxRun,
      gdbRxStep, Run.ok_bind, usbOut_full hidle hfifo, usbGdbRxCallback, hfree', hfree, if_true]
    rfl
  rintro ⟨s', hs', -⟩
  rw [haborts] at hs'
  cases hs'

end Blackmagic
