import Blackmagic.Remote.Process

/-!
# Remote packets in bounds

A packet is handled properly when it uses `jtag_devs` and its buffers inside their bounds, gives the
responder a string, runs no more clock cycles than it encodes, and has one response. `Sound` says
for each packet when that is so. Every response with data goes over the end of the buffer of
`remote_send_buf`, so the packets that read something are sound only when they fail.
-/

namespace Blackmagic.Remote

open Scanf

/-! ## Proper handling -/

/-- An act stays in its bounds. -/
def Act.Fine : Act → Prop
  | .jtagDev index => index < jtagMaxDevs
  | .store s => s.index < s.capacity
  | .string text => text ≠ none
  | .clock encoded ran => ran ≤ encoded
  | .nullCall => False
  | .response _ => True

/-- Whether an act is a response. -/
def Act.isResponse : Act → Bool
  | .response _ => true
  | _ => false

/-- All acts stay in their bounds, and there is exactly one response. -/
def Proper (acts : List Act) : Prop := (∀ a ∈ acts, a.Fine) ∧ acts.countP Act.isResponse = 1

instance : (a : Act) → Decidable a.Fine
  | .jtagDev index => inferInstanceAs (Decidable (index < jtagMaxDevs))
  | .store s => inferInstanceAs (Decidable (s.index < s.capacity))
  | .string text => inferInstanceAs (Decidable (text ≠ none))
  | .clock encoded ran => inferInstanceAs (Decidable (ran ≤ encoded))
  | .nullCall => inferInstanceAs (Decidable False)
  | .response _ => inferInstanceAs (Decidable True)

instance (acts : List Act) : Decidable (Proper acts) := inferInstanceAs (Decidable (_ ∧ _))

/-- Acts before a response, each of which stays in its bounds. -/
def Prelude (acts : List Act) : Prop := ∀ a ∈ acts, a.Fine ∧ a.isResponse = false

/-- A framed response is proper. -/
theorem proper_framed (code : UInt8) (body : List UInt8) : Proper [framed code body] :=
  ⟨List.forall_mem_singleton.2 trivial, rfl⟩

/-- A prelude holds no response. -/
theorem Prelude.countP {acts : List Act} (h : Prelude acts) : acts.countP Act.isResponse = 0 :=
  List.countP_eq_zero.2 fun a ha => by rw [(h a ha).2]; exact Bool.false_ne_true

/-- Acts in bounds before properly handled ones. -/
theorem Prelude.proper_append_iff {acts acts' : List Act} (h : Prelude acts) :
    Proper (acts ++ acts') ↔ Proper acts' := by
  unfold Proper
  rw [List.forall_mem_append, List.countP_append, h.countP, Nat.zero_add, and_assoc,
    and_iff_right fun a ha => (h a ha).1]

/-- A prelude before what is proper is proper. -/
theorem Prelude.proper_append {acts acts' : List Act} (h : Prelude acts) (h' : Proper acts') :
    Proper (acts ++ acts') := h.proper_append_iff.2 h'

/-- Nothing is a prelude. -/
theorem prelude_nil : Prelude [] := List.forall_mem_nil _

/-- A prelude in two parts. -/
theorem prelude_append {acts acts' : List Act} (h : Prelude acts) (h' : Prelude acts') :
    Prelude (acts ++ acts') := List.forall_mem_append.2 ⟨h, h'⟩

/-- A fine action before a prelude. -/
theorem prelude_cons {a : Act} {acts : List Act} (ha : a.Fine) (hno : a.isResponse = false)
    (h : Prelude acts) : Prelude (a :: acts) := List.forall_mem_cons.2 ⟨⟨ha, hno⟩, h⟩

/-- Stores in bounds are a prelude. -/
theorem prelude_stores {stores : List Store} (h : ∀ s ∈ stores, s.index < s.capacity) :
    Prelude (stores.map .store) := by
  intro a ha
  obtain ⟨s, hs, rfl⟩ := List.mem_map.1 ha
  exact ⟨h s hs, rfl⟩

/-- Devices in bounds are a prelude. -/
theorem prelude_jtagDevs {n : Nat} (h : n ≤ jtagMaxDevs) :
    Prelude ((List.range n).map .jtagDev) := by
  intro a ha
  obtain ⟨i, hi, rfl⟩ := List.mem_map.1 ha
  exact ⟨(List.mem_range.1 hi).trans_le h, rfl⟩

/-- An action that is not fine spoils the sequence. -/
theorem not_proper_of_mem {a : Act} {acts : List Act} (ha : a ∈ acts) (h : ¬ a.Fine) :
    ¬ Proper acts :=
  fun hproper => h (hproper.1 a ha)

/-! ## Responses -/

/-- No more digits are written than asked for. -/
theorem length_responseDigits_le (left : Nat) :
    ∀ param, (responseDigits left param).length ≤ left := by
  induction left with
  | zero => exact fun _ => Nat.le_refl _
  | succ left ih =>
    intro param
    rw [responseDigits]
    split
    · exact Nat.zero_le _
    · exact Nat.succ_le_succ (ih _)

/-- A response has sixteen digits at most. -/
theorem length_responseText_le (param : UInt64) : (responseText param).length ≤ 16 := by
  unfold responseText
  split
  · decide
  · exact length_responseDigits_le 16 param

/-- A response is proper. -/
theorem proper_respond (code : UInt8) (param : UInt64) : Proper (respond code param) :=
  (prelude_stores (unhexifyStores_inside.2 (length_responseText_le param))).proper_append
    (proper_framed _ _)

/-- Data is sent through a buffer that is too small. -/
theorem proper_respondBuf_iff (code : UInt8) (data : List UInt8) :
    Proper (respondBuf code data) ↔ data = [] := by
  cases data with
  | nil => exact iff_of_true (proper_framed _ _) rfl
  | cons c data =>
    have hover : Act.store ⟨2, 2⟩ ∈ respondBuf code (c :: data) :=
      List.mem_append_left _ (List.mem_flatMap.2 ⟨c, List.mem_cons_self, by decide⟩)
    exact iff_of_false (not_proper_of_mem hover (Nat.lt_irrefl 2)) (List.cons_ne_nil c data)

/-- A call through a procedure pointer needs one that is set. -/
theorem proper_throughProc_iff (isSet : Bool) (acts : List Act) :
    Proper (throughProc isSet acts) ↔ isSet = true ∧ Proper acts := by
  cases isSet with
  | false =>
    exact iff_of_false (not_proper_of_mem (List.mem_singleton_self _) id) fun h =>
      Bool.false_ne_true h.1
  | true => exact (and_iff_right rfl).symm

/-- A loop of clock cycles before a response. -/
theorem proper_clock_iff (encoded ran : Nat) {acts : List Act} (h : Proper acts) :
    Proper (.clock encoded ran :: acts) ↔ ran ≤ encoded := by
  constructor
  · exact fun hproper => hproper.1 _ List.mem_cons_self
  · intro hle
    have hpre : Prelude [Act.clock encoded ran] := prelude_cons hle rfl prelude_nil
    exact hpre.proper_append h

/-! ## Numbers -/

section
variable {packet stale : List UInt8}

/-- A number ends at the terminator. -/
theorem hexStringToNum_append (maxDigits : Nat) (str : List UInt8) :
    hexStringToNum maxDigits (str ++ 0 :: stale) = hexStringToNum maxDigits str := by
  unfold hexStringToNum
  congr 1
  induction str generalizing maxDigits with
  | nil => cases maxDigits <;> rfl
  | cons c str ih =>
    cases maxDigits with
    | zero => rfl
    | succ n => rw [List.cons_append, List.take_succ_cons, List.take_succ_cons, List.takeWhile_cons,
        List.takeWhile_cons, ih]

/-- A field that begins in the packet, or at its terminator, is read from the packet. -/
theorem hexStringToNum_drop (maxDigits : Nat) {offset : Nat} (h : offset ≤ packet.length) :
    hexStringToNum maxDigits ((packet ++ 0 :: stale).drop offset) =
      hexStringToNum maxDigits (packet.drop offset) := by
  rw [List.drop_append_of_le_length h, hexStringToNum_append]

/-- A number in a packet is read from the packet only. -/
theorem encoded_eq (maxDigits offset : Nat) :
    encoded maxDigits offset (packet ++ 0 :: stale) packet.length =
      (hexStringToNum maxDigits (packet.drop offset)).toNat := by
  rw [encoded, List.take_left]

/-- A digit is below sixteen. -/
theorem unhexDigit_lt {c : UInt8} (h : isHex c = true) : (unhexDigit c).toNat < 16 := by
  have hall : ∀ n < 256, isHex (UInt8.ofNat n) = true → (unhexDigit (UInt8.ofNat n)).toNat <
      16 := by
    decide +kernel
  have := hall c.toNat c.toNat_lt
  rw [UInt8.ofNat_toNat] at this
  exact this h

/-- Each digit makes a number sixteen times as large at most. -/
theorem toNat_shiftLeft_or_lt {ret : UInt64} {d : UInt8} {j : Nat} (hret : ret.toNat < 16 ^ j)
    (hd : d.toNat < 16) : (ret <<< 4 ||| d.toUInt64).toNat < 16 ^ (j + 1) := by
  have hpow : (16 : Nat) ^ (j + 1) = 2 ^ (4 * (j + 1)) := by rw [Nat.pow_mul]
  rw [UInt64.toNat_or, UInt64.toNat_shiftLeft, hpow]
  refine Nat.or_lt_two_pow (Nat.mod_lt_of_lt ?_) ?_
  · rw [← hpow, Nat.pow_succ]
    change ret.toNat <<< 4 < _
    rw [Nat.shiftLeft_eq]
    omega
  · rw [UInt8.toNat_toUInt64, ← hpow, Nat.pow_succ]
    have := Nat.one_le_pow j 16 (by decide)
    omega

/-- Digits put together fill as many nibbles, by induction on them. -/
theorem toNat_foldl_digits_lt : ∀ {digits : List UInt8} {ret : UInt64} {j : Nat},
    (∀ c ∈ digits, isHex c = true) → ret.toNat < 16 ^ j →
      (digits.foldl (fun (ret : UInt64) value => ret <<< 4 ||| (unhexDigit value).toUInt64)
        ret).toNat <
        16 ^ (j + digits.length) := by
  intro digits
  induction digits with
  | nil => exact fun _ hret => hret
  | cons c digits ih =>
    intro ret j hhex hret
    have hstep := toNat_shiftLeft_or_lt hret (unhexDigit_lt (hhex c List.mem_cons_self))
    have := ih (fun d hd => hhex d (List.mem_cons_of_mem _ hd)) hstep
    rwa [List.length_cons, Nat.add_comm digits.length, ← Nat.add_assoc]

/-- A number has at most as many digits as it is read with. -/
theorem hexStringToNum_lt (maxDigits : Nat) (str : List UInt8) :
    (hexStringToNum maxDigits str).toNat < 16 ^ maxDigits := by
  unfold hexStringToNum
  set digits := (str.take maxDigits).takeWhile isHex
  have hlen : digits.length ≤ maxDigits :=
    (List.takeWhile_sublist _).length_le.trans (List.length_take_le _ _)
  have hhex : ∀ c ∈ digits, isHex c = true := fun c hc => List.mem_takeWhile_imp hc
  have hlt := toNat_foldl_digits_lt hhex (by decide : (0 : UInt64).toNat < 16 ^ 0)
  rw [Nat.zero_add] at hlt
  exact hlt.trans_le (Nat.pow_le_pow_right (by decide) hlen)

/-- A number of eight digits fits a word. -/
theorem hexStringToNum_toUInt32 (str : List UInt8) :
    (hexStringToNum 8 str).toUInt32.toNat = (hexStringToNum 8 str).toNat := by
  rw [UInt64.toNat_toUInt32]
  exact Nat.mod_eq_of_lt (hexStringToNum_lt 8 str)

/-- The first character is the packet's, or its terminator. -/
theorem getD_zero_terminated : (packet ++ 0 :: stale).getD 0 0 = packet.getD 0 0 := by
  cases packet <;> rfl

/-- So is the second. -/
theorem getD_one_terminated (h : packet ≠ []) :
    (packet ++ 0 :: stale).getD 1 0 = packet.getD 1 0 := by
  obtain ⟨c, packet, rfl⟩ := List.exists_cons_of_ne_nil h
  cases packet <;> rfl

/-- A second character means two characters. -/
theorem two_le_length (h : packet.getD 1 0 ≠ 0) : 2 ≤ packet.length := by
  by_contra! hlt
  exact h (List.getD_eq_default _ _ (by omega))

/-- The number at the start of the arguments is the one that the packet encodes. -/
theorem cycles_le_encoded (maxDigits : Nat) {offset : Nat} (h : offset ≤ packet.length) :
    (hexStringToNum maxDigits ((packet ++ 0 :: stale).drop offset)).toNat ≤
      encoded maxDigits offset (packet ++ 0 :: stale) packet.length := by
  rw [hexStringToNum_drop maxDigits h, encoded_eq]

end

/-! ## Sound packets -/

/-- The SWD packets that are handled properly: `swd_proc` is set where it is used. -/
def SoundSwd (st : State) (packet : List UInt8) : Prop :=
  match swdCommand (packet.getD 1 0) with
  | .init | .unrecognised => True
  | .seqInPar | .seqIn | .seqOut | .seqOutPar => st.swdProc = true

/-- The JTAG packets that are handled properly: `jtag_proc` is set where it is used, a shift is of
at most 64 cycles, and a number of cycles is not zero. -/
def SoundJtag (st : State) (packet : List UInt8) : Prop :=
  match jtagCommand (packet.getD 1 0) with
  | .init | .unrecognised => True
  | .reset => st.jtagProc = true
  | .tms => packet.length < 4 ∨ st.jtagProc = true
  | .cycle => st.jtagProc = true ∧ 1 ≤ (hexStringToNum 8 (packet.drop 4)).toNat
  | .tdiTdo =>
    packet.length < 5 ∨ st.jtagProc = true ∧ (hexStringToNum 2 (packet.drop 2)).toNat ≤ 64
  | .next => packet.length ≠ 4 ∨ st.jtagProc = true

/-- The general packets that are handled properly: not the voltage, nor the frequency. -/
def SoundGeneral (packet : List UInt8) : Prop :=
  generalCommand (packet.getD 1 0) ≠ .voltage ∧ generalCommand (packet.getD 1 0) ≠ .freqGet

/-- The high-level packets that are handled properly: a device has a place in `jtag_devs`. -/
def SoundHighLevel (packet : List UInt8) : Prop :=
  hlCommand (packet.getD 1 0) = .addJtagDev → 22 ≤ packet.length →
    (devIndexArg packet).toNat < jtagMaxDevs

/-- The accesses that are handled properly: `remote_dp` is set up, over JTAG for a device of
`jtag_devs`, and the access gives no data. -/
def SoundAccess (env : Env) (st : State) (devIndex apsel : UInt8) (a : Access) : Prop :=
  (a.reachesDp = true → st.dp ≠ none) ∧
    (a.reachesDp = true → st.dp = some .jtag → devIndex.toNat < jtagMaxDevs) ∧
    ∀ data, env.adiv5 devIndex apsel a = .done data → a.replyLength.getD 0 = 0

/-- The ADIv5 packets that are handled properly. The fields of a short packet are in what is behind
it. -/
def SoundAdiv5 (env : Env) (st : State) (pbuf : List UInt8) (len : Nat) : Prop :=
  8 ≤ len → ∀ a, adiv5Request pbuf = .access a →
    SoundAccess env st (devIndexArg pbuf) (field 2 4 pbuf).toUInt8 a

/-- The SPI packets that are handled properly: they read nothing. -/
def SoundSpi (pbuf : List UInt8) (len : Nat) : Prop :=
  4 ≤ len → match spiCommand (pbuf.getD 1 0) with
    | .read => 256 < spiLength pbuf ∨ spiLength pbuf = 0
    | .chipId => False
    | _ => True

/-- The packets that are handled properly, before what earlier packets left in the buffer. -/
def Sound (env : Env) (st : State) (packet stale : List UInt8) : Prop :=
  match kind (packet.getD 0 0) with
  | .swdp => SoundSwd st packet
  | .jtag => SoundJtag st packet
  | .general => SoundGeneral packet
  | .highLevel => SoundHighLevel packet
  | .adiv5 => SoundAdiv5 env st (packet ++ 0 :: stale) packet.length
  | .spi => SoundSpi (packet ++ 0 :: stale) packet.length
  | .unrecognised => True

section
variable {env : Env} {st : State} {packet stale : List UInt8}

/-- An SWD packet is handled properly exactly when it is sound. -/
theorem proper_swd_iff (hne : packet ≠ []) :
    Proper (packetProcessSwd env st (packet ++ 0 :: stale) packet.length) ↔ SoundSwd st packet := by
  unfold packetProcessSwd SoundSwd
  rw [getD_one_terminated hne]
  -- a command that is recognised is in the packet
  have hlen : swdCommand (packet.getD 1 0) ≠ .unrecognised → 2 ≤ packet.length := fun h =>
    two_le_length fun hzero => h (by rw [hzero]; rfl)
  have hloop : ∀ {acts}, swdCommand (packet.getD 1 0) ≠ .unrecognised → Proper acts →
      (Proper (throughProc st.swdProc (.clock (encoded 2 2 (packet ++ 0 :: stale) packet.length)
        (hexStringToNum 2 ((packet ++ 0 :: stale).drop 2)).toNat :: acts)) ↔
          st.swdProc = true) := by
    intro acts h hacts
    rw [proper_throughProc_iff, proper_clock_iff _ _ hacts,
      and_iff_left (cycles_le_encoded 2 (hlen h))]
  cases hcommand : swdCommand (packet.getD 1 0) with
  | init =>
    refine iff_of_true ?_ trivial
    dsimp only
    split <;> exact proper_respond _ _
  | seqInPar | seqIn | seqOut | seqOutPar =>
    exact hloop (by rw [hcommand]; decide) (proper_respond _ _)
  | unrecognised => exact iff_of_true (proper_respond _ _) trivial

/-- The last byte that a shift stores is the last one that it reaches. -/
theorem tdiTdoStores_inside {capacity clockCycles : Nat} :
    (∀ s ∈ tdiTdoStores capacity clockCycles, s.index < s.capacity) ↔
      clockCycles ≤ 8 * capacity := by
  unfold tdiTdoStores
  constructor
  · intro h
    by_contra! hlt
    by_cases hrest : clockCycles % 8 = 0
    · have hlast : clockCycles - 1 ∈ (List.range clockCycles).filter fun cycle => cycle % 8 = 7 :=
        List.mem_filter.2 ⟨List.mem_range.2 (by omega), decide_eq_true (by omega)⟩
      have : (clockCycles - 1) / 8 < capacity :=
        h _ (List.mem_append_left _ (List.mem_map_of_mem hlast))
      omega
    · have : (clockCycles - 1) / 8 < capacity :=
        h ⟨capacity, (clockCycles - 1) / 8⟩
          (List.mem_append_right _ (by rw [if_pos hrest]; exact List.mem_singleton_self _))
      omega
  · intro h s hs
    rcases List.mem_append.1 hs with hs | hs
    · obtain ⟨cycle, hcycle, rfl⟩ := List.mem_map.1 hs
      have := List.mem_range.1 (List.mem_filter.1 hcycle).1
      dsimp only
      omega
    · split at hs
      · rw [List.mem_singleton.1 hs]
        dsimp only
        omega
      · cases hs

/-- A loop of no cycles goes round as often as a word counts. -/
theorem jtagtapCycle_le_iff (clockCycles : UInt32) :
    jtagtapCycle clockCycles ≤ clockCycles.toNat ↔ 1 ≤ clockCycles.toNat := by
  unfold jtagtapCycle
  rw [UInt32.toNat_sub]
  have := clockCycles.toNat_lt
  simp
  omega

/-- So is a JTAG packet. -/
theorem proper_jtag_iff (hne : packet ≠ []) :
    Proper (packetProcessJtag env st (packet ++ 0 :: stale) packet.length) ↔
      SoundJtag st packet := by
  unfold packetProcessJtag SoundJtag
  rw [getD_one_terminated hne]
  cases hcommand : jtagCommand (packet.getD 1 0) with
  | init | unrecognised => exact iff_of_true (proper_respond _ _) trivial
  | reset => exact (proper_throughProc_iff _ _).trans (and_iff_left (proper_respond _ _))
  | tms =>
    dsimp only
    split
    · next hlt => exact iff_of_true (proper_respond _ _) (.inl hlt)
    · next hlt =>
      rw [proper_throughProc_iff, proper_clock_iff _ _ (proper_respond _ _),
        and_iff_left (cycles_le_encoded 2 (by omega)), or_iff_right hlt]
  | cycle =>
    dsimp only
    rw [proper_throughProc_iff, proper_clock_iff _ _ (proper_respond _ _), encoded_eq]
    refine and_congr_right fun _ => ?_
    rcases Nat.lt_or_ge packet.length 4 with hlt | hge
    · -- the packet encodes no number, and one cycle is run in any case
      have hdrop : packet.drop 4 = [] := List.drop_of_length_le (by omega)
      rw [hdrop]
      refine iff_of_false (fun h => ?_) (by decide)
      have : 1 ≤ 0 := (Nat.le_add_right 1 _).trans h
      omega
    · rw [hexStringToNum_drop 8 hge, ← hexStringToNum_toUInt32]
      exact jtagtapCycle_le_iff _
  | tdiTdo =>
    dsimp only
    split
    · next hlt => exact iff_of_true (proper_respond _ _) (.inl hlt)
    · next hlt =>
      rw [proper_throughProc_iff, or_iff_right hlt]
      refine and_congr_right fun _ => ?_
      rw [hexStringToNum_drop 2 (by omega), ← @tdiTdoStores_inside 8]
      constructor
      · intro h s hs
        exact h.1 (.store s)
          (List.mem_cons_of_mem _ (List.mem_append_left _ (List.mem_map_of_mem hs)))
      · intro h
        have hpre : Prelude (Act.clock (encoded 2 2 (packet ++ 0 :: stale) packet.length)
            (hexStringToNum 2 (packet.drop 2)).toNat ::
              (tdiTdoStores 8 (hexStringToNum 2 (packet.drop 2)).toNat).map .store) := by
          refine prelude_cons ?_ rfl (prelude_stores h)
          exact Nat.le_of_eq (encoded_eq 2 2).symm
        exact hpre.proper_append (proper_respond _ _)
  | next =>
    dsimp only
    split
    · next hlen => exact iff_of_true (proper_respond _ _) (.inl hlen)
    · next hlen =>
      rw [proper_throughProc_iff, and_iff_left (proper_respond _ _), or_iff_right hlen]

/-- A response with a text is proper. -/
theorem proper_respondString_some (code : UInt8) (text : List UInt8) :
    Proper (respondString code (some text)) := by
  have hpre : Prelude [Act.string (some text)] :=
    prelude_cons (Option.some_ne_none text) rfl prelude_nil
  exact hpre.proper_append (proper_framed _ _)

/-- A response without one is not. -/
theorem not_proper_respondString_none (code : UInt8) : ¬ Proper (respondString code none) :=
  not_proper_of_mem (List.mem_singleton_self _) fun h => h rfl

/-- A general packet is handled properly exactly when it is sound. -/
theorem proper_general_iff (hne : packet ≠ []) :
    Proper (packetProcessGeneral env (packet ++ 0 :: stale)) ↔ SoundGeneral packet := by
  unfold packetProcessGeneral SoundGeneral
  rw [getD_one_terminated hne]
  cases hcommand : generalCommand (packet.getD 1 0) with
  | voltage => exact iff_of_false (not_proper_respondString_none _) fun h => h.1 rfl
  | freqGet =>
    refine iff_of_false (fun h => ?_) fun h => h.2 rfl
    exact List.cons_ne_nil _ _ ((proper_respondBuf_iff _ _).1 h)
  | start => exact iff_of_true (proper_respondString_some _ _) (by decide)
  | nrstSet | nrstGet | freqSet | pwrSet | pwrGet | targetClkOe | unrecognised =>
    exact iff_of_true (proper_respond _ _) (by decide)

/-- The device is written to its own place, and the first one clears the others. -/
theorem prelude_jtagAddDevice {devIndex : Nat} (h : devIndex < jtagMaxDevs) :
    Prelude (jtagAddDevice devIndex) := by
  refine prelude_append ?_ (prelude_cons h rfl prelude_nil)
  split
  · exact prelude_jtagDevs (Nat.le_refl _)
  · exact prelude_nil

/-- So is a packet of the high-level protocol. -/
theorem proper_highLevel_iff (hne : packet ≠ []) :
    Proper (packetProcessHighLevel (packet ++ 0 :: stale) packet.length) ↔
      SoundHighLevel packet := by
  unfold packetProcessHighLevel SoundHighLevel
  rw [getD_one_terminated hne]
  cases hcommand : hlCommand (packet.getD 1 0) with
  | check | unrecognised => exact iff_of_true (proper_respond _ _) fun h => by cases h
  | addJtagDev =>
    dsimp only
    split
    · next hlt => exact iff_of_true (proper_respond _ _) fun _ hle => by omega
    · next hlt =>
      have hindex : devIndexArg (packet ++ 0 :: stale) = devIndexArg packet := by
        rw [devIndexArg, devIndexArg, hexStringToNum_drop 2 (by omega)]
      rw [hindex]
      constructor
      · intro h _ _
        exact h.1 (.jtagDev _)
          (List.mem_append_left _ (List.mem_append_right _ (List.mem_singleton_self _)))
      · intro h
        exact (prelude_jtagAddDevice (h rfl (by omega))).proper_append (proper_respond _ _)

/-- So is an SPI packet. -/
theorem proper_spi_iff :
    Proper (packetProcessSpi env (packet ++ 0 :: stale) packet.length) ↔
      SoundSpi (packet ++ 0 :: stale) packet.length := by
  unfold packetProcessSpi SoundSpi
  dsimp only
  split
  · next hlt => exact iff_of_true (proper_respond _ _) fun hle => by omega
  · next hlt =>
    rw [imp_iff_right (Nat.le_of_not_lt hlt)]
    cases spiCommand ((packet ++ 0 :: stale).getD 1 0) with
    | busBegin | busEnd | chipSelect =>
      refine iff_of_true ?_ trivial
      dsimp only [spiRespond]
      split <;> exact proper_respond _ _
    | transfer | runCommand | unrecognised => exact iff_of_true (proper_respond _ _) trivial
    | read =>
      dsimp only
      split
      · next hlong => exact iff_of_true (proper_respond _ _) (.inl hlong)
      · next hlong =>
        have hpre := prelude_stores (unhexifyStores_inside.2
          (by unfold pbufCapacity gdbPacketBufferSize; omega :
            spiLength (packet ++ 0 :: stale) ≤ pbufCapacity))
        rw [hpre.proper_append_iff, proper_respondBuf_iff, or_iff_right hlong, List.map_eq_nil_iff,
          List.range_eq_nil]
    | write =>
      refine iff_of_true ?_ trivial
      dsimp only
      split
      · exact proper_respond _ _
      · next hlong =>
        have hpre := prelude_stores (unhexifyStores_inside.2
          (by unfold pbufCapacity gdbPacketBufferSize; omega :
            spiLength (packet ++ 0 :: stale) ≤ pbufCapacity))
        exact hpre.proper_append (proper_respond _ _)
    | chipId =>
      refine iff_of_false ?_ id
      have hpre := prelude_stores (unhexifyStores_inside.2 (Nat.le_refl 3))
      rw [hpre.proper_append_iff, proper_respondBuf_iff]
      exact List.cons_ne_nil _ _

/-- The data of an access fits in the packet buffer. -/
theorem access_stores_inside {pbuf : List UInt8} {a : Access} (h : adiv5Request pbuf = .access a) :
    ∀ s ∈ a.stores, s.index < s.capacity := by
  have hfits : ∀ {length : UInt32}, ¬ 1024 < length → length.toNat ≤ pbufCapacity := by
    intro length hle
    rw [UInt32.not_lt, UInt32.le_iff_toNat_le] at hle
    exact Nat.le_succ_of_le hle
  have hread : memReadRequest pbuf = .access a → ∀ s ∈ a.stores, s.index < s.capacity := by
    intro hreq
    unfold memReadRequest at hreq
    dsimp only at hreq
    split at hreq
    · cases hreq
    · next hle =>
      cases hreq
      exact unhexifyStores_inside.2 (hfits hle)
  have hwrite : memWriteRequest pbuf = .access a → ∀ s ∈ a.stores, s.index < s.capacity := by
    intro hreq
    unfold memWriteRequest at hreq
    dsimp only at hreq
    split at hreq
    · cases hreq
    · next hle =>
      split at hreq
      · cases hreq
      · cases hreq
        refine unhexifyStores_inside.2 ?_
        rw [unhexify, List.length_map, List.length_range]
        exact hfits hle
  unfold adiv5Request at h
  dsimp only at h
  split at h
  · cases h; exact List.forall_mem_nil _
  split at h
  · cases h; exact List.forall_mem_nil _
  split at h
  · cases h; exact List.forall_mem_nil _
  split at h
  · cases h; exact List.forall_mem_nil _
  split at h
  · exact hread h
  split at h
  · exact hwrite h
  · cases h

/-- An access is answered properly unless it sends data from a null pointer. -/
theorem proper_adiv5Respond_iff (replyLength : Option Nat) (e : AccessEnd) :
    Proper (adiv5Respond replyLength e) ↔ ∀ data, e = .done data → replyLength.getD 0 = 0 := by
  cases e with
  | raised type => exact iff_of_true (proper_respond _ _) fun _ h => by cases h
  | fault code => exact iff_of_true (proper_respond _ _) fun _ h => by cases h
  | done data =>
    cases replyLength with
    | none => exact iff_of_true (proper_respond _ _) fun _ _ => rfl
    | some length =>
      rw [adiv5Respond, proper_respondBuf_iff, List.map_eq_nil_iff, List.range_eq_nil]
      exact ⟨fun h _ _ => h, fun h => h data rfl⟩

/-- An access before other actions is proper when the device it reaches is in the table. -/
theorem proper_access_iff {devIndex : UInt8} {a : Access}
    (hstores : ∀ s ∈ a.stores, s.index < s.capacity) {acts : List Act} :
    Proper (a.acts st devIndex ++ acts) ↔
      (a.reachesDp = true → st.dp = some .jtag → devIndex.toNat < jtagMaxDevs) ∧ Proper acts := by
  rw [Access.acts, List.append_assoc, (prelude_stores hstores).proper_append_iff]
  split
  · next hjtag =>
    constructor
    · intro h
      have hdev : devIndex.toNat < jtagMaxDevs := h.1 (.jtagDev _) List.mem_cons_self
      have hpre : Prelude (Act.jtagDev devIndex.toNat :: (List.range st.devCount).map .jtagDev) :=
        prelude_cons hdev rfl (prelude_jtagDevs st.devCount_le)
      exact ⟨fun _ _ => hdev, hpre.proper_append_iff.1 h⟩
    · rintro ⟨hdev, h⟩
      have hpre : Prelude (Act.jtagDev devIndex.toNat :: (List.range st.devCount).map .jtagDev) :=
        prelude_cons (hdev hjtag.1 hjtag.2) rfl (prelude_jtagDevs st.devCount_le)
      exact hpre.proper_append h
  · next hjtag => exact ⟨fun h => ⟨fun hdp hlink => absurd ⟨hdp, hlink⟩ hjtag, h⟩, fun h => h.2⟩

/-- An ADIv5 packet is handled properly exactly when it is sound. -/
theorem proper_adiv5_iff (pbuf : List UInt8) (len : Nat) :
    Proper (packetProcessAdiv5 env st pbuf len) ↔ SoundAdiv5 env st pbuf len := by
  unfold packetProcessAdiv5 SoundAdiv5
  dsimp only
  split
  · next hlt => exact iff_of_true (proper_respond _ _) fun hle => by omega
  · next hlt =>
    rw [imp_iff_right (Nat.le_of_not_lt hlt)]
    cases hreq : adiv5Request pbuf with
    | refused code param => exact iff_of_true (proper_respond _ _) fun _ h => by cases h
    | access a =>
      simp only [Request.access.injEq, forall_eq']
      dsimp only [SoundAccess]
      split
      · next hnull =>
        refine iff_of_false (not_proper_of_mem (List.mem_singleton_self _) id) fun h => ?_
        exact h.1 hnull.1 hnull.2
      · next hset =>
        rw [proper_access_iff (access_stores_inside hreq), proper_adiv5Respond_iff]
        exact (and_iff_right fun hdp hnone => hset ⟨hdp, hnone⟩).symm

/-- **Remote packets in bounds.** A remote packet is handled inside all bounds and with exactly one
response, in any state and whatever earlier packets left in the buffer, exactly when it is sound. -/
theorem packetProcess_proper_iff (env : Env) (st : State) (packet stale : List UInt8) :
    Proper (packetProcess env st (packet ++ 0 :: stale) packet.length) ↔
      Sound env st packet stale := by
  unfold packetProcess Sound
  rw [getD_zero_terminated]
  have hne : kind (packet.getD 0 0) ≠ .unrecognised → packet ≠ [] := by
    rintro h rfl
    exact h rfl
  cases hkind : kind (packet.getD 0 0) with
  | unrecognised => exact iff_of_true (proper_respond _ _) trivial
  | adiv5 => exact proper_adiv5_iff _ _
  | spi => exact proper_spi_iff
  | swdp => exact proper_swd_iff (hne (by rw [hkind]; decide))
  | jtag => exact proper_jtag_iff (hne (by rw [hkind]; decide))
  | general => exact proper_general_iff (hne (by rw [hkind]; decide))
  | highLevel => exact proper_highLevel_iff (hne (by rw [hkind]; decide))

end

/-- Pins that are low, and accesses that give zeros. -/
def plainEnv : Env where
  tdo := fun _ => false
  seqIn := fun _ => 0
  parityError := false
  nrst := false
  maxFrequency := 0
  version := []
  adiv5 := fun _ _ _ => .done fun _ => 0
  spiInit := fun _ => false
  spiDeinit := fun _ => false
  spiChipSelect := fun _ => false
  spiXfer := fun _ _ => 0xff
  spiRead := fun _ _ _ _ _ => 0xff

/-- The state after `JS`. -/
def jtagReady : State := State.boot.next (ascii "JS" ++ [0]) 2

/-- Packets that are not handled properly: a device with index 32, a shift of 65 cycles, a clock of
no cycles, the voltage, the frequency, a DP read that succeeds, and a reset before `JS`. -/
theorem packetProcess_improper :
    ¬ Proper (packetProcess plainEnv jtagReady (ascii "HJ20000000000000000000" ++ [0]) 22) ∧
    ¬ Proper (packetProcess plainEnv jtagReady (ascii "JD410" ++ [0]) 5) ∧
    ¬ Proper (packetProcess plainEnv jtagReady (ascii "Jc0000000000" ++ [0]) 12) ∧
    ¬ Proper (packetProcess plainEnv jtagReady (ascii "GV" ++ [0]) 2) ∧
    ¬ Proper (packetProcess plainEnv jtagReady (ascii "Gf" ++ [0]) 2) ∧
    ¬ Proper (packetProcess plainEnv jtagReady (ascii "Ad00000000" ++ [0]) 10) ∧
    ¬ Proper (packetProcess plainEnv State.boot (ascii "JR" ++ [0]) 2) := by
  decide +kernel

end Blackmagic.Remote
