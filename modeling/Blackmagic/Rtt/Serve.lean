import Mathlib
import Blackmagic.Rtt.World

/-!
# A poll, seen from one channel

What a poll does for the other channels does not touch a channel (`Quiet`), so a poll is safe for a
channel as soon as its own turn is (`Served`).
-/

namespace Blackmagic

open Word Bytes Memory Prog

/-! ## The other channels -/

/-- An access that leaves a channel alone. -/
def Quiet (L : RttLayout) (i : Nat) : RttOp → Prop
  | .memRead _ _ => True
  | .memWrite addr data => ∀ x, addr ≤ x → x < addr + data.length → ¬ L.Region i x
  | .nodata => True
  | .getchar j => j ≠ i
  | .write j _ => j ≠ i

section
variable {L : RttLayout} {i j : Nat}

/-- An access that leaves the channel alone changes nothing of it. -/
theorem Quiet.agree {o : RttOp} (h : Quiet L i o) (w : RttWorld) (fails : Bool) :
    Agree L i w (rttPerform w o fails).2 := by
  cases o with
  | memRead addr len => exact Agree.refl L i w
  | memWrite addr data =>
    cases fails with
    | true => exact Agree.refl L i w
    | false =>
      refine ⟨fun x hx => ?_, rfl, rfl, rfl, rfl⟩
      rcases Nat.lt_or_ge x addr with hlt | hge
      · exact storeBytes_of_lt hlt
      · exact storeBytes_of_le (Nat.le_of_not_lt fun hlt => h x hge hlt hx)
  | nodata => exact Agree.refl L i w
  | getchar j =>
    cases hinput : w.input with
    | nil =>
      simp only [rttPerform, hinput]
      exact Agree.refl L i w
    | cons c cs =>
      simp only [rttPerform, hinput]
      exact ⟨fun _ _ => rfl, Function.update_of_ne (Ne.symm h) _ _, rfl, rfl, rfl⟩
  | write j buf => exact ⟨fun _ _ => rfl, rfl, Function.update_of_ne (Ne.symm h) _ _, rfl, rfl⟩

/-- A word of another channel that is not the address or the size of its buffer. -/
theorem quiet_word (hi : i < L.up + L.down) (hj : j < L.up + L.down) (hne : j ≠ i) (off n : Nat)
    (hoff : 12 ≤ off) (hoff' : off ≤ 20) :
    Quiet L i (.memWrite (L.desc j + off) (wordBytes n)) := by
  intro x hx hx'
  have hlen : (wordBytes n).length = 4 := rfl
  rw [hlen] at hx'
  rw [RttLayout.desc] at hx hx'
  rintro (h | ⟨k, hk, h⟩ | h | h)
  · omega
  · rw [RttLayout.desc] at h
    omega
  · rw [RttLayout.desc] at h
    omega
  · have := L.buf_cb i hi
    omega

/-- A byte of the buffer of another channel. -/
theorem quiet_byte (hi : i < L.up + L.down) (hj : j < L.up + L.down) (hne : j ≠ i) {p : Nat}
    (hp : p < L.bufSize j) (c : UInt8) : Quiet L i (.memWrite (add32 (L.bufAddr j) p) [c]) := by
  have hfits := L.buf_fits j hj
  have hcb := L.buf_cb j hj
  rw [add32_of_lt (by omega)]
  intro x hx hx'
  rw [List.length_singleton] at hx'
  rintro (h | ⟨k, hk, h⟩ | h | h)
  · omega
  · rw [RttLayout.desc] at h
    omega
  · rw [RttLayout.desc] at h
    omega
  · have := L.buf_buf i hi j hj hne.symm
    omega

/-- The channel that a step is about. -/
def RttEnv.About (i : Nat) : RttEnv → Prop
  | .store j _ _ | .publish j _ | .consume j _ => j = i
  | _ => False

/-- The steps that are not about a channel leave it alone. -/
theorem env_agree (hi : i < L.up + L.down) (w : RttWorld) {e : RttEnv} (he : ¬ e.About i) :
    Agree L i w (L.env w e) := by
  cases e with
  | host bytes => exact ⟨fun _ _ => rfl, rfl, rfl, rfl, rfl⟩
  | store j k b =>
    unfold RttLayout.env
    dsimp only
    split
    · rename_i h
      have hj : j < L.up + L.down := by omega
      have hsize : 0 < L.bufSize j := by
        have := h.2.1.1
        omega
      have hp := Nat.mod_lt (L.head w.mem j + k) hsize
      have hfits := L.buf_fits j hj
      have hquiet := quiet_byte hi hj he hp b
      rw [add32_of_lt (by omega)] at hquiet
      exact hquiet.agree w false
    · exact Agree.refl L i w
  | publish j n =>
    unfold RttLayout.env
    dsimp only
    split
    · rename_i h
      have hquiet :=
        (quiet_word hi (by omega) he 12 ((L.head w.mem j + n) % L.bufSize j) (by decide)
        (by decide)).agree w false
      exact ⟨hquiet.mem, rfl, rfl, Function.update_of_ne (Ne.symm he) _ _, rfl⟩
    · exact Agree.refl L i w
  | consume j n =>
    unfold RttLayout.env
    dsimp only
    split
    · rename_i h
      have hquiet := (quiet_word hi h.2.1 he 16 ((L.tail w.mem j + n) % L.bufSize j) (by decide)
        (by decide)).agree w false
      exact ⟨hquiet.mem, rfl, rfl, rfl, Function.update_of_ne (Ne.symm he) _ _⟩
    · exact Agree.refl L i w
  | other x b =>
    unfold RttLayout.env
    dsimp only
    split
    · rename_i h
      have hquiet : Quiet L i (.memWrite x [b]) := by
        intro y hy hy'
        obtain rfl : y = x := by
          rw [List.length_singleton] at hy'
          omega
        have hcb := h.1
        rintro (hr | ⟨k, hk, hr⟩ | hr | hr)
        · omega
        · rw [RttLayout.desc] at hr
          omega
        · rw [RttLayout.desc] at hr
          omega
        · have := h.2 i hi
          omega
      exact hquiet.agree w false
    · exact Agree.refl L i w

/-! ## The copy of the control block -/

/-- The globals that say where the channels are agree with the layout. -/
structure Copied (L : RttLayout) (g : RttState) : Prop where
  cbaddr : g.rttCbaddr = L.cb
  up : g.rttNumUpChan = L.up
  down : g.rttNumDownChan = L.down
  bufAddr : ∀ j < L.up + L.down, (g.rttChannel j).bufAddr = L.bufAddr j
  bufSize : ∀ j < L.up + L.down, (g.rttChannel j).bufSize = L.bufSize j

variable {g : RttState}

/-- The globals agree as long as the addresses and sizes of the channels stay. -/
theorem Copied.update (h : Copied L g) {ch : RttChannel} {xmit : List UInt8} {skip block : Bool}
    (haddr : ch.bufAddr = (g.rttChannel j).bufAddr)
    (hsize : ch.bufSize = (g.rttChannel j).bufSize) :
    Copied L { g with
      rttChannel := Function.update g.rttChannel j ch, xmitBuf := xmit,
      rttFlagSkip := skip, rttFlagBlock := block } := by
  refine ⟨h.cbaddr, h.up, h.down, fun k hk => ?_, fun k hk => ?_⟩
  · by_cases hkj : k = j
    · subst hkj
      dsimp only
      rw [Function.update_self, haddr, h.bufAddr k hk]
    · dsimp only
      rw [Function.update_of_ne hkj, h.bufAddr k hk]
  · by_cases hkj : k = j
    · subst hkj
      dsimp only
      rw [Function.update_self, hsize, h.bufSize k hk]
    · dsimp only
      rw [Function.update_of_ne hkj, h.bufSize k hk]

/-- They agree after a head is stored. -/
theorem Copied.setHead (h : Copied L g) (n : Nat) : Copied L (g.setHead j n) := h.update rfl rfl

/-- They agree after a tail is stored. -/
theorem Copied.setTail (h : Copied L g) (n : Nat) (xmit : List UInt8) :
    Copied L ({ g with xmitBuf := xmit }.setTail j n) := h.update rfl rfl

/-- The transmit buffer says nothing about the channels. -/
theorem Copied.xmitBuf (h : Copied L g) (xmit : List UInt8) : Copied L { g with xmitBuf := xmit } :=
  ⟨h.cbaddr, h.up, h.down, h.bufAddr, h.bufSize⟩

/-- What a turn of another channel leaves. -/
def OtherTurn (L : RttLayout) (i : Nat) (g g' : RttState) : Prop :=
  Copied L g' ∧ g'.rttChannel i = g.rttChannel i

/-- A read for another channel leaves this one alone. -/
theorem rttSegment_quiet (hg : Copied L g) (hne : j ≠ i) (dest len : Nat) :
    Asks (Quiet L i) (fun r => OtherTurn L i g r.2) (rttSegment g j dest len) := by
  have hread : ∀ src, Asks (Quiet L i) (fun _ => True)
      (rttAlignedMemRead g.xmitBuf dest src len) := by
    intro src
    unfold rttAlignedMemRead rttMemRead
    dsimp only
    generalize (if (len + src % 4) % 4 = 0 then _ else _) = len₀
    split <;> rw [asks_bind] <;> refine ⟨trivial, fun x => ?_⟩ <;> cases x <;> trivial
  unfold rttSegment
  rw [asks_bind]
  refine (hread _).imp fun r _ => ?_
  dsimp only
  split
  · exact ⟨hg.xmitBuf _, rfl⟩
  · exact ⟨hg.setTail _ _, Function.update_of_ne (Ne.symm hne) _ _⟩

/-- Turns of others in a row. -/
theorem OtherTurn.trans {g₁ g₂ g₃ : RttState} (h : OtherTurn L i g₁ g₂) (h' : OtherTurn L i g₂ g₃) :
    OtherTurn L i g₁ g₃ := ⟨h'.1, h'.2.trans h.2⟩

/-- The first read of another channel leaves this one alone. -/
theorem rttFirst_quiet (hg : Copied L g) (hne : j ≠ i) :
    Asks (Quiet L i) (fun r => OtherTurn L i g r.2.1) (rttFirst g j) := by
  unfold rttFirst
  dsimp only
  split
  · rw [asks_bind]
    exact (rttSegment_quiet hg hne _ _).imp fun r hr => hr
  · exact ⟨hg, rfl⟩

/-- So does its second read. -/
theorem rttSecond_quiet (hg : Copied L g) (hne : j ≠ i) (bytesRead : Nat) :
    Asks (Quiet L i) (fun r => OtherTurn L i g r.2.1) (rttSecond g j bytesRead) := by
  unfold rttSecond
  dsimp only
  split
  · rw [asks_bind]
    exact (rttSegment_quiet hg hne _ _).imp fun r hr => hr
  · exact ⟨hg, rfl⟩

/-- So do both. -/
theorem rttCollect_quiet (hg : Copied L g) (hne : j ≠ i) :
    Asks (Quiet L i) (fun r => OtherTurn L i g r.2.1) (rttCollect g j) := by
  unfold rttCollect
  rw [asks_bind]
  refine (rttFirst_quiet hg hne).imp fun r hr => ?_
  dsimp only
  split
  · exact hr
  · exact (rttSecond_quiet hr.1 hne _).imp fun r' hr' => hr.trans hr'

/-- So does the turn of another up channel. -/
theorem printRtt_quiet (hg : Copied L g) (hi : i < L.up + L.down) (hj : j < L.up + L.down)
    (hne : j ≠ i) : Asks (Quiet L i) (fun r => OtherTurn L i g r.2) (printRtt g j) := by
  unfold printRtt
  dsimp only
  split
  · exact ⟨hg, rfl⟩
  split
  · exact ⟨hg, rfl⟩
  split
  · exact ⟨hg, rfl⟩
  rw [asks_bind]
  refine (rttCollect_quiet hg hne).imp fun r hr => ?_
  split
  · exact hr
  · rw [rttMemWrite, hr.1.cbaddr, L.add32_desc hj (by decide), asks_bind]
    refine ⟨quiet_word hi hj hne _ _ (by decide) (by decide), fun x => ?_⟩
    cases x with
    | true => exact hr
    | false => exact ⟨hne, fun _ => hr⟩

/-- So does the loop over the characters for another channel, by induction on those left. -/
theorem readRttLoop_quiet (hi : i < L.up + L.down) (hj : j < L.up + L.down) (hne : j ≠ i) :
    ∀ (fuel : Nat) {g : RttState}, Copied L g → (g.rttChannel j).head < L.bufSize j →
      Asks (Quiet L i) (fun r => OtherTurn L i g r.2) (readRttLoop j fuel g) := by
  intro fuel
  induction fuel with
  | zero => exact fun hg _ => ⟨hg, rfl⟩
  | succ fuel ih =>
    intro g hg hhead
    unfold readRttLoop
    dsimp only
    split
    · exact ⟨hg, rfl⟩
    · rw [rttGetchar, asks_bind]
      refine ⟨hne, fun x => ?_⟩
      cases x with
      | none => exact ⟨hg, rfl⟩
      | some c =>
        change Asks _ _ (rttMemWrite _ _ >>= _)
        rw [rttMemWrite, hg.bufAddr j hj, asks_bind]
        refine ⟨quiet_byte hi hj hne hhead c, fun x => ?_⟩
        cases x with
        | true => exact ⟨hg, rfl⟩
        | false =>
          refine (ih (hg.setHead _) ?_).imp fun r hr => OtherTurn.trans ⟨hg.setHead _, ?_⟩ hr
          · rw [RttState.setHead_self, hg.bufSize j hj]
            exact Nat.mod_lt _ (by omega)
          · exact Function.update_of_ne (Ne.symm hne) _ _

/-- So does the turn of another down channel. -/
theorem readRtt_quiet (hg : Copied L g) (hi : i < L.up + L.down) (hj : j < L.up + L.down)
    (hne : j ≠ i) : Asks (Quiet L i) (fun r => OtherTurn L i g r.2) (readRtt g j) := by
  unfold readRtt
  rw [rttNodata, asks_bind]
  refine ⟨trivial, fun x => ?_⟩
  change Asks _ _ (if x = true then _ else _)
  split
  · exact ⟨hg, rfl⟩
  split
  · exact ⟨hg, rfl⟩
  split
  · exact ⟨hg, rfl⟩
  rename_i hrange
  rw [hg.bufSize j hj] at hrange
  rw [asks_bind]
  refine (readRttLoop_quiet hi hj hne _ hg (by omega)).imp fun r hr => ?_
  obtain ⟨failed, g'⟩ := r
  dsimp only at hr ⊢
  split
  · exact hr
  · rw [rttMemWrite, hr.1.cbaddr, L.add32_desc hj (by decide), asks_bind]
    refine ⟨quiet_word hi hj hne _ _ (by decide) (by decide), fun x => ?_⟩
    cases x with
    | true => exact hr
    | false => exact hr

/-- So does the turn of any other channel. -/
theorem pollChannel_quiet (hg : Copied L g) (hi : i < L.up + L.down) (hj : j < L.up + L.down)
    (hne : j ≠ i) : Asks (Quiet L i) (fun r => OtherTurn L i g r.2) (pollChannel g j) := by
  unfold pollChannel
  split
  · split
    · exact printRtt_quiet hg hi hj hne
    · refine (readRtt_quiet ?_ hi hj hne).imp fun r hr => ⟨hr.1, hr.2⟩
      exact ⟨hg.cbaddr, hg.up, hg.down, hg.bufAddr, hg.bufSize⟩
  · exact ⟨hg, rfl⟩

end

/-! ## A poll -/

/-- What a poll may assume of its world for a channel. -/
structure Serves (L : RttLayout) (i : Nat) (S : Setting RttOp RttOp.Ans RttWorld) : Prop where
  perform : S.perform = rttPerform
  stable : ∀ w, S.inv w → L.Stable w.mem
  agree : ∀ w w', Agree L i w w' → S.rely w w'
  keep : ∀ w w', S.inv w → S.rely w w' → S.inv w'
  quiet : ∀ w o, S.inv w → Quiet L i o → S.guard w o

/-- The copy of a channel that a poll takes. -/
def RttLayout.copy (L : RttLayout) (mem : Nat → UInt8) (i : Nat) : RttChannel where
  nameAddr := wordAt mem (L.desc i)
  bufAddr := L.bufAddr i
  bufSize := L.bufSize i
  head := L.head mem i
  tail := L.tail mem i
  flag := wordAt mem (L.desc i + 20)

/-- A channel whose own turn is safe: `Idle` is what holds between turns, and `View` what the copy
of the channel says until its turn. -/
structure Served (L : RttLayout) (i : Nat) (S : Setting RttOp RttOp.Ans RttWorld)
    (Idle : RttWorld → Prop) (View : RttChannel → RttWorld → Prop) : Prop extends Serves L i S where
  idle_rely : ∀ w w', Idle w → S.rely w w' → Idle w'
  view_rely : ∀ ch w w', View ch w → S.rely w w' → View ch w'
  view : ∀ w, S.inv w → Idle w → View (L.copy w.mem i) w
  turn : ∀ g w, Copied L g → S.inv w → Idle w → View (g.rttChannel i) w →
    Safe S (fun r w => Copied L r.2 ∧ S.inv w ∧ Idle w) (pollChannel g i) w

/-- If the control block was found, it is the one of the layout. -/
def Located (L : RttLayout) (g : RttState) : Prop :=
  g.rttFound = true → g.rttCbaddr = L.cb ∧ g.rttNumUpChan = L.up ∧ g.rttNumDownChan = L.down

section
variable {L : RttLayout} {i : Nat} {S : Setting RttOp RttOp.Ans RttWorld} {Idle : RttWorld → Prop}
  {View : RttChannel → RttWorld → Prop} {g : RttState} {w : RttWorld}

/-- A read. -/
theorem Serves.memRead (h : Serves L i S) (hinv : S.inv w) {addr len : Nat}
    {Q : Option (List UInt8) → RttWorld → Prop}
    (hnone : ∀ w', S.rely w w' → S.inv w' → Q none w')
    (hsome : ∀ w', S.rely w w' → S.inv w' → Q (some (bytesAt w'.mem addr len)) w') :
    Safe S Q (rttMemRead addr len) w := by
  intro w' hw
  have hinv' := h.keep w w' hinv hw
  refine ⟨h.quiet w' _ hinv' trivial, fun fails _ => ?_⟩
  rw [h.perform]
  refine ⟨hinv', ?_⟩
  cases fails with
  | true => exact hnone w' hw hinv'
  | false => exact hsome w' hw hinv'

/-- The turns of the channels, by induction on them: the one of this channel comes at most once. -/
theorem Served.pollChannels (h : Served L i S Idle View) (hi : i < L.up + L.down) :
    ∀ (js : List Nat) (busy err : Bool) {g : RttState} {w : RttWorld}, js.Nodup →
      (∀ j ∈ js, j < L.up + L.down) → Copied L g → S.inv w → Idle w →
      (i ∈ js → View (g.rttChannel i) w) →
      Safe S (fun r w => Copied L r.2.2 ∧ S.inv w ∧ Idle w) (pollChannels js busy err g) w := by
  intro js
  induction js with
  | nil => exact fun _ _ _ _ _ _ hg hinv hidle _ => ⟨hg, hinv, hidle⟩
  | cons j js ih =>
    intro busy err g w hnodup hjs hg hinv hidle hview
    obtain ⟨hj, hnodup⟩ := List.nodup_cons.1 hnodup
    have hjs' := fun k hk => hjs k (List.mem_cons_of_mem j hk)
    unfold Blackmagic.pollChannels
    rw [safe_bind]
    by_cases hji : j = i
    · subst hji
      refine (h.turn g w hg hinv hidle (hview List.mem_cons_self)).imp fun r w' hr => ?_
      exact ih _ _ hnodup hjs' hr.1 hr.2.1 hr.2.2 fun hmem => absurd hmem hj
    · have hquiet := pollChannel_quiet hg hi (hjs j List.mem_cons_self) hji
      have hop : ∀ w o, S.inv w → Quiet L i o →
          S.guard w o ∧ ∀ fails, S.rely w (S.perform w o fails).2 := fun w o hw ho =>
        ⟨h.quiet w o hw ho, fun fails => h.perform ▸ h.agree _ _ (ho.agree w fails)⟩
      refine (hquiet.safe hop h.keep hinv).imp fun r w' hr => ?_
      obtain ⟨hother, hrely⟩ := hr
      refine ih _ _ hnodup hjs' hother.1 (h.keep _ _ hinv hrely) (h.idle_rely _ _ hidle hrely) ?_
      intro hmem
      rw [hother.2]
      exact h.view_rely _ _ _ (hview (List.mem_cons_of_mem j hmem)) hrely

/-- What a poll copies from the control block. -/
theorem rttChannelAt_bytesAt {mem : Nat → UInt8} (hs : L.Stable mem) {j : Nat}
    (hj : j < L.up + L.down) :
    rttChannelAt (bytesAt mem (L.cb + 24) (24 * (L.up + L.down))) j = L.copy mem j := by
  have hword : ∀ off ≤ 20, leNat
      (slice (bytesAt mem (L.cb + 24) (24 * (L.up + L.down))) (24 * j + off) 4) =
      wordAt mem (L.desc j + off) := by
    intro off hoff
    rw [slice_bytesAt (by omega), wordAt, RttLayout.desc, ← Nat.add_assoc]
  have hname : leNat (slice (bytesAt mem (L.cb + 24) (24 * (L.up + L.down))) (24 * j) 4) =
      wordAt mem (L.desc j) := hword 0 (by decide)
  rw [rttChannelAt, RttLayout.copy, hname, hword 4 (by decide), hword 8 (by decide),
    hword 12 (by decide), hword 16 (by decide), hword 20 (by decide), hs.bufAddr j hj,
    hs.bufSize j hj]
  rfl

/-- A poll of the block is safe for the channel. -/
theorem Served.pollBlock (h : Served L i S Idle View) (hi : i < L.up + L.down) (hg : Located L g)
    (hinv : S.inv w) (hidle : Idle w) :
    Safe S (fun r w => Located L r.2.2 ∧ S.inv w ∧ Idle w) (pollBlock g) w := by
  unfold Blackmagic.pollBlock
  split
  · rename_i hfound
    obtain ⟨hcb, hup, hdown⟩ := hg hfound.1
    have hfits := L.cb_fits
    dsimp only
    rw [safe_bind, hcb, hup, hdown, add32_of_lt (show L.up + L.down < 2 ^ 32 by omega),
      add32_of_lt (show L.cb + 24 < 2 ^ 32 by omega)]
    refine h.memRead hinv (fun w' hw hinv' => ?_) fun w' hw hinv' => ?_
    · exact ⟨hg, hinv', h.idle_rely _ _ hidle hw⟩
    · have hs := h.stable w' hinv'
      have hcopy : ∀ j < L.up + L.down, (if j < L.up + L.down then
          rttChannelAt (bytesAt w'.mem (L.cb + 24) (24 * (L.up + L.down))) j else g.rttChannel j) =
            L.copy w'.mem j := fun j hj => by
        rw [if_pos hj, rttChannelAt_bytesAt hs hj]
      have hidle' := h.idle_rely _ _ hidle hw
      refine (h.pollChannels hi _ _ _ List.nodup_range (fun j hj => List.mem_range.1 hj)
        ⟨rfl, rfl, rfl, fun j hj => ?_, fun j hj => ?_⟩ hinv' hidle' fun _ => ?_).imp
        fun r w'' hr => ⟨fun _ => ⟨hr.1.cbaddr, hr.1.up, hr.1.down⟩, hr.2⟩
      · dsimp only
        rw [hcopy j hj]
        rfl
      · dsimp only
        rw [hcopy j hj]
        rfl
      · dsimp only
        rw [hcopy i hi]
        exact h.view w' hinv' hidle'
  · exact ⟨hg, hinv, hidle⟩

/-- So is reading the control block. -/
theorem Served.findRtt (h : Served L i S Idle View) (hinv : S.inv w) (hidle : Idle w)
    (found : Bool) :
    Safe S (fun g w => Located L g ∧ S.inv w ∧ Idle w) (findRtt (if found then L.cb else 0) g)
      w := by
  have hlost : ∀ {g : RttState}, g.rttFound = false → Located L g := fun hg hfound => by
    rw [hg] at hfound
    cases hfound
  have hfits := L.cb_fits
  cases found with
  | false => exact ⟨hlost rfl, hinv, hidle⟩
  | true =>
  rw [if_pos rfl]
  unfold Blackmagic.findRtt
  dsimp only
  split
  · exact ⟨hlost rfl, hinv, hidle⟩
  rw [safe_bind]
  refine h.memRead hinv (fun w₁ hw₁ hinv₁ => ?_) fun w₁ hw₁ hinv₁ => ?_
  · exact ⟨hlost rfl, hinv₁, h.idle_rely _ _ hidle hw₁⟩
  have hidle₁ := h.idle_rely _ _ hidle hw₁
  have hcounts : rttCounts (bytesAt w₁.mem (add32 L.cb 16) 8) = (L.up, L.down) := by
    rw [add32_of_lt (by omega), ← L.counts, ← (h.stable w₁ hinv₁).header, slice_bytesAt (by decide)]
  dsimp only
  rw [hcounts]
  dsimp only
  split
  · exact ⟨hlost rfl, hinv₁, hidle₁⟩
  split
  · exact ⟨hlost rfl, hinv₁, hidle₁⟩
  rw [safe_bind]
  refine h.memRead hinv₁ (fun w₂ hw₂ hinv₂ => ?_) fun w₂ hw₂ hinv₂ => ?_
  · exact ⟨hlost rfl, hinv₂, h.idle_rely _ _ hidle₁ hw₂⟩
  · exact ⟨fun _ => ⟨rfl, rfl, rfl⟩, hinv₂, h.idle_rely _ _ hidle₁ hw₂⟩

/-- So is looking for it. -/
theorem Served.locateRtt (h : Served L i S Idle View) (hg : Located L g) (hinv : S.inv w)
    (hidle : Idle w) (found : Bool) :
    Safe S (fun g w => Located L g ∧ S.inv w ∧ Idle w) (locateRtt (if found then L.cb else 0) g)
      w := by
  unfold Blackmagic.locateRtt
  split
  · exact ⟨hg, hinv, hidle⟩
  · exact h.findRtt hinv hidle found

/-- So is checking that it is still there. -/
theorem Served.checkHeader (h : Served L i S Idle View) (hg : Located L g) (hinv : S.inv w)
    (hidle : Idle w) :
    Safe S (fun g w => Located L g ∧ S.inv w ∧ Idle w) (checkHeader g) w := by
  unfold Blackmagic.checkHeader
  split
  · rename_i hfound
    rw [safe_bind]
    refine h.memRead hinv (fun w' hw hinv' => ?_) fun w' hw hinv' => ?_
    · exact ⟨fun _ => hg hfound, hinv', h.idle_rely _ _ hidle hw⟩
    · exact ⟨fun _ => hg hfound, hinv', h.idle_rely _ _ hidle hw⟩
  · exact ⟨hg, hinv, hidle⟩

/-- The timing says nothing about the block. -/
theorem Located.pollTiming (hg : Located L g) (now : Nat) (busy err : Bool) :
    Located L (pollTiming now busy err g) := by
  unfold Blackmagic.pollTiming
  dsimp only
  generalize (if busy = true ∧ ¬ err = true then _ else _) = pollMs
  cases err with
  | false => exact hg
  | true =>
    rw [if_pos rfl]
    split
    · exact hg
    · exact hg

/-- A poll is safe for a channel whose own turn is safe. -/
theorem Served.pollRtt (h : Served L i S Idle View) (hi : i < L.up + L.down) (c : RttCall)
    (hg : Located L g) (hinv : S.inv w) (hidle : Idle w) :
    Safe S (fun g w => Located L g ∧ S.inv w ∧ Idle w)
      (pollRtt c.now (if c.found then L.cb else 0) g) w := by
  unfold Blackmagic.pollRtt
  split
  · rw [safe_bind]
    refine (h.locateRtt hg hinv hidle c.found).imp fun g₁ w₁ h₁ => ?_
    rw [safe_bind]
    refine (h.checkHeader h₁.1 h₁.2.1 h₁.2.2).imp fun g₂ w₂ h₂ => ?_
    rw [safe_bind]
    refine (h.pollBlock hi h₂.1 h₂.2.1 h₂.2.2).imp fun r w₃ h₃ => ?_
    exact ⟨h₃.1.pollTiming _ _ _, h₃.2⟩
  · exact ⟨hg, hinv, hidle⟩

/-- Runs of polls in which the outcomes are allowed. -/
theorem Served.run (h : Served L i S Idle View) (hi : i < L.up + L.down)
    (henv : ∀ w e, S.inv w → S.inv (L.env w e) ∧ S.rely w (L.env w e)) (hg : Located L g)
    (hinv : S.inv w) (hidle : Idle w) {events : List (Event RttEnv RttCall)}
    (hevents : Machine.Along L.step (AtTurn S.allowed) (w, .ret g) events) :
    Machine.Always L.step (fun st => S.inv st.1 ∧ ∀ g, st.2 = .ret g → Idle st.1) (w, .ret g)
      events ∧
      Machine.Along L.step (AtTurn fun w o _ => S.guard w o) (w, .ret g) events := by
  unfold RttLayout.step at hevents ⊢
  rw [← h.perform] at hevents ⊢
  have hstart : Safe S (fun g w => Located L g ∧ S.inv w ∧ Idle w) (.ret g) w := ⟨hg, hinv, hidle⟩
  obtain ⟨halways, halong⟩ := along_safe henv
    (fun g w w' hQ hw => ⟨hQ.1, h.keep _ _ hQ.2.1 hw, h.idle_rely _ _ hQ.2.2 hw⟩)
    (fun c g w _ hQ => h.pollRtt hi c hQ.1 hQ.2.1 hQ.2.2) ⟨hinv, hstart⟩ hevents
  refine ⟨fun before after st' hst hrun => ?_, halong⟩
  obtain ⟨hinv', hsafe⟩ := halways before after st' hst hrun
  refine ⟨hinv', fun g' hg' => ?_⟩
  rw [hg'] at hsafe
  exact hsafe.2.2

end

end Blackmagic
