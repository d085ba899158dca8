import Mathlib
import Blackmagic.Rtt.Serve

/-!
# Down channels

What `rtt_getchar` returned for a down channel is what the target has read, then what is in the
buffer, then what `read_rtt` holds back: the characters that it has stored behind the head, and one
that it has taken and not stored yet (`HeldBack`). What is held back is lost when a write fails.
-/

namespace Blackmagic

open Word Bytes Memory Prog

/-- The characters taken for a down channel: read by the target, in the buffer, and held back. -/
def HeldBack (L : RttLayout) (i : Nat) (held : List UInt8) (w : RttWorld) : Prop :=
  Ready L i w ∧ w.got i = w.consumed i ++ L.pending w.mem i ++ held

/-- What others do to a down channel: they take from its buffer. -/
def DownRely (L : RttLayout) (i : Nat) (w w' : RttWorld) : Prop :=
  Ready L i w → Ready L i w' ∧ L.head w'.mem i = L.head w.mem i ∧ w'.got i = w.got i ∧
    (∀ start n, L.ring w'.mem i start n = L.ring w.mem i start n) ∧
    ∃ k ≤ L.fill w.mem i, L.tail w'.mem i = (L.tail w.mem i + k) % L.bufSize i ∧
      w'.consumed i = w.consumed i ++ L.ring w.mem i (L.tail w.mem i) k

section
variable {L : RttLayout} {i : Nat} {w w' w'' : RttWorld}

/-- Where nothing of a channel has changed, nothing was taken. -/
theorem Agree.downRely (h : Agree L i w w') : DownRely L i w w' := by
  intro hready
  refine ⟨h.ready hready, h.head, h.got, h.ring hready.pos, 0, Nat.zero_le _, ?_, ?_⟩
  · rw [h.tail, Nat.add_zero, Nat.mod_eq_of_lt hready.2.2]
  · rw [h.consumed]
    exact (List.append_nil _).symm

/-- Less is in the buffer. -/
theorem fill_of_tail {k : Nat} (hready : Ready L i w) (hk : k ≤ L.fill w.mem i)
    (hhead : L.head w'.mem i = L.head w.mem i)
    (htail : L.tail w'.mem i = (L.tail w.mem i + k) % L.bufSize i) :
    L.fill w'.mem i = L.fill w.mem i - k := by
  rw [RttLayout.fill, hhead, htail, used_advance_tail hready.2.1 hready.2.2 hk]
  rfl

/-- What others take in two steps. -/
theorem DownRely.trans (h : DownRely L i w w') (h' : DownRely L i w' w'') : DownRely L i w w'' := by
  intro hready
  obtain ⟨hready', hhead, hgot, hring, k, hk, htail, hconsumed⟩ := h hready
  obtain ⟨hready'', hhead', hgot', hring', k', hk', htail', hconsumed'⟩ := h' hready'
  rw [fill_of_tail hready hk hhead htail] at hk'
  refine ⟨hready'', hhead'.trans hhead, hgot'.trans hgot, fun start n => (hring' start n).trans
    (hring start n), k + k', by omega, ?_, ?_⟩
  · rw [htail', htail, Nat.mod_add_mod, Nat.add_assoc]
  · rw [hconsumed', hconsumed, hring, htail, RttLayout.ring, RttLayout.ring, RttLayout.ring,
      contents_mod, contents_add, List.append_assoc]

/-- Characters taken by the target stay accounted for. -/
theorem HeldBack.rely {held : List UInt8} (h : HeldBack L i held w) (hw : DownRely L i w w') :
    HeldBack L i held w' := by
  obtain ⟨hready', hhead, hgot, hring, k, hk, htail, hconsumed⟩ := hw h.1
  refine ⟨hready', ?_⟩
  have hpending : L.pending w.mem i = L.ring w.mem i (L.tail w.mem i) k ++ L.pending w'.mem i := by
    have hsplit : L.fill w.mem i = k + (L.fill w.mem i - k) := by omega
    rw [RttLayout.pending, RttLayout.pending, fill_of_tail h.1 hk hhead htail, hring, htail,
      RttLayout.ring, RttLayout.ring, RttLayout.ring, contents_mod, ← contents_add, ← hsplit]
  rw [hgot, h.2, hconsumed, hpending]
  simp only [List.append_assoc]

/-! ## The target -/

/-- The tail is advanced over bytes that have been read. -/
theorem downRely_consume (hi : i < L.up + L.down) {n : Nat} (hn : n ≤ L.fill w.mem i) :
    DownRely L i w { w with
      mem := storeBytes w.mem (L.desc i + 16) (wordBytes ((L.tail w.mem i + n) % L.bufSize i)),
      consumed := Function.update w.consumed i
        (w.consumed i ++ L.ring w.mem i (L.tail w.mem i) n) } := by
  intro hready
  have hpos := hready.pos
  obtain ⟨hs, hhead, htail⟩ := hready
  have hlt := L.place_lt hi hpos (L.tail w.mem i + n)
  refine ⟨⟨hs.storeWord (by decide) (by decide), ?_, ?_⟩, RttLayout.head_storeTail, rfl,
    RttLayout.ring_storeWord hi hpos (by decide), n, hn, RttLayout.tail_storeTail hlt,
    Function.update_self _ _ _⟩
  · rw [RttLayout.head_storeTail]
    exact hhead
  · rw [RttLayout.tail_storeTail hlt]
    exact Nat.mod_lt _ hpos

/-- The steps of the target and the host. -/
theorem downRely_env (hi : L.up ≤ i) (hi' : i < L.up + L.down) (w : RttWorld) (e : RttEnv) :
    DownRely L i w (L.env w e) := by
  have hrefl : DownRely L i w w := (Agree.refl L i w).downRely
  by_cases he : e.About i
  · cases e with
    | host bytes => exact he.elim
    | store j k b =>
      cases he
      unfold RttLayout.env
      dsimp only
      rw [if_neg (by omega)]
      exact hrefl
    | publish j n =>
      cases he
      unfold RttLayout.env
      dsimp only
      rw [if_neg (by omega)]
      exact hrefl
    | consume j n =>
      cases he
      unfold RttLayout.env
      dsimp only
      split
      · rename_i h
        exact downRely_consume hi' h.2.2.2
      · exact hrefl
    | other x b => exact he.elim
  · exact (env_agree hi' w he).downRely

/-! ## The setting -/

/-- A write. -/
def RttOp.IsWrite : RttOp → Prop
  | .memWrite _ _ => True
  | _ => False

/-- Everything that was taken for a channel has been read by the target or is in the buffer. -/
def Delivered (L : RttLayout) (i : Nat) (w : RttWorld) : Prop :=
  w.got i = w.consumed i ++ L.pending w.mem i

/-- A write fails only while nothing is held back. -/
def LosesNothing (L : RttLayout) (i : Nat) (w : RttWorld) (o : RttOp) (fails : Bool) : Prop :=
  fails = true → o.IsWrite → Delivered L i w

/-- No write lands between the tail and the head. -/
def LandsFree (L : RttLayout) (i : Nat) (w : RttWorld) : RttOp → Prop
  | .memWrite addr data => ∀ k < L.fill w.mem i,
    L.bufAddr i + (L.tail w.mem i + k) % L.bufSize i < addr ∨
      addr + data.length ≤ L.bufAddr i + (L.tail w.mem i + k) % L.bufSize i
  | _ => True

/-- The setting of a down channel. -/
def downSetting (L : RttLayout) (i : Nat) : Setting RttOp RttOp.Ans RttWorld where
  perform := rttPerform
  rely := DownRely L i
  allowed := LosesNothing L i
  guard := LandsFree L i
  inv w := ∃ held, HeldBack L i held w
  rely_refl w := (Agree.refl L i w).downRely
  rely_trans _ _ _ h h' := h.trans h'

/-- An access that leaves the channel alone lands elsewhere. -/
theorem Quiet.landsFree {o : RttOp} (h : Quiet L i o) (hpos : 0 < L.bufSize i) :
    LandsFree L i w o := by
  cases o with
  | memWrite addr data =>
    intro k _
    have hp := Nat.mod_lt (L.tail w.mem i + k) hpos
    by_contra hnot
    exact h (L.bufAddr i + (L.tail w.mem i + k) % L.bufSize i) (by omega) (by omega)
      (.inr (.inr (.inr ⟨Nat.le_add_right _ _, by omega⟩)))
  | memRead addr len => trivial
  | nodata => trivial
  | getchar j => trivial
  | write j buf => trivial

/-- A poll may assume the setting of a down channel. -/
theorem downSetting_serves (L : RttLayout) (i : Nat) : Serves L i (downSetting L i) where
  perform := rfl
  stable := by
    rintro w ⟨held, h⟩
    exact h.1.1
  agree _ _ h := h.downRely
  keep := by
    rintro w w' ⟨held, h⟩ hw
    exact ⟨held, h.rely hw⟩
  quiet := by
    rintro w o ⟨held, h⟩ ho
    exact ho.landsFree h.1.pos

/-! ## Storing -/

/-- Characters are stored behind the head, and the local head is behind them. The local tail may be
older than the target's. -/
structure Stored (L : RttLayout) (i : Nat) (g : RttState) (stored held : List UInt8)
    (w : RttWorld) :
    Prop where
  copied : Copied L g
  back : HeldBack L i held w
  ring : L.ring w.mem i (L.head w.mem i) stored.length = stored
  head : (g.rttChannel i).head = (L.head w.mem i + stored.length) % L.bufSize i
  tail : (g.rttChannel i).tail < L.bufSize i
  room : L.fill w.mem i + stored.length ≤
    used (L.bufSize i) (g.rttChannel i).head (g.rttChannel i).tail

variable {g : RttState} {stored held : List UInt8}

/-- The local head is in the buffer. -/
theorem Stored.head_lt (h : Stored L i g stored held w) : (g.rttChannel i).head < L.bufSize i :=
  h.head ▸ Nat.mod_lt _ h.back.1.pos

/-- What is stored leaves one place free. -/
theorem Stored.lt (h : Stored L i g stored held w) : L.fill w.mem i + stored.length < L.bufSize i :=
  Nat.lt_of_le_of_lt h.room (used_lt h.head_lt h.tail)

/-- It stays so when the target takes from the buffer. -/
theorem Stored.rely (h : Stored L i g stored held w) (hw : DownRely L i w w') :
    Stored L i g stored held w' := by
  obtain ⟨hready', hhead, -, hring, k, hk, htail, -⟩ := hw h.back.1
  refine ⟨h.copied, h.back.rely hw, ?_, ?_, h.tail, ?_⟩
  · rw [hring, hhead]
    exact h.ring
  · rw [hhead]
    exact h.head
  · have := h.room
    rw [fill_of_tail h.back.1 hk hhead htail]
    omega

/-- A write does not fail while a character is held back. -/
theorem HeldBack.not_losesNothing (h : HeldBack L i held w) (hne : held ≠ []) {o : RttOp}
    (ho : o.IsWrite) : ¬ LosesNothing L i w o true := by
  intro hclean
  have hdelivered : w.got i = _ := hclean rfl ho
  rw [h.2] at hdelivered
  exact hne (List.append_right_eq_self.1 hdelivered)

/-- The place behind what is stored is free. -/
theorem Stored.landsFree (h : Stored L i g stored held w) (hi : i < L.up + L.down) (c : UInt8) :
    LandsFree L i w (.memWrite (add32 (L.bufAddr i) (g.rttChannel i).head) [c]) := by
  intro k hk
  have hfits := L.buf_fits i hi
  have hhead := h.head_lt
  have hne := live_ne_free h.back.1.2.1 h.back.1.2.2 hk h.lt
  rw [← h.head] at hne
  rw [add32_of_lt (by omega), List.length_singleton]
  omega

/-- A character is taken. -/
theorem Stored.getchar (h : Stored L i g stored held w) (c : UInt8) (cs : List UInt8) :
    Stored L i g stored (held ++ [c])
      { w with input := cs, got := Function.update w.got i (w.got i ++ [c]) } := by
  refine ⟨h.copied, ⟨h.back.1, ?_⟩, h.ring, h.head, h.tail, h.room⟩
  dsimp only
  rw [Function.update_self, h.back.2, List.append_assoc]

/-- A character is stored. -/
theorem Stored.store {c : UInt8} (h : Stored L i g stored (stored ++ [c]) w)
    (hi : i < L.up + L.down)
    (hroom : (g.rttChannel i).tail ≠ ((g.rttChannel i).head + 1) % L.bufSize i) :
    Stored L i (g.setHead i (((g.rttChannel i).head + 1) % L.bufSize i)) (stored ++ [c])
      (stored ++ [c])
      { w with mem := storeBytes w.mem (add32 (L.bufAddr i) (g.rttChannel i).head) [c] } := by
  have hfits := L.buf_fits i hi
  have hp := h.head_lt
  have hlt := h.lt
  obtain ⟨⟨hs, hhead, htail⟩, hgot⟩ := h.back
  rw [add32_of_lt (by omega)]
  have hfill : L.fill (storeBytes w.mem (L.bufAddr i + (g.rttChannel i).head) [c]) i =
      L.fill w.mem i := by
    rw [RttLayout.fill, RttLayout.head_storeByte hi hp, RttLayout.tail_storeByte hi hp]
    rfl
  have hfull := used_succ_lt hp h.tail hroom
  refine ⟨h.copied.setHead _, ⟨⟨hs.storeByte hi hp, ?_⟩, ?_⟩, ?_, ?_, ?_, ?_⟩
  · rw [RttLayout.Sane, RttLayout.head_storeByte hi hp, RttLayout.tail_storeByte hi hp]
    exact ⟨hhead, htail⟩
  · dsimp only
    rw [RttLayout.pending, hfill, RttLayout.tail_storeByte hi hp, RttLayout.ring_storeByte]
    · exact hgot
    · intro k hk
      rw [h.head]
      exact live_ne_free hhead htail hk hlt
  · dsimp only
    rw [RttLayout.head_storeByte hi hp, List.length_append, List.length_singleton, RttLayout.ring,
      contents_add]
    congr 1
    · have := @RttLayout.ring_storeByte L i w.mem stored.length (g.rttChannel i).head c
        (L.head w.mem i) ?_
      · rw [RttLayout.ring] at this
        rw [this, h.ring]
      · intro k hk
        rw [h.head]
        exact place_ne (by omega) (by omega) (by omega)
    · rw [← contents_mod, ← h.head]
      simp [contents, storeBytes, Nat.mod_eq_of_lt hp]
  · dsimp only
    rw [RttState.setHead_self, RttLayout.head_storeByte hi hp, List.length_append,
      List.length_singleton, h.head, Nat.mod_add_mod, Nat.add_assoc]
  · rw [RttState.setHead_self]
    exact h.tail
  · dsimp only
    rw [RttState.setHead_self, hfill, List.length_append, List.length_singleton]
    dsimp only
    rw [used_advance_head hp h.tail hfull]
    have := h.room
    omega

/-- The loop of `read_rtt` ends before its fuel: with more, it is the same program. -/
theorem readRttLoop_enough : ∀ (fuel : Nat) {g : RttState},
    (g.rttChannel i).head < (g.rttChannel i).bufSize →
    (g.rttChannel i).tail < (g.rttChannel i).bufSize →
    (g.rttChannel i).bufSize ≤
      used (g.rttChannel i).bufSize (g.rttChannel i).head (g.rttChannel i).tail + 1 + fuel →
    readRttLoop i (fuel + 1) g = readRttLoop i fuel g := by
  intro fuel
  induction fuel with
  | zero =>
    intro g hhead htail hfull
    unfold readRttLoop
    dsimp only
    rw [if_pos]
    by_contra hne
    have := used_succ_lt hhead htail hne
    omega
  | succ fuel ih =>
    intro g hhead htail hfull
    rw [readRttLoop.eq_def i (fuel + 1 + 1), readRttLoop.eq_def i (fuel + 1)]
    dsimp only
    split
    · rfl
    rename_i hne
    have hroom := used_succ_lt hhead htail hne
    have hnext : readRttLoop i (fuel + 1)
          (g.setHead i (((g.rttChannel i).head + 1) % (g.rttChannel i).bufSize)) =
        readRttLoop i fuel
          (g.setHead i (((g.rttChannel i).head + 1) % (g.rttChannel i).bufSize)) := by
      refine ih ?_ ?_ ?_
      · rw [RttState.setHead_self]
        exact Nat.mod_lt _ (by omega)
      · rw [RttState.setHead_self]
        exact htail
      · rw [RttState.setHead_self]
        dsimp only
        rw [used_advance_head hhead htail hroom]
        omega
    rw [hnext]

/-- The loop of `read_rtt`: as long as no write fails, what it takes is stored. -/
theorem readRttLoop_safe (hi : i < L.up + L.down) :
    ∀ (fuel : Nat) {g : RttState} {stored : List UInt8}
    {w : RttWorld}, Stored L i g stored stored w →
      Safe (downSetting L i) (fun r w' => r.1 = false ∧ ∃ stored, Stored L i r.2 stored stored w')
        (readRttLoop i fuel g) w := by
  intro fuel
  induction fuel with
  | zero => exact fun h => ⟨rfl, _, h⟩
  | succ fuel ih =>
    intro g stored w h
    unfold readRttLoop
    dsimp only
    rw [h.copied.bufAddr i hi, h.copied.bufSize i hi]
    split
    · exact ⟨rfl, stored, h⟩
    rename_i hroom
    rw [safe_bind]
    intro w₁ hw₁
    have h₁ := h.rely hw₁
    refine ⟨trivial, fun fails _ => ?_⟩
    change (downSetting L i).inv (rttPerform w₁ (.getchar i) fails).2 ∧ _
    cases hinput : w₁.input with
    | nil =>
      simp only [downSetting, rttPerform, hinput]
      exact ⟨⟨_, h₁.back⟩, rfl, stored, h₁⟩
    | cons c cs =>
      simp only [downSetting, rttPerform, hinput]
      have h₂ := h₁.getchar c cs
      refine ⟨⟨_, h₂.back⟩, ?_⟩
      change Safe (downSetting L i) _ (rttMemWrite _ _ >>= _) _
      rw [safe_bind]
      intro w₃ hw₃
      have h₃ := h₂.rely hw₃
      refine ⟨h₃.landsFree hi c, fun fails hfails => ?_⟩
      cases fails with
      | true => exact absurd hfails (h₃.back.not_losesNothing (by simp) trivial)
      | false =>
        have h₄ := h₃.store hi hroom
        exact ⟨⟨_, h₄.back⟩, ih h₄⟩

/-- The head is advanced over what has been stored. -/
theorem Stored.publish (h : Stored L i g stored stored w) (hi : i < L.up + L.down) :
    HeldBack L i [] { w with
      mem := storeBytes w.mem (L.desc i + 12) (wordBytes (g.rttChannel i).head) } := by
  have hpos := h.back.1.pos
  have hlt := h.lt
  obtain ⟨⟨hs, hhead, htail⟩, hgot⟩ := h.back
  rw [h.head]
  have hplace := L.place_lt hi hpos (L.head w.mem i + stored.length)
  refine ⟨⟨hs.storeWord (by decide) (by decide), ?_, ?_⟩, ?_⟩
  · rw [RttLayout.head_storeHead hplace]
    exact Nat.mod_lt _ hpos
  · rw [RttLayout.tail_storeHead]
    exact htail
  · have hpending := RttLayout.pending_storeHead hi ⟨hhead, htail⟩ hlt
    rw [h.ring] at hpending
    change w.got i = _
    rw [hpending, hgot, List.append_nil, List.append_assoc]

/-- The copy of a down channel until its turn. -/
def DownView (L : RttLayout) (i : Nat) (ch : RttChannel) (w : RttWorld) : Prop :=
  Ready L i w ∧ ch.head = L.head w.mem i ∧ ch.tail < L.bufSize i ∧
    L.fill w.mem i ≤ used (L.bufSize i) ch.head ch.tail

/-- The turn of a down channel loses nothing while its head is written. -/
theorem readRtt_safe (hi : i < L.up + L.down) (hg : Copied L g) (hidle : HeldBack L i [] w)
    (hview : DownView L i (g.rttChannel i) w) :
    Safe (downSetting L i) (fun r w => Copied L r.2 ∧ (downSetting L i).inv w ∧ HeldBack L i [] w)
      (readRtt g i) w := by
  have hstored : Stored L i g [] [] w :=
    ⟨hg, hidle, rfl, by rw [hview.2.1, List.length_nil, Nat.add_zero, Nat.mod_eq_of_lt hidle.1.2.1],
      hview.2.2.1, hview.2.2.2⟩
  unfold readRtt
  rw [safe_bind]
  intro w₁ hw₁
  have h₁ := hstored.rely hw₁
  refine ⟨trivial, fun fails _ => ⟨⟨_, h₁.back⟩, ?_⟩⟩
  have hstay :=
    And.intro hg (And.intro (Exists.intro [] h₁.back : (downSetting L i).inv w₁) h₁.back)
  change Safe _ _ (if w₁.input.isEmpty = true then _ else _) w₁
  split
  · exact hstay
  split
  · exact hstay
  split
  · exact hstay
  rw [safe_bind]
  refine (readRttLoop_safe hi _ h₁).imp fun r w₂ hr => ?_
  obtain ⟨failed, g'⟩ := r
  obtain ⟨rfl, stored, h₂⟩ := hr
  change Safe _ _ (rttMemWrite _ _ >>= _) w₂
  rw [safe_bind, h₂.copied.cbaddr, L.add32_desc hi (by decide)]
  intro w₃ hw₃
  have h₃ := h₂.rely hw₃
  refine ⟨?_, fun fails hfails => ?_⟩
  · -- the word of the head is not in the buffer
    intro k _
    have hp := Nat.mod_lt (L.tail w₃.mem i + k) h₃.back.1.pos
    have hcb := L.buf_cb i hi
    have hlen : (wordBytes (g'.rttChannel i).head).length = 4 := rfl
    rw [hlen, RttLayout.desc]
    omega
  · cases fails with
    | true =>
      obtain rfl : stored = [] := by
        by_contra hne
        exact h₃.back.not_losesNothing hne (o := .memWrite _ _) trivial hfails
      exact ⟨⟨_, h₃.back⟩, h₃.copied, ⟨_, h₃.back⟩, h₃.back⟩
    | false =>
      have hpublish := h₃.publish hi
      exact ⟨⟨_, hpublish⟩, h₃.copied, ⟨_, hpublish⟩, hpublish⟩

/-- So the channel is served. -/
theorem downSetting_served (hi : L.up ≤ i) (hi' : i < L.up + L.down) :
    Served L i (downSetting L i) (HeldBack L i []) (DownView L i) where
  toServes := downSetting_serves L i
  idle_rely _ _ h hw := h.rely hw
  view_rely := by
    rintro ch w w' ⟨hready, hhead, htail, hfill⟩ hw
    obtain ⟨hready', hhead', -, -, k, hk, htail', -⟩ := hw hready
    refine ⟨hready', hhead.trans hhead'.symm, htail, ?_⟩
    rw [fill_of_tail hready hk hhead' htail']
    omega
  view _ _ h := ⟨h.1, rfl, h.1.2.2, le_refl _⟩
  turn := by
    intro g w hg hinv hidle hview
    unfold pollChannel
    split
    · rw [if_neg (by rw [hg.up]; omega)]
      exact readRtt_safe hi' ⟨hg.cbaddr, hg.up, hg.down, hg.bufAddr, hg.bufSize⟩ hidle hview
    · exact ⟨hg, hinv, hidle⟩

/-- A down channel is an ordered stream as long as no write fails while characters are held back:
what the target reads is a prefix of what `rtt_getchar` returned, and no write lands on what the
target has not read. -/
theorem rttRun_down (L : RttLayout) {i : Nat} (hi : L.up ≤ i) (hi' : i < L.up + L.down)
    {w : RttWorld} (hs : L.Stable w.mem) (hsane : L.Sane w.mem i) (hdelivered : Delivered L i w)
    {g : RttState} (hfound : g.rttFound = false) (events : List (Event RttEnv RttCall))
    (hclean : Machine.Along L.step (AtTurn (LosesNothing L i)) (w, .ret g) events) :
    Machine.Always L.step (fun st => st.1.consumed i <+: st.1.got i) (w, .ret g) events ∧
      Machine.Along L.step (AtTurn fun w o _ => LandsFree L i w o) (w, .ret g) events := by
  have hidle : HeldBack L i [] w := ⟨⟨hs, hsane⟩, by rw [hdelivered, List.append_nil]⟩
  have hlocated : Located L g := fun h => by
    rw [hfound] at h
    cases h
  have henv : ∀ w e, (downSetting L i).inv w →
      (downSetting L i).inv (L.env w e) ∧ (downSetting L i).rely w (L.env w e) := by
    rintro w e ⟨held, h⟩
    exact ⟨⟨held, h.rely (downRely_env hi hi' w e)⟩, downRely_env hi hi' w e⟩
  obtain ⟨halways, halong⟩ :=
    (downSetting_served hi hi').run hi' henv hlocated ⟨[], hidle⟩ hidle hclean
  refine ⟨fun before after st hst hrun => ?_, halong⟩
  obtain ⟨⟨held, hheld⟩, -⟩ := halways before after st hst hrun
  rw [hheld.2, List.append_assoc]
  exact List.prefix_append _ _

/-- A character at the end of the buffer: it is taken, stored, published and read. -/
def oneCharacter : List (Event RttEnv RttCall) :=
  [.env (.host [0x61]), .call ⟨1000, true⟩, .turn false, .turn false, .turn false, .turn false,
    .turn false, .turn false, .turn false, .turn false, .turn false, .env (.consume 1 1)]

/-- One character stored to the last place of the buffer. -/
theorem rttRun_down_wrap :
    Machine.Always RttLayout.oneEach.step (fun st => st.1.consumed 1 <+: st.1.got 1)
        (oneEachWorld, .ret RttState.boot) oneCharacter ∧
      Machine.Along RttLayout.oneEach.step (AtTurn fun w o _ => LandsFree RttLayout.oneEach 1 w o)
        (oneEachWorld, .ret RttState.boot) oneCharacter := by
  refine rttRun_down RttLayout.oneEach (by decide) (by decide) oneEach_stable (by decide +kernel)
    (show [] = _ by decide +kernel) rfl _ ?_
  rintro before ev after ⟨w, p⟩ hev -
  have hmem : ev ∈ oneCharacter := by
    rw [hev]
    exact List.mem_append_right before List.mem_cons_self
  cases p with
  | ret g => trivial
  | ask o k =>
    cases ev with
    | env e => trivial
    | call c => trivial
    | turn fails =>
      intro hfails
      subst hfails
      simp [oneCharacter] at hmem

/-- The write that stores a character fails, and the target reads the next one. -/
def lostCharacter : List (Event RttEnv RttCall) :=
  [.env (.host [0x61]), .call ⟨1000, true⟩, .turn false, .turn false, .turn false, .turn false,
    .turn false, .turn false, .turn true, .env (.host [0x62]), .call ⟨2000, true⟩, .turn false,
    .turn false, .turn false, .turn false, .turn false, .turn false, .turn false,
    .env (.consume 1 1)]

/-- A character whose head is not written is lost. -/
theorem rttRun_down_lost :
    ¬ Machine.Always RttLayout.oneEach.step (fun st => st.1.consumed 1 <+: st.1.got 1)
      (oneEachWorld, .ret RttState.boot) lostCharacter := by
  intro h
  have hlost := h _ [] _ (List.append_nil _).symm rfl
  revert hlost
  decide +kernel

end

end Blackmagic
