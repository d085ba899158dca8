import Mathlib
import Blackmagic.Rtt.Serve

/-!
# Up channels are ordered streams

What the target writes to an up channel is what was passed to `rtt_write`, then what has been read
and released but not passed on yet, then what is in the buffer (`InFlight`). Only the target appends
to it, and only `print_rtt` takes from it: it reads first, releases what it has read, and passes it
on last.
-/

namespace Blackmagic

open Word Bytes Memory Prog

/-- The bytes that the target wrote to an up channel: passed on, in flight, and in the buffer. -/
def InFlight (L : RttLayout) (i : Nat) (flight : List UInt8) (w : RttWorld) : Prop :=
  Ready L i w ∧ w.written i = w.sent i ++ flight ++ L.pending w.mem i

/-- What others do to an up channel: they append to it. -/
def UpRely (L : RttLayout) (i : Nat) (w w' : RttWorld) : Prop :=
  Ready L i w → Ready L i w' ∧ L.tail w'.mem i = L.tail w.mem i ∧ w'.sent i = w.sent i ∧
    ∃ new, w'.written i = w.written i ++ new ∧ L.pending w'.mem i = L.pending w.mem i ++ new

section
variable {L : RttLayout} {i : Nat} {w w' w'' : RttWorld}

/-- Where nothing of a channel has changed, nothing was appended. -/
theorem Agree.upRely (h : Agree L i w w') : UpRely L i w w' := fun hready =>
  ⟨h.ready hready, h.tail, h.sent, [], by rw [h.written, List.append_nil],
    by rw [h.pending hready.pos, List.append_nil]⟩

/-- What others append in two steps. -/
theorem UpRely.trans (h : UpRely L i w w') (h' : UpRely L i w' w'') : UpRely L i w w'' := by
  intro hready
  obtain ⟨hready', htail, hsent, new, hwritten, hpending⟩ := h hready
  obtain ⟨hready'', htail', hsent', new', hwritten', hpending'⟩ := h' hready'
  refine ⟨hready'', htail'.trans htail, hsent'.trans hsent, new ++ new', ?_, ?_⟩
  · rw [hwritten', hwritten, List.append_assoc]
  · rw [hpending', hpending, List.append_assoc]

/-- Bytes appended by the target are accounted for. -/
theorem InFlight.rely {flight : List UInt8} (h : InFlight L i flight w) (hw : UpRely L i w w') :
    InFlight L i flight w' := by
  obtain ⟨hready, -, hsent, new, hwritten, hpending⟩ := hw h.1
  refine ⟨hready, ?_⟩
  rw [hwritten, h.2, hsent, hpending, List.append_assoc]

/-- The buffer only fills up. -/
theorem UpRely.fill_le (h : UpRely L i w w') (hready : Ready L i w) :
    L.fill w.mem i ≤ L.fill w'.mem i := by
  obtain ⟨-, -, -, new, -, hpending⟩ := h hready
  rw [← length_pending, ← length_pending, hpending, List.length_append]
  omega

/-- The bytes at its front stay. -/
theorem UpRely.take_pending (h : UpRely L i w w') (hready : Ready L i w) {n : Nat}
    (hn : n ≤ L.fill w.mem i) : (L.pending w'.mem i).take n = (L.pending w.mem i).take n := by
  obtain ⟨-, -, -, new, -, hpending⟩ := h hready
  rw [hpending, List.take_append_of_le_length (by rwa [length_pending])]

/-! ## The target -/

/-- A byte in the free part of a buffer. -/
theorem upRely_store (hi : i < L.up) {k : Nat} (b : UInt8)
    (hk : L.fill w.mem i + k + 1 < L.bufSize i) :
    UpRely L i w { w with
      mem := storeBytes w.mem (L.bufAddr i + (L.head w.mem i + k) % L.bufSize i) [b] } := by
  intro hready
  have hi' : i < L.up + L.down := by omega
  have hp := Nat.mod_lt (L.head w.mem i + k) hready.pos
  obtain ⟨hs, hhead, htail⟩ := hready
  refine ⟨⟨hs.storeByte hi' hp, ?_⟩, RttLayout.tail_storeByte hi' hp, rfl, [],
    (List.append_nil _).symm, ?_⟩
  · rw [RttLayout.Sane, RttLayout.head_storeByte hi' hp, RttLayout.tail_storeByte hi' hp]
    exact ⟨hhead, htail⟩
  · rw [List.append_nil, RttLayout.pending, RttLayout.fill, RttLayout.head_storeByte hi' hp,
      RttLayout.tail_storeByte hi' hp]
    refine RttLayout.ring_storeByte fun j hj => live_ne_free hhead htail hj ?_
    rw [RttLayout.fill] at hk
    omega

/-- The head is advanced over bytes that have been stored. -/
theorem upRely_publish (hi : i < L.up) {n : Nat} (hn : L.fill w.mem i + n < L.bufSize i) :
    UpRely L i w { w with
      mem := storeBytes w.mem (L.desc i + 12) (wordBytes ((L.head w.mem i + n) % L.bufSize i)),
      written := Function.update w.written i (w.written i ++ L.ring w.mem i (L.head w.mem i) n)
        } := by
  intro hready
  have hi' : i < L.up + L.down := by omega
  have hpos := hready.pos
  obtain ⟨hs, hhead, htail⟩ := hready
  have hlt := L.place_lt hi' hpos (L.head w.mem i + n)
  refine ⟨⟨hs.storeWord (by decide) (by decide), ?_, ?_⟩, RttLayout.tail_storeHead, rfl,
    L.ring w.mem i (L.head w.mem i) n, Function.update_self _ _ _, ?_⟩
  · rw [RttLayout.head_storeHead hlt]
    exact Nat.mod_lt _ hpos
  · rw [RttLayout.tail_storeHead]
    exact htail
  · exact RttLayout.pending_storeHead hi' ⟨hhead, htail⟩ hn

/-- The steps of the target and the host. -/
theorem upRely_env (hi : i < L.up) (w : RttWorld) (e : RttEnv) : UpRely L i w (L.env w e) := by
  have hrefl : UpRely L i w w := (Agree.refl L i w).upRely
  by_cases he : e.About i
  · cases e with
    | host bytes => exact he.elim
    | store j k b =>
      cases he
      unfold RttLayout.env
      dsimp only
      split
      · rename_i h
        exact upRely_store hi b h.2.2
      · exact hrefl
    | publish j n =>
      cases he
      unfold RttLayout.env
      dsimp only
      split
      · rename_i h
        exact upRely_publish hi h.2.2
      · exact hrefl
    | consume j n =>
      cases he
      unfold RttLayout.env
      dsimp only
      rw [if_neg (by omega)]
      exact hrefl
    | other x b => exact he.elim
  · exact (env_agree (by omega) w he).upRely

/-! ## Reading -/

/-- The setting of an up channel. Every access may fail. -/
def upSetting (L : RttLayout) (i : Nat) : Setting RttOp RttOp.Ans RttWorld where
  perform := rttPerform
  rely := UpRely L i
  allowed _ _ _ := True
  guard _ _ := True
  inv w := ∃ flight, InFlight L i flight w
  rely_refl w := (Agree.refl L i w).upRely
  rely_trans _ _ _ h h' := h.trans h'

/-- A poll may assume the setting of an up channel. -/
theorem upSetting_serves (L : RttLayout) (i : Nat) : Serves L i (upSetting L i) where
  perform := rfl
  stable := by
    rintro w ⟨flight, h⟩
    exact h.1.1
  agree _ _ h := h.upRely
  keep := by
    rintro w w' ⟨flight, h⟩ hw
    exact ⟨flight, h.rely hw⟩
  quiet _ _ _ _ := trivial

/-- `rtt_aligned_mem_read` puts the bytes it is asked for behind what is in the buffer. -/
theorem Serves.alignedMemRead {S : Setting RttOp RttOp.Ans RttWorld} (h : Serves L i S)
    (hinv : S.inv w) {xmit : List UInt8} {dest src len : Nat} (hdest : dest ≤ xmit.length)
    {Q : Bool × List UInt8 → RttWorld → Prop}
    (hfail : ∀ x w', S.rely w w' → S.inv w' → Q (true, x) w')
    (hok : ∀ x w', S.rely w w' → S.inv w' →
      x.take (dest + len) = xmit.take dest ++ bytesAt w'.mem src len → Q (false, x) w') :
    Safe S Q (rttAlignedMemRead xmit dest src len) w := by
  unfold rttAlignedMemRead
  dsimp only
  have hlen : src % 4 + len ≤
      if (len + src % 4) % 4 = 0 then len + src % 4 else (len + src % 4 + 4) / 4 * 4 := by
    split <;> omega
  generalize (if (len + src % 4) % 4 = 0 then _ else _) = len₀ at hlen ⊢
  split
  · rw [safe_bind]
    refine h.memRead hinv (fun w' hw hinv' => hfail _ w' hw hinv') fun w' hw hinv' => ?_
    refine hok _ w' hw hinv' ?_
    have := take_overwrite (bytesAt w'.mem src len) hdest
    rwa [length_bytesAt] at this
  · rw [safe_bind]
    refine h.memRead hinv (fun w' hw hinv' => hfail _ w' hw hinv') fun w' hw hinv' => ?_
    refine hok _ w' hw hinv' ?_
    rw [slice_overwrite hdest (by rwa [length_bytesAt]), slice_bytesAt hlen,
      show src - src % 4 + src % 4 = src by omega]
    have hdest' : dest ≤ (overwrite xmit dest (bytesAt w'.mem (src - src % 4) len₀)).length := by
      simp [overwrite]
      omega
    have := take_overwrite (bytesAt w'.mem src len) hdest'
    rw [length_bytesAt] at this
    rw [this]
    congr 1
    rw [overwrite, List.append_assoc, List.take_left' (by simp [hdest])]

/-- The first bytes of the buffer are in `xmit_buf`, and the local tail is behind them. -/
structure Taken (L : RttLayout) (i : Nat) (g : RttState) (n : Nat) (w : RttWorld) : Prop where
  copied : Copied L g
  idle : InFlight L i [] w
  tail : (g.rttChannel i).tail = (L.tail w.mem i + n) % L.bufSize i
  head : ∃ m, n ≤ m ∧ m ≤ L.fill w.mem i ∧
    (g.rttChannel i).head = (L.tail w.mem i + m) % L.bufSize i
  data : g.xmitBuf.take n = (L.pending w.mem i).take n

variable {g : RttState} {n : Nat}

/-- No more is taken than there is. -/
theorem Taken.le (h : Taken L i g n w) : n ≤ L.fill w.mem i := by
  obtain ⟨m, hn, hm, -⟩ := h.head
  omega

/-- What was taken stays taken. -/
theorem Taken.rely (h : Taken L i g n w) (hw : UpRely L i w w') : Taken L i g n w' := by
  have hready := h.idle.1
  have htail := (hw hready).2.1
  obtain ⟨m, hn, hm, hhead⟩ := h.head
  refine ⟨h.copied, h.idle.rely hw, ?_, ⟨m, hn, hm.trans (hw.fill_le hready), ?_⟩, ?_⟩
  · rw [htail]
    exact h.tail
  · rw [htail]
    exact hhead
  · rw [hw.take_pending hready h.le]
    exact h.data

/-- What was taken is in `xmit_buf`. -/
theorem Taken.length_le (h : Taken L i g n w) : n ≤ g.xmitBuf.length := by
  have := congrArg List.length h.data
  rw [List.length_take, List.length_take, length_pending, Nat.min_eq_left h.le] at this
  omega

/-- One read of an up channel takes the bytes that follow, or fails. -/
theorem rttSegment_safe (hi : i < L.up) (h : Taken L i g n w) {m len : Nat}
    (hlen : (g.rttChannel i).tail + len ≤ L.bufSize i) (hm : n + len ≤ m)
    (hm' : m ≤ L.fill w.mem i)
    (hhead : (g.rttChannel i).head = (L.tail w.mem i + m) % L.bufSize i) :
    Safe (upSetting L i)
      (fun r w' => if r.1 then Copied L r.2 ∧ InFlight L i [] w' else Taken L i r.2 (n + len) w')
      (rttSegment g i n len) w := by
  have hi' : i < L.up + L.down := by omega
  unfold rttSegment
  dsimp only
  rw [safe_bind, h.copied.bufAddr i hi', h.copied.bufSize i hi']
  refine (upSetting_serves L i).alignedMemRead ⟨[], h.idle⟩ h.length_le
    (fun x w' hw _ => ?_) fun x w' hw _ hx => ?_
  · exact ⟨h.copied.xmitBuf x, h.idle.rely hw⟩
  · have hfits := L.buf_fits i hi'
    have hready := h.idle.1
    have htail := (hw hready).2.1
    have h' := h.rely hw
    have hread : bytesAt w'.mem (add32 (L.bufAddr i) (g.rttChannel i).tail) len =
        L.ring w'.mem i (L.tail w'.mem i + n) len := by
      have hlt : (g.rttChannel i).tail < L.bufSize i := h.tail ▸ Nat.mod_lt _ hready.pos
      rw [add32_of_lt (by omega), RttLayout.ring, ← contents_mod, ← h'.tail,
        contents_eq_bytesAt hlen]
    refine ⟨h.copied.setTail _ x, h'.idle, ?_, ⟨m, hm, hm'.trans (hw.fill_le hready), ?_⟩, ?_⟩
    · rw [RttState.setTail_self]
      dsimp only
      rw [h'.tail, Nat.mod_add_mod, Nat.add_assoc]
    · rw [RttState.setTail_self, htail]
      exact hhead
    · have hle : n + len ≤ L.fill w'.mem i := hm.trans (hm'.trans (hw.fill_le hready))
      change x.take (n + len) = _
      rw [hx, h'.data, hread, RttLayout.pending, RttLayout.ring, take_contents (by omega),
        take_contents hle, contents_add]
      rfl

/-- What a read of `print_rtt` leaves. -/
def Collected (L : RttLayout) (i : Nat) (r : Bool × RttState × Nat) (w : RttWorld) : Prop :=
  if r.1 then Copied L r.2.1 ∧ InFlight L i [] w else Taken L i r.2.1 r.2.2 w

/-- The first read goes up to the head or to the end of the buffer. -/
theorem rttFirst_safe (hi : i < L.up) (h : Taken L i g 0 w) :
    Safe (upSetting L i) (Collected L i) (rttFirst g i) w := by
  have hpos := h.idle.1.pos
  obtain ⟨m, -, hm, hhead⟩ := h.head
  have htail := h.tail
  have hlt := used_lt h.idle.1.2.1 h.idle.1.2.2
  have hsize := h.copied.bufSize i (by omega)
  unfold rttFirst
  dsimp only
  split
  · rename_i hwrap
    rw [safe_bind, hsize]
    rw [Nat.add_zero, Nat.mod_eq_of_lt h.idle.1.2.2] at htail
    have hlen : (g.rttChannel i).tail +
        min (L.bufSize i - (g.rttChannel i).tail) (rttUpBufSize - 8) ≤ L.bufSize i := by
      have := h.idle.1.2.2
      omega
    refine (rttSegment_safe hi h hlen ?_ hm hhead).imp fun r w' hr => ?_
    · -- the head is before the tail, so the bytes go over the end of the buffer
      rw [hhead, ← htail, mod_of_lt_two_mul (by rw [RttLayout.fill] at hm; omega)] at hwrap
      split at hwrap <;> omega
    · rwa [Nat.zero_add] at hr
  · exact h

/-- The second goes on at the start of the buffer. -/
theorem rttSecond_safe (hi : i < L.up) (h : Taken L i g n w) :
    Safe (upSetting L i) (Collected L i) (rttSecond g i n) w := by
  have hpos := h.idle.1.pos
  obtain ⟨m, hn, hm, hhead⟩ := h.head
  have htail := h.tail
  have hlt := used_lt h.idle.1.2.1 h.idle.1.2.2
  unfold rttSecond
  dsimp only
  split
  · rename_i hfree
    rw [safe_bind]
    have hhead_lt : (g.rttChannel i).head < L.bufSize i := hhead ▸ Nat.mod_lt _ hpos
    refine (rttSegment_safe hi h (by omega) ?_ hm hhead).imp fun r w' hr => hr
    have ht := h.idle.1.2.2
    rw [RttLayout.fill] at hm
    have hhead' := hhead.trans (mod_of_lt_two_mul (by omega))
    have htail' := htail.trans (mod_of_lt_two_mul (by omega))
    split at hhead' <;> split at htail' <;> omega
  · exact h

/-- Together they collect what was there. -/
theorem rttCollect_safe (hi : i < L.up) (h : Taken L i g 0 w) :
    Safe (upSetting L i) (Collected L i) (rttCollect g i) w := by
  unfold rttCollect
  rw [safe_bind]
  refine (rttFirst_safe hi h).imp fun r w' hr => ?_
  obtain ⟨failed, g', n⟩ := r
  cases failed with
  | true => exact hr
  | false => exact rttSecond_safe hi hr

/-! ## Releasing and passing on -/

/-- The tail is advanced over the bytes that have been read. -/
theorem InFlight.release (h : InFlight L i [] w) (hi : i < L.up + L.down)
    (hn : n ≤ L.fill w.mem i) :
    InFlight L i ((L.pending w.mem i).take n) { w with
      mem := storeBytes w.mem (L.desc i + 16) (wordBytes ((L.tail w.mem i + n) % L.bufSize i))
        } := by
  obtain ⟨hready, hwritten⟩ := h
  have hpos := hready.pos
  obtain ⟨hs, hhead, htail⟩ := hready
  have hlt := L.place_lt hi hpos (L.tail w.mem i + n)
  refine ⟨⟨hs.storeWord (by decide) (by decide), ?_, ?_⟩, ?_⟩
  · rw [RttLayout.head_storeTail]
    exact hhead
  · rw [RttLayout.tail_storeTail hlt]
    exact Nat.mod_lt _ hpos
  · have hpending := RttLayout.pending_storeTail hi ⟨hhead, htail⟩ hn
    change w.written i = _
    rw [hpending, hwritten, List.append_nil, List.append_assoc, List.take_append_drop]

/-- What has been released is passed on. -/
theorem InFlight.write {flight : List UInt8} (h : InFlight L i flight w) :
    InFlight L i [] { w with sent := Function.update w.sent i (w.sent i ++ flight) } := by
  refine ⟨h.1, ?_⟩
  dsimp only
  rw [Function.update_self, List.append_nil]
  exact h.2

/-- The turn of an up channel passes on what it took, in order. -/
theorem printRtt_safe (hi : i < L.up) (h : Taken L i g 0 w) :
    Safe (upSetting L i) (fun r w => Copied L r.2 ∧ (upSetting L i).inv w ∧ InFlight L i [] w)
      (printRtt g i) w := by
  have hi' : i < L.up + L.down := by omega
  have hstay :=
    And.intro h.copied (And.intro (Exists.intro [] h.idle : (upSetting L i).inv w) h.idle)
  unfold printRtt
  dsimp only
  split
  · exact hstay
  split
  · exact hstay
  split
  · exact hstay
  rw [safe_bind]
  refine (rttCollect_safe hi h).imp fun r w₁ hr => ?_
  obtain ⟨failed, g', n⟩ := r
  cases failed with
  | true => exact ⟨hr.1, ⟨[], hr.2⟩, hr.2⟩
  | false =>
    change Safe _ _ (rttMemWrite _ _ >>= _) w₁
    have htaken : Taken L i g' n w₁ := hr
    rw [safe_bind, htaken.copied.cbaddr, L.add32_desc hi' (by decide)]
    intro w₂ hw₂
    have h₂ := htaken.rely hw₂
    refine ⟨trivial, fun fails _ => ?_⟩
    cases fails with
    | true => exact ⟨⟨[], h₂.idle⟩, h₂.copied, ⟨[], h₂.idle⟩, h₂.idle⟩
    | false =>
      have hrelease := h₂.idle.release hi' h₂.le
      rw [← h₂.tail, ← h₂.data] at hrelease
      refine ⟨⟨_, hrelease⟩, fun w₃ hw₃ => ⟨trivial, fun _ _ => ?_⟩⟩
      have hwrite := (hrelease.rely hw₃).write
      exact ⟨⟨[], hwrite⟩, h₂.copied, ⟨[], hwrite⟩, hwrite⟩

/-- The copy of an up channel until its turn. -/
def UpView (L : RttLayout) (i : Nat) (ch : RttChannel) (w : RttWorld) : Prop :=
  Ready L i w ∧ ch.tail = L.tail w.mem i ∧
    ∃ m ≤ L.fill w.mem i, ch.head = (L.tail w.mem i + m) % L.bufSize i

/-- So the channel is served. -/
theorem upSetting_served (hi : i < L.up) :
    Served L i (upSetting L i) (InFlight L i []) (UpView L i) where
  toServes := upSetting_serves L i
  idle_rely _ _ h hw := h.rely hw
  view_rely := by
    rintro ch w w' ⟨hready, htail, m, hm, hhead⟩ hw
    have htail' := (hw hready).2.1
    refine ⟨(hw hready).1, ?_, m, hm.trans (hw.fill_le hready), ?_⟩
    · rw [htail']
      exact htail
    · rw [htail']
      exact hhead
  view := by
    intro w _ h
    refine ⟨h.1, rfl, L.fill w.mem i, le_refl _, ?_⟩
    exact (add_used h.1.2.1 h.1.2.2).symm
  turn := by
    rintro g w hg hinv hidle ⟨hready, htail, m, hm, hhead⟩
    have htaken : Taken L i g 0 w := by
      refine ⟨hg, hidle, ?_, ⟨m, Nat.zero_le m, hm, hhead⟩, rfl⟩
      rw [htail, Nat.add_zero, Nat.mod_eq_of_lt hready.2.2]
    unfold pollChannel
    split
    · rw [if_pos (hg.up ▸ hi)]
      exact printRtt_safe hi htaken
    · exact ⟨hg, hinv, hidle⟩

/-- An up channel is an ordered stream: in every run, what was passed to `rtt_write` is a prefix of
what the target wrote, the target's tail is behind all of it, and between polls just behind it. -/
theorem rttRun_up (L : RttLayout) {i : Nat} (hi : i < L.up) {w : RttWorld} (hs : L.Stable w.mem)
    (hsane : L.Sane w.mem i) (hsent : w.sent i = []) (hwritten : w.written i = L.pending w.mem i)
    {g : RttState} (hfound : g.rttFound = false) (events : List (Event RttEnv RttCall)) :
    Machine.Always L.step
      (fun st => st.1.sent i <+: st.1.written i ∧
        (st.1.sent i).length + L.fill st.1.mem i ≤ (st.1.written i).length ∧
        ∀ g, st.2 = .ret g → (st.1.sent i).length + L.fill st.1.mem i = (st.1.written i).length)
      (w, .ret g) events := by
  have hidle : InFlight L i [] w := ⟨⟨hs, hsane⟩, by rw [hsent, hwritten]; rfl⟩
  have hlocated : Located L g := fun h => by
    rw [hfound] at h
    cases h
  have henv : ∀ w e, (upSetting L i).inv w →
      (upSetting L i).inv (L.env w e) ∧ (upSetting L i).rely w (L.env w e) := by
    rintro w e ⟨flight, h⟩
    exact ⟨⟨flight, h.rely (upRely_env hi w e)⟩, upRely_env hi w e⟩
  have hallowed : Machine.Along L.step (AtTurn (upSetting L i).allowed) (w, .ret g) events := by
    rintro before ev after ⟨w', p⟩ - -
    cases p with
    | ret g' => trivial
    | ask o k => cases ev <;> trivial
  obtain ⟨halways, -⟩ :=
    (upSetting_served hi).run (by omega) henv hlocated ⟨[], hidle⟩ hidle hallowed
  intro before after st hst hrun
  obtain ⟨⟨flight, hflight⟩, hret⟩ := halways before after st hst hrun
  refine ⟨?_, ?_, fun g' hg' => ?_⟩
  · rw [hflight.2, List.append_assoc]
    exact List.prefix_append _ _
  · rw [hflight.2, List.length_append, List.length_append, length_pending]
    omega
  · rw [(hret g' hg').2, List.append_nil, List.length_append, length_pending]

/-- Two bytes around the end of the buffer, with a poll that fails to read them and one that fails
to release them. -/
def twoBytes : List (Event RttEnv RttCall) :=
  [.env (.store 0 0 0x61), .env (.store 0 1 0x62), .env (.publish 0 2), .call ⟨1000, true⟩,
    .turn false, .turn false, .turn false, .turn false, .turn true, .turn false, .call ⟨2000, true⟩,
    .turn false,
    .turn false, .turn false, .turn false, .turn true, .turn false, .call ⟨3000, true⟩, .turn false,
    .turn false, .turn false, .turn false, .turn false, .turn false, .turn false]

/-- Two bytes across the end of the buffer. -/
theorem rttRun_up_wrap :
    Machine.Always RttLayout.oneEach.step
      (fun st => st.1.sent 0 <+: st.1.written 0 ∧
        (st.1.sent 0).length + RttLayout.oneEach.fill st.1.mem 0 ≤ (st.1.written 0).length ∧
        ∀ g, st.2 = .ret g →
          (st.1.sent 0).length + RttLayout.oneEach.fill st.1.mem 0 = (st.1.written 0).length)
      (oneEachWorld, .ret RttState.boot) twoBytes :=
  rttRun_up RttLayout.oneEach (by decide) oneEach_stable (by decide +kernel) rfl
    (by decide +kernel) rfl _

end

end Blackmagic
