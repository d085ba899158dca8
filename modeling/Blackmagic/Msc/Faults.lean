import Blackmagic.Msc.Cache

/-!
# Media errors

Runs of the cache on a media whose operations may fail. `WearLevelling.logged` records every
operation on the partition with its result. What a failed write-back means for a sector that the
host was told is written: `flush_slot` reports it, but `slot_bind` and `flush_all` do not look at
the report. As long as no `wl_erase_range` and no `wl_write` fails, every acknowledged sector stays
readable, also when reads of the media fail.
-/

namespace Blackmagic

open Word

/-! ## The log of the media -/

/-- An operation on the partition, and whether it succeeded. -/
inductive WlEvent
  | read (addr size : Nat) (ok : Bool)
  | erase (addr size : Nat) (ok : Bool)
  | write (addr size : Nat) (ok : Bool)
  deriving DecidableEq, Repr

/-- A write-back that failed. -/
def WlEvent.Failed : WlEvent → Prop
  | .read _ _ _ => False
  | .erase _ _ ok => ok = false
  | .write _ _ ok => ok = false

section
variable {ω : Type}

/-- The wear-levelling layer with a log of its operations. -/
def WearLevelling.logged (wl : WearLevelling ω) : WearLevelling (ω × List WlEvent) where
  read := fun a n s =>
    ((wl.read a n s.1).1, (wl.read a n s.1).2, s.2 ++ [.read a n (wl.read a n s.1).1.isSome])
  eraseRange := fun a n s =>
    ((wl.eraseRange a n s.1).1, (wl.eraseRange a n s.1).2,
      s.2 ++ [.erase a n (wl.eraseRange a n s.1).1])
  write := fun a src s =>
    ((wl.write a src s.1).1, (wl.write a src s.1).2,
      s.2 ++ [.write a src.length (wl.write a src s.1).1])

/-- The callbacks with a log of the operations on the partition. -/
def MscEnv.logged (env : MscEnv ω) : MscEnv (ω × List WlEvent) where
  wl := env.wl.logged
  mounted := env.mounted
  sectorSize := env.sectorSize
  sectorCount := env.sectorCount
  malloc := env.malloc

/-- A medium that keeps a log is a medium. -/
theorem MediaLaws.logged {wl : WearLevelling ω} {content : ω → FlatDisk}
    (h : MediaLaws wl content) : MediaLaws wl.logged (fun s => content s.1) where
  read_content := fun a n w => h.read_content a n w.1
  read_eq := fun a n w => h.read_eq a n w.1
  erase_eq := fun a n w => h.erase_eq a n w.1
  write_eq := fun a src w => h.write_eq a src w.1

/-- The log leaves the geometry alone. -/
theorem MscEnv.Wf.logged {env : MscEnv ω} (h : env.Wf) : env.logged.Wf :=
  ⟨h.mounted, h.size_pos, h.size_le, h.count_lt, h.total_lt⟩

/-- The operations that take `s` to `s'`. -/
def Msc.Logs (s s' : Msc (ω × List WlEvent)) (ev : List WlEvent) : Prop :=
  s'.media.2 = s.media.2 ++ ev

/-- No events. -/
theorem Msc.Logs.refl (s : Msc (ω × List WlEvent)) : s.Logs s [] := (List.append_nil _).symm

/-- Events after events. -/
theorem Msc.Logs.trans {s s₁ s₂ : Msc (ω × List WlEvent)} {ev ev' : List WlEvent}
    (h : s.Logs s₁ ev) (h' : s₁.Logs s₂ ev') : s.Logs s₂ (ev ++ ev') := by
  rw [Msc.Logs, h', h, List.append_assoc]

variable (env : MscEnv ω)

/-- The operations of `flush_slot`: none on a clean slot; a failed one makes it return false. -/
theorem flushSlot_logs (i : Nat) (s : Msc (ω × List WlEvent)) :
    ∃ ev, s.Logs (flushSlot env.logged i s).2 ev ∧
      ((∀ e ∈ ev, ¬ e.Failed) → env.mounted = true → (flushSlot env.logged i s).1 = true) ∧
      (ev = [] → ∀ sl, s.slots[i]? = some sl → env.mounted = true → sl.dirty = false) ∧
      ((∀ sl, s.slots[i]? = some sl → sl.dirty = false) → ev = []) := by
  unfold flushSlot
  split
  · next hi =>
    refine ⟨[], .refl s, fun _ _ => rfl, fun _ sl hsl => ?_, fun _ => rfl⟩
    rw [hi] at hsl
    cases hsl
  next sl hi =>
  have hself : ∀ {P : Slot → Prop}, P sl → ∀ sl', s.slots[i]? = some sl' → P sl' := by
    intro P hP sl' hsl'
    rw [hi] at hsl'
    cases hsl'
    exact hP
  cases hd : sl.dirty with
  | false =>
    simp only [Bool.not_false, if_true]
    exact ⟨[], .refl s, fun _ _ => trivial, fun _ => hself fun _ => hd, fun _ => rfl⟩
  | true =>
    cases hm : env.mounted with
    | false =>
      have hm' : env.logged.mounted = false := hm
      simp only [Bool.not_true, Bool.false_eq_true, if_false, hm', Bool.not_false, if_true]
      refine ⟨[], .refl s, fun _ h => by simp at h, fun _ => hself fun h => by simp at h,
        fun h => ?_⟩
      rfl
    | true =>
      have hm' : env.logged.mounted = true := hm
      simp only [Bool.not_true, Bool.false_eq_true, if_false, hm']
      have hdirty : (∀ sl', s.slots[i]? = some sl' → sl'.dirty = false) → False := by
        intro h
        have := h sl hi
        rw [hd] at this
        cases this
      rcases he : env.wl.eraseRange (slotAddr sl s.bs) s.bs s.media.1 with ⟨_ | _, w⟩
      · simp only [MscEnv.logged, WearLevelling.logged, he, Bool.not_false, if_true]
        refine ⟨[.erase (slotAddr sl s.bs) s.bs false], rfl, fun h _ => ?_, fun h => by simp at h,
          fun h => (hdirty h).elim⟩
        exact absurd rfl (h _ List.mem_cons_self)
      · rcases hw : env.wl.write (slotAddr sl s.bs) sl.data w with ⟨_ | _, w'⟩
        · simp only [MscEnv.logged, WearLevelling.logged, he, hw, Bool.not_true, Bool.not_false,
            Bool.false_eq_true, if_false, if_true]
          refine ⟨[.erase (slotAddr sl s.bs) s.bs true,
            .write (slotAddr sl s.bs) sl.data.length false], ?_, fun h _ => ?_,
            fun h => by simp at h, fun h => (hdirty h).elim⟩
          · simp [Msc.Logs]
          · exact absurd rfl (h _ (List.mem_cons_of_mem _ List.mem_cons_self))
        · simp only [MscEnv.logged, WearLevelling.logged, he, hw, Bool.not_true,
            Bool.false_eq_true, if_false]
          refine ⟨[.erase (slotAddr sl s.bs) s.bs true,
            .write (slotAddr sl s.bs) sl.data.length true], ?_, fun _ _ => trivial,
            fun h => by simp at h, fun h => (hdirty h).elim⟩
          simp [Msc.Logs, Msc.setSlot]

/-- A clean slot is not flushed. -/
theorem flushSlot_clean {env : MscEnv ω} {i : Nat} {s : Msc ω}
    (h : ∀ sl, s.slots[i]? = some sl → sl.dirty = false) : flushSlot env i s = (true, s) := by
  unfold flushSlot
  split
  · rfl
  · next sl hi => rw [h sl hi]; rfl

/-- The operations of a flush of `count` slots from `i` on. -/
theorem flushLoopFrom_logs (hm : env.mounted = true) :
    ∀ (count i : Nat) (s : Msc (ω × List WlEvent)),
      ∃ ev, s.Logs (flushLoopFrom env.logged count i s) ev ∧
        ((∀ e ∈ ev, ¬ e.Failed) → FlushesFrom env.logged count i s) ∧
        (ev = [] ↔ ∀ j sl, i ≤ j → j < i + count → s.slots[j]? = some sl → sl.dirty = false) := by
  intro count
  induction count with
  | zero =>
    intro i s
    refine ⟨[], .refl s, fun _ => trivial, fun _ j sl h1 h2 => by omega, fun _ => rfl⟩
  | succ count ih =>
    intro i s
    obtain ⟨ev, hlog, hok, hnil, hclean⟩ := flushSlot_logs env i s
    obtain ⟨ev', hlog', hok', hiff'⟩ := ih (i + 1) (flushSlot env.logged i s).2
    refine ⟨ev ++ ev', hlog.trans hlog', fun hfail => ?_, ?_⟩
    · obtain ⟨h1, h2⟩ := List.forall_mem_append.1 hfail
      exact ⟨hok h1 hm, hok' h2⟩
    · rw [List.append_eq_nil_iff, hiff']
      constructor
      · rintro ⟨hev, hrest⟩ j sl h1 h2 hj
        have hself := fun sl hsl => hnil hev sl hsl hm
        rw [flushSlot_clean hself] at hrest
        rcases Nat.eq_or_lt_of_le h1 with rfl | hlt
        · exact hself sl hj
        · exact hrest j sl hlt (by omega) hj
      · intro hall
        have hself : ∀ sl, s.slots[i]? = some sl → sl.dirty = false :=
          fun sl hsl => hall i sl le_rfl (by omega) hsl
        refine ⟨hclean hself, fun j sl h1 h2 hj => ?_⟩
        rw [flushSlot_clean hself] at hj
        exact hall j sl (by omega) (by omega) hj

/-- The command reaches the partition: a read or a write misses the cache, and the write needs a
write-back or the rest of the sector; a flush finds a dirty slot. -/
def TouchesMedia (env : MscEnv ω) (s : Msc ω) : MscCmd → Prop
  | .read10 lba offset bufsize =>
    (cacheReady env s).1 = true ∧ lba < env.sectorCount ∧
      add32 offset bufsize ≤ (cacheReady env s).2.bs ∧ slotFind (cacheReady env s).2 lba = none
  | .write10 lba offset buffer =>
    (cacheReady env s).1 = true ∧ lba < env.sectorCount ∧
      add32 offset buffer.length ≤ (cacheReady env s).2.bs ∧
      slotFind (cacheReady env s).2 lba = none ∧
      ((∃ sl, (cacheReady env s).2.slots[victimFrom (cacheReady env s).2.slots 0 0 maxU32]? =
          some sl ∧
          sl.dirty = true) ∨
        ¬ (offset = 0 ∧ buffer.length = (cacheReady env s).2.bs))
  | .sync => ∃ sl ∈ s.slots, sl.dirty = true
  | .eject => ∃ sl ∈ s.slots, sl.dirty = true

/-- Setting up the cache touches no medium. -/
theorem cacheReady_media (env : MscEnv ω) (s : Msc ω) : (cacheReady env s).2.media = s.media := by
  unfold cacheReady
  split
  · rfl
  · dsimp only
    split <;> rfl

/-- A cache that is set up has a slot. -/
theorem cacheReady_ne_nil {env : MscEnv ω} {s : Msc ω} (h : (cacheReady env s).1 = true) :
    (cacheReady env s).2.slots ≠ [] := by
  unfold cacheReady at h ⊢
  split
  · next hne => exact hne
  · next hne =>
    rw [if_neg hne] at h
    dsimp only at h ⊢
    split
    · next hbad =>
      rw [if_pos hbad] at h
      cases h
    · dsimp only
      rw [ne_eq, List.replicate_eq_nil_iff]
      split <;> decide

/-- The operations of a read. -/
theorem read10_logs (hm : env.mounted = true) (lba offset bufsize : Nat)
    (s : Msc (ω × List WlEvent)) :
    ∃ ev, s.Logs (read10 env.logged lba offset bufsize s).2 ev ∧
      (ev = [] ↔ ¬ TouchesMedia env.logged s (.read10 lba offset bufsize)) := by
  have hmedia := cacheReady_media env.logged s
  have hm' : env.logged.mounted = true := hm
  unfold read10 TouchesMedia
  generalize cacheReady env.logged s = x at *
  obtain ⟨r, s₁⟩ := x
  dsimp only at hmedia ⊢
  have hself : s.Logs s₁ [] := by
    rw [Msc.Logs, hmedia, List.append_nil]
  cases r with
  | false => exact ⟨[], hself, by simp⟩
  | true =>
    rw [if_neg (by simp)]
    split
    · next hout => exact ⟨[], hself, by simp only [true_iff]; omega⟩
    next hin =>
    cases hfind : slotFind s₁ lba with
    | some i =>
      dsimp only
      split
      · exact ⟨[], hself, by simp⟩
      · exact ⟨[], hself, by simp⟩
    | none =>
      simp only [hm', Bool.not_true, Bool.false_eq_true, if_false]
      refine ⟨[.read (add32 (lba * s₁.bs) offset) bufsize
        (env.wl.read (add32 (lba * s₁.bs) offset) bufsize s₁.media.1).1.isSome], ?_, ?_⟩
      · rw [Msc.Logs]
        dsimp only [MscEnv.logged, WearLevelling.logged]
        rw [hmedia]
      · simp only [reduceCtorEq, false_iff, not_not]
        exact ⟨trivial, by omega, by omega, trivial⟩

/-- A store to a slot touches no medium. -/
theorem storeSlot_logs (i offset : Nat) (buffer : List UInt8) (s : Msc (ω × List WlEvent)) :
    s.Logs (storeSlot i offset buffer s).2 [] := by
  unfold storeSlot
  split
  · exact .refl s
  · simp [Msc.Logs, Msc.setSlot]

/-- Filling a slot reads one sector. -/
theorem fillSlot_logs (hm : env.mounted = true) (lba i : Nat) {s : Msc (ω × List WlEvent)}
    (hi : i < s.slots.length) :
    ∃ ok, s.Logs (fillSlot env.logged lba i s).2 [.read (lba * s.bs % 2 ^ 32) s.bs ok] := by
  have hm' : env.logged.mounted = true := hm
  unfold fillSlot
  rw [List.getElem?_eq_getElem hi]
  simp only [hm', Bool.not_true, Bool.false_eq_true, if_false]
  refine ⟨(env.wl.read (lba * s.bs % 2 ^ 32) s.bs s.media.1).1.isSome, ?_⟩
  split <;> rfl

/-- Binding the victim after its write-back is no operation. -/
theorem slotBind_logs {lba : Nat} {s : Msc (ω × List WlEvent)} (hmiss : slotFind s lba = none) :
    (flushSlot env.logged (victimFrom s.slots 0 0 maxU32) s).2.Logs (slotBind env.logged lba s).2 []
      ∧ (slotBind env.logged lba s).1 = victimFrom s.slots 0 0 maxU32 ∧
      (slotBind env.logged lba s).2.slots.length = s.slots.length := by
  have hlen : (flushSlot env.logged (victimFrom s.slots 0 0 maxU32) s).2.slots.length =
      s.slots.length := flushSlot_length _ s
  simp only [slotBind, hmiss]
  split
  · exact ⟨.refl _, rfl, hlen⟩
  · refine ⟨by simp [Msc.Logs, Msc.setSlot], rfl, ?_⟩
    rw [Msc.setSlot, List.length_set]
    exact hlen

/-- The block size stays when a slot is written back. -/
theorem flushSlot_bs (env : MscEnv ω) (i : Nat) (s : Msc ω) : (flushSlot env i s).2.bs = s.bs := by
  unfold flushSlot
  split
  · rfl
  split
  · rfl
  split
  · rfl
  dsimp only
  split
  · rfl
  split <;> rfl

/-- It stays when a slot is taken. -/
theorem slotBind_bs (env : MscEnv ω) (lba : Nat) (s : Msc ω) :
    (slotBind env lba s).2.bs = s.bs := by
  unfold slotBind
  split
  · rfl
  · dsimp only
    split
    · exact flushSlot_bs env _ s
    · exact flushSlot_bs env _ s

/-- The operations of a write. -/
theorem write10_logs (hm : env.mounted = true) (lba offset : Nat) (buffer : List UInt8)
    (s : Msc (ω × List WlEvent)) :
    ∃ ev, s.Logs (write10 env.logged lba offset buffer s).2 ev ∧
      ((∀ e ∈ ev, ¬ e.Failed) → (cacheReady env.logged s).1 = true → lba < env.sectorCount →
        add32 offset buffer.length ≤ (cacheReady env.logged s).2.bs →
        BindFlushes env.logged lba (cacheReady env.logged s).2) ∧
      (ev = [] ↔ ¬ TouchesMedia env.logged s (.write10 lba offset buffer)) := by
  have hmedia := cacheReady_media env.logged s
  have hne : (cacheReady env.logged s).1 = true → (cacheReady env.logged s).2.slots ≠ [] :=
    cacheReady_ne_nil
  have hcount : env.logged.sectorCount = env.sectorCount := rfl
  unfold write10 TouchesMedia
  generalize cacheReady env.logged s = x at *
  obtain ⟨r, s₁⟩ := x
  dsimp only at hmedia hne ⊢
  have hself : s.Logs s₁ [] := by
    rw [Msc.Logs, hmedia, List.append_nil]
  cases r with
  | false => exact ⟨[], hself, by simp, by simp⟩
  | true =>
    rw [if_neg (by simp)]
    split
    · next hout => exact ⟨[], hself, fun _ _ h1 h2 => by omega, by simp only [true_iff]; omega⟩
    next hin =>
    cases hfind : slotFind s₁ lba with
    | some i =>
      refine ⟨[], hself.trans (storeSlot_logs i offset buffer s₁), fun _ _ _ _ hmiss => ?_, by simp⟩
      rw [hfind] at hmiss
      cases hmiss
    | none =>
      have hlt : victimFrom s₁.slots 0 0 maxU32 < s₁.slots.length :=
        victimFrom_lt (by omega) (List.length_pos_iff.2 (hne rfl))
      obtain ⟨ev, hlog, hok, hnil, hclean⟩ :=
        flushSlot_logs env (victimFrom s₁.slots 0 0 maxU32) s₁
      obtain ⟨hbind, hv, hlen⟩ := slotBind_logs env hfind
      have hbs := slotBind_bs env.logged lba s₁
      dsimp only
      rw [hv, hbs]
      unfold BindFlushes
      generalize victimFrom s₁.slots 0 0 maxU32 = v at *
      have hpre : s.Logs (slotBind env.logged lba s₁).2 ev := by
        have := (hself.trans hlog).trans hbind
        rwa [List.nil_append, List.append_nil] at this
      have hget := List.getElem?_eq_getElem hlt
      have hevnil : ev = [] ↔ s₁.slots[v].dirty = false := by
        refine ⟨fun h => hnil h _ hget hm, fun h => hclean fun sl hsl => ?_⟩
        rw [hget] at hsl
        cases hsl
        exact h
      by_cases hfull : offset = 0 ∧ buffer.length = s₁.bs
      · rw [if_pos hfull]
        refine ⟨ev ++ [], hpre.trans (storeSlot_logs v offset buffer _), fun hfail _ _ _ _ =>
          ?_, ?_⟩
        · rw [List.append_nil] at hfail
          exact hok hfail hm
        · rw [List.append_nil, hevnil]
          constructor
          · rintro hd ⟨-, -, -, -, ⟨sl, hsl, hdirty⟩ | hpart⟩
            · rw [hget] at hsl
              cases hsl
              rw [hd] at hdirty
              cases hdirty
            · exact hpart hfull
          · intro hno
            refine Bool.eq_false_iff.2 fun hd =>
              hno ⟨rfl, by omega, by omega, rfl, .inl ⟨_, hget, hd⟩⟩
      · rw [if_neg hfull]
        obtain ⟨ok, hfill⟩ := fillSlot_logs env hm lba v
          (s := (slotBind env.logged lba s₁).2) (by rw [hlen]; exact hlt)
        have htouch : ∃ read, s.Logs
            (if (fillSlot env.logged lba v (slotBind env.logged lba s₁).2).1 then
              storeSlot v offset buffer (fillSlot env.logged lba v (slotBind env.logged lba s₁).2).2
            else (false, (fillSlot env.logged lba v (slotBind env.logged lba s₁).2).2)).2
            (ev ++ [read]) := by
          refine ⟨.read (lba * (slotBind env.logged lba s₁).2.bs % 2 ^ 32)
            (slotBind env.logged lba s₁).2.bs ok, ?_⟩
          split
          · have := (hpre.trans hfill).trans (storeSlot_logs v offset buffer _)
            rwa [List.append_nil] at this
          · exact hpre.trans hfill
        obtain ⟨read, hlogs⟩ := htouch
        refine ⟨ev ++ [read], hlogs, fun hfail _ _ _ _ => ?_, ?_⟩
        · exact hok (List.forall_mem_append.1 hfail).1 hm
        · simp only [List.append_eq_nil_iff, List.cons_ne_nil, and_false, false_iff, not_not]
          exact ⟨trivial, by omega, by omega, trivial, .inr hfull⟩

/-- With a geometry in bounds the cache can be set up. -/
theorem cacheReady_true {env : MscEnv ω} (henv : env.Wf) (s : Msc ω) :
    (cacheReady env s).1 = true := by
  have hpos := henv.size_pos
  have hle := henv.size_le
  unfold cacheReady
  split
  · rfl
  · rw [if_neg (by omega)]

/-- A flush of all slots reaches the partition when there is a dirty one. -/
theorem flushAll_logs (hm : env.mounted = true) (s : Msc (ω × List WlEvent)) :
    ∃ ev, s.Logs (flushAll env.logged s) ev ∧
      ((∀ e ∈ ev, ¬ e.Failed) → FlushesFrom env.logged s.slots.length 0 s) ∧
      (ev = [] ↔ ¬ ∃ sl ∈ s.slots, sl.dirty = true) := by
  obtain ⟨ev, hlog, hok, hiff⟩ := flushLoopFrom_logs env hm s.slots.length 0 s
  refine ⟨ev, hlog, hok, hiff.trans ⟨?_, ?_⟩⟩
  · rintro hclean ⟨sl, hsl, hd⟩
    obtain ⟨j, hj⟩ := List.mem_iff_getElem?.1 hsl
    have hlt := (List.getElem?_eq_some_iff.1 hj).1
    rw [hclean j sl (Nat.zero_le _) (by omega) hj] at hd
    cases hd
  · intro hno j sl _ _ hj
    exact Bool.eq_false_iff.2 fun hd => hno ⟨sl, List.mem_of_getElem? hj, hd⟩

/-- The operations of a command: when no write-back among them failed, the write-backs of the
command succeeded; and there are none exactly when the command does not reach the partition. -/
theorem mscStep_logs (henv : env.Wf) (s : Msc (ω × List WlEvent)) (c : MscCmd) :
    ∃ ev, s.Logs (mscStep env.logged s c).2 ev ∧
      ((∀ e ∈ ev, ¬ e.Failed) → c.Valid env.logged →
        (cacheReady env.logged s).2.bs = env.sectorSize → FlushOk env.logged s c) ∧
      (ev = [] ↔ ¬ TouchesMedia env.logged s c) := by
  cases c with
  | read10 lba offset bufsize =>
    obtain ⟨ev, hlog, hiff⟩ := read10_logs env henv.mounted lba offset bufsize s
    exact ⟨ev, hlog, fun _ _ _ => trivial, hiff⟩
  | write10 lba offset buffer =>
    obtain ⟨ev, hlog, hok, hiff⟩ := write10_logs env henv.mounted lba offset buffer s
    refine ⟨ev, hlog, fun hfail hvalid hbs => ?_, hiff⟩
    refine hok hfail (cacheReady_true henv.logged s) hvalid.1 ?_
    have hle := henv.size_le
    have hoff : offset + buffer.length ≤ env.sectorSize := hvalid.2
    unfold mscMaxSector at hle
    rw [hbs, add32_of_lt (by omega)]
    exact hoff
  | sync =>
    obtain ⟨ev, hlog, hok, hiff⟩ := flushAll_logs env henv.mounted s
    exact ⟨ev, hlog, fun hfail _ _ => hok hfail, hiff⟩
  | eject =>
    obtain ⟨ev, hlog, hok, hiff⟩ := flushAll_logs env henv.mounted s
    exact ⟨ev, hlog, fun hfail _ _ => hok hfail, hiff⟩

/-! ## Acknowledged sectors -/

/-- The disk after a command, by what the host was told: a write counts when it was
acknowledged. -/
def ackedStep (bs : Nat) (d : FlatDisk) (c : MscCmd) (r : MscReply) : FlatDisk :=
  if r = .error then d else (d.step bs c).2

/-- The disk after a run, by what the host was told. -/
def acked (bs : Nat) (d : FlatDisk) : List MscCmd → List MscReply → FlatDisk
  | c :: cs, r :: rs => acked bs (ackedStep bs d c r) cs rs
  | _, _ => d

/-- Every sector can be read, from its slot or from the media, with the data of the disk. -/
def Readable (env : MscEnv ω) (content : ω → FlatDisk) (d : FlatDisk) (s : Msc ω) : Prop :=
  ∀ l < env.sectorCount, ∀ j < env.sectorSize,
    (∀ sl ∈ s.slots, sl.lba = (l : Int) → sl.data[j]? = some (d (l * env.sectorSize + j))) ∧
    ((∀ sl ∈ s.slots, sl.lba ≠ (l : Int)) →
      content s.media (l * env.sectorSize + j) = d (l * env.sectorSize + j))

/-- Under the invariant what is cached can be read. -/
theorem CacheInv.readable {env : MscEnv ω} {content : ω → FlatDisk} {d : FlatDisk} {s : Msc ω}
    (h : CacheInv env content d s) : Readable env content d s := by
  intro l hl j hj
  refine ⟨fun sl hsl hlba => h.cached sl hsl l hlba j hj, fun hfree => ?_⟩
  exact h.stored l hl (fun sl hsl hlba => absurd hlba (hfree sl hsl)) j hj

/-- No acknowledged sector is lost silently in the run of `cs`: after every part `cs₁` of it, a
write-back has failed in a callback that answered an error, or every sector is readable with the
data that was acknowledged last; a callback in which a write-back failed answers an error; and a
`write10` in which the write-back of the victim failed leaves every dirty slot bound and dirty. -/
structure NoSilentLoss (env : MscEnv ω) (content : ω → FlatDisk) (media : ω) (cs : List MscCmd) :
    Prop where
  readable : ∀ cs₁ cs₂, cs = cs₁ ++ cs₂ →
    (∃ cs₃ c cs₄, cs₁ = cs₃ ++ c :: cs₄ ∧
      (∃ ev, (mscRun env.logged (Msc.boot (media, [])) cs₃).2.Logs
        (mscStep env.logged (mscRun env.logged (Msc.boot (media, [])) cs₃).2 c).2 ev ∧
        ∃ e ∈ ev, e.Failed) ∧
      (mscStep env.logged (mscRun env.logged (Msc.boot (media, [])) cs₃).2 c).1 = .error) ∨
    Readable env.logged (fun w => content w.1)
      (acked env.sectorSize (content media) cs₁
        (mscRun env.logged (Msc.boot (media, [])) cs₁).1)
      (mscRun env.logged (Msc.boot (media, [])) cs₁).2
  reported : ∀ cs₁ c cs₂ ev, cs = cs₁ ++ c :: cs₂ →
    (mscRun env.logged (Msc.boot (media, [])) cs₁).2.Logs
      (mscStep env.logged (mscRun env.logged (Msc.boot (media, [])) cs₁).2 c).2 ev →
    (∃ e ∈ ev, e.Failed) →
    (mscStep env.logged (mscRun env.logged (Msc.boot (media, [])) cs₁).2 c).1 = .error
  kept : ∀ cs₁ lba offset buffer cs₂ ev, cs = cs₁ ++ .write10 lba offset buffer :: cs₂ →
    (mscRun env.logged (Msc.boot (media, [])) cs₁).2.Logs (mscStep env.logged
      (mscRun env.logged (Msc.boot (media, [])) cs₁).2 (.write10 lba offset buffer)).2 ev →
    (∃ e ∈ ev, e.Failed) →
    ∀ sl ∈ (mscRun env.logged (Msc.boot (media, [])) cs₁).2.slots, sl.dirty = true →
      ∃ sl' ∈ (mscStep env.logged (mscRun env.logged (Msc.boot (media, [])) cs₁).2
        (.write10 lba offset buffer)).2.slots, sl'.lba = sl.lba ∧ sl'.dirty = true

/-- The log of a run grows. -/
theorem mscRun_logs (henv : env.Wf) :
    ∀ (cs : List MscCmd) (s : Msc (ω × List WlEvent)),
      ∃ ev, s.Logs (mscRun env.logged s cs).2 ev := by
  intro cs
  induction cs with
  | nil =>
    intro s
    exact ⟨[], .refl s⟩
  | cons c cs ih =>
    intro s
    obtain ⟨ev, hlog, -⟩ := mscStep_logs env henv s c
    obtain ⟨ev', hlog'⟩ := ih (mscStep env.logged s c).2
    exact ⟨ev ++ ev', hlog.trans hlog'⟩

/-- A run without a failed write-back keeps the relation to the acknowledged disk. -/
theorem mscRun_acked {content : ω → FlatDisk} (hlaws : MediaLaws env.wl content) (henv : env.Wf) :
    ∀ {cs : List MscCmd} {s : Msc (ω × List WlEvent)} {d : FlatDisk} {ev : List WlEvent},
      CacheInv env.logged (fun w => content w.1) d s → (∀ c ∈ cs, c.Valid env.logged) →
      s.Logs (mscRun env.logged s cs).2 ev → (∀ e ∈ ev, ¬ e.Failed) →
      CacheInv env.logged (fun w => content w.1)
        (acked env.sectorSize d cs (mscRun env.logged s cs).1) (mscRun env.logged s cs).2 := by
  intro cs
  induction cs with
  | nil =>
    intro s d ev h _ _ _
    exact h
  | cons c cs ih =>
    intro s d ev h hvalid hlog hfail
    obtain ⟨hc, hcs⟩ := List.forall_mem_cons.1 hvalid
    obtain ⟨ev₁, hlog₁, hok, -⟩ := mscStep_logs env henv s c
    obtain ⟨ev₂, hlog₂⟩ := mscRun_logs env henv cs (mscStep env.logged s c).2
    have hev : ev = ev₁ ++ ev₂ := by
      have h1 : (mscRun env.logged s (c :: cs)).2.media.2 = s.media.2 ++ ev := hlog
      have h2 := hlog₁.trans hlog₂
      exact List.append_cancel_left (h1.symm.trans h2)
    rw [hev, List.forall_mem_append] at hfail
    have hbs := (cacheReady_inv henv.logged h).2.2.2
    have hflush := hok hfail.1 hc hbs
    have hstep : CacheInv env.logged (fun w => content w.1)
        (ackedStep env.sectorSize d c (mscStep env.logged s c).1) (mscStep env.logged s c).2 := by
      unfold ackedStep
      rcases mscStep_inv hlaws.logged henv.logged h hc hflush with ⟨hr, hinv⟩ | ⟨hr, hinv, -⟩
      · have hne : (mscStep env.logged s c).1 ≠ .error := by
          rw [hr]
          cases c <;> exact nofun
        rw [if_neg hne]
        exact hinv
      · rw [if_pos hr]
        exact hinv
    exact ih hstep hcs hlog₂ hfail.2

/-- **Media errors.** In every run of commands inside the partition in which no `wl_erase_range` and
no `wl_write` fails, no acknowledged sector is lost silently, whatever reads of the media fail. -/
theorem mscRun_noSilentLoss (content : ω → FlatDisk) (media : ω) (cs : List MscCmd)
    (hlaws : MediaLaws env.wl content) (henv : env.Wf) (hvalid : ∀ c ∈ cs, c.Valid env.logged)
    (hfail : ∀ e ∈ (mscRun env.logged (Msc.boot (media, [])) cs).2.media.2, ¬ e.Failed) :
    NoSilentLoss env content media cs := by
  -- the operations of a part of the run are operations of the run
  have hpart : ∀ cs₁ cs₂, cs = cs₁ ++ cs₂ →
      ∀ e ∈ (mscRun env.logged (Msc.boot (media, [])) cs₁).2.media.2, ¬ e.Failed := by
    rintro cs₁ cs₂ rfl e he
    refine hfail e ?_
    rw [mscRun_append]
    obtain ⟨ev, hlog⟩ := mscRun_logs env henv cs₂ (mscRun env.logged (Msc.boot (media, [])) cs₁).2
    rw [hlog]
    exact List.mem_append_left _ he
  have hnone : ∀ cs₁ c cs₂ ev, cs = cs₁ ++ c :: cs₂ →
      (mscRun env.logged (Msc.boot (media, [])) cs₁).2.Logs
        (mscStep env.logged (mscRun env.logged (Msc.boot (media, [])) cs₁).2 c).2 ev →
      ¬ ∃ e ∈ ev, e.Failed := by
    rintro cs₁ c cs₂ ev hcs hlog ⟨e, he, hef⟩
    refine absurd hef (hpart (cs₁ ++ [c]) cs₂ (by simpa using hcs) e ?_)
    rw [mscRun_append]
    have hlog' :
        (mscRun env.logged (mscRun env.logged (Msc.boot (media, [])) cs₁).2 [c]).2.media.2 =
        (mscRun env.logged (Msc.boot (media, [])) cs₁).2.media.2 ++ ev := hlog
    rw [hlog']
    exact List.mem_append_right _ he
  constructor
  · intro cs₁ cs₂ hcs
    right
    have hlog : (Msc.boot (media, [])).Logs (mscRun env.logged (Msc.boot (media, [])) cs₁).2
        (mscRun env.logged (Msc.boot (media, [])) cs₁).2.media.2 := rfl
    refine (mscRun_acked env hlaws henv (CacheInv.boot (media, [])) (fun c hc => ?_) hlog
      (hpart cs₁ cs₂ hcs)).readable
    exact hvalid c (by rw [hcs]; exact List.mem_append_left _ hc)
  · intro cs₁ c cs₂ ev hcs hlog hfailed
    exact absurd hfailed (hnone cs₁ c cs₂ ev hcs hlog)
  · intro cs₁ lba offset buffer cs₂ ev hcs hlog hfailed
    exact absurd hfailed (hnone cs₁ _ cs₂ ev hcs hlog)

end

/-- On a flat media nothing fails. -/
theorem mscRun_noSilentLoss_flatEnv :
    NoSilentLoss (flatEnv false) id (fun _ => 0) [.write10 0 0 [1, 2], .write10 1 3 [4], .sync] :=
  mscRun_noSilentLoss (flatEnv false) id (fun _ => 0) [.write10 0 0 [1, 2], .write10 1 3 [4], .sync]
    flatMedia_laws (flatEnv_wf false)
    (by
      simp only [List.forall_mem_cons, MscCmd.Valid, List.not_mem_nil]
      exact ⟨by decide, by decide, trivial, fun _ h => h.elim⟩)
    (by
      have hlog : (mscRun (flatEnv false).logged (Msc.boot (fun _ => 0, []))
          [.write10 0 0 [1, 2], .write10 1 3 [4], .sync]).2.media.2 =
          [.read 0 512 true, .erase 0 512 true, .write 0 512 true, .read 512 512 true,
            .erase 512 512 true, .write 512 512 true] := by decide +kernel
      rw [hlog]
      simp [WlEvent.Failed])

/-- A flat media with a worn out block: no erase succeeds. -/
def wornEnv : MscEnv FlatDisk where
  wl := { flatMedia with eraseRange := fun _ _ w => (false, w) }
  mounted := true
  sectorSize := 512
  sectorCount := 2
  malloc := false

/-- Two writes that are acknowledged, on the single slot of the fallback: the second evicts the
first, whose write-back fails, and the first sector is neither in a slot nor on the media. A sync
in which a write-back fails answers success. -/
theorem mscRun_loses :
    (mscRun wornEnv.logged (Msc.boot (fun _ => 0, [])) [.write10 0 0 [1, 2], .write10 1 0 [3],
      .sync]).1 = [.done, .done, .done] ∧
    ¬ Readable wornEnv.logged (fun w => w.1)
      (acked 512 (fun _ => 0) [.write10 0 0 [1, 2], .write10 1 0 [3]] [.done, .done])
      (mscRun wornEnv.logged (Msc.boot (fun _ => 0, []))
        [.write10 0 0 [1, 2], .write10 1 0 [3]]).2 ∧
    ¬ NoSilentLoss wornEnv id (fun _ => 0) [.write10 0 0 [1, 2], .write10 1 0 [3], .sync] := by
  refine ⟨by decide +kernel, fun h => ?_, fun h => ?_⟩
  · have hlost := (h 0 (show 0 < 2 by decide) 0 (show 0 < 512 by decide)).2 (by decide +kernel)
    revert hlost
    decide +kernel
  · have hreply := h.reported [.write10 0 0 [1, 2], .write10 1 0 [3]] .sync []
      [.erase 512 512 false] rfl
      (show (mscRun wornEnv.logged (Msc.boot (fun _ => 0, []))
          [.write10 0 0 [1, 2], .write10 1 0 [3], .sync]).2.media.2 =
        (mscRun wornEnv.logged (Msc.boot (fun _ => 0, []))
          [.write10 0 0 [1, 2], .write10 1 0 [3]]).2.media.2 ++ [.erase 512 512 false] by
        decide +kernel)
      ⟨_, List.mem_singleton_self _, rfl⟩
    revert hreply
    decide +kernel

end Blackmagic
