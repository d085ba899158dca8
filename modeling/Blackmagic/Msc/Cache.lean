import Blackmagic.Msc.Disk

/-!
# The write-back cache refines a flat disk

`FlatDisk` is the disk that the host sees: one byte for each address of the partition. `CacheInv`
relates it to the slots and the media: a slot that is bound to a sector has the bytes of that
sector, the media has the bytes of every sector that no dirty slot is bound to, and no sector is
bound to two slots. Each function of the cache keeps the relation, as long as the write-backs it
makes succeed; a callback then answers what the flat disk answers.
-/

namespace Blackmagic

open Word

/-! ## The flat disk -/

/-- The bytes of a disk, by address. -/
abbrev FlatDisk := Nat → UInt8

/-- `n` bytes from `a`. -/
def FlatDisk.bytes (d : FlatDisk) (a n : Nat) : List UInt8 := (List.range n).map fun j => d (a + j)

/-- The disk with `data` written at `a`. -/
def FlatDisk.write (d : FlatDisk) (a : Nat) (data : List UInt8) : FlatDisk :=
  fun x => if a ≤ x ∧ x < a + data.length then data.getD (x - a) 0 else d x

/-- A command on a flat disk with sectors of `bs` bytes. -/
def FlatDisk.step (bs : Nat) (d : FlatDisk) : MscCmd → MscReply × FlatDisk
  | .read10 lba offset bufsize => (.data (d.bytes (lba * bs + offset) bufsize), d)
  | .write10 lba offset buffer => (.done, d.write (lba * bs + offset) buffer)
  | .sync => (.done, d)
  | .eject => (.done, d)

/-- Commands on a flat disk. -/
def FlatDisk.run (bs : Nat) (d : FlatDisk) : List MscCmd → List MscReply × FlatDisk
  | [] => ([], d)
  | c :: cs =>
    let (r, d) := d.step bs c
    let (rs, d) := d.run bs cs
    (r :: rs, d)

/-- A read of `n` bytes gives `n` bytes. -/
theorem FlatDisk.length_bytes (d : FlatDisk) (a n : Nat) : (d.bytes a n).length = n := by
  simp [FlatDisk.bytes]

/-- Each of them is the byte at its place. -/
theorem FlatDisk.getElem?_bytes (d : FlatDisk) {a n j : Nat} (h : j < n) :
    (d.bytes a n)[j]? = some (d (a + j)) := by
  rw [FlatDisk.bytes, List.getElem?_map, List.getElem?_range h]
  rfl

/-! ## The media -/

/-- What the wear-levelling layer documents about an operation that succeeded: a read returns the
contents and leaves them alone, an erase sets its range, a write to an erased range stores its
data. `content` is the contents of the partition. -/
structure MediaLaws {ω : Type} (wl : WearLevelling ω) (content : ω → FlatDisk) : Prop where
  read_content : ∀ a n w, content (wl.read a n w).2 = content w
  read_eq : ∀ a n w bytes, (wl.read a n w).1 = some bytes → bytes = (content w).bytes a n
  erase_eq : ∀ a n w, (wl.eraseRange a n w).1 = true → ∀ x, content (wl.eraseRange a n w).2 x =
    if a ≤ x ∧ x < a + n then 0xff else content w x
  write_eq : ∀ a src w, (∀ x, a ≤ x → x < a + src.length → content w x = 0xff) →
    (wl.write a src w).1 = true → content (wl.write a src w).2 = (content w).write a src

/-- What `storage_init` establishes: a mounted partition of sectors that fit a slot, whose size is
a `size_t`, so that no address of it wraps. -/
structure MscEnv.Wf {ω : Type} (env : MscEnv ω) : Prop where
  mounted : env.mounted = true
  size_pos : 0 < env.sectorSize
  size_le : env.sectorSize ≤ mscMaxSector
  count_lt : env.sectorCount < 2 ^ 31
  total_lt : env.sectorCount * env.sectorSize < 2 ^ 32

/-! ## The relation -/

/-- The slots and the media of `s` stand for the disk `d`. -/
structure CacheInv {ω : Type} (env : MscEnv ω) (content : ω → FlatDisk) (d : FlatDisk)
    (s : Msc ω) : Prop where
  bs : s.slots ≠ [] → s.bs = env.sectorSize
  size : ∀ sl ∈ s.slots, sl.data.length = env.sectorSize
  bound : ∀ sl ∈ s.slots, sl.lba = -1 ∧ sl.dirty = false ∨ ∃ l < env.sectorCount, sl.lba = (l : Int)
  distinct : ∀ (i j : Nat) (sl sl' : Slot), s.slots[i]? = some sl → s.slots[j]? = some sl' →
    0 ≤ sl.lba → sl.lba = sl'.lba → i = j
  cached : ∀ sl ∈ s.slots, ∀ l : Nat, sl.lba = (l : Int) → ∀ j < env.sectorSize,
    sl.data[j]? = some (d (l * env.sectorSize + j))
  stored : ∀ l < env.sectorCount, (∀ sl ∈ s.slots, sl.lba = (l : Int) → sl.dirty = false) →
    ∀ j < env.sectorSize, content s.media (l * env.sectorSize + j) = d (l * env.sectorSize + j)

section
variable {ω : Type} {env : MscEnv ω} {content : ω → FlatDisk} {d : FlatDisk} {s : Msc ω}

/-- A small number stays as it is in an `int32_t`. -/
theorem toInt32_of_lt {x : Nat} (h : x < 2 ^ 31) : toInt32 x = x := if_pos h

/-- A sector ends inside the partition. -/
theorem sector_le (env : MscEnv ω) {l : Nat} (hl : l < env.sectorCount) :
    l * env.sectorSize + env.sectorSize ≤ env.sectorCount * env.sectorSize := by
  rw [← Nat.succ_mul]
  exact Nat.mul_le_mul_right _ hl

/-- The address of a slot does not wrap. -/
theorem MscEnv.Wf.slotAddr (h : env.Wf) {sl : Slot} {l : Nat} (hl : l < env.sectorCount)
    (hlba : sl.lba = (l : Int)) : slotAddr sl env.sectorSize = l * env.sectorSize := by
  have h1 := sector_le env hl
  have h2 := h.total_lt
  have h3 := h.count_lt
  have hmod : ((l : Int) % 2 ^ 32).toNat = l := by omega
  unfold Blackmagic.slotAddr
  rw [hlba, hmod]
  exact Nat.mod_eq_of_lt (by omega)

/-- The relation at boot, where the disk is what is on the media. -/
theorem CacheInv.boot (media : ω) : CacheInv env content (content media) (Msc.boot media) where
  bs := fun h => absurd rfl h
  size := nofun
  bound := nofun
  distinct := fun i j sl sl' h => by simp [Msc.boot] at h
  cached := nofun
  stored := fun _ _ _ _ _ => rfl

/-- Two sectors do not share an address. -/
theorem sector_eq {bs l l' j j' : Nat} (hj : j < bs) (hj' : j' < bs)
    (h : l * bs + j = l' * bs + j') : l = l' ∧ j = j' := by
  have hbs : 0 < bs := by omega
  have hdiv : (l * bs + j) / bs = l := by
    rw [Nat.mul_comm, Nat.mul_add_div hbs, Nat.div_eq_of_lt hj, Nat.add_zero]
  have hdiv' : (l' * bs + j') / bs = l' := by
    rw [Nat.mul_comm, Nat.mul_add_div hbs, Nat.div_eq_of_lt hj', Nat.add_zero]
  have hl : l = l' := by rw [← hdiv, h, hdiv']
  subst hl
  exact ⟨rfl, by omega⟩

/-- The byte of a sector in a written disk, when the write stays in a sector. -/
theorem FlatDisk.write_sector (d : FlatDisk) (lba offset l : Nat) {bs j : Nat} {data : List UInt8}
    (hoff : offset + data.length ≤ bs) (hj : j < bs) :
    d.write (lba * bs + offset) data (l * bs + j) =
      if l = lba ∧ offset ≤ j ∧ j < offset + data.length then data.getD (j - offset) 0
      else d (l * bs + j) := by
  unfold FlatDisk.write
  by_cases hin : lba * bs + offset ≤ l * bs + j ∧ l * bs + j < lba * bs + offset + data.length
  · have heq : l * bs + j = lba * bs + (l * bs + j - lba * bs) := by omega
    obtain ⟨rfl, hj'⟩ := sector_eq hj (by omega) heq
    rw [if_pos hin, if_pos (by omega)]
    congr 1
    omega
  · rw [if_neg hin, if_neg]
    rintro ⟨rfl, h1, h2⟩
    omega

/-! ## Replacing a slot -/

/-- What is in a list after a store to one place. -/
theorem mem_set_iff {slots : List Slot} {i : Nat} {sl sl' : Slot} (hi : i < slots.length) :
    sl' ∈ slots.set i sl ↔ sl' = sl ∨ ∃ j, j ≠ i ∧ slots[j]? = some sl' := by
  rw [List.mem_iff_getElem?]
  constructor
  · rintro ⟨j, hj⟩
    rw [List.getElem?_set] at hj
    split at hj
    · next hij =>
      subst hij
      exact .inl (Option.some.inj hj).symm
    · next hij => exact .inr ⟨j, Ne.symm hij, hj⟩
  · rintro (rfl | ⟨j, hj, hget⟩)
    · exact ⟨i, List.getElem?_set_self hi⟩
    · exact ⟨j, by rw [List.getElem?_set_ne (Ne.symm hj), hget]⟩

/-- Replacing the slot at `i`, and with it the media and the disk. -/
theorem CacheInv.setSlot (h : CacheInv env content d s) {i : Nat} {sl sl' : Slot}
    (hi : s.slots[i]? = some sl) {d' : FlatDisk} {media : ω} {clock : Nat}
    (hsize : sl'.data.length = env.sectorSize)
    (hbound : sl'.lba = -1 ∧ sl'.dirty = false ∨ ∃ l < env.sectorCount, sl'.lba = (l : Int))
    (hdistinct : 0 ≤ sl'.lba → ∀ j g, j ≠ i → s.slots[j]? = some g → g.lba ≠ sl'.lba)
    (hcached : ∀ l : Nat, sl'.lba = (l : Int) → ∀ j < env.sectorSize,
      sl'.data[j]? = some (d' (l * env.sectorSize + j)))
    (hother : ∀ j g, j ≠ i → s.slots[j]? = some g → ∀ l : Nat, g.lba = (l : Int) →
      ∀ k < env.sectorSize, d' (l * env.sectorSize + k) = d (l * env.sectorSize + k))
    (hstored : ∀ l < env.sectorCount, (sl'.lba = (l : Int) → sl'.dirty = false) →
      (∀ j g, j ≠ i → s.slots[j]? = some g → g.lba = (l : Int) → g.dirty = false) →
      ∀ j < env.sectorSize, content media (l * env.sectorSize + j) = d' (l * env.sectorSize + j)) :
    CacheInv env content d'
      { slots := s.slots.set i sl', bs := s.bs, clock := clock, media := media } := by
  have hlt : i < s.slots.length := (List.getElem?_eq_some_iff.1 hi).1
  have hmem : ∀ {g : Slot}, g ∈ s.slots.set i sl' → g = sl' ∨ ∃ j, j ≠ i ∧ s.slots[j]? = some g :=
    (mem_set_iff hlt).1
  refine ⟨fun _ => h.bs (List.ne_nil_of_mem (List.mem_of_getElem? hi)), ?_, ?_, ?_, ?_, ?_⟩
  · intro g hg
    rcases hmem hg with rfl | ⟨j, -, hj⟩
    exacts [hsize, h.size g (List.mem_of_getElem? hj)]
  · intro g hg
    rcases hmem hg with rfl | ⟨j, -, hj⟩
    exacts [hbound, h.bound g (List.mem_of_getElem? hj)]
  · intro j k g g' hj hk hpos heq
    dsimp only at hj hk
    rw [List.getElem?_set] at hj hk
    split at hj <;> split at hk
    · omega
    · next hij hik =>
      cases hj
      exact absurd heq.symm (hdistinct hpos k g' (Ne.symm hik) hk)
    · next hij hik =>
      cases hk
      exact absurd heq (hdistinct (heq ▸ hpos) j g (Ne.symm hij) hj)
    · exact h.distinct j k g g' hj hk hpos heq
  · intro g hg l hlba k hk
    rcases hmem hg with rfl | ⟨j, hji, hj⟩
    · exact hcached l hlba k hk
    · rw [h.cached g (List.mem_of_getElem? hj) l hlba k hk, hother j g hji hj l hlba k hk]
  · intro l hl hclean
    refine hstored l hl (fun hlba => hclean sl' ((mem_set_iff hlt).2 (.inl rfl)) hlba) ?_
    intro j g hji hj hlba
    exact hclean g ((mem_set_iff hlt).2 (.inr ⟨j, hji, hj⟩)) hlba

/-- Another slot is bound to another sector. -/
theorem CacheInv.lba_ne (h : CacheInv env content d s) {i j : Nat} {sl g : Slot} {l : Nat}
    (hi : s.slots[i]? = some sl) (hj : s.slots[j]? = some g) (hji : j ≠ i)
    (hlba : sl.lba = (l : Int)) : g.lba ≠ (l : Int) := by
  intro hg
  exact hji (h.distinct j i g sl hj hi (by omega) (by omega))

/-! ## Flushing -/

/-- Everything `flush_slot` can do to a bound cache: the slot is clean, or an operation of the
media failed, or the sector was written back. -/
theorem flushSlot_cases (henv : env.Wf) (h : CacheInv env content d s) {i : Nat} {sl : Slot}
    (hi : s.slots[i]? = some sl) :
    (sl.dirty = false ∧ flushSlot env i s = (true, s)) ∨
    (sl.dirty = true ∧ ∃ l < env.sectorCount, sl.lba = (l : Int) ∧
      ((∃ w, env.wl.eraseRange (l * env.sectorSize) env.sectorSize s.media = (false, w) ∧
          flushSlot env i s = (false, { s with media := w })) ∨
        (∃ w w', env.wl.eraseRange (l * env.sectorSize) env.sectorSize s.media = (true, w) ∧
          env.wl.write (l * env.sectorSize) sl.data w = (false, w') ∧
          flushSlot env i s = (false, { s with media := w' })) ∨
        (∃ w w', env.wl.eraseRange (l * env.sectorSize) env.sectorSize s.media = (true, w) ∧
          env.wl.write (l * env.sectorSize) sl.data w = (true, w') ∧
          flushSlot env i s =
            (true, { s with media := w' }.setSlot i { sl with dirty := false })))) := by
  have hmem := List.mem_of_getElem? hi
  have hbs : s.bs = env.sectorSize := h.bs (List.ne_nil_of_mem hmem)
  cases hd : sl.dirty with
  | false => exact .inl ⟨rfl, by simp [flushSlot, hi, hd]⟩
  | true =>
    obtain ⟨-, hclean⟩ | ⟨l, hl, hlba⟩ := h.bound sl hmem
    · rw [hd] at hclean
      cases hclean
    refine .inr ⟨rfl, l, hl, hlba, ?_⟩
    have haddr := henv.slotAddr hl hlba
    rcases he : env.wl.eraseRange (l * env.sectorSize) env.sectorSize s.media with ⟨_ | _, w⟩
    · exact .inl ⟨w, rfl, by simp [flushSlot, hi, hd, henv.mounted, hbs, haddr, he]⟩
    · rcases hw : env.wl.write (l * env.sectorSize) sl.data w with ⟨_ | _, w'⟩
      · refine .inr (.inl ⟨w, w', rfl, hw, ?_⟩)
        simp [flushSlot, hi, hd, henv.mounted, hbs, haddr, he, hw]
      · refine .inr (.inr ⟨w, w', rfl, hw, ?_⟩)
        simp [flushSlot, hi, hd, henv.mounted, hbs, haddr, he, hw, Msc.setSlot]

/-- A `flush_slot` that returned true keeps the relation and leaves the slot clean. -/
theorem flushSlot_inv (hlaws : MediaLaws env.wl content) (henv : env.Wf)
    (h : CacheInv env content d s) {i : Nat} {sl : Slot} (hi : s.slots[i]? = some sl)
    (hok : (flushSlot env i s).1 = true) :
    CacheInv env content d (flushSlot env i s).2 ∧
      (flushSlot env i s).2.slots = s.slots.set i { sl with dirty := false } ∧
      (flushSlot env i s).2.bs = s.bs := by
  have hlt : i < s.slots.length := (List.getElem?_eq_some_iff.1 hi).1
  have hmem := List.mem_of_getElem? hi
  rcases flushSlot_cases henv h hi with
    ⟨hd, heq⟩ | ⟨hd, l, hl, hlba, ⟨w, -, heq⟩ | ⟨w, w', -, -, heq⟩ | ⟨w, w', he, hw, heq⟩⟩
  · have hsame : { sl with dirty := false } = sl := by rw [← hd]
    have hset : s.slots.set i sl = s.slots := by
      rw [← (List.getElem?_eq_some_iff.1 hi).2]
      exact List.set_getElem_self hlt
    rw [heq, hsame, hset]
    exact ⟨h, rfl, rfl⟩
  · rw [heq] at hok
    cases hok
  · rw [heq] at hok
    cases hok
  · rw [heq]
    refine ⟨?_, rfl, rfl⟩
    have hsize := h.size sl hmem
    -- the sector now has the data of the slot, the others are as before
    have herase := hlaws.erase_eq (l * env.sectorSize) env.sectorSize s.media (by rw [he])
    rw [he] at herase
    have hwrite := hlaws.write_eq (l * env.sectorSize) sl.data w (fun x h1 h2 => by
      rw [herase, if_pos (by omega)]) (by rw [hw])
    rw [hw] at hwrite
    have hcontent : ∀ l' j, j < env.sectorSize → content w' (l' * env.sectorSize + j) =
        if l' = l then d (l * env.sectorSize + j)
          else content s.media (l' * env.sectorSize + j) := by
      intro l' j hj
      have hsector := FlatDisk.write_sector (content w) l 0 l'
        (show 0 + sl.data.length ≤ env.sectorSize by omega) hj
      rw [Nat.add_zero] at hsector
      rw [hwrite, hsector]
      by_cases hll : l' = l
      · rw [if_pos ⟨hll, by omega, by omega⟩, if_pos hll]
        have hbyte := h.cached sl hmem l hlba j hj
        rw [Nat.sub_zero, List.getD_eq_getElem?_getD, hbyte]
        rfl
      · rw [if_neg (fun hc => hll hc.1), if_neg hll, herase, if_neg]
        intro hin
        have heq : l' * env.sectorSize + j =
            l * env.sectorSize + (l' * env.sectorSize + j - l * env.sectorSize) := by omega
        exact hll (sector_eq hj (by omega) heq).1
    refine h.setSlot hi hsize (.inr ⟨l, hl, hlba⟩) (fun _ j g hji hj => ?_) ?_
      (fun _ _ _ _ _ _ _ _ => rfl) ?_
    · dsimp only
      rw [hlba]
      exact h.lba_ne hi hj hji hlba
    · exact h.cached sl hmem
    · intro l' hl' _ hclean j hj
      rw [hcontent l' j hj]
      by_cases hll : l' = l
      · rw [if_pos hll, hll]
      · rw [if_neg hll]
        refine h.stored l' hl' (fun g hg hglba => ?_) j hj
        obtain ⟨k, hk⟩ := List.mem_iff_getElem?.1 hg
        refine hclean k g (fun hki => ?_) hk hglba
        subst hki
        rw [hi] at hk
        cases hk
        omega

/-- The number of slots stays when one is written back. -/
theorem flushSlot_length (i : Nat) (s : Msc ω) :
    (flushSlot env i s).2.slots.length = s.slots.length := by
  unfold flushSlot
  split
  · rfl
  split
  · rfl
  split
  · rfl
  dsimp only
  split
  · rfl
  split
  · rfl
  · exact List.length_set

/-- It stays when all are. -/
theorem flushLoopFrom_length :
    ∀ (count i : Nat) (s : Msc ω),
      (flushLoopFrom env count i s).slots.length = s.slots.length := by
  intro count
  induction count with
  | zero =>
    intro i s
    rfl
  | succ count ih =>
    intro i s
    rw [flushLoopFrom, ih, flushSlot_length]

/-- The write-backs of a flush of `count` slots from `i` on succeed. -/
def FlushesFrom (env : MscEnv ω) : (count i : Nat) → Msc ω → Prop
  | 0, _, _ => True
  | count + 1, i, s => (flushSlot env i s).1 = true ∧
    FlushesFrom env count (i + 1) (flushSlot env i s).2

/-- Flushing slots keeps the relation and leaves them clean. -/
theorem flushLoopFrom_inv (hlaws : MediaLaws env.wl content) (henv : env.Wf) :
    ∀ {count i : Nat} {s : Msc ω}, CacheInv env content d s → FlushesFrom env count i s →
      i + count ≤ s.slots.length →
      (∀ j sl, j < i → s.slots[j]? = some sl → sl.dirty = false) →
      CacheInv env content d (flushLoopFrom env count i s) ∧
        ∀ j sl, j < i + count → (flushLoopFrom env count i s).slots[j]? = some sl →
          sl.dirty = false := by
  intro count
  induction count with
  | zero =>
    intro i s h _ _ hclean
    exact ⟨h, hclean⟩
  | succ count ih =>
    intro i s h hok hlen hclean
    have hget := List.getElem?_eq_getElem (show i < s.slots.length by omega)
    obtain ⟨hinv, hslots, -⟩ := flushSlot_inv hlaws henv h hget hok.1
    have hlen' : (flushSlot env i s).2.slots.length = s.slots.length := by
      rw [hslots, List.length_set]
    have hnext := ih hinv hok.2 (by omega) ?_
    · rw [show i + (count + 1) = i + 1 + count by omega]
      exact hnext
    · intro j sl hj hsl
      rw [hslots, List.getElem?_set] at hsl
      split at hsl
      · split at hsl
        · cases hsl
          rfl
        · cases hsl
      · exact hclean j sl (by omega) hsl

/-- `flush_all` keeps the relation, and afterwards the media is the disk. -/
theorem flushAll_inv (hlaws : MediaLaws env.wl content) (henv : env.Wf)
    (h : CacheInv env content d s) (hok : FlushesFrom env s.slots.length 0 s) :
    CacheInv env content d (flushAll env s) ∧ ∀ l < env.sectorCount, ∀ j < env.sectorSize,
      content (flushAll env s).media (l * env.sectorSize + j) = d (l * env.sectorSize + j) := by
  obtain ⟨hinv, hclean⟩ := flushLoopFrom_inv hlaws henv h hok (by omega) (fun j sl hj => by omega)
  refine ⟨hinv, fun l hl => hinv.stored l hl fun sl hsl _ => ?_⟩
  obtain ⟨j, hj⟩ := List.mem_iff_getElem?.1 hsl
  refine hclean j sl ?_ hj
  have := (List.getElem?_eq_some_iff.1 hj).1
  rw [flushLoopFrom_length] at this
  omega

/-! ## Binding -/

/-- The victim is a slot. -/
theorem victimFrom_lt :
    ∀ {slots : List Slot} {i victim best n : Nat}, i + slots.length ≤ n → victim < n →
      victimFrom slots i victim best < n := by
  intro slots
  induction slots with
  | nil =>
    intro i victim best n _ hv
    exact hv
  | cons sl rest ih =>
    intro i victim best n hlen hv
    rw [List.length_cons] at hlen
    unfold victimFrom
    split
    · omega
    · split
      · exact ih (by omega) (by omega)
      · exact ih (by omega) hv

/-- A found slot is bound to the sector. -/
theorem slotFind_some {lba i : Nat} (h : slotFind s lba = some i) :
    ∃ sl, s.slots[i]? = some sl ∧ sl.lba = toInt32 lba := by
  obtain ⟨hi, hp, -⟩ := List.findIdx?_eq_some_iff_getElem.1 h
  exact ⟨s.slots[i], List.getElem?_eq_getElem hi, by simpa using hp⟩

/-- A sector that is not found is in no slot. -/
theorem slotFind_none {lba : Nat} (h : slotFind s lba = none) {sl : Slot} (hsl : sl ∈ s.slots) :
    sl.lba ≠ toInt32 lba := by
  have := List.findIdx?_eq_none_iff.1 h sl hsl
  simpa using this

/-- Initialising the cache keeps the relation. -/
theorem cacheReady_inv (henv : env.Wf) (h : CacheInv env content d s) :
    (cacheReady env s).1 = true ∧ CacheInv env content d (cacheReady env s).2 ∧
      (cacheReady env s).2.slots ≠ [] ∧ (cacheReady env s).2.bs = env.sectorSize := by
  unfold cacheReady
  split
  · next hne => exact ⟨rfl, h, hne, h.bs hne⟩
  next hne =>
  rw [not_not] at hne
  have hpos := henv.size_pos
  have hle := henv.size_le
  rw [if_neg (by omega)]
  have hcount : 0 < (if env.malloc = true then mscCacheSectors else 1) := by
    split <;> decide
  generalize (if env.malloc = true then mscCacheSectors else 1) = n at hcount ⊢
  have hmem : ∀ {sl : Slot}, sl ∈ List.replicate n
      { lba := -1, dirty := false, used := 0, data := List.replicate env.sectorSize 0 } →
      sl = { lba := -1, dirty := false, used := 0, data := List.replicate env.sectorSize 0 } :=
    List.eq_of_mem_replicate
  refine ⟨rfl, ⟨fun _ => rfl, ?_, ?_, ?_, ?_, ?_⟩, ?_, rfl⟩
  · intro sl hsl
    rw [hmem hsl]
    exact List.length_replicate
  · intro sl hsl
    rw [hmem hsl]
    exact .inl ⟨rfl, rfl⟩
  · intro i j sl sl' hi _ hpos
    rw [hmem (List.mem_of_getElem? hi)] at hpos
    dsimp only at hpos
    omega
  · intro sl hsl l hlba
    rw [hmem hsl] at hlba
    dsimp only at hlba
    omega
  · intro l hl _
    exact h.stored l hl (by rw [hne]; exact nofun)
  · dsimp only
    rw [ne_eq, List.replicate_eq_nil_iff]
    omega

/-! ## Reads and writes -/

/-- The invariant depends on the content of the medium only. -/
theorem CacheInv.setMedia (h : CacheInv env content d s) {media : ω}
    (hm : content media = content s.media) : CacheInv env content d { s with media := media } := by
  refine { h with stored := fun l hl hclean => ?_ }
  dsimp only
  rw [hm]
  exact h.stored l hl hclean

/-- A sector that no dirty slot is bound to is on the media. -/
theorem CacheInv.clean_bytes (h : CacheInv env content d s) {lba : Nat}
    (hlba : lba < env.sectorCount)
    (hclean : ∀ sl ∈ s.slots, sl.lba = (lba : Int) → sl.dirty = false) {offset n : Nat}
    (hn : offset + n ≤ env.sectorSize) :
    (content s.media).bytes (lba * env.sectorSize + offset) n =
      d.bytes (lba * env.sectorSize + offset) n := by
  refine List.map_congr_left fun j hj => ?_
  rw [List.mem_range] at hj
  have hstored := h.stored lba hlba hclean (offset + j) (by omega)
  rw [← Nat.add_assoc] at hstored
  exact hstored

/-- A sector that no slot is bound to is on the media. -/
theorem CacheInv.media_bytes (h : CacheInv env content d s) (henv : env.Wf) {lba : Nat}
    (hlba : lba < env.sectorCount) (hmiss : slotFind s lba = none) {offset n : Nat}
    (hn : offset + n ≤ env.sectorSize) :
    (content s.media).bytes (lba * env.sectorSize + offset) n =
      d.bytes (lba * env.sectorSize + offset) n := by
  have hcount := henv.count_lt
  refine h.clean_bytes hlba (fun sl hsl heq => ?_) hn
  exact absurd (heq.trans (toInt32_of_lt (by omega)).symm) (slotFind_none hmiss hsl)

/-- A read answers the bytes of the disk, or an error when the media could not be read. -/
theorem read10_inv (hlaws : MediaLaws env.wl content) (henv : env.Wf)
    (h : CacheInv env content d s) {lba offset bufsize : Nat} (hlba : lba < env.sectorCount)
    (hoff : offset + bufsize ≤ env.sectorSize) :
    CacheInv env content d (read10 env lba offset bufsize s).2 ∧
      ((read10 env lba offset bufsize s).1 =
          some (d.bytes (lba * env.sectorSize + offset) bufsize) ∨
        (read10 env lba offset bufsize s).1 = none ∧
          ∃ w, (env.wl.read (lba * env.sectorSize + offset) bufsize w).1 = none) := by
  obtain ⟨hready, hinv, hne, hbs⟩ := cacheReady_inv henv h
  rcases hc : cacheReady env s with ⟨r, s₁⟩
  rw [hc] at hready hinv hne hbs
  dsimp only at hready hinv hne hbs
  subst hready
  have hle := henv.size_le
  have hcount := henv.count_lt
  have htotal := henv.total_lt
  have hsector := sector_le env hlba
  unfold mscMaxSector at hle
  have hadd : add32 offset bufsize = offset + bufsize := add32_of_lt (by omega)
  have haddr : add32 (lba * env.sectorSize) offset = lba * env.sectorSize + offset :=
    add32_of_lt (by omega)
  cases hfind : slotFind s₁ lba with
  | some i =>
    obtain ⟨sl, hi, hsl⟩ := slotFind_some hfind
    rw [toInt32_of_lt (by omega)] at hsl
    have hmem := List.mem_of_getElem? hi
    have heq : read10 env lba offset bufsize s =
        (some ((sl.data.drop offset).take bufsize), s₁) := by
      simp only [read10, hc, hfind, hi, hbs, hadd]
      rw [if_neg (by simp), if_neg (by omega)]
    rw [heq]
    refine ⟨hinv, .inl (congrArg some ?_)⟩
    have hsize := hinv.size sl hmem
    apply List.ext_getElem?
    intro j
    rcases Nat.lt_or_ge j bufsize with hj | hj
    · rw [List.getElem?_take_of_lt hj, List.getElem?_drop, FlatDisk.getElem?_bytes _ hj,
        hinv.cached sl hmem lba hsl (offset + j) (by omega), Nat.add_assoc]
    · rw [List.getElem?_eq_none (by rw [List.length_take]; omega),
        List.getElem?_eq_none (by rw [FlatDisk.length_bytes]; exact hj)]
  | none =>
    rcases hr : env.wl.read (lba * env.sectorSize + offset) bufsize s₁.media with ⟨data, w⟩
    have heq : read10 env lba offset bufsize s = (data, { s₁ with media := w }) := by
      simp only [read10, hc, hfind, hbs, hadd, haddr, hr, henv.mounted]
      rw [if_neg (by simp), if_neg (by omega), if_neg (by simp)]
    have hcontent := hlaws.read_content (lba * env.sectorSize + offset) bufsize s₁.media
    rw [hr] at hcontent
    rw [heq]
    refine ⟨hinv.setMedia hcontent, ?_⟩
    cases data with
    | none => exact .inr ⟨rfl, s₁.media, by rw [hr]⟩
    | some bytes =>
      refine .inl (congrArg some ?_)
      rw [hlaws.read_eq _ _ s₁.media bytes (by rw [hr])]
      exact hinv.media_bytes henv hlba hfind hoff

/-- Storing a write in a slot whose other bytes are those of the sector. -/
theorem CacheInv.store (h : CacheInv env content d s) {i : Nat} {sl : Slot}
    (hi : s.slots[i]? = some sl) {lba offset : Nat} (hlba : lba < env.sectorCount)
    {buffer b : List UInt8} (hoff : offset + buffer.length ≤ env.sectorSize)
    (hb : b.length = env.sectorSize)
    (hrest : ∀ j < env.sectorSize, ¬ (offset ≤ j ∧ j < offset + buffer.length) →
      b[j]? = some (d (lba * env.sectorSize + j)))
    (hslot : sl.lba = (lba : Int) ∨
      sl.dirty = false ∧ ∀ g ∈ s.slots, g.lba ≠ (lba : Int)) {used clock : Nat} {media : ω}
    (hm : content media = content s.media) :
    CacheInv env content (d.write (lba * env.sectorSize + offset) buffer)
      { slots := s.slots.set i ⟨lba, true, used, Bytes.overwrite b offset buffer⟩, bs := s.bs,
        clock := clock, media := media } := by
  have hne : ∀ j g, j ≠ i → s.slots[j]? = some g → g.lba ≠ (lba : Int) := by
    intro j g hji hj
    rcases hslot with hsl | ⟨-, hfree⟩
    · exact h.lba_ne hi hj hji hsl
    · exact hfree g (List.mem_of_getElem? hj)
  have hframe : ∀ l, l ≠ lba → ∀ k < env.sectorSize,
      d.write (lba * env.sectorSize + offset) buffer (l * env.sectorSize + k) =
        d (l * env.sectorSize + k) := by
    intro l hl k hk
    rw [FlatDisk.write_sector d lba offset l hoff hk, if_neg (fun hc => hl hc.1)]
  refine h.setSlot hi ?_ (.inr ⟨lba, hlba, rfl⟩) (fun _ => hne) ?_ ?_ ?_
  · rw [Bytes.length_overwrite (by omega)]
    exact hb
  · intro l hl j hj
    dsimp only at hl ⊢
    have hll : l = lba := by omega
    subst hll
    rw [Bytes.getElem?_overwrite (by omega), FlatDisk.write_sector d l offset l hoff hj]
    by_cases hin : offset ≤ j ∧ j < offset + buffer.length
    · rw [if_pos hin, if_pos ⟨rfl, hin⟩, List.getD_eq_getElem?_getD,
        List.getElem?_eq_getElem (by omega)]
      rfl
    · rw [if_neg hin, if_neg (fun hc => hin hc.2)]
      exact hrest j hj hin
  · intro j g hji hj l hl k hk
    refine hframe l (fun hc => ?_) k hk
    subst hc
    exact hne j g hji hj hl
  · intro l hl hself hclean k hk
    have hll : l ≠ lba := by
      rintro rfl
      exact absurd (hself rfl) (by simp)
    rw [hframe l hll k hk, hm]
    refine h.stored l hl (fun g hg hglba => ?_) k hk
    obtain ⟨j, hj⟩ := List.mem_iff_getElem?.1 hg
    by_cases hji : j = i
    · subst hji
      rw [hi] at hj
      cases hj
      rcases hslot with hsl | ⟨hd, -⟩
      · omega
      · exact hd
    · exact hclean j g hji hj hglba

/-- The write-back that makes room for a sector, if there has to be one, succeeds. -/
def BindFlushes (env : MscEnv ω) (lba : Nat) (s : Msc ω) : Prop :=
  slotFind s lba = none → (flushSlot env (victimFrom s.slots 0 0 maxU32) s).1 = true

/-- Binding a slot to a sector that has none: the victim is clean and free for the sector. -/
theorem slotBind_miss (hlaws : MediaLaws env.wl content) (henv : env.Wf)
    (h : CacheInv env content d s) (hne : s.slots ≠ []) {lba : Nat} (hlba : lba < env.sectorCount)
    (hmiss : slotFind s lba = none) (hflush : BindFlushes env lba s) :
    ∃ i sl s₁, CacheInv env content d s₁ ∧ s₁.bs = s.bs ∧ s₁.slots[i]? = some sl ∧
      sl.dirty = false ∧ (∀ g ∈ s₁.slots, g.lba ≠ (lba : Int)) ∧
      slotBind env lba s = (i, s₁.setSlot i { sl with lba := lba, dirty := false }) := by
  have hcount := henv.count_lt
  have hlba32 := toInt32_of_lt (show lba < 2 ^ 31 by omega)
  have hlt : victimFrom s.slots 0 0 maxU32 < s.slots.length :=
    victimFrom_lt (by omega) (List.length_pos_iff.2 hne)
  have hget := List.getElem?_eq_getElem hlt
  obtain ⟨hinv, hslots, hbs⟩ := flushSlot_inv hlaws henv h hget (hflush hmiss)
  generalize hv : victimFrom s.slots 0 0 maxU32 = i at *
  generalize hsl : s.slots[i] = sl at *
  have hget₁ : (flushSlot env i s).2.slots[i]? = some { sl with dirty := false } := by
    rw [hslots]
    exact List.getElem?_set_self hlt
  refine ⟨i, { sl with dirty := false }, (flushSlot env i s).2, hinv, hbs, hget₁, rfl, ?_, ?_⟩
  · intro g hg
    rw [hslots, mem_set_iff hlt] at hg
    rw [← hlba32]
    rcases hg with rfl | ⟨j, -, hj⟩
    · have hvictim := slotFind_none hmiss (List.mem_of_getElem? hget)
      exact hvictim
    · exact slotFind_none hmiss (List.mem_of_getElem? hj)
  · simp only [slotBind, hmiss, hv, hget₁, hlba32]

/-- Filling a slot just bound: the bytes of the sector, or a free slot again when the media could
not be read. -/
theorem fillSlot_cases (hlaws : MediaLaws env.wl content) (henv : env.Wf)
    (h : CacheInv env content d s) (hne : s.bs = env.sectorSize) {i : Nat} {sl : Slot}
    (hi : s.slots[i]? = some sl) (hd : sl.dirty = false) {lba : Nat} (hlba : lba < env.sectorCount)
    (hfree : ∀ g ∈ s.slots, g.lba ≠ (lba : Int)) :
    (∃ s', fillSlot env lba i (s.setSlot i { sl with lba := lba, dirty := false }) = (false, s') ∧
        CacheInv env content d s' ∧
        ∃ w, (env.wl.read (lba * env.sectorSize) env.sectorSize w).1 = none) ∨
      ∃ w, content w = content s.media ∧
        fillSlot env lba i (s.setSlot i { sl with lba := lba, dirty := false }) =
          (true, { s with media := w }.setSlot i { sl with
            lba := lba, dirty := false
            data := d.bytes (lba * env.sectorSize) env.sectorSize }) := by
  have hlt : i < s.slots.length := (List.getElem?_eq_some_iff.1 hi).1
  have hcount := henv.count_lt
  have htotal := henv.total_lt
  have hsector := sector_le env hlba
  have hmod : lba * env.sectorSize % 2 ^ 32 = lba * env.sectorSize :=
    Nat.mod_eq_of_lt (by have := henv.size_pos; omega)
  have hget : (s.setSlot i { sl with lba := lba, dirty := false }).slots[i]? =
      some { sl with lba := lba, dirty := false } := List.getElem?_set_self hlt
  have hbs : (s.setSlot i { sl with lba := lba, dirty := false }).bs = env.sectorSize := hne
  rcases hr : env.wl.read (lba * env.sectorSize) env.sectorSize s.media with ⟨data, w⟩
  have hcontent := hlaws.read_content (lba * env.sectorSize) env.sectorSize s.media
  rw [hr] at hcontent
  have hread : env.wl.read (lba * env.sectorSize) env.sectorSize
      (s.setSlot i { sl with lba := lba, dirty := false }).media = (data, w) := hr
  cases data with
  | none =>
    refine .inl ⟨{ s with media := w }.setSlot i { sl with lba := -1, dirty := false }, ?_, ?_,
      s.media, by rw [hr]⟩
    · simp only [fillSlot, hget, hbs, hmod, hread, henv.mounted]
      rw [if_neg (by simp)]
      simp [Msc.setSlot, hne]
    · refine h.setSlot hi (h.size sl (List.mem_of_getElem? hi)) (.inl ⟨rfl, rfl⟩) (fun hpos => ?_)
        (fun l hl => ?_) (fun _ _ _ _ _ _ _ _ => rfl) ?_
      · exact absurd hpos (by simp)
      · dsimp only at hl
        omega
      · intro l hl _ hclean j hj
        rw [hcontent]
        refine h.stored l hl (fun g hg hglba => ?_) j hj
        obtain ⟨k, hk⟩ := List.mem_iff_getElem?.1 hg
        by_cases hki : k = i
        · subst hki
          rw [hi] at hk
          cases hk
          exact hd
        · exact hclean k g hki hk hglba
  | some bytes =>
    refine .inr ⟨w, hcontent, ?_⟩
    have hbytes : bytes = d.bytes (lba * env.sectorSize) env.sectorSize := by
      rw [hlaws.read_eq _ _ s.media bytes (by rw [hr])]
      refine List.map_congr_left fun j hj => ?_
      rw [List.mem_range] at hj
      exact h.stored lba hlba (fun g hg hglba => absurd hglba (hfree g hg)) j hj
    simp only [fillSlot, hget, hbs, hmod, hread, henv.mounted, hbytes]
    rw [if_neg (by simp)]
    simp [Msc.setSlot, hne]

/-- A store to a slot marks it as dirty and as used last. -/
theorem storeSlot_eq {i offset : Nat} {buffer : List UInt8} {sl : Slot}
    (hi : s.slots[i]? = some sl) :
    storeSlot i offset buffer s =
      (true, { slots := s.slots.set i ⟨sl.lba, true, add32 s.clock 1,
                 Bytes.overwrite sl.data offset buffer⟩
               bs := s.bs
               clock := add32 s.clock 1
               media := s.media }) := by
  simp only [storeSlot, hi, Msc.setSlot]

/-- A write that returned success is a write of the disk; a failed one leaves the disk alone, and
fails only when the media could not be read. -/
theorem write10_inv (hlaws : MediaLaws env.wl content) (henv : env.Wf)
    (h : CacheInv env content d s) {lba offset : Nat} {buffer : List UInt8}
    (hlba : lba < env.sectorCount) (hoff : offset + buffer.length ≤ env.sectorSize)
    (hflush : BindFlushes env lba (cacheReady env s).2) :
    ((write10 env lba offset buffer s).1 = true ∧
      CacheInv env content (d.write (lba * env.sectorSize + offset) buffer)
        (write10 env lba offset buffer s).2) ∨
    ((write10 env lba offset buffer s).1 = false ∧
      CacheInv env content d (write10 env lba offset buffer s).2 ∧
      ∃ w, (env.wl.read (lba * env.sectorSize) env.sectorSize w).1 = none) := by
  obtain ⟨hready, hinv, hne, hbs⟩ := cacheReady_inv henv h
  rcases hc : cacheReady env s with ⟨r, s₁⟩
  rw [hc] at hready hinv hne hbs hflush
  dsimp only at hready hinv hne hbs hflush
  subst hready
  have hle := henv.size_le
  have hcount := henv.count_lt
  unfold mscMaxSector at hle
  have hadd : add32 offset buffer.length = offset + buffer.length := add32_of_lt (by omega)
  cases hfind : slotFind s₁ lba with
  | some i =>
    obtain ⟨sl, hi, hsl⟩ := slotFind_some hfind
    rw [toInt32_of_lt (by omega)] at hsl
    have hmem := List.mem_of_getElem? hi
    have heq : write10 env lba offset buffer s = storeSlot i offset buffer s₁ := by
      simp only [write10, hc, hfind, hbs, hadd]
      rw [if_neg (by simp), if_neg (by omega)]
    rw [heq, storeSlot_eq hi, hsl]
    refine .inl ⟨rfl, hinv.store hi hlba hoff (hinv.size sl hmem) (fun j hj _ => ?_) (.inl hsl) rfl⟩
    exact hinv.cached sl hmem lba hsl j hj
  | none =>
    obtain ⟨i, sl, s₂, hinv₂, hbs₂, hi, hd, hfree, hbind⟩ :=
      slotBind_miss hlaws henv hinv hne hlba hfind hflush
    rw [hbs] at hbs₂
    have hlt : i < s₂.slots.length := (List.getElem?_eq_some_iff.1 hi).1
    have hsize := hinv₂.size sl (List.mem_of_getElem? hi)
    have hbs₃ : (s₂.setSlot i { sl with lba := lba, dirty := false }).bs = env.sectorSize := hbs₂
    by_cases hfull : offset = 0 ∧ buffer.length = env.sectorSize
    · have heq : write10 env lba offset buffer s = storeSlot i offset buffer
          (s₂.setSlot i { sl with lba := lba, dirty := false }) := by
        simp only [write10, hc, hfind, hbs, hadd, hbind, hbs₃]
        rw [if_neg (by simp), if_neg (by omega), if_pos hfull]
      have hget : (s₂.setSlot i { sl with lba := lba, dirty := false }).slots[i]? =
          some { sl with lba := lba, dirty := false } := List.getElem?_set_self hlt
      rw [heq, storeSlot_eq hget]
      simp only [Msc.setSlot, List.set_set]
      refine .inl
        ⟨trivial, hinv₂.store hi hlba hoff hsize (fun j hj hout => ?_) (.inr ⟨hd, hfree⟩) rfl⟩
      exact absurd ⟨by omega, by omega⟩ hout
    · have heq : write10 env lba offset buffer s =
          if (fillSlot env lba i (s₂.setSlot i { sl with lba := lba, dirty := false })).1 then
            storeSlot i offset buffer
              (fillSlot env lba i (s₂.setSlot i { sl with lba := lba, dirty := false })).2
          else (false,
            (fillSlot env lba i (s₂.setSlot i { sl with lba := lba, dirty := false })).2) := by
        simp only [write10, hc, hfind, hbs, hadd, hbind, hbs₃]
        rw [if_neg (by simp), if_neg (by omega), if_neg hfull]
      rcases fillSlot_cases hlaws henv hinv₂ hbs₂ hi hd hlba hfree with
        ⟨s', hfill, hinv', hfail⟩ | ⟨w, hw, hfill⟩
      · rw [heq, hfill]
        exact .inr ⟨rfl, hinv', hfail⟩
      · have hget : ({ s₂ with media := w }.setSlot i { sl with
            lba := lba, dirty := false
            data := d.bytes (lba * env.sectorSize) env.sectorSize }).slots[i]? =
            some { sl with
              lba := lba, dirty := false
              data := d.bytes (lba * env.sectorSize) env.sectorSize } :=
          List.getElem?_set_self hlt
        rw [heq, hfill, if_pos rfl, storeSlot_eq hget]
        simp only [Msc.setSlot, List.set_set]
        refine .inl ⟨trivial, hinv₂.store hi hlba hoff (FlatDisk.length_bytes _ _ _)
          (fun j hj _ => FlatDisk.getElem?_bytes _ hj) (.inr ⟨hd, hfree⟩) hw⟩

/-! ## Commands and runs -/

/-- A command inside the partition, as the SCSI layer issues it. -/
def MscCmd.Valid (env : MscEnv ω) : MscCmd → Prop
  | .read10 lba offset bufsize => lba < env.sectorCount ∧ offset + bufsize ≤ env.sectorSize
  | .write10 lba offset buffer => lba < env.sectorCount ∧ offset + buffer.length ≤ env.sectorSize
  | .sync => True
  | .eject => True

/-- The write-backs that a command makes succeed. -/
def FlushOk (env : MscEnv ω) (s : Msc ω) : MscCmd → Prop
  | .read10 _ _ _ => True
  | .write10 lba _ _ => BindFlushes env lba (cacheReady env s).2
  | .sync => FlushesFrom env s.slots.length 0 s
  | .eject => FlushesFrom env s.slots.length 0 s

/-- One command whose write-backs succeed does what the flat disk does, or it answers an error and
leaves the disk alone because the media could not be read. -/
theorem mscStep_inv (hlaws : MediaLaws env.wl content) (henv : env.Wf)
    (h : CacheInv env content d s) {c : MscCmd} (hc : c.Valid env) (hflush : FlushOk env s c) :
    ((mscStep env s c).1 = (d.step env.sectorSize c).1 ∧
      CacheInv env content (d.step env.sectorSize c).2 (mscStep env s c).2) ∨
    ((mscStep env s c).1 = .error ∧ CacheInv env content d (mscStep env s c).2 ∧
      ∃ a n w, a + n ≤ env.sectorCount * env.sectorSize ∧ (env.wl.read a n w).1 = none) := by
  cases c with
  | read10 lba offset bufsize =>
    have hsector := sector_le env hc.1
    obtain ⟨hinv, hdata | ⟨hnone, hfail⟩⟩ := read10_inv hlaws henv h hc.1 hc.2
    · left
      simp only [mscStep, hdata]
      exact ⟨rfl, hinv⟩
    · right
      obtain ⟨w, hw⟩ := hfail
      simp only [mscStep, hnone]
      exact ⟨trivial, hinv, _, _, w, by have := hc.2; omega, hw⟩
  | write10 lba offset buffer =>
    have hsector := sector_le env hc.1
    rcases write10_inv hlaws henv h hc.1 hc.2 hflush with ⟨hok, hinv⟩ | ⟨hok, hinv, w, hw⟩
    · left
      simp only [mscStep, hok]
      exact ⟨rfl, hinv⟩
    · right
      simp only [mscStep, hok]
      exact ⟨rfl, hinv, _, _, w, hsector, hw⟩
  | sync => exact .inl ⟨rfl, (flushAll_inv hlaws henv h hflush).1⟩
  | eject => exact .inl ⟨rfl, (flushAll_inv hlaws henv h hflush).1⟩

/-- Every operation inside the partition succeeds. -/
structure MscEnv.Reliable (env : MscEnv ω) : Prop where
  read : ∀ a n w, a + n ≤ env.sectorCount * env.sectorSize → (env.wl.read a n w).1 ≠ none
  erase : ∀ a n w, a + n ≤ env.sectorCount * env.sectorSize → (env.wl.eraseRange a n w).1 = true
  write : ∀ a src w, a + src.length ≤ env.sectorCount * env.sectorSize →
    (env.wl.write a src w).1 = true

/-- On a reliable media every write-back succeeds. -/
theorem flushSlot_reliable (hrel : env.Reliable) (henv : env.Wf) (h : CacheInv env content d s)
    (i : Nat) : (flushSlot env i s).1 = true := by
  cases hi : s.slots[i]? with
  | none => simp [flushSlot, hi]
  | some sl =>
    have hsize := h.size sl (List.mem_of_getElem? hi)
    rcases flushSlot_cases henv h hi with
      ⟨-, heq⟩ | ⟨-, l, hl, -, ⟨w, he, -⟩ | ⟨w, w', -, hw, -⟩ | ⟨w, w', -, -, heq⟩⟩
    · rw [heq]
    · have := hrel.erase _ _ s.media (sector_le env hl)
      rw [he] at this
      cases this
    · have := hrel.write (l * env.sectorSize) sl.data w (by rw [hsize]; exact sector_le env hl)
      rw [hw] at this
      cases this
    · rw [heq]

/-- On a medium that works every slot is written back, by induction on the slots. -/
theorem flushesFrom_reliable (hlaws : MediaLaws env.wl content) (hrel : env.Reliable)
    (henv : env.Wf) : ∀ {count i : Nat} {s : Msc ω}, CacheInv env content d s →
      i + count ≤ s.slots.length → FlushesFrom env count i s := by
  intro count
  induction count with
  | zero =>
    intro i s _ _
    trivial
  | succ count ih =>
    intro i s h hlen
    have hok := flushSlot_reliable hrel henv h i
    have hget := List.getElem?_eq_getElem (show i < s.slots.length by omega)
    refine ⟨hok, ih (flushSlot_inv hlaws henv h hget hok).1 ?_⟩
    rw [flushSlot_length]
    omega

/-- On a medium that works no command loses data. -/
theorem flushOk_reliable (hlaws : MediaLaws env.wl content) (hrel : env.Reliable) (henv : env.Wf)
    (h : CacheInv env content d s) (c : MscCmd) : FlushOk env s c := by
  cases c with
  | read10 lba offset bufsize => trivial
  | write10 lba offset buffer =>
    intro _
    exact flushSlot_reliable hrel henv (cacheReady_inv henv h).2.1 _
  | sync => exact flushesFrom_reliable hlaws hrel henv h (by omega)
  | eject => exact flushesFrom_reliable hlaws hrel henv h (by omega)

/-- A run on a reliable media answers what the flat disk answers. -/
theorem mscRun_inv (hlaws : MediaLaws env.wl content) (hrel : env.Reliable) (henv : env.Wf) :
    ∀ {cs : List MscCmd} {s : Msc ω} {d : FlatDisk}, CacheInv env content d s →
      (∀ c ∈ cs, c.Valid env) →
      (mscRun env s cs).1 = (d.run env.sectorSize cs).1 ∧
        CacheInv env content (d.run env.sectorSize cs).2 (mscRun env s cs).2 := by
  intro cs
  induction cs with
  | nil =>
    intro s d h _
    exact ⟨rfl, h⟩
  | cons c cs ih =>
    intro s d h hvalid
    obtain ⟨hc, hcs⟩ := List.forall_mem_cons.1 hvalid
    rcases mscStep_inv hlaws henv h hc (flushOk_reliable hlaws hrel henv h c) with
      ⟨hreply, hinv⟩ | ⟨-, -, a, n, w, ha, hnone⟩
    · obtain ⟨hrs, hinv'⟩ := ih hinv hcs
      refine ⟨?_, hinv'⟩
      rw [mscRun, FlatDisk.run]
      exact List.cons_eq_cons.2 ⟨hreply, hrs⟩
    · exact absurd hnone (hrel.read a n w ha)

/-- A run in two parts. -/
theorem mscRun_append (env : MscEnv ω) :
    ∀ (cs cs' : List MscCmd) (s : Msc ω),
      (mscRun env s (cs ++ cs')).2 = (mscRun env (mscRun env s cs).2 cs').2 := by
  intro cs cs'
  induction cs with
  | nil =>
    intro s
    rfl
  | cons c cs ih =>
    intro s
    exact ih _

end

/-- **The cache refines a flat disk.** For every sequence of commands from boot, with a media whose
operations succeed: the replies are those of a flat disk that starts with what is on the media, no
sector is bound to two slots, and after a flush the media is that disk. -/
theorem mscRun_refines {ω : Type} (env : MscEnv ω) (content : ω → FlatDisk) (media : ω)
    (cs : List MscCmd) (hlaws : MediaLaws env.wl content) (hrel : env.Reliable) (henv : env.Wf)
    (hvalid : ∀ c ∈ cs, c.Valid env) :
    (mscRun env (Msc.boot media) cs).1 = ((content media).run env.sectorSize cs).1 ∧
    (∀ (i j : Nat) (sl sl' : Slot), (mscRun env (Msc.boot media) cs).2.slots[i]? = some sl →
      (mscRun env (Msc.boot media) cs).2.slots[j]? = some sl' → 0 ≤ sl.lba → sl.lba = sl'.lba →
      i = j) ∧
    (∀ c, c = .sync ∨ c = .eject → ∀ l < env.sectorCount, ∀ j < env.sectorSize,
      content (mscRun env (Msc.boot media) (cs ++ [c])).2.media (l * env.sectorSize + j) =
        ((content media).run env.sectorSize cs).2 (l * env.sectorSize + j)) := by
  obtain ⟨hreplies, hinv⟩ := mscRun_inv hlaws hrel henv (CacheInv.boot media) hvalid
  refine ⟨hreplies, hinv.distinct, fun c hc l hl j hj => ?_⟩
  have hflush := flushesFrom_reliable hlaws hrel henv hinv (Nat.zero_add _).le
  have hmedia := (flushAll_inv hlaws henv hinv hflush).2 l hl j hj
  rw [mscRun_append]
  rcases hc with rfl | rfl <;> exact hmedia

/-! ## A flat media -/

/-- A media that is a flat store and never fails. -/
def flatMedia : WearLevelling FlatDisk where
  read := fun a n w => (some (w.bytes a n), w)
  eraseRange := fun a n w => (true, fun x => if a ≤ x ∧ x < a + n then 0xff else w x)
  write := fun a src w => (true, w.write a src)

/-- The flat disk is a medium. -/
theorem flatMedia_laws : MediaLaws flatMedia id where
  read_content := fun _ _ _ => rfl
  read_eq := fun _ _ _ _ h => (Option.some.inj h).symm
  erase_eq := fun _ _ _ _ _ => rfl
  write_eq := fun _ _ _ _ _ => rfl

/-- Two sectors of 512 bytes; the cache has one slot when `malloc` fails. -/
def flatEnv (malloc : Bool) : MscEnv FlatDisk where
  wl := flatMedia
  mounted := true
  sectorSize := 512
  sectorCount := 2
  malloc := malloc

/-- It works. -/
theorem flatEnv_reliable (malloc : Bool) : (flatEnv malloc).Reliable :=
  ⟨fun _ _ _ _ => nofun, fun _ _ _ _ => rfl, fun _ _ _ _ => rfl⟩

/-- Its geometry is in bounds. -/
theorem flatEnv_wf (malloc : Bool) : (flatEnv malloc).Wf :=
  ⟨rfl, show 0 < 512 by decide, show 512 ≤ 4096 by decide, show 2 < 2 ^ 31 by decide,
    show 2 * 512 < 2 ^ 32 by decide⟩

/-- Two partial writes to different sectors through the single slot, and a read of the first. -/
theorem mscRun_refines_flatEnv :
    (mscRun (flatEnv false) (Msc.boot fun _ => 0)
      [.write10 0 0 [1, 2], .write10 1 3 [4], .read10 0 0 4]).1 =
      [.done, .done, .data [1, 2, 0, 0]] := by
  have h := (mscRun_refines (flatEnv false) id (fun _ => 0)
    [.write10 0 0 [1, 2], .write10 1 3 [4], .read10 0 0 4] flatMedia_laws (flatEnv_reliable false)
    (flatEnv_wf false) (by
      simp only [List.forall_mem_cons, MscCmd.Valid, List.not_mem_nil]
      exact ⟨by decide, by decide, by decide, nofun⟩)).1
  rw [h]
  decide

end Blackmagic
