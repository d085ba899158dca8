import Blackmagic.Emu.Access

/-!
# The emulated flash is NOR flash

What stores do to the flash is said in terms of the stores that came before: which values the
registers of the controller were written with, which stores erase a page, and what is programmed
into an address. The controller follows that history (`Tracks`), a store changes a byte as the
history says (`emuTargetStore_step`), and so does a run.
-/

namespace Blackmagic

/-! ## What a history of stores says -/

/-- The values written to a register. -/
def writesTo (reg : UInt32) (history : List EmuStore) : List UInt32 :=
  (history.filter (·.addr = reg)).map (·.value)

/-- KEYR has been written with KEY1, and with KEY2 as the next write. -/
def KeysGiven (history : List EmuStore) : Prop :=
  [fpecKey1, fpecKey2] <:+: writesTo fpecKeyr history

instance (history : List EmuStore) : Decidable (KeysGiven history) :=
  inferInstanceAs (Decidable (_ <:+: _))

/-- What CR was written with last. -/
def crAfter (history : List EmuStore) : UInt32 := (writesTo fpecCr history).getLastD 0

/-- What AR was written with last. -/
def arAfter (history : List EmuStore) : UInt32 := (writesTo fpecAr history).getLastD 0

/-- An address is in a page of the flash. -/
def InPage (addr : UInt32) (page : Nat) : Prop :=
  inRange addr (emuFlashBase + UInt32.ofNat (page * emuFlashPage)) emuFlashPage

/-- A store erases a page: a CR write with STRT, and with PER while AR points into the page, or with
MER and not PER. -/
def Erases (history : List EmuStore) (st : EmuStore) (page : Nat) : Prop :=
  KeysGiven history ∧ st.addr = fpecCr ∧ st.value &&& crStrt ≠ 0 ∧
    (st.value &&& crPer ≠ 0 ∧ InPage (arAfter history) page ∨
      st.value &&& crPer = 0 ∧ st.value &&& crMer ≠ 0)

/-- The value that a store programs into an address, made while CR.PG is set. -/
def programmed (history : List EmuStore) (st : EmuStore) (a : UInt32) : Option UInt8 :=
  if KeysGiven history ∧ crAfter history &&& crPg ≠ 0 ∧ inFlash st.addr ∧
      inRange a st.addr st.size then
    some (st.byte (a.toNat - st.addr.toNat))
  else none

/-- The values that stores program into an address, after the stores of a history. -/
def programmedBy (history : List EmuStore) : List EmuStore → UInt32 → List UInt8
  | [], _ => []
  | st :: stores, a => (programmed history st a).toList ++ programmedBy (history ++ [st]) stores a

/-- No store erases a page, after the stores of a history. -/
def NotErased (history stores : List EmuStore) (page : Nat) : Prop :=
  ∀ s₁ st s₂, stores = s₁ ++ st :: s₂ → ¬ Erases (history ++ s₁) st page

/-- What a byte starts from after a history: 0xFF when the last store erased its page, and what it
was after the reset when there was no store. -/
def StartsFrom (history : List EmuStore) (a : UInt32) (start : UInt8) : Prop :=
  history = [] ∧ start = flashByte (emuTargetReset true).flashPage a ∨
    ∃ before st, history = before ++ [st] ∧ Erases before st (flashPageOf a) ∧ start = 0xff

/-- A store of 1, 2 or 4 bytes that does not run past the end of SRAM. -/
def EmuStore.Valid (st : EmuStore) : Prop :=
  (st.size = 1 ∨ st.size = 2 ∨ st.size = 4) ∧
    (inRange st.addr emuSramBase emuSramSize → st.addr.toNat + st.size ≤
      emuSramBase.toNat + emuSramSize)

/-- A run from the reset, with memory to be had. -/
def emuRun (stores : List EmuStore) : Except EmuFault EmuTarget :=
  Machine.run (emuTargetStore true) (emuTargetReset true) stores

/-- All the bytes of a page read as 0xFF. -/
def Blank (pages : FlashPages) (page : Nat) : Prop :=
  ∀ a, flashPageOf a = page → flashByte pages a = 0xff

/-! ## The flash -/

/-- An address of the flash is in one of its pages. -/
theorem flashPageOf_of_inFlash {a : UInt32} (h : inFlash a) : flashPageOf a < flashPages := by
  have h1 : emuFlashBase.toNat ≤ a.toNat := h.1
  have h2 : a.toNat < emuFlashBase.toNat + emuFlashSize.toNat := h.2
  have hb : emuFlashBase.toNat = 0x08000000 := rfl
  have hs : emuFlashSize.toNat = 0x00020000 := rfl
  have hoff : flashOff a = a.toNat - 0x08000000 := by
    rw [flashOff, UInt32.toNat_sub_of_le _ _ h.1]
    rfl
  unfold flashPageOf
  rw [hoff]
  simp only [emuFlashPage, flashPages]
  omega

/-- The offset of an address, modulo 2^32. -/
theorem flashOff_eq (a : UInt32) : flashOff a = (a.toNat + 0xf8000000) % 2 ^ 32 := by
  rw [flashOff, UInt32.toNat_sub, Nat.add_comm]
  rfl

/-- Addresses with one offset are the same. -/
theorem flashOff_inj {a b : UInt32} (h : flashOff a = flashOff b) : a = b := by
  have ha := a.toNat_lt
  have hb := b.toNat_lt
  rw [flashOff_eq, flashOff_eq] at h
  exact UInt32.toNat_inj.1 (by omega)

/-- The two ways to say that an address is in a page. -/
theorem inPage_iff {a : UInt32} {page : Nat} (h : page < flashPages) :
    InPage a page ↔ flashPageOf a = page := by
  have ha := a.toNat_lt
  have hbase : (emuFlashBase + UInt32.ofNat (page * emuFlashPage)).toNat =
      0x08000000 + page * 0x400 := by
    rw [UInt32.toNat_add, UInt32.toNat_ofNat', show emuFlashBase.toNat = 0x08000000 from rfl]
    simp only [emuFlashPage, flashPages] at h ⊢
    omega
  unfold InPage inRange flashPageOf
  rw [UInt32.le_iff_toNat_le, hbase, flashOff_eq]
  simp only [emuFlashPage, flashPages] at h ⊢
  omega

/-- Behind the pages everything is blank. -/
theorem flashByte_of_ge {a : UInt32} (h : flashPages ≤ flashPageOf a) (pages : FlashPages) :
    flashByte pages a = 0xff := if_pos h

/-- A blank byte takes what is programmed. -/
theorem and_blank (v : UInt8) : 0xff &&& v = v := by
  rw [UInt8.and_comm]
  exact UInt8.and_neg_one

/-- Addresses with one page and one index are the same. -/
theorem eq_of_page_index {a b : UInt32} (hp : flashPageOf a = flashPageOf b)
    (hi : flashIndex a = flashIndex b) : a = b := by
  have hi := congrArg Fin.val hi
  simp only [flashIndex, flashPageOf] at hp hi
  refine flashOff_inj ?_
  rw [← Nat.div_add_mod (flashOff a) emuFlashPage, hp, hi, Nat.div_add_mod]

/-- A byte written to flash is ANDed into the byte that is there. -/
theorem flashByte_flashWriteByte (pages : FlashPages) {a addr : UInt32} (v : UInt8)
    (ha : flashPageOf a < flashPages) : flashByte (flashWriteByte true pages addr v) a =
      if a = addr then flashByte pages a &&& v else flashByte pages a := by
  -- a page that is not there is one of 0xFF
  have hpages : ∀ b, flashPageOf b < flashPages → flashByte pages b =
      ((pages (flashPageOf b)).getD blankPage).get (flashIndex b) := by
    intro b hb
    rw [flashByte, if_neg (Nat.not_le.2 hb)]
    cases pages (flashPageOf b) with
    | none => simp [blankPage, Vector.get]
    | some page => rfl
  rcases Nat.lt_or_ge (flashPageOf addr) flashPages with haddr | haddr
  · have hwrite : flashWriteByte true pages addr v = Function.update pages (flashPageOf addr)
        (some (((pages (flashPageOf addr)).getD blankPage).set (flashIndex addr)
          (((pages (flashPageOf addr)).getD blankPage).get (flashIndex addr) &&& v))) := by
      rw [flashWriteByte, if_neg (Nat.not_le.2 haddr)]
      cases pages (flashPageOf addr) with
      | none => rfl
      | some page => rfl
    rw [hwrite, hpages a ha, flashByte, if_neg (Nat.not_le.2 ha)]
    by_cases hp : flashPageOf a = flashPageOf addr
    · rw [hp, Function.update_self]
      dsimp only
      by_cases hi : flashIndex a = flashIndex addr
      · rw [if_pos (eq_of_page_index hp hi), hi]
        simp only [Vector.get_eq_getElem]
        exact Vector.getElem_set_self _
      · have hne : a ≠ addr := fun h => hi (by rw [h])
        have hne' : (flashIndex addr : Nat) ≠ (flashIndex a : Nat) := fun h => hi (Fin.ext h.symm)
        rw [if_neg hne]
        simp only [Vector.get_eq_getElem]
        exact Vector.getElem_set_ne _ _ hne'
    · rw [Function.update_of_ne hp, if_neg fun h => hp (by rw [h])]
      cases pages (flashPageOf a) with
      | none => simp [blankPage, Vector.get]
      | some page => rfl
  · have hne : a ≠ addr := fun h => absurd (h ▸ ha) (Nat.not_lt.2 haddr)
    rw [flashWriteByte, if_pos haddr, if_neg hne]

/-- A page is erased. -/
theorem flashByte_flashErasePage (pages : FlashPages) (a addr : UInt32) :
    flashByte (flashErasePage pages addr) a =
      if flashPageOf a = flashPageOf addr then 0xff else flashByte pages a := by
  rcases Nat.lt_or_ge (flashPageOf a) flashPages with ha | ha
  · rcases Nat.lt_or_ge (flashPageOf addr) flashPages with haddr | haddr
    · rw [flashErasePage, if_neg (Nat.not_le.2 haddr)]
      unfold flashByte
      rw [if_neg (Nat.not_le.2 ha), if_neg (Nat.not_le.2 ha)]
      by_cases hp : flashPageOf a = flashPageOf addr
      · rw [if_pos hp, hp, Function.update_self]
      · rw [if_neg hp, Function.update_of_ne hp]
    · rw [flashErasePage, if_pos haddr, if_neg (by omega)]
  · rw [flashByte_of_ge ha, flashByte_of_ge ha, ite_self]

/-- All pages are erased. -/
theorem flashByte_flashEraseAll (pages : FlashPages) (a : UInt32) :
    flashByte (flashEraseAll pages) a = 0xff := by
  unfold flashByte flashEraseAll
  split
  · rfl
  · next h => rw [if_pos (Nat.not_le.1 h)]

/-- A store to flash ANDs its bytes into the flash. -/
theorem flashByte_storeFlash {st : EmuStore} (haddr : inFlash st.addr) (hsize : st.size ≤ 4)
    (pages : FlashPages) {a : UInt32} (ha : flashPageOf a < flashPages) :
    flashByte (storeFlash true st pages) a = if inRange a st.addr st.size then
      flashByte pages a &&& st.byte (a.toNat - st.addr.toNat) else flashByte pages a := by
  have haddr : st.addr.toNat < 0x08020000 := haddr.2
  have hloop : ∀ n ≤ 4, flashByte ((List.range n).foldl
      (fun pages i => flashWriteByte true pages (st.addr + UInt32.ofNat i) (st.byte i)) pages) a =
      if inRange a st.addr n then flashByte pages a &&& st.byte (a.toNat - st.addr.toNat)
      else flashByte pages a := by
    intro n
    induction n with
    | zero =>
      intro _
      rw [if_neg fun h : inRange a st.addr 0 => Nat.not_le.2 h.2 (UInt32.le_iff_toNat_le.1 h.1)]
      rfl
    | succ n ih =>
      intro hn
      rw [List.range_succ, List.foldl_append, List.foldl_cons, List.foldl_nil,
        flashByte_flashWriteByte _ _ ha, ih (by omega)]
      have hsum : (st.addr + UInt32.ofNat n).toNat = st.addr.toNat + n := by
        rw [UInt32.toNat_add, UInt32.toNat_ofNat']
        omega
      by_cases heq : a = st.addr + UInt32.ofNat n
      · have hnat : a.toNat = st.addr.toNat + n := by rw [heq, hsum]
        rw [if_pos heq, if_neg (fun h : inRange a st.addr n => absurd h.2 (by omega)),
          if_pos ⟨UInt32.le_iff_toNat_le.2 (by omega), by omega⟩, hnat, Nat.add_sub_cancel_left]
      · have hnat : a.toNat ≠ st.addr.toNat + n :=
          fun h => heq (UInt32.toNat_inj.1 (by rw [h, hsum]))
        have hiff : inRange a st.addr (n + 1) ↔ inRange a st.addr n := by
          unfold inRange
          rw [UInt32.le_iff_toNat_le]
          omega
        rw [if_neg heq]
        simp only [hiff]
  exact hloop st.size hsize

/-! ## The controller follows the history -/

/-- The values written to a register, with one more store. -/
theorem writesTo_concat (reg : UInt32) (h : List EmuStore) (st : EmuStore) :
    writesTo reg (h ++ [st]) = if st.addr = reg then writesTo reg h ++ [st.value]
      else writesTo reg h := by
  unfold writesTo
  rw [List.filter_append, List.map_append]
  by_cases hr : st.addr = reg <;> simp [hr]

/-- Two elements stand next to each other in a list that has grown, or did before. -/
theorem pair_infix_concat {α : Type} {a b c : α} {l : List α} :
    [a, b] <:+: l ++ [c] ↔ [a, b] <:+: l ∨ l.getLast? = some a ∧ c = b := by
  rw [List.infix_concat_iff, List.suffix_concat_iff, or_comm]
  refine or_congr_right ⟨?_, ?_⟩
  · rintro (h | ⟨t, ht, hsuf⟩)
    · cases h
    · obtain ⟨rfl, rfl⟩ : [a] = t ∧ b = c := by
        have := List.append_inj' (show [a] ++ [b] = t ++ [c] from ht) rfl
        exact ⟨this.1, by simpa using this.2⟩
      obtain ⟨l', rfl⟩ := hsuf
      exact ⟨by simp, rfl⟩
  · rintro ⟨h, rfl⟩
    obtain ⟨l', rfl⟩ := List.getLast?_eq_some_iff.1 h
    exact .inr ⟨[a], rfl, l', rfl⟩

/-- The registers of the controller hold what the history says. -/
structure Tracks (m : EmuTarget) (h : List EmuStore) : Prop where
  keyr : m.flashKeyr = (writesTo fpecKeyr h).getLastD 0
  unlocked : m.flashUnlocked = true ↔ KeysGiven h
  cr : m.flashCr = crAfter h
  ar : m.flashAr = arAfter h

/-- After the reset nothing has been stored. -/
theorem tracks_reset : Tracks (emuTargetReset true) [] :=
  ⟨rfl, by decide, rfl, rfl⟩

/-- A store to none of the registers that leaves the controller alone. -/
theorem Tracks.other {m m' : EmuTarget} {h : List EmuStore} {st : EmuStore} (ht : Tracks m h)
    (haddr : st.addr ≠ fpecKeyr ∧ st.addr ≠ fpecCr ∧ st.addr ≠ fpecAr)
    (hkeyr : m'.flashKeyr = m.flashKeyr) (hcr : m'.flashCr = m.flashCr)
    (har : m'.flashAr = m.flashAr) (hun : m'.flashUnlocked = m.flashUnlocked) :
    Tracks m' (h ++ [st]) := by
  constructor
  · rw [hkeyr, ht.keyr, writesTo_concat, if_neg haddr.1]
  · rw [hun, ht.unlocked, KeysGiven, KeysGiven, writesTo_concat, if_neg haddr.1]
  · rw [hcr, ht.cr, crAfter, crAfter, writesTo_concat, if_neg haddr.2.1]
  · rw [har, ht.ar, arAfter, arAfter, writesTo_concat, if_neg haddr.2.2]

/-- What a byte of the flash is after a store. -/
def StoredByte (h : List EmuStore) (st : EmuStore) (a : UInt32) (old new : UInt8) : Prop :=
  (Erases h st (flashPageOf a) → new = 0xff) ∧
    (¬ Erases h st (flashPageOf a) → new = (programmed h st a).elim old (old &&& ·))

/-- A store to none of the registers and not to the flash leaves the flash alone. -/
theorem StoredByte.same {h : List EmuStore} {st : EmuStore} {a : UInt32} {b : UInt8}
    (haddr : st.addr ≠ fpecCr) (hflash : ¬ inFlash st.addr) : StoredByte h st a b b := by
  refine ⟨fun he => absurd he.2.1 haddr, fun _ => ?_⟩
  rw [programmed, if_neg fun hp => hflash hp.2.2.1]
  rfl

/-- A store to the SCS leaves the flash and its controller as they are. -/
theorem scsWrite_flash (m : EmuTarget) (off value : UInt32) :
    (scsWrite m off value).flashPage = m.flashPage ∧ (scsWrite m off value).flashKeyr =
      m.flashKeyr ∧
      (scsWrite m off value).flashCr = m.flashCr ∧ (scsWrite m off value).flashAr = m.flashAr ∧
      (scsWrite m off value).flashUnlocked = m.flashUnlocked := by
  unfold scsWrite coreRegTransfer
  repeat' split
  all_goals exact ⟨rfl, rfl, rfl, rfl, rfl⟩

/-- A store that does not run past the end of SRAM stays in it. -/
theorem storeSram_ok {st : EmuStore} (hst : st.Valid)
    (haddr : inRange st.addr emuSramBase emuSramSize) (sram : Vector UInt8 emuSramSize) :
    ∃ sram', storeSram st sram = .ok sram' := by
  have hsize : st.size ≤ 4 := by
    rcases hst.1 with h | h | h <;> omega
  obtain ⟨sram', hrun, -⟩ := storeSram_eq hsize (inSram_iff.1 haddr).1 (hst.2 haddr) sram
  exact ⟨sram', hrun⟩

/-- A write to a register of the controller. -/
theorem fpecWrite_step {m : EmuTarget} {h : List EmuStore} {st : EmuStore} (ht : Tracks m h)
    (hflash : ¬ inFlash st.addr) : Tracks (fpecWrite m st.addr st.value) (h ++ [st]) ∧
      ∀ a, flashPageOf a < flashPages → StoredByte h st a (flashByte m.flashPage a)
        (flashByte (fpecWrite m st.addr st.value).flashPage a) := by
  unfold fpecWrite
  split
  · next haddr =>
    have hcr : st.addr ≠ fpecCr := by rw [haddr]; decide
    have har : st.addr ≠ fpecAr := by rw [haddr]; decide
    refine ⟨⟨?_, ?_, ?_, ?_⟩, fun a _ => .same hcr hflash⟩
    · rw [writesTo_concat, if_pos haddr, List.getLastD_concat]
    · dsimp only
      rw [KeysGiven, writesTo_concat, if_pos haddr, pair_infix_concat, Bool.or_eq_true, ht.unlocked,
        Bool.and_eq_true, beq_iff_eq, beq_iff_eq, ht.keyr]
      refine or_congr_right (and_congr_left' ?_)
      cases hlast : (writesTo fpecKeyr h).getLast? with
      | none =>
        rw [List.getLastD_eq_getLast?, hlast]
        exact iff_of_false (by decide) nofun
      | some v =>
        rw [List.getLastD_eq_getLast?, hlast]
        simp
    · rw [crAfter, writesTo_concat, if_neg hcr]
      exact ht.cr
    · rw [arAfter, writesTo_concat, if_neg har]
      exact ht.ar
  next hkeyr =>
  split
  · next haddr =>
    have har : st.addr ≠ fpecAr := by rw [haddr]; decide
    have hkeys : KeysGiven (h ++ [st]) ↔ KeysGiven h := by
      rw [KeysGiven, KeysGiven, writesTo_concat, if_neg hkeyr]
    have htrack : ∀ m' : EmuTarget, m'.flashKeyr = m.flashKeyr → m'.flashCr = st.value →
        m'.flashAr = m.flashAr → m'.flashUnlocked = m.flashUnlocked → Tracks m' (h ++ [st]) := by
      intro m' hk hc ha hu
      refine ⟨?_, ?_, ?_, ?_⟩
      · rw [hk, ht.keyr, writesTo_concat, if_neg hkeyr]
      · rw [hu, ht.unlocked, hkeys]
      · rw [hc, crAfter, writesTo_concat, if_pos haddr, List.getLastD_concat]
      · rw [ha, ht.ar, arAfter, arAfter, writesTo_concat, if_neg har]
    have hprog : ∀ a b, (programmed h st a).elim b (b &&& ·) = b := by
      intro a b
      rw [programmed, if_neg fun hp => hflash hp.2.2.1]
      rfl
    split
    · next hstart =>
      refine ⟨htrack _ rfl rfl rfl rfl, fun a ha => ?_⟩
      have hkeysh := ht.unlocked.1 hstart.2
      dsimp only
      split
      · next hper =>
        rw [flashByte_flashErasePage, ht.ar]
        refine ⟨fun he => ?_, fun hne => ?_⟩
        · rcases he.2.2.2 with ⟨-, hpage⟩ | ⟨hnot, -⟩
          · rw [if_pos ((inPage_iff ha).1 hpage).symm]
          · exact absurd hnot hper
        · rw [hprog, if_neg]
          intro hpage
          exact hne ⟨hkeysh, haddr, hstart.1, .inl ⟨hper, (inPage_iff ha).2 hpage.symm⟩⟩
      · next hper =>
        have hper := Decidable.not_not.1 hper
        split
        · next hmer =>
          rw [flashByte_flashEraseAll]
          exact ⟨fun _ => rfl, fun hne => absurd ⟨hkeysh, haddr, hstart.1, .inr ⟨hper, hmer⟩⟩ hne⟩
        · next hmer =>
          refine ⟨fun he => ?_, fun _ => (hprog a _).symm⟩
          rcases he.2.2.2 with ⟨hnot, -⟩ | ⟨-, hnot⟩
          · exact absurd hper hnot
          · exact absurd hnot hmer
    · next hstart =>
      refine ⟨htrack _ rfl rfl rfl rfl, fun a _ => ⟨fun he => ?_, fun _ => (hprog a _).symm⟩⟩
      exact absurd ⟨he.2.2.1, ht.unlocked.2 he.1⟩ hstart
  next hcr =>
  split
  · next haddr =>
    refine ⟨⟨?_, ?_, ?_, ?_⟩, fun a _ => .same hcr hflash⟩
    · rw [writesTo_concat, if_neg hkeyr]
      exact ht.keyr
    · rw [KeysGiven, writesTo_concat, if_neg hkeyr]
      exact ht.unlocked
    · rw [crAfter, writesTo_concat, if_neg hcr]
      exact ht.cr
    · rw [arAfter, writesTo_concat, if_pos haddr, List.getLastD_concat]
  next har =>
  split
  · exact ⟨ht.other ⟨hkeyr, hcr, har⟩ rfl rfl rfl rfl, fun a _ => .same hcr hflash⟩
  · exact ⟨ht.other ⟨hkeyr, hcr, har⟩ rfl rfl rfl rfl, fun a _ => .same hcr hflash⟩

/-- A store keeps the controller in step with the history, and changes the flash as the history
says. -/
theorem emuTargetStore_step {m : EmuTarget} {h : List EmuStore} {st : EmuStore} (ht : Tracks m h)
    (hst : st.Valid) : ∃ m', emuTargetStore true m st = .ok m' ∧ Tracks m' (h ++ [st]) ∧
      ∀ a, flashPageOf a < flashPages →
        StoredByte h st a (flashByte m.flashPage a) (flashByte m'.flashPage a) := by
  have hsize : st.size ≤ 4 := by
    rcases hst.1 with h | h | h <;> omega
  have hregs : ∀ base size, ¬ inRange fpecKeyr base size → ¬ inRange fpecCr base size →
      ¬ inRange fpecAr base size → inRange st.addr base size →
      st.addr ≠ fpecKeyr ∧ st.addr ≠ fpecCr ∧ st.addr ≠ fpecAr := by
    intro base size hk hc ha hin
    exact ⟨fun h => hk (h ▸ hin), fun h => hc (h ▸ hin), fun h => ha (h ▸ hin)⟩
  unfold emuTargetStore
  split
  · next hflash =>
    have hother := hregs _ _ (by decide) (by decide) (by decide) hflash
    split
    · next hpg =>
      refine ⟨_, rfl, ht.other hother rfl rfl rfl rfl, fun a ha =>
        ⟨fun he => absurd he.2.1 hother.2.1,
        fun _ => ?_⟩⟩
      have hkeys := ht.unlocked.1 hpg.1
      have hcr : crAfter h &&& crPg ≠ 0 := ht.cr ▸ hpg.2
      dsimp only
      rw [flashByte_storeFlash hflash hsize m.flashPage ha, programmed]
      by_cases hin : inRange a st.addr st.size
      · rw [if_pos hin, if_pos ⟨hkeys, hcr, hflash, hin⟩]
        rfl
      · rw [if_neg hin, if_neg fun hp => hin hp.2.2.2]
        rfl
    · next hpg =>
      refine ⟨m, rfl, ht.other hother rfl rfl rfl rfl, fun a _ =>
        ⟨fun he => absurd he.2.1 hother.2.1,
        fun _ => ?_⟩⟩
      rw [programmed, if_neg]
      · rfl
      · rintro ⟨hkeys, hcr, -⟩
        exact hpg ⟨ht.unlocked.2 hkeys, ht.cr ▸ hcr⟩
  next hflash =>
  split
  · next hsram =>
    have hother := hregs _ _ (by decide) (by decide) (by decide) hsram
    obtain ⟨sram', hok⟩ := storeSram_ok hst hsram m.sram
    rw [hok]
    exact ⟨_, rfl, ht.other hother rfl rfl rfl rfl, fun a _ => .same hother.2.1 hflash⟩
  split
  · next hscs =>
    have hother := hregs _ _ (by decide) (by decide) (by decide) hscs
    obtain ⟨hpage, hkeyr, hcr, har, hun⟩ := scsWrite_flash m (st.addr - emuScsBase) st.value
    refine ⟨_, rfl, ht.other hother hkeyr hcr har hun, fun a _ => ?_⟩
    rw [hpage]
    exact .same hother.2.1 hflash
  split
  · exact ⟨_, rfl, fpecWrite_step ht hflash⟩
  · next hfpec =>
    have hother : st.addr ≠ fpecKeyr ∧ st.addr ≠ fpecCr ∧ st.addr ≠ fpecAr := by
      refine ⟨?_, ?_, ?_⟩ <;> intro h <;> exact hfpec (h ▸ by decide)
    exact ⟨m, rfl, ht.other hother rfl rfl rfl rfl, fun a _ => .same hother.2.1 hflash⟩

/-! ## Runs -/

/-- What is programmed, with one more store. -/
theorem programmedBy_concat (h stores : List EmuStore) (st : EmuStore) (a : UInt32) :
    programmedBy h (stores ++ [st]) a =
      programmedBy h stores a ++ (programmed (h ++ stores) st a).toList := by
  induction stores generalizing h with
  | nil => simp [programmedBy]
  | cons st' stores ih =>
    rw [List.cons_append, programmedBy, ih, programmedBy, List.append_assoc, List.append_assoc,
      List.singleton_append]

/-- A page that is not erased by one more store. -/
theorem NotErased.concat {h stores : List EmuStore} {st : EmuStore} {page : Nat}
    (hnot : NotErased h stores page) (he : ¬ Erases (h ++ stores) st page) :
    NotErased h (stores ++ [st]) page := by
  intro s₁ s s₂ heq
  rcases List.eq_nil_or_concat s₂ with rfl | ⟨s₂', last, rfl⟩
  · obtain ⟨rfl, hs⟩ := List.append_inj' heq rfl
    obtain rfl := List.singleton_inj.1 hs
    exact he
  · rw [List.concat_eq_append, ← List.cons_append, ← List.append_assoc] at heq
    obtain ⟨rfl, -⟩ := List.append_inj' heq rfl
    exact hnot s₁ s s₂' rfl

/-- After valid stores, the controller is in step with the history, and a byte of the flash is the
AND of what was programmed into it since its page was last erased. -/
theorem emuRun_tracks {stores : List EmuStore} (hst : ∀ st ∈ stores, st.Valid) :
    ∃ m, emuRun stores = .ok m ∧ Tracks m stores ∧ ∀ a, flashPageOf a < flashPages →
      ∃ before since start, stores = before ++ since ∧ StartsFrom before a start ∧
        NotErased before since (flashPageOf a) ∧
        flashByte m.flashPage a = (programmedBy before since a).foldl (· &&& ·) start := by
  induction stores using List.reverseRecOn with
  | nil =>
    refine ⟨_, rfl, tracks_reset, fun a _ => ⟨[], [], _, rfl, .inl ⟨rfl, rfl⟩, ?_, rfl⟩⟩
    intro s₁ st s₂ h
    simp at h
  | append_singleton stores st ih =>
    obtain ⟨m, hrun, htrack, hbytes⟩ := ih fun s hs => hst s (List.mem_append_left _ hs)
    obtain ⟨m', hstep, htrack', hstored⟩ := emuTargetStore_step htrack (hst st (by simp))
    have hrun' : emuRun (stores ++ [st]) = .ok m' := by
      unfold emuRun at hrun ⊢
      rw [Machine.run_append, hrun]
      exact Machine.run_cons hstep
    refine ⟨m', hrun', htrack', fun a ha => ?_⟩
    by_cases he : Erases stores st (flashPageOf a)
    · refine ⟨stores ++ [st], [], 0xff, by simp, .inr ⟨stores, st, rfl, he, rfl⟩, ?_, ?_⟩
      · intro s₁ s s₂ h
        simp at h
      · exact (hstored a ha).1 he
    · obtain ⟨before, since, start, rfl, hstart, hnot, hbyte⟩ := hbytes a ha
      refine ⟨before, since ++ [st], start, by simp, hstart, ?_, ?_⟩
      · exact hnot.concat he
      · rw [(hstored a ha).2 he, hbyte, programmedBy_concat, List.foldl_append]
        cases programmed (before ++ since) st a with
        | none => rfl
        | some v => rfl

/-- Keys that were given stay given. -/
theorem KeysGiven.append {h : List EmuStore} (hk : KeysGiven h) (h' : List EmuStore) :
    KeysGiven (h ++ h') := by
  unfold KeysGiven writesTo at hk ⊢
  rw [List.filter_append, List.map_append]
  exact hk.trans (List.prefix_append _ _).isInfix

/-- Nothing is programmed before the keys are given. -/
theorem programmedBy_locked {h stores : List EmuStore} (hk : ¬ KeysGiven (h ++ stores))
    (a : UInt32) :
    programmedBy h stores a = [] := by
  induction stores generalizing h with
  | nil => rfl
  | cons st stores ih =>
    have hk' : ¬ KeysGiven (h ++ [st] ++ stores) := by simpa using hk
    rw [programmedBy, ih hk', programmed, if_neg fun hp => hk (hp.1.append _)]
    rfl

/-- Programming only clears bits. -/
theorem eq_blank_of_and {b v : UInt8} (h : b &&& v = 0xff) : b = 0xff := by
  have hbv := congrArg UInt8.toBitVec h
  rw [UInt8.toBitVec_and] at hbv
  exact UInt8.toBitVec_inj.1 (BitVec.and_eq_allOnes_iff.1 hbv).1

/-- The flash of the emulated target over every sequence of stores from a reset. Without the keys no
byte changes; a byte is the AND of the values programmed into it since its page was last erased; a
page becomes all 0xFF only by a store that erases it; and a store outside of the flash and the
controller changes no byte. -/
theorem emuRun_nor (stores : List EmuStore) (hst : ∀ st ∈ stores, st.Valid) :
    ∃ m, emuRun stores = .ok m ∧
      (¬ KeysGiven stores →
        ∀ a, flashByte m.flashPage a = flashByte (emuTargetReset true).flashPage a) ∧
      (∀ a, inFlash a → ∃ before since start, stores = before ++ since ∧ StartsFrom before a start ∧
        NotErased before since (flashPageOf a) ∧
        flashByte m.flashPage a = (programmedBy before since a).foldl (· &&& ·) start) ∧
      ∀ st : EmuStore, st.Valid → ∃ m', emuRun (stores ++ [st]) = .ok m' ∧
        (∀ page < flashPages, ¬ Blank m.flashPage page → Blank m'.flashPage page →
          Erases stores st page) ∧
        (¬ inFlash st.addr → ¬ inRange st.addr emuFpecBase 0x400 →
          ∀ a, flashByte m'.flashPage a = flashByte m.flashPage a) := by
  obtain ⟨m, hrun, htrack, hbytes⟩ := emuRun_tracks hst
  refine ⟨m, hrun, fun hlocked a => ?_, fun a ha => hbytes a (flashPageOf_of_inFlash ha),
    fun st hvalid => ?_⟩
  · rcases Nat.lt_or_ge (flashPageOf a) flashPages with ha | ha
    · obtain ⟨before, since, start, rfl, hstart, -, hbyte⟩ := hbytes a ha
      rw [hbyte, programmedBy_locked hlocked]
      rcases hstart with ⟨-, rfl⟩ | ⟨before, st, rfl, he, -⟩
      · rfl
      · exact absurd ((he.1.append [st]).append since) hlocked
    · rw [flashByte_of_ge ha, flashByte_of_ge ha]
  · obtain ⟨m', hstep, -, hstored⟩ := emuTargetStore_step htrack hvalid
    refine ⟨m', ?_, fun page hpage hbefore hafter => ?_, fun hflash hfpec a => ?_⟩
    · unfold emuRun at hrun ⊢
      rw [Machine.run_append, hrun]
      exact Machine.run_cons hstep
    · by_contra hne
      refine hbefore fun a ha => ?_
      subst ha
      have hnew := (hstored a hpage).2 hne
      rw [hafter a rfl] at hnew
      cases hp : programmed stores st a with
      | none =>
        rw [hp] at hnew
        exact hnew.symm
      | some v =>
        rw [hp] at hnew
        exact eq_blank_of_and hnew.symm
    · rcases Nat.lt_or_ge (flashPageOf a) flashPages with ha | ha
      · have hcr : st.addr ≠ fpecCr := fun h => hfpec (h ▸ by decide)
        have hnew := (hstored a ha).2 fun he => hcr he.2.1
        rw [programmed, if_neg fun hp => hflash hp.2.2.1] at hnew
        exact hnew
      · rw [flashByte_of_ge ha, flashByte_of_ge ha]

/-- Stores that unlock the flash and program two bytes of its first page. -/
def programmingStores : List EmuStore :=
  [⟨fpecKeyr, fpecKey1, 4⟩, ⟨fpecKeyr, fpecKey2, 4⟩, ⟨fpecCr, crPg, 4⟩, ⟨0x08000002, 0, 2⟩]

/-- The same, up to the store that erases the page. -/
def erasingStores : List EmuStore :=
  programmingStores ++ [⟨fpecCr, crPer, 4⟩, ⟨fpecAr, 0x08000000, 4⟩]

/-- A store that erases the page AR points into. -/
def eraseStore : EmuStore := ⟨fpecCr, crPer ||| crStrt, 4⟩

/-- The two bytes are 0 after they were programmed, and 0xFF after the erase, which blanks no other
page. With the keys in the wrong order nothing is programmed. -/
theorem emuRun_nor_erased :
    (∃ m, emuRun [⟨fpecKeyr, fpecKey2, 4⟩, ⟨fpecKeyr, fpecKey1, 4⟩, ⟨fpecCr, crPg, 4⟩,
        ⟨0x08000002, 0, 4⟩] = .ok m ∧
      ∀ a, flashByte m.flashPage a = flashByte (emuTargetReset true).flashPage a) ∧
    ∃ m m', emuRun erasingStores = .ok m ∧ emuRun (erasingStores ++ [eraseStore]) = .ok m' ∧
      flashByte m.flashPage 0x08000002 = 0 ∧ flashByte m'.flashPage 0x08000002 = 0xff ∧
      ∀ page < flashPages, ¬ Blank m.flashPage page → Blank m'.flashPage page → page = 0 := by
  constructor
  · obtain ⟨m, hrun, hlocked, -⟩ := emuRun_nor [⟨fpecKeyr, fpecKey2, 4⟩, ⟨fpecKeyr, fpecKey1, 4⟩,
      ⟨fpecCr, crPg, 4⟩, ⟨0x08000002, 0, 4⟩] (by
        simp only [List.forall_mem_cons, EmuStore.Valid]
        decide)
    exact ⟨m, hrun, hlocked (by decide)⟩
  have hvalid : ∀ st ∈ erasingStores ++ [eraseStore], st.Valid := by
    simp only [erasingStores, programmingStores, eraseStore, List.cons_append, List.nil_append,
      List.forall_mem_cons, EmuStore.Valid]
    decide
  obtain ⟨m, hrun, -, hbytes, hstep⟩ := emuRun_nor erasingStores fun st hst =>
    hvalid st (List.mem_append_left _ hst)
  obtain ⟨m₁, hrun₁, hblank, -⟩ := hstep eraseStore (hvalid _ (by simp))
  obtain ⟨m', hrun', -, hbytes', -⟩ := emuRun_nor (erasingStores ++ [eraseStore]) hvalid
  obtain rfl : m₁ = m' := by
    rw [hrun₁] at hrun'
    exact Except.ok.inj hrun'
  refine ⟨m, m₁, hrun, hrun₁, ?_, ?_, fun page hpage hbefore hafter => ?_⟩
  · -- no store so far has STRT, so that the byte starts from the reset
    obtain ⟨before, since, start, hstores, hstart, -, hbyte⟩ := hbytes 0x08000002 (by decide)
    have hnone : ∀ st ∈ erasingStores, ¬ (st.addr = fpecCr ∧ st.value &&& crStrt ≠ 0) := by decide
    rcases hstart with ⟨rfl, -⟩ | ⟨h, st, rfl, he, -⟩
    · have hprog : programmedBy [] erasingStores 0x08000002 = [0] := by decide
      rw [hbyte, ← List.nil_append since, ← hstores, hprog]
      exact UInt8.and_zero
    · exact absurd ⟨he.2.1, he.2.2.1⟩ (hnone st (by rw [hstores]; simp))
  · -- the last store erases the page
    obtain ⟨before, since, start, hstores, hstart, hnot, hbyte⟩ := hbytes' 0x08000002 (by decide)
    rcases List.eq_nil_or_concat since with rfl | ⟨since, st, rfl⟩
    · rcases hstart with ⟨rfl, -⟩ | ⟨h, st, -, -, rfl⟩
      · cases hstores
      · exact hbyte
    · rw [List.concat_eq_append] at hstores hnot
      rw [← List.append_assoc] at hstores
      obtain ⟨hbefore, hst⟩ := List.append_inj' hstores rfl
      cases hst
      refine absurd ?_ (hnot since eraseStore [] rfl)
      rw [← hbefore]
      unfold Erases InPage
      decide
  · rcases (hblank page hpage hbefore hafter).2.2.2 with ⟨-, hin⟩ | ⟨hper, -⟩
    · exact ((inPage_iff hpage).1 hin).symm.trans (by decide)
    · exact absurd hper (by decide)

end Blackmagic
