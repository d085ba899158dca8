import Blackmagic.Flash.Erase
import Blackmagic.Flash.Deliver
import Blackmagic.Emu.Nor

/-!
# The flash layer over NOR flash

A driver of NOR flash clears bits when it writes, and an erase sets those of a block (`NorDriver`).
What the flash of a region and its write buffer hold together is the image that the flash is going
to have (`Holds`). An erase blanks the blocks of the image that a range meets, a write to blank
bytes stores them in it, and at the end of a session the flash has the image
(`targetFlashErase_nor`, `targetFlashWrite_nor`, `targetFlashComplete_nor`).
-/

namespace Blackmagic

open Word

/-! ## Images -/

/-- What flash holds, by address. -/
abbrev FlashImage := Nat → UInt8

/-- Bytes at their address, and nothing programmed around them. -/
def placed (base : Nat) (b : List UInt8) : FlashImage :=
  fun x => if base ≤ x then b.getD (x - base) 0xff else 0xff

/-- Bytes are stored in an image. -/
def FlashImage.store (image : FlashImage) (dest : Nat) (src : List UInt8) : FlashImage := fun x =>
  if dest ≤ x then src.getD (x - dest) (image x) else image x

/-- The blocks that a range meets are erased. -/
def FlashImage.eraseBlocks (image : FlashImage) (blocksize addr len : Nat) : FlashImage := fun x =>
  if addr / blocksize ≤ x / blocksize ∧ x / blocksize * blocksize < addr + len then 0xff
    else image x

/-- A range has nothing programmed. -/
def FlashImage.Blank (image : FlashImage) (dest len : Nat) : Prop :=
  ∀ x, dest ≤ x → x < dest + len → image x = 0xff

/-- Programming 0xFF changes nothing. -/
theorem and_blank_right (v : UInt8) : v &&& 0xff = v := UInt8.and_neg_one

/-- Data leaves what is below it blank. -/
theorem placed_of_lt {base x : Nat} (b : List UInt8) (h : x < base) : placed base b x = 0xff :=
  if_neg (by omega)

/-- Data leaves what is behind it blank. -/
theorem placed_of_ge {base x : Nat} {b : List UInt8} (h : base + b.length ≤ x) :
    placed base b x = 0xff := by
  unfold placed
  split
  · exact List.getD_eq_default _ _ (by omega)
  · rfl

/-- A byte of the data at its address. -/
theorem placed_eq {base x : Nat} {b : List UInt8} {v : UInt8} (h : base ≤ x)
    (hv : b[x - base]? = some v) :
    placed base b x = v := by
  rw [placed, if_pos h, List.getD_eq_getElem?_getD, hv, Option.getD_some]

/-- No data changes nothing. -/
theorem FlashImage.store_nil (image : FlashImage) (dest : Nat) : image.store dest [] = image := by
  funext x
  unfold store
  split <;> rfl

/-- A store changes nothing elsewhere. -/
theorem FlashImage.store_of_out {image : FlashImage} {dest x : Nat} {src : List UInt8}
    (h : ¬ (dest ≤ x ∧ x < dest + src.length)) : image.store dest src x = image x := by
  unfold store
  split
  · exact List.getD_eq_default _ _ (by omega)
  · rfl

/-- A byte of the data is found at its address. -/
theorem FlashImage.store_eq {image : FlashImage} {dest x : Nat} {src : List UInt8} {v : UInt8}
    (h : dest ≤ x) (hv : src[x - dest]? = some v) : image.store dest src x = v := by
  rw [store, if_pos h, List.getD_eq_getElem?_getD, hv, Option.getD_some]

/-- Bytes that are stored one part after the other. -/
theorem FlashImage.store_append (image : FlashImage) (dest : Nat) (src src' : List UInt8) :
    (image.store dest src).store (dest + src.length) src' = image.store dest (src ++ src') := by
  funext x
  unfold store
  rcases Nat.lt_or_ge x dest with hx | hx
  · rw [if_neg (by omega), if_neg (by omega), if_neg (by omega)]
  · rw [if_pos hx, if_pos hx]
    rcases Nat.lt_or_ge (x - dest) src.length with hlt | hge
    · rw [if_neg (by omega), List.getD_append _ _ _ _ hlt, List.getD_eq_getElem _ _ hlt]
    · rw [if_pos (by omega), List.getD_append_right _ _ _ _ hge, List.getD_eq_default src _ hge,
        Nat.sub_add_eq]

/-- Storing leaves the rest of a blank range blank. -/
theorem FlashImage.Blank.store {image : FlashImage} {dest len dest' : Nat} {src : List UInt8}
    (h : image.Blank dest len) (hout : dest' + src.length ≤ dest ∨ dest + len ≤ dest') :
    (image.store dest' src).Blank dest len := by
  intro x hle hlt
  rw [store_of_out (by omega)]
  exact h x hle hlt

/-- The erase of a range is the erase of its first block and of the rest. -/
theorem FlashImage.eraseBlocks_step (image : FlashImage) {bs addr len : Nat} (hbs : 0 < bs)
    (hlen : 0 < len) :
    (image.eraseBlocks bs (addr - addr % bs) bs).eraseBlocks bs (addr - addr % bs + bs)
        (len - (addr - addr % bs + bs - addr)) = image.eraseBlocks bs addr len := by
  funext x
  have hstart : addr - addr % bs = addr / bs * bs := by
    rw [Nat.mul_comm]
    have := Nat.div_add_mod addr bs
    omega
  have hfirst : addr / bs * bs / bs = addr / bs := Nat.mul_div_cancel _ hbs
  have hnext : (addr / bs * bs + bs) / bs = addr / bs + 1 := by
    rw [Nat.add_div_right _ hbs, hfirst]
  have hmod := Nat.mod_lt addr hbs
  unfold eraseBlocks
  rw [hstart, hfirst, hnext]
  have hle : addr / bs ≤ x / bs → addr / bs * bs ≤ x / bs * bs := Nat.mul_le_mul_right _
  have hsucc : addr / bs + 1 ≤ x / bs → addr / bs * bs + bs ≤ x / bs * bs := by
    intro h
    have := Nat.mul_le_mul_right bs h
    rwa [Nat.succ_mul] at this
  rcases Nat.lt_trichotomy (x / bs) (addr / bs) with hlt | heq | hgt
  · rw [if_neg (by omega), if_neg (by omega), if_neg (by omega)]
  · rw [if_neg (by omega), if_pos (by rw [heq]; omega), if_pos (by rw [heq]; omega)]
  · have := hsucc hgt
    by_cases hmeets : x / bs * bs < addr + len
    · rw [if_pos (by omega), if_pos (by omega)]
    · rw [if_neg (by omega), if_neg (by omega), if_neg (by omega)]

/-- No block is erased. -/
theorem FlashImage.eraseBlocks_zero (image : FlashImage) {bs addr : Nat} (h : bs ∣ addr) :
    image.eraseBlocks bs addr 0 = image := by
  funext x
  obtain ⟨k, rfl⟩ := h
  refine if_neg fun hx => ?_
  rcases Nat.eq_zero_or_pos bs with rfl | hpos
  · omega
  · rw [Nat.mul_div_cancel_left _ hpos] at hx
    have := Nat.mul_le_mul_right bs hx.1
    rw [Nat.mul_comm k] at this
    omega

/-- A range is blank behind its erase. -/
theorem FlashImage.blank_eraseBlocks (image : FlashImage) {bs : Nat} (addr len : Nat) :
    (image.eraseBlocks bs addr len).Blank addr len := fun x hle hlt =>
  if_pos ⟨Nat.div_le_div_right hle, Nat.lt_of_le_of_lt (Nat.div_mul_le_self x bs) hlt⟩

/-- Bytes that are placed on both sides of a cut. -/
theorem placed_append (base : Nat) (b b' : List UInt8) (x : Nat) :
    placed base b x &&& placed (base + b.length) b' x = placed base (b ++ b') x := by
  rcases Nat.lt_or_ge x (base + b.length) with hlt | hge
  · rw [placed_of_lt b' hlt, and_blank_right]
    unfold placed
    split
    · rw [List.getD_append _ _ _ _ (by omega)]
    · rfl
  · rw [placed_of_ge hge, and_blank, placed, placed, if_pos hge, if_pos (by omega),
      List.getD_append_right _ _ _ _ (by omega), Nat.sub_add_eq]

/-- A blank range takes what is copied into a buffer over it. -/
theorem and_placed_overwrite {image : FlashImage} {m : UInt8} {base dest : Nat}
    {b chunk : List UInt8} {x : Nat} (hold : m &&& placed base b x = image x) (hbase : base ≤ dest)
    (hend : dest - base + chunk.length ≤ b.length) (hblank : image.Blank dest chunk.length) :
    m &&& placed base (Bytes.overwrite b (dest - base) chunk) x = image.store dest chunk x := by
  by_cases hx : dest ≤ x ∧ x < dest + chunk.length
  · have hm : m = 0xff := by
      have hff := hold.trans (hblank x hx.1 hx.2)
      exact eq_blank_of_and hff
    have hlt : x - dest < chunk.length := by omega
    have hget := List.getElem?_eq_getElem hlt
    have hnew : (Bytes.overwrite b (dest - base) chunk)[x - base]? = some chunk[x - dest] := by
      rw [Bytes.getElem?_overwrite hend, if_pos (by omega), show x - base - (dest - base) =
        x - dest by omega, hget]
    rw [placed_eq (by omega) hnew, FlashImage.store_eq hx.1 hget, hm, and_blank]
  · rw [FlashImage.store_of_out hx, ← hold]
    congr 1
    unfold placed
    split
    · rw [List.getD_eq_getElem?_getD, List.getD_eq_getElem?_getD, Bytes.getElem?_overwrite hend,
        if_neg (by omega)]
    · rfl

/-! ## Drivers of NOR flash -/

/-- A region of NOR flash: whole blocks, in which the pages of the write buffer are whole. -/
structure FlashGeometry.Nor (g : FlashGeometry) : Prop extends g.InBlocks, g.Wf where
  erased : g.erased = 0xff
  start_page : g.writebufsize ∣ g.start
  length_page : g.writebufsize ∣ g.length

/-- A driver of NOR flash. An erase opens the flash for the writes behind it. -/
structure NorDriver {δ : Type} (drv : FlashDriver δ) (g : FlashGeometry) (mem : δ → FlashImage)
    (usable opened : δ → Prop) : Prop where
  enterFlashMode : drv.enterFlashMode = none
  exitFlashMode : drv.exitFlashMode = none
  prepare : drv.prepare = none
  done : drv.done = none
  malloc : ∀ size d, drv.malloc size d = (true, d)
  usable_of_opened : ∀ d, opened d → usable d
  reset : ∀ d, usable d → usable (drv.reset d) ∧ mem (drv.reset d) = mem d
  reset_opened : ∀ d, opened d → opened (drv.reset d)
  erase : ∀ (f : TargetFlash) a d, f.toFlashGeometry = g → g.IsBlock a → usable d →
    ∃ d', drv.erase f a g.blocksize d = (true, d') ∧ opened d' ∧
      mem d' = (mem d).eraseBlocks g.blocksize a g.blocksize
  write : ∀ (f : TargetFlash) a data d, f.toFlashGeometry = g → g.writesize ∣ a → g.start ≤ a →
    a + g.writesize ≤ g.start + g.length → data.length = g.writesize → opened d →
    ∃ d', drv.write f a data d = (true, d') ∧ opened d' ∧ ∀ x,
      mem d' x = mem d x &&& placed a data x

/-- A region of a session: what its buffer has outside of its span is blank, and what is pending is
in a page of the region. -/
structure NorRegion (g : FlashGeometry) (f : TargetFlash) : Prop where
  geometry : f.toFlashGeometry = g
  inv : f.BufInv
  noErase : f.operation ≠ .erase
  blank : ∀ b, f.buf = some b → f.bufAddrBase ≠ maxU32 → ∀ i < b.length,
    ¬ (f.bufAddrLow ≤ f.bufAddrBase + i ∧ f.bufAddrBase + i < f.bufAddrHigh) → b[i]? = some 0xff
  inside : f.Pending → g.start ≤ f.bufAddrBase ∧ f.bufAddrBase + g.writebufsize ≤ g.start + g.length

/-- What the buffer of a region is going to write. -/
def TargetFlash.buffered (f : TargetFlash) : FlashImage :=
  if f.Pending then placed f.bufAddrBase (f.buf.getD []) else fun _ => 0xff

/-- The flash has an image, when what is buffered is written. -/
def Holds {δ : Type} (mem : δ → FlashImage) (image : FlashImage) (f : TargetFlash) (d : δ) : Prop :=
  ∀ x, mem d x &&& f.buffered x = image x

section
variable {δ : Type} {drv : FlashDriver δ} {g : FlashGeometry} {mem : δ → FlashImage}
  {usable opened : δ → Prop}
  {f : TargetFlash} {d : δ} {image : FlashImage}

/-- Without anything pending the flash has the image. -/
theorem Holds.of_not_pending (h : Holds mem image f d) (hp : ¬ f.Pending) : mem d = image := by
  funext x
  rw [← h x, TargetFlash.buffered, if_neg hp, and_blank_right]

/-- Without anything pending the flash is the image. -/
theorem holds_of_not_pending (hp : ¬ f.Pending) (h : mem d = image) : Holds mem image f d := by
  intro x
  rw [TargetFlash.buffered, if_neg hp, and_blank_right, h]

/-- What a region has pending is what the units of its flush write. -/
theorem NorRegion.buffered_units (h : NorRegion g f) (hp : f.Pending) {b : List UInt8}
    (hb : f.buf = some b) (x : Nat) : f.buffered x = placed f.unitLow
      ((b.drop (f.unitLow - f.bufAddrBase)).take (f.unitCount * f.writesize)) x := by
  have hbase : f.bufAddrBase ≠ maxU32 := hp.2.1
  obtain ⟨h1, h2, h3, h4⟩ := h.inv.units_span hp
  have hlen := h.inv.size b hb
  have hlow : f.bufAddrLow < f.bufAddrHigh := hp.2.2.2
  rw [TargetFlash.buffered, if_pos hp, hb, Option.getD_some]
  by_cases hx : f.unitLow ≤ x ∧ x < f.unitLow + f.unitCount * f.writesize
  · have hget :
        ((b.drop (f.unitLow - f.bufAddrBase)).take (f.unitCount * f.writesize))[x - f.unitLow]? =
        b[x - f.bufAddrBase]? := by
      rw [List.getElem?_take_of_lt (by omega), List.getElem?_drop]
      congr 1
      omega
    have hin := List.getElem?_eq_getElem (show x - f.bufAddrBase < b.length by omega)
    rw [placed_eq (by omega) hin, placed_eq hx.1 (hget.trans hin)]
  · have hout : placed f.unitLow
        ((b.drop (f.unitLow - f.bufAddrBase)).take (f.unitCount * f.writesize)) x =
        0xff := by
      rcases Nat.lt_or_ge x f.unitLow with hlt | hge
      · exact placed_of_lt _ hlt
      · refine placed_of_ge ?_
        rw [List.length_take, List.length_drop]
        omega
    rw [hout]
    rcases Nat.lt_or_ge x f.bufAddrBase with hlt | hge
    · exact placed_of_lt _ hlt
    rcases Nat.lt_or_ge x (f.bufAddrBase + b.length) with hlt | hge'
    · exact placed_eq hge (h.blank b hb hbase _ (by omega) (by omega))
    · exact placed_of_ge hge'

/-- Writing units one after the other writes what they hold together. -/
theorem writeUnits_nor (hdrv : NorDriver drv g mem usable opened) (hf : f.toFlashGeometry = g)
    {b : List UInt8} :
    ∀ (count addr index : Nat) {d : δ}, g.writesize ∣ addr → g.start ≤ addr →
      addr + count * g.writesize ≤ g.start + g.length → index + count * g.writesize ≤ b.length →
        opened d →
      ∃ d', writeUnits drv f (unitsFrom b g.writesize addr index count) true d = (true, d') ∧
        opened d' ∧
        ∀ x, mem d' x = mem d x &&& placed addr ((b.drop index).take (count * g.writesize)) x := by
  intro count
  induction count with
  | zero =>
    intro addr index d _ _ _ _ hopen
    refine ⟨d, rfl, hopen, fun x => ?_⟩
    rw [Nat.zero_mul, List.take_zero]
    rcases Nat.lt_or_ge x addr with hlt | hge
    · rw [placed_of_lt _ hlt, and_blank_right]
    · rw [placed_of_ge (by simpa using hge), and_blank_right]
  | succ count ih =>
    intro addr index d hdvd hstart hend hlen hopen
    rw [Nat.succ_mul] at hend hlen
    have hunit : ((b.drop index).take g.writesize).length = g.writesize := by
      rw [List.length_take, List.length_drop]
      omega
    obtain ⟨d₁, hwrite, hopen₁, hmem₁⟩ :=
      hdrv.write f addr _ d hf hdvd hstart (by omega) hunit hopen
    obtain ⟨d', hrest, hopen', hmem'⟩ := ih (addr + g.writesize) (index + g.writesize)
      (Nat.dvd_add hdvd (Nat.dvd_refl _)) (by omega) (by omega) (by omega) hopen₁
    refine ⟨d', ?_, hopen', fun x => ?_⟩
    · rw [unitsFrom, writeUnits, hwrite]
      exact hrest
    · have happ := placed_append addr ((b.drop index).take g.writesize)
        ((b.drop (index + g.writesize)).take (count * g.writesize)) x
      rw [hunit] at happ
      rw [hmem', hmem₁, UInt8.and_assoc, happ, Nat.succ_mul, Nat.add_comm (count * g.writesize),
        List.take_add, List.drop_drop]

/-! ## Buffered writes -/

/-- A chunk inside of the page of the buffer is stored in the image. -/
theorem flashBufferChunk_nor (hg : g.Nor) (h : NorRegion g f) (hbuf : f.buf.isSome)
    (hold : Holds mem image f d) {dest : Nat} {chunk : List UInt8}
    (hbase : f.bufAddrBase = dest - dest % g.writebufsize) (hne : chunk ≠ [])
    (hpage : dest % g.writebufsize + chunk.length ≤ g.writebufsize) (hstart : g.start ≤ dest)
    (hend : dest + chunk.length ≤ g.start + g.length) (hblank : image.Blank dest chunk.length) :
    ∃ f', flashBufferChunk f dest chunk = .ok f' ∧ NorRegion g f' ∧ f'.Pending ∧
      Holds mem (image.store dest chunk) f' d := by
  obtain ⟨b, hb⟩ := Option.isSome_iff_exists.1 hbuf
  have hend32 := hg.end_lt
  have hpos : 0 < chunk.length := List.length_pos_iff.2 hne
  have hmod := Nat.mod_le dest g.writebufsize
  have hsize := h.inv.wf.writebufsize_ge
  have hlen := h.inv.size b hb
  have hpos' : 0 < g.writebufsize := hg.toWf.writebufsize_pos
  have htop := hg.toWf.writebufsize_pow2.block_le (show dest < 2 ^ 32 by omega)
  have hchunk := flashBufferChunk_spec h.inv hb dest chunk (by omega)
    (by rw [h.geometry]; exact hbase)
    (by rw [h.geometry]; exact hpage) hne
  rw [h.geometry] at hsize hlen hchunk
  obtain ⟨f', hrun, hinv, hf'⟩ := hchunk
  rw [add32_of_lt (by omega)] at hf'
  have hgeom : f'.toFlashGeometry = g := by rw [hf']
  have hstartPage : g.start ≤ dest - dest % g.writebufsize := le_unit_of_dvd hg.start_page hstart
  have hendPage : dest - dest % g.writebufsize + g.writebufsize ≤ g.start + g.length :=
    unit_end_le_of_dvd (Nat.dvd_add hg.start_page hg.length_page) (by omega)
  have hoff : dest - (dest - dest % g.writebufsize) = dest % g.writebufsize := by omega
  have hnotMax : f.bufAddrBase ≠ maxU32 := by
    rw [hbase, maxU32]
    omega
  have hp' : f'.Pending := by
    rw [hf']
    refine ⟨rfl, hnotMax, ?_, ?_⟩
    · change min f.bufAddrLow dest ≠ maxU32
      unfold maxU32
      omega
    · change min f.bufAddrLow dest < max f.bufAddrHigh (dest + chunk.length)
      omega
  refine ⟨f', hrun, ⟨hgeom, hinv, by rw [hf']; exact h.noErase, ?_, fun _ => ?_⟩, hp', fun x => ?_⟩
  · intro b' hb' _ i hi hspan
    rw [hf'] at hb' hspan
    obtain rfl := Option.some.inj hb'
    rw [Bytes.length_overwrite (by omega)] at hi
    change ¬ (min f.bufAddrLow dest ≤ f.bufAddrBase + i ∧
      f.bufAddrBase + i < max f.bufAddrHigh (dest + chunk.length)) at hspan
    rw [Bytes.getElem?_overwrite (by omega), if_neg (by omega)]
    exact h.blank b hb hnotMax i hi (by omega)
  · rw [hf']
    change g.start ≤ f.bufAddrBase ∧ f.bufAddrBase + g.writebufsize ≤ g.start + g.length
    omega
  · -- with nothing pending the buffer is blank
    have hblankBuf : f.buffered x = placed f.bufAddrBase b x := by
      unfold TargetFlash.buffered
      split
      · rw [hb, Option.getD_some]
      · next hp =>
        obtain ⟨hhigh, -, -⟩ := h.inv.empty_of_not_pending hbuf hp
        rcases Nat.lt_or_ge x f.bufAddrBase with hlt | hge
        · exact (placed_of_lt _ hlt).symm
        rcases Nat.lt_or_ge x (f.bufAddrBase + b.length) with hlt | hge'
        · exact (placed_eq hge (h.blank b hb hnotMax _ (by omega) (by omega))).symm
        · exact (placed_of_ge hge').symm
    have hbuffered : f'.buffered x =
        placed f.bufAddrBase (Bytes.overwrite b (dest % g.writebufsize) chunk) x := by
      rw [TargetFlash.buffered, if_pos hp', hf']
      rfl
    have hx := hold x
    rw [hblankBuf, hbase] at hx
    have hnew := and_placed_overwrite hx (Nat.sub_le _ _)
      (show dest - (dest - dest % g.writebufsize) +
      chunk.length ≤ b.length by omega) hblank
    rw [hoff] at hnew
    rw [hbuffered, hbase, hnew]

section
variable (hdrv : NorDriver drv g mem usable opened)
include hdrv

/-- A flush writes what is pending: the flash has the image. -/
theorem flashBufferedFlush_nor (h : NorRegion g f) (hopen : opened d) (hold : Holds mem image f d) :
    ∃ f' d', flashBufferedFlush drv f d = .ok (true, f', d') ∧ NorRegion g f' ∧ ¬ f'.Pending ∧
      f'.buf = f.buf ∧ (f.Pending → f'.operation = .write) ∧ opened d' ∧ mem d' = image := by
  rcases flashBufferedFlush_cases drv h.inv h.noErase d with
    ⟨hp, heq⟩ | ⟨-, -, d', hc, -⟩ | ⟨hp, d', r, d'', hd', hunits, heq⟩
  · exact ⟨f, d, heq, h, hp, rfl, fun hp' => absurd hp' hp, hopen, hold.of_not_pending hp⟩
  · rw [FlashDriver.callPrepare, hdrv.prepare] at hc
    cases hc
  · obtain ⟨b, hb⟩ := Option.isSome_iff_exists.1 hp.1
    have hsame : d' = d := by
      rcases hd' with ⟨-, hd'⟩ | ⟨-, hc⟩
      · exact hd'
      · rw [FlashDriver.callPrepare, hdrv.prepare] at hc
        exact (Prod.mk.inj hc).2.symm
    have hbase : f.bufAddrBase ≠ maxU32 := hp.2.1
    obtain ⟨hpage, -, -, -, -⟩ := h.inv.pending hp
    obtain ⟨h1, h2, h3, h4⟩ := h.inv.units_span hp
    obtain ⟨hstart, hend⟩ := h.inside hp
    have hlen := h.inv.size b hb
    have hwrite : f.writesize ∣ f.unitLow := dvd_unit _ _
    rw [h.geometry] at hlen hwrite h3
    subst hsame
    obtain ⟨d₁, hrun, hopen₁, hmem₁⟩ := @writeUnits_nor _ drv g mem usable opened
      { f with operation := FlashOperation.write } hdrv h.geometry b f.unitCount f.unitLow
      (f.unitLow - f.bufAddrBase) d' hwrite (by omega) (by omega) (by omega) hopen
    have hpending : f.pendingUnits = unitsFrom b g.writesize f.unitLow (f.unitLow - f.bufAddrBase)
        f.unitCount := by
      rw [TargetFlash.pendingUnits, hb, Option.getD_some, h.geometry]
    rw [hpending, hrun] at hunits
    obtain ⟨rfl, rfl⟩ := Prod.mk.inj hunits
    have hnot : ¬ { f with operation := FlashOperation.write }.clearSpan.Pending :=
      fun hp => hp.2.1 rfl
    refine ⟨_, d₁, heq,
      ⟨h.geometry, (h.inv.setOperation .write).clearSpan,
      by rintro ⟨⟩, ?_, fun hp => absurd hp hnot⟩,
      hnot, rfl, fun _ => rfl, hopen₁, ?_⟩
    · exact fun b _ hne => absurd rfl hne
    · funext x
      have hbuf := h.buffered_units hp hb x
      rw [h.geometry] at hbuf
      rw [hmem₁, ← hbuf, hold x]

variable (hg : g.Nor)
include hg

/-- Before a chunk the buffer is based at its page, and nothing of the image is lost. -/
theorem flashBufferRebase_nor (h : NorRegion g f) (hbuf : f.buf.isSome) (hopen : opened d)
    (hold : Holds mem image f d) {dest : Nat} (hdest : dest < 2 ^ 32) :
    ∃ f' d', flashBufferRebase drv f (alignDown dest f.writebufsize) d = .ok (true, f', d') ∧
      NorRegion g f' ∧
      f'.buf.isSome ∧ f'.bufAddrBase = dest - dest % g.writebufsize ∧ opened d' ∧
        Holds mem image f' d' := by
  have halign := h.inv.wf.writebufsize_pow2.alignDown hdest
  rw [h.geometry] at halign ⊢
  unfold flashBufferRebase
  rw [halign]
  by_cases hbase : dest - dest % g.writebufsize = f.bufAddrBase
  · rw [if_neg (not_not.2 hbase)]
    exact ⟨f, d, rfl, h, hbuf, hbase.symm, hopen, hold⟩
  rw [if_pos hbase]
  obtain ⟨f₁, d₁, hflush, h₁, hp₁, hbuf₁, -, hopen₁, hmem₁⟩ :=
    flashBufferedFlush_nor hdrv h hopen hold
  rw [← hbuf₁] at hbuf
  obtain ⟨b, hb⟩ := Option.isSome_iff_exists.1 hbuf
  obtain ⟨hhigh, -, -⟩ := h₁.inv.empty_of_not_pending hbuf hp₁
  have hfill : { f₁ with bufAddrBase := dest - dest % g.writebufsize }.bufFill = .ok { f₁ with
      bufAddrBase := dest - dest % g.writebufsize
      buf := some (List.replicate f₁.writebufsize f₁.erased) } := by
    simp only [TargetFlash.bufFill, hb]
  have herased : f₁.erased = 0xff := by
    rw [h₁.geometry]
    exact hg.erased
  have hnot : ¬ { f₁ with
      bufAddrBase := dest - dest % g.writebufsize
      buf := some (List.replicate f₁.writebufsize f₁.erased) : TargetFlash }.Pending := by
    intro hp
    have := hp.2.2.2
    simp only [hhigh] at this
    omega
  refine ⟨{ f₁ with
      bufAddrBase := dest - dest % g.writebufsize
      buf := some (List.replicate f₁.writebufsize f₁.erased) }, d₁, ?_,
    ⟨h₁.geometry, h₁.inv.fill hbuf hp₁ _, h₁.noErase, ?_, fun hp => absurd hp hnot⟩, rfl, rfl,
      hopen₁,
    holds_of_not_pending hnot hmem₁⟩
  · rw [hflush]
    simp only [bind, Except.bind, hfill]
  · rintro b' hb' - i hi -
    obtain rfl := Option.some.inj hb'
    rw [List.length_replicate] at hi
    rw [List.getElem?_replicate_of_lt hi, herased]

/-- A buffered write to a blank range of the region stores its bytes in the image. -/
theorem bufferedWriteLoop_nor :
    ∀ (fuel : Nat) {f : TargetFlash} {d : δ} {image : FlashImage} (dest : Nat) (src : List UInt8),
      src.length ≤ fuel → NorRegion g f → f.buf.isSome → opened d → Holds mem image f d →
        g.start ≤ dest →
      dest + src.length ≤ g.start + g.length → image.Blank dest src.length →
      ∃ f' d', bufferedWriteLoop drv fuel f dest src true d = .ok (true, f', d') ∧ NorRegion g f' ∧
        (f.Pending ∨ src ≠ [] → f'.Pending) ∧ opened d' ∧
          Holds mem (image.store dest src) f' d' := by
  intro fuel
  induction fuel with
  | zero =>
    intro f d image dest src hfuel h hbuf hopen hold _ _ _
    obtain rfl := List.length_eq_zero_iff.1 (Nat.le_zero.1 hfuel)
    exact ⟨f, d, rfl, h, fun hp => hp.resolve_right fun hne => hne rfl, hopen,
      by rwa [FlashImage.store_nil]⟩
  | succ fuel ih =>
    intro f d image dest src hfuel h hbuf hopen hold hstart hend hblank
    rcases eq_or_ne src [] with rfl | hne
    · exact ⟨f, d, rfl, h, fun hp => hp.resolve_right fun hne => hne rfl, hopen,
        by rwa [FlashImage.store_nil]⟩
    have hend32 := hg.end_lt
    have hpos : 0 < src.length := List.length_pos_iff.2 hne
    have hwbs : 0 < g.writebufsize := hg.toWf.writebufsize_pos
    have hmod := Nat.mod_lt dest hwbs
    have hlocal : f.localLen dest src.length = min (g.writebufsize - dest % g.writebufsize)
        src.length := by
      rw [TargetFlash.localLen, h.geometry]
    have hstep : ∀ {f₁ f₂ : TargetFlash} {d₁ : δ}, f₁.toFlashGeometry = f.toFlashGeometry →
        flashBufferRebase drv f (alignDown dest f.writebufsize) d = .ok (true, f₁, d₁) →
        flashBufferChunk f₁ dest (src.take (f.localLen dest src.length)) = .ok f₂ →
        bufferedWriteLoop drv (fuel + 1) f dest src true d =
          bufferedWriteLoop drv fuel f₂ (add32 dest (f.localLen dest src.length))
            (src.drop (f.localLen dest src.length)) true d₁ :=
      fun hgeom => bufferedWriteLoop_step drv (by rw [h.geometry]; exact hwbs) hne hgeom
    generalize f.localLen dest src.length = n at hlocal hstep
    have htake : (src.take n).length = n := by
      rw [List.length_take]
      omega
    obtain ⟨f₁, d₁, hrebase, h₁, hbuf₁, hbase₁, hopen₁, hold₁⟩ :=
      flashBufferRebase_nor hdrv hg h hbuf hopen hold (show dest < 2 ^ 32 by omega)
    obtain ⟨f₂, hchunk, h₂, hp₂, hold₂⟩ :=
      @flashBufferChunk_nor _ g mem f₁ d₁ image hg h₁ hbuf₁ hold₁ dest
      (src.take n) hbase₁ (by rw [← List.length_pos_iff]; omega) (by omega) hstart (by omega)
      (fun x hle hlt => hblank x hle (by omega))
    have hadd : add32 dest n = dest + n := add32_of_lt (by omega)
    obtain ⟨f', d', hloop, h', hp', hopen', hold'⟩ := ih (dest + n) (src.drop n)
      (by rw [List.length_drop]; omega) h₂ hp₂.1 hopen₁ hold₂ (by omega)
        (by rw [List.length_drop]; omega)
      (by
        rw [List.length_drop]
        exact FlashImage.Blank.store (fun x hle hlt => hblank x (by omega) (by omega))
          (.inl (by omega)))
    have happ := image.store_append dest (src.take n) (src.drop n)
    rw [htake, List.take_append_drop] at happ
    rw [happ] at hold'
    refine ⟨f', d', ?_, h', fun _ => hp' (.inl hp₂), hopen', hold'⟩
    rw [hstep (h₁.geometry.trans h.geometry.symm) hrebase hchunk, hadd, hloop]

end

/-! ## Sessions -/

/-- A session on a target with one region of NOR flash that is going to have an image. -/
structure NorSession (g : FlashGeometry) (mem : δ → FlashImage) (opened : δ → Prop)
    (image : FlashImage) (t : Target δ) : Prop where
  flashMode : t.flashMode = true
  region : ∃ f, t.flash = [f] ∧ NorRegion g f ∧ (f.buf.isSome → f.Pending) ∧ Holds mem image f t.dev
  opened : opened t.dev

/-- A target with one region of NOR flash, between the sessions. -/
structure NorIdle (g : FlashGeometry) (usable : δ → Prop) (t : Target δ) : Prop where
  region : ∃ f, t.flash = [f] ∧ f.toFlashGeometry = g ∧ f.operation = .none ∧ f.buf = none
  usable : usable t.dev

/-- The only region has every address that it contains. -/
theorem targetFlashForAddr_single {t : Target δ} (h : t.flash = [f]) {addr : Nat}
    (hf : f.Contains addr) :
    targetFlashForAddr t addr = some 0 := by
  rw [targetFlashForAddr, h, List.findIdx?_cons, if_pos (decide_eq_true hf)]

/-- A call on the only region. -/
theorem Target.onFlash_single {t : Target δ} (h : t.flash = [f])
    (op : TargetFlash → δ → Bool × TargetFlash × δ) :
    t.onFlash 0 op =
      ((op f t.dev).1, { t with flash := [(op f t.dev).2.1], dev := (op f t.dev).2.2 }) := by
  rw [Target.onFlash, h]
  rfl

section
variable (hdrv : NorDriver drv g mem usable opened)
include hdrv

/-- A region is left idle, and what it wrote through the buffer is freed. -/
theorem flashDone_nor (f : TargetFlash) (d : δ) : ∃ f', flashDone drv f d = (true, f', d) ∧
    f'.toFlashGeometry = f.toFlashGeometry ∧ f'.operation = .none ∧
      (f.operation ≠ .none ∨ f.buf = none → f'.buf = none) := by
  unfold flashDone FlashDriver.callDone
  rw [hdrv.done]
  split
  · next hop => exact ⟨f, rfl, rfl, hop, fun h => h.resolve_left fun hne => hne hop⟩
  · exact ⟨_, rfl, rfl, rfl, fun _ => rfl⟩

/-- Opening a region for an erase sets the operation. -/
theorem flashPrepare_erase_nor (hop : f.operation ≠ .write) (d : δ) :
    flashPrepare drv f .erase d = (true, { f with operation := .erase }, d) := by
  unfold flashPrepare FlashDriver.callPrepare
  rw [hdrv.prepare]
  cases hf : f.operation with
  | none => rfl
  | erase => rw [if_pos rfl, ← hf]
  | write => exact absurd hf hop

/-- Flash mode is entered by a reset that keeps the flash. -/
theorem targetEnterFlashMode_nor {t : Target δ} (h : usable t.dev) :
    ∃ t', targetEnterFlashMode drv t = (true, t') ∧ t'.flashMode = true ∧ t'.flash = t.flash ∧
      usable t'.dev ∧ (opened t.dev → opened t'.dev) ∧ mem t'.dev = mem t.dev := by
  unfold targetEnterFlashMode
  rw [hdrv.enterFlashMode]
  split
  · next hmode => exact ⟨t, rfl, hmode, rfl, h, id, rfl⟩
  · obtain ⟨husable, hmem⟩ := hdrv.reset t.dev h
    exact ⟨_, rfl, rfl, rfl, husable, hdrv.reset_opened t.dev, hmem⟩

/-- Flash mode is left the same way. -/
theorem targetExitFlashMode_nor {t : Target δ} (h : usable t.dev) :
    (targetExitFlashMode drv t).2.flash = t.flash ∧ usable (targetExitFlashMode drv t).2.dev ∧
      mem (targetExitFlashMode drv t).2.dev = mem t.dev := by
  unfold targetExitFlashMode
  rw [hdrv.exitFlashMode]
  split
  · exact ⟨rfl, h, rfl⟩
  · exact ⟨rfl, hdrv.reset t.dev h⟩

/-- A buffer is there for a write, and the flash is going to have the same image. -/
theorem flashBufferEnsure_nor (h : NorRegion g f) (hold : Holds mem image f d) :
    ∃ f', flashBufferEnsure drv f d = (true, f', d) ∧ NorRegion g f' ∧ f'.buf.isSome ∧
      Holds mem image f' d := by
  unfold flashBufferEnsure
  split
  · next hb => exact ⟨f, rfl, h, hb, hold⟩
  · next hb =>
    have hp : ¬ f.Pending := fun hp => hb hp.1
    have hensure := flashBufferEnsure_spec drv h.inv d
    unfold flashBufferEnsure at hensure
    rw [if_neg hb] at hensure
    unfold flashBufferAlloc at hensure ⊢
    rw [hdrv.malloc] at hensure ⊢
    have hp' : ¬ { f with buf := some (List.replicate f.writebufsize 0) }.clearSpan.Pending :=
      fun hp => hp.2.1 rfl
    exact ⟨_, rfl,
      ⟨h.geometry, hensure.1, h.noErase, fun _ _ hne => absurd rfl hne, fun hp => absurd hp hp'⟩,
      rfl,
      holds_of_not_pending hp' (hold.of_not_pending hp)⟩

/-- At its end a session has written everything: the flash has the image. -/
theorem targetFlashComplete_nor {t : Target δ} (h : NorSession g mem opened image t) :
    ∃ t', targetFlashComplete drv t = .ok (true, t') ∧ NorIdle g usable t' ∧
      mem t'.dev = image := by
  obtain ⟨f, hflash, hregion, hbuf, hold⟩ := h.region
  obtain ⟨f₁, d₁, hflush, hregion₁, -, hbuf₁, hop₁, hopen₁, hmem₁⟩ :=
    flashBufferedFlush_nor hdrv hregion h.opened hold
  obtain ⟨f', hdone, hgeom', hop', hbuf'⟩ := flashDone_nor hdrv f₁ d₁
  have hfree : f'.buf = none := by
    refine hbuf' ?_
    cases hb : f₁.buf with
    | none => exact .inr rfl
    | some b =>
      refine .inl ?_
      rw [hop₁ (hbuf (by rw [← hbuf₁, hb]; rfl))]
      exact nofun
  obtain ⟨hflash', husable', hmem'⟩ := @targetExitFlashMode_nor _ drv g mem usable opened hdrv
    { t with flash := [f'], dev := d₁ } (hdrv.usable_of_opened _ hopen₁)
  refine ⟨_, ?_, ⟨⟨f', hflash', hgeom'.trans hregion₁.geometry, hop', hfree⟩, husable'⟩,
    hmem'.trans hmem₁⟩
  rw [targetFlashComplete, if_pos h.flashMode, hflash]
  simp only [completeLoop, flashFlushDone, hflush, hdone, bind, Except.bind, Bool.and_self]

variable (hg : g.Nor)
include hg

/-- The walk of an erase blanks the blocks that are left. -/
theorem eraseLoop_nor :
    ∀ (fuel : Nat) {t : Target δ} {f : TargetFlash} {addr len : Nat}, len ≤ fuel → t.flash = [f] →
      f.toFlashGeometry = g → f.operation ≠ .write → f.buf = none → usable t.dev → g.start ≤ addr →
      addr + len ≤ g.start + g.length → (len = 0 → opened t.dev ∧ g.blocksize ∣ addr) →
      ∃ t', eraseLoop drv fuel t 0 addr len true = (true, t') ∧ t'.flashMode = t.flashMode ∧
        (∃ f', t'.flash = [f'] ∧ f'.toFlashGeometry = g ∧ f'.operation = .none ∧ f'.buf = none) ∧
        opened t'.dev ∧ mem t'.dev = (mem t.dev).eraseBlocks g.blocksize addr len := by
  intro fuel
  have hstop : ∀ {fuel : Nat} {t : Target δ} {f : TargetFlash} {addr : Nat}, t.flash = [f] →
      f.toFlashGeometry = g → f.buf = none → opened t.dev → g.blocksize ∣ addr →
      ∃ t', eraseLoop drv fuel t 0 addr 0 true = (true, t') ∧ t'.flashMode = t.flashMode ∧
        (∃ f', t'.flash = [f'] ∧ f'.toFlashGeometry = g ∧ f'.operation = .none ∧ f'.buf = none) ∧
        opened t'.dev ∧ mem t'.dev = (mem t.dev).eraseBlocks g.blocksize addr 0 := by
    intro fuel t f addr hflash hgeom hbuf hopen hdvd
    obtain ⟨f', hdone, hgeom', hop', hbuf'⟩ := flashDone_nor hdrv f t.dev
    rw [FlashImage.eraseBlocks_zero _ hdvd, eraseLoop, Target.onFlash_single hflash, hdone]
    exact ⟨_, rfl, rfl, ⟨f', rfl, hgeom'.trans hgeom, hop', hbuf' (.inr hbuf)⟩, hopen, rfl⟩
  induction fuel with
  | zero =>
    intro t f addr len hfuel hflash hgeom _ hbuf _ _ _ hzero
    obtain rfl := Nat.le_zero.1 hfuel
    exact hstop hflash hgeom hbuf (hzero rfl).1 (hzero rfl).2
  | succ fuel ih =>
    intro t f addr len hfuel hflash hgeom hop hbuf husable hstart hend hzero
    cases len with
    | zero => exact hstop hflash hgeom hbuf (hzero rfl).1 (hzero rfl).2
    | succ len =>
      have hend32 := hg.end_lt
      have hpos := hg.blocksize_pow2.pos
      have hcontains : f.Contains addr := by
        rw [hgeom, hg.toInBlocks.contains_iff]
        omega
      have hmod := Nat.mod_lt addr hpos
      have hle := Nat.mod_le addr g.blocksize
      have hblockStart : g.start ≤ addr - addr % g.blocksize := le_unit_of_dvd hg.start_block hstart
      have hblockEnd : addr - addr % g.blocksize + g.blocksize ≤ g.start + g.length :=
        unit_end_le_of_dvd (Nat.dvd_add hg.start_block hg.length_block) (by omega)
      have halign : alignDown addr g.blocksize = addr - addr % g.blocksize :=
        hg.blocksize_pow2.alignDown (by omega)
      have hnext : add32 (addr - addr % g.blocksize) g.blocksize =
          addr - addr % g.blocksize + g.blocksize :=
        add32_of_lt (by omega)
      obtain ⟨d', herase, hopen', hmem'⟩ :=
        hdrv.erase { f with operation := .erase } (addr - addr % g.blocksize)
        t.dev hgeom ⟨dvd_unit _ _, hblockStart, hblockEnd⟩ husable
      have hsize : f.blocksize = g.blocksize := by rw [hgeom]
      have hstep : eraseStep drv t 0 addr true = .inr
          ({ t with flash := [{ f with operation := .erase }], dev := d' }, 0,
            addr - addr % g.blocksize + g.blocksize) := by
        rw [eraseStep, targetFlashForAddr_single hflash hcontains]
        simp only [switchErase, ne_eq, not_true_eq_false, if_false, hflash, List.getElem?_cons_zero,
          Target.onFlash_single hflash, flashPrepare_erase_nor hdrv hop, if_true, hsize, halign,
          hnext]
        rw [Target.onFlash_single rfl, flashErase]
        simp only [herase, Bool.and_self, if_true]
      have hsub : sub32 (addr - addr % g.blocksize + g.blocksize) addr =
          addr - addr % g.blocksize + g.blocksize - addr := sub32_of_le (by omega) (by omega)
      have hmin : len + 1 - min (addr - addr % g.blocksize + g.blocksize - addr) (len + 1) =
          len + 1 - (addr - addr % g.blocksize + g.blocksize - addr) := by omega
      obtain ⟨t', hloop, hmode, hflash', hopen'', hmem''⟩ := @ih
        { t with flash := [{ f with operation := .erase }], dev := d' }
          { f with operation := .erase }
        (addr - addr % g.blocksize + g.blocksize)
          (len + 1 - (addr - addr % g.blocksize + g.blocksize - addr))
        (by omega) rfl hgeom (by rintro ⟨⟩) hbuf (hdrv.usable_of_opened _ hopen') (by omega)
          (by omega)
        fun _ => ⟨hopen', Nat.dvd_add (dvd_unit _ _) (Nat.dvd_refl _)⟩
      refine ⟨t', ?_, hmode, hflash', hopen'', ?_⟩
      · rw [eraseLoop_step, hstep]
        dsimp only
        rw [hsub, hmin, hloop]
      · rw [hmem'', hmem', FlashImage.eraseBlocks_step _ hpos (Nat.succ_pos len)]

/-- An erase blanks the blocks of the flash that a range meets. -/
theorem targetFlashErase_nor {t : Target δ} (h : NorIdle g usable t) (addr len : Nat)
    (hlen : 0 < len) (hstart : g.start ≤ addr) (hend : addr + len ≤ g.start + g.length) :
    ∃ t', targetFlashErase drv t addr len = (true, t') ∧ NorIdle g usable t' ∧
      mem t'.dev = (mem t.dev).eraseBlocks g.blocksize addr len ∧
        NorSession g mem opened (mem t'.dev) t' := by
  obtain ⟨f, hflash, hgeom, hop, hbuf⟩ := h.region
  obtain ⟨t₁, henter, hmode, hflash₁, husable, -, hmem⟩ := targetEnterFlashMode_nor hdrv h.usable
  rw [← hflash₁] at hflash
  have hcontains : f.Contains addr := by
    rw [hgeom, hg.toInBlocks.contains_iff]
    omega
  obtain ⟨t', hloop, hmode', ⟨f', hflash', hgeom', hop', hbuf'⟩, hopen, hmem'⟩ :=
    @eraseLoop_nor _ drv g mem usable opened hdrv hg len t₁ f addr len (Nat.le_refl _) hflash hgeom
      (by rw [hop]; rintro ⟨⟩) hbuf husable hstart hend (by omega)
  have hp' : ¬ f'.Pending := by
    intro hp
    rw [TargetFlash.Pending, hbuf'] at hp
    exact absurd hp.1 (by decide)
  refine ⟨t', ?_, ⟨⟨f', hflash', hgeom', hop', hbuf'⟩, hdrv.usable_of_opened _ hopen⟩, ?_,
    hmode'.trans hmode,
    ⟨f', hflash', ⟨hgeom', .of_none (hgeom' ▸ hg.toWf) hbuf', by rw [hop']; rintro ⟨⟩, ?_,
      fun hp => absurd hp hp'⟩, ?_, holds_of_not_pending hp' rfl⟩, hopen⟩
  · rw [targetFlashErase, henter]
    simp only [if_true, targetFlashForAddr_single hflash hcontains]
    exact hloop
  · rw [hmem', hmem]
  · rw [hbuf']
    rintro _ ⟨⟩
  · rw [hbuf']
    rintro ⟨⟩

omit hdrv hg in
/-- A write of nothing is done. -/
theorem writeLoop_nil (fuel : Nat) (t : Target δ) (active dest : Nat) :
    writeLoop drv fuel t active dest [] = .ok (true, t) := by
  cases fuel <;> rfl

/-- A write to a blank range stores its bytes in the image. -/
theorem targetFlashWrite_nor {t : Target δ} (h : NorSession g mem opened image t) (dest : Nat)
    (src : List UInt8) (hne : src ≠ []) (hstart : g.start ≤ dest)
    (hend : dest + src.length ≤ g.start + g.length) (hblank : image.Blank dest src.length) :
    ∃ t', targetFlashWrite drv t dest src = .ok (true, t') ∧
      NorSession g mem opened (image.store dest src) t' := by
  obtain ⟨f, hflash, hregion, -, hold⟩ := h.region
  have hend32 := hg.end_lt
  have hpos : 0 < src.length := List.length_pos_iff.2 hne
  have hcontains : f.Contains dest := by
    rw [hregion.geometry, hg.toInBlocks.contains_iff]
    omega
  have henter : targetEnterFlashMode drv t = (true, t) := by
    rw [targetEnterFlashMode, if_pos h.flashMode]
  have hsettle : settleLoop drv dest t.flash 0 none true t.dev =
      .ok (true, some 0, [f], t.dev) := by
    rw [hflash, settleLoop, if_pos hcontains]
    rfl
  obtain ⟨f₁, hensure, hregion₁, hbuf₁, hold₁⟩ := flashBufferEnsure_nor hdrv hregion hold
  obtain ⟨f', d', hwrite, hregion', hp', hopen', hold'⟩ :=
    bufferedWriteLoop_nor hdrv hg src.length dest src
    (Nat.le_refl _) hregion₁ hbuf₁ h.opened hold₁ hstart hend hblank
  have hlocal : f₁.localEndAddr dest src.length = dest + src.length := by
    rw [FlashGeometry.localEndAddr, hregion₁.geometry, add32_of_lt (by omega), add32_of_lt hend32]
    omega
  have hready : ({ t with flash := [f] } : Target δ).onFlash 0 (flashBufferEnsure drv) =
      (true, { t with flash := [f₁] }) := by
    rw [Target.onFlash_single (f := f) rfl, hensure]
  have hlength : f₁.localLength dest src.length = src.length := by
    rw [FlashGeometry.localLength, hlocal, sub32_of_le (Nat.le_add_right _ _) (by omega),
      Nat.add_sub_cancel_left]
  have hbuffered : ({ t with flash := [f₁] } : Target δ).onFlashBuf 0 (fun f d =>
      flashBufferedWrite drv f dest (src.take (f₁.localLength dest src.length)) d) =
      .ok (true, { t with flash := [f'], dev := d' }) := by
    rw [hlength, List.take_length]
    simp only [Target.onFlashBuf, List.getElem?_cons_zero, flashBufferedWrite, hwrite, bind,
      Except.bind, List.set_cons_zero]
  have hloop : ∀ fuel, writeLoop drv (fuel + 1) { t with flash := [f] } 0 dest src =
      .ok (true, { t with flash := [f'], dev := d' }) := by
    intro fuel
    rw [writeLoop_step drv hne (targetFlashForAddr_single rfl hcontains) rfl hready rfl hbuffered,
      if_pos rfl, hlocal, hlength, List.drop_length, writeLoop_nil]
  refine ⟨{ t with flash := [f'], dev := d' }, ?_, h.flashMode,
    ⟨f', rfl, hregion', fun _ => hp' (.inr hne), hold'⟩,
    hopen'⟩
  obtain ⟨n, hn⟩ := Nat.exists_eq_succ_of_ne_zero hpos.ne'
  rw [targetFlashWrite, henter]
  simp only [if_true, hsettle, bind, Except.bind, hn]
  exact hloop n

end

end

/-! ## Runs of sessions -/

/-- A session: the ranges that it erases, and what it writes behind that. -/
structure FlashSession where
  erases : List (Nat × Nat)
  writes : List (Nat × List UInt8)

/-- The calls of a session. -/
def FlashSession.calls (s : FlashSession) : List FlashCall :=
  (s.erases.map fun e => .erase e.1 e.2) ++ (s.writes.map fun w => .write w.1 w.2) ++ [.complete]

/-- Ranges are erased. -/
def FlashImage.eraseAll (image : FlashImage) (blocksize : Nat) (erases : List (Nat × Nat)) :
    FlashImage :=
  erases.foldl (fun image e => image.eraseBlocks blocksize e.1 e.2) image

/-- Bytes are stored, one write after the other. -/
def FlashImage.storeAll (image : FlashImage) (writes : List (Nat × List UInt8)) : FlashImage :=
  writes.foldl (fun image w => image.store w.1 w.2) image

/-- What a session makes of an image. -/
def FlashSession.apply (s : FlashSession) (blocksize : Nat) (image : FlashImage) : FlashImage :=
  (image.eraseAll blocksize s.erases).storeAll s.writes

/-- Writes to the region, each to what is blank then. -/
def WritesFit (g : FlashGeometry) : FlashImage → List (Nat × List UInt8) → Prop
  | _, [] => True
  | image, w :: ws => (w.2 ≠ [] ∧ g.start ≤ w.1 ∧ w.1 + w.2.length ≤ g.start + g.length ∧
      image.Blank w.1 w.2.length) ∧ WritesFit g (image.store w.1 w.2) ws

/-- Erases of ranges of the region. -/
def ErasesFit (g : FlashGeometry) (erases : List (Nat × Nat)) : Prop :=
  ∀ e ∈ erases, 0 < e.2 ∧ g.start ≤ e.1 ∧ e.1 + e.2 ≤ g.start + g.length

/-- Sessions of a region, from an image on. Each of them erases something. -/
def SessionsFit (g : FlashGeometry) : FlashImage → List FlashSession → Prop
  | _, [] => True
  | image, s :: ss => (s.erases ≠ [] ∧ ErasesFit g s.erases ∧
      WritesFit g (image.eraseAll g.blocksize s.erases) s.writes) ∧
        SessionsFit g (s.apply g.blocksize image) ss

/-! ### Images that agree -/

section
variable {g : FlashGeometry} {image image' : FlashImage} {x : Nat}

/-- A store to images that agree at an address. -/
theorem FlashImage.store_congr (h : image x = image' x) (dest : Nat) (src : List UInt8) :
    image.store dest src x = image'.store dest src x := by
  unfold store
  rw [h]

/-- An erase of images that agree at an address. -/
theorem FlashImage.eraseBlocks_congr (h : image x = image' x) (bs addr len : Nat) :
    image.eraseBlocks bs addr len x = image'.eraseBlocks bs addr len x := by
  unfold eraseBlocks
  rw [h]

/-- Erases of images that agree at an address. -/
theorem FlashImage.eraseAll_congr (bs : Nat) :
    ∀ (erases : List (Nat × Nat)) {image image' : FlashImage},
    image x = image' x → image.eraseAll bs erases x = image'.eraseAll bs erases x := by
  intro erases
  induction erases with
  | nil => exact fun h => h
  | cons e erases ih => exact fun h => ih (eraseBlocks_congr h bs e.1 e.2)

/-- Stores to images that agree at an address. -/
theorem FlashImage.storeAll_congr :
    ∀ (writes : List (Nat × List UInt8)) {image image' : FlashImage},
    image x = image' x → image.storeAll writes x = image'.storeAll writes x := by
  intro writes
  induction writes with
  | nil => exact fun h => h
  | cons w writes ih => exact fun h => ih (store_congr h w.1 w.2)

/-- What a session makes of a byte depends on that byte alone. -/
theorem FlashSession.apply_congr (s : FlashSession) (bs : Nat) (h : image x = image' x) :
    s.apply bs image x = s.apply bs image' x :=
  FlashImage.storeAll_congr s.writes (FlashImage.eraseAll_congr bs s.erases h)

/-- Writes that fit an image fit one that agrees with it in the region. -/
theorem WritesFit.congr : ∀ {writes : List (Nat × List UInt8)} {image image' : FlashImage},
    (∀ x, g.start ≤ x → x < g.start + g.length → image x = image' x) → WritesFit g image writes →
    WritesFit g image' writes := by
  intro writes
  induction writes with
  | nil => exact fun _ _ => trivial
  | cons w writes ih =>
    intro image image' heq hfit
    obtain ⟨⟨hne, hstart, hend, hblank⟩, hrest⟩ := hfit
    refine ⟨⟨hne, hstart, hend, fun x hle hlt => ?_⟩, ih (fun x hle hlt => ?_) hrest⟩
    · rw [← heq x (by omega) (by omega)]
      exact hblank x hle hlt
    · exact FlashImage.store_congr (heq x hle hlt) w.1 w.2

/-- Every write is to the region. -/
theorem WritesFit.inside :
    ∀ {writes : List (Nat × List UInt8)} {image : FlashImage}, WritesFit g image writes →
    ∀ w ∈ writes, g.start ≤ w.1 ∧ w.1 + w.2.length ≤ g.start + g.length := by
  intro writes
  induction writes with
  | nil => exact fun _ _ h => absurd h List.not_mem_nil
  | cons w writes ih =>
    intro image hfit
    obtain ⟨⟨-, hstart, hend, -⟩, hrest⟩ := hfit
    exact List.forall_mem_cons.2 ⟨⟨hstart, hend⟩, ih hrest⟩

/-- Writes to the region change nothing outside of it. -/
theorem FlashImage.storeAll_of_out (hx : ¬ (g.start ≤ x ∧ x < g.start + g.length)) :
    ∀ {writes : List (Nat × List UInt8)} {image : FlashImage}, WritesFit g image writes →
      image.storeAll writes x = image x := by
  intro writes
  induction writes with
  | nil => exact fun _ => rfl
  | cons w writes ih =>
    intro image hfit
    obtain ⟨⟨-, hstart, hend, -⟩, hrest⟩ := hfit
    exact (ih hrest).trans (store_of_out (by omega))

/-- Neither do erases of the region. -/
theorem FlashImage.eraseAll_of_out (hg : g.Nor) (hx : ¬ (g.start ≤ x ∧ x < g.start + g.length)) :
    ∀ {erases : List (Nat × Nat)} {image : FlashImage}, ErasesFit g erases →
      image.eraseAll g.blocksize erases x = image x := by
  intro erases
  induction erases with
  | nil => exact fun _ => rfl
  | cons e erases ih =>
    intro image hfit
    obtain ⟨⟨hlen, hstart, hend⟩, hrest⟩ := List.forall_mem_cons.1 hfit
    have hbs : 0 < g.blocksize := hg.toInBlocks.blocksize_pow2.pos
    refine (ih hrest).trans (if_neg fun hin => hx ⟨?_, ?_⟩)
    · have hle := Nat.mul_le_mul_right g.blocksize hin.1
      have hdown := Nat.div_mul_le_self x g.blocksize
      have hblock := le_unit_of_dvd hg.toInBlocks.start_block hstart
      have hdiv := Nat.div_add_mod' e.1 g.blocksize
      omega
    · have hup : x < x / g.blocksize * g.blocksize + g.blocksize := Nat.lt_div_mul_add hbs
      have hlast : x / g.blocksize * g.blocksize + g.blocksize ≤ g.start + g.length := by
        have hdvd : g.blocksize ∣ g.start + g.length :=
          Nat.dvd_add hg.toInBlocks.start_block hg.toInBlocks.length_block
        have hlt : x / g.blocksize * g.blocksize < g.start + g.length := by omega
        obtain ⟨k, hk⟩ := hdvd
        rw [hk, Nat.mul_comm g.blocksize] at hlt ⊢
        have := Nat.lt_of_mul_lt_mul_right hlt
        calc x / g.blocksize * g.blocksize + g.blocksize = (x / g.blocksize + 1) * g.blocksize :=
          (Nat.succ_mul _ _).symm
          _ ≤ k * g.blocksize := Nat.mul_le_mul_right _ this
      omega

/-- A session leaves alone what is not in the region. -/
theorem FlashSession.apply_of_out (hg : g.Nor) {s : FlashSession}
    (hx : ¬ (g.start ≤ x ∧ x < g.start + g.length)) (herases : ErasesFit g s.erases)
    (hwrites : WritesFit g (image.eraseAll g.blocksize s.erases) s.writes) :
    s.apply g.blocksize image x = image x :=
  (FlashImage.storeAll_of_out hx hwrites).trans (FlashImage.eraseAll_of_out hg hx herases)

end

/-! ### Calls -/

section
variable {δ : Type} {drv : FlashDriver δ} {g : FlashGeometry} {mem : δ → FlashImage}
  {usable opened : δ → Prop}

section
variable (hdrv : NorDriver drv g mem usable opened) (hg : g.Nor)
include hdrv hg

/-- The erases of a session. -/
theorem erases_nor : ∀ (erases : List (Nat × Nat)) {t : Target δ}, NorIdle g usable t →
    ErasesFit g erases →
    ∃ t', RunsTo drv t (erases.map fun e => .erase e.1 e.2) t' ∧ NorIdle g usable t' ∧
      mem t'.dev = (mem t.dev).eraseAll g.blocksize erases ∧
      (erases ≠ [] → NorSession g mem opened (mem t'.dev) t') := by
  intro erases
  induction erases with
  | nil => exact fun h _ => ⟨_, rfl, h, rfl, fun hne => absurd rfl hne⟩
  | cons e erases ih =>
    intro t h hfit
    obtain ⟨⟨hlen, hstart, hend⟩, hrest⟩ := List.forall_mem_cons.1 hfit
    obtain ⟨t₁, herase, h₁, hmem₁, hsession₁⟩ := targetFlashErase_nor hdrv hg h _ _ hlen hstart hend
    obtain ⟨t', hrun, h', hmem', hsession'⟩ := ih h₁ hrest
    refine ⟨t', .cons (congrArg Except.ok herase) hrun, h', ?_, fun _ => ?_⟩
    · rw [hmem', hmem₁]
      rfl
    · rcases eq_or_ne erases [] with rfl | hne
      · obtain ⟨-, rfl⟩ := Prod.mk.inj (Except.ok.inj hrun)
        exact hsession₁
      · exact hsession' hne

/-- The writes of a session. -/
theorem writes_nor : ∀ (writes : List (Nat × List UInt8)) {t : Target δ} {image : FlashImage},
    NorSession g mem opened image t → WritesFit g image writes →
    ∃ t', RunsTo drv t (writes.map fun w => .write w.1 w.2) t' ∧
      NorSession g mem opened (image.storeAll writes) t' := by
  intro writes
  induction writes with
  | nil => exact fun h _ => ⟨_, rfl, h⟩
  | cons w writes ih =>
    intro t image h hfit
    obtain ⟨⟨hne, hstart, hend, hblank⟩, hrest⟩ := hfit
    obtain ⟨t₁, hwrite, h₁⟩ := targetFlashWrite_nor hdrv hg h _ _ hne hstart hend hblank
    obtain ⟨t', hrun, h'⟩ := ih h₁ hrest
    exact ⟨t', .cons hwrite hrun, h'⟩

/-- A session makes its image of the flash, and leaves the region idle. -/
theorem session_nor {s : FlashSession} {t : Target δ} (h : NorIdle g usable t) (hne : s.erases ≠ [])
    (herases : ErasesFit g s.erases)
    (hwrites : WritesFit g ((mem t.dev).eraseAll g.blocksize s.erases) s.writes) :
    ∃ t', RunsTo drv t s.calls t' ∧ NorIdle g usable t' ∧
      mem t'.dev = s.apply g.blocksize (mem t.dev) := by
  obtain ⟨t₁, hrun₁, -, hmem₁, hsession⟩ := erases_nor hdrv hg s.erases h herases
  rw [← hmem₁] at hwrites
  obtain ⟨t₂, hrun₂, h₂⟩ := writes_nor hdrv hg s.writes (hsession hne) hwrites
  obtain ⟨t', hcomplete, h', hmem'⟩ := targetFlashComplete_nor hdrv h₂
  refine ⟨t', (hrun₁.append hrun₂).append (.cons hcomplete rfl), h', ?_⟩
  rw [hmem', hmem₁]
  rfl

/-- Sessions on NOR flash: whatever the flash has before, every call of every session returns true,
and at the end the flash has what the sessions make of its first image. -/
theorem sessions_nor : ∀ (sessions : List FlashSession) (t : Target δ), NorIdle g usable t →
    SessionsFit g (mem t.dev) sessions →
    ∃ t', RunsTo drv t (sessions.flatMap FlashSession.calls) t' ∧ NorIdle g usable t' ∧
      mem t'.dev = sessions.foldl (fun image s => s.apply g.blocksize image) (mem t.dev) := by
  intro sessions
  induction sessions with
  | nil => exact fun t h _ => ⟨t, rfl, h, rfl⟩
  | cons s sessions ih =>
    intro t h hfit
    obtain ⟨⟨hne, herases, hwrites⟩, hrest⟩ := hfit
    obtain ⟨t₁, hrun₁, h₁, hmem₁⟩ := session_nor hdrv hg h hne herases hwrites
    rw [← hmem₁] at hrest
    obtain ⟨t', hrun', h', hmem'⟩ := ih t₁ h₁ hrest
    refine ⟨t', by rw [List.flatMap_cons]; exact hrun₁.append hrun', h', ?_⟩
    rw [hmem', hmem₁, List.foldl_cons]

end

end

end Blackmagic
