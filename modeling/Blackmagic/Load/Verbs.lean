import Blackmagic.Lib.Scanf
import Blackmagic.Load.Loader

/-!
# The `flash` and `read` verbs

The two verbs of `ui_debug.c` that move a file to or from a target, and the memory map that `read`
goes by. `target_mem_map` prints the map as XML into a buffer, and `v_read` looks for the flash
regions in that text; it finds the regions of the list, in the list's order
(`flashRanges_memMap`). `memRead` is `target_mem_read`: the bytes, or `none` for a result other than
zero.
-/

namespace Blackmagic

open Word Scanf

/-! ## `target_mem_map` -/

/-- A buffer that is printed into: the text it holds, and the sum of what `snprintf` returned. -/
structure MapBuf where
  text : List UInt8
  offset : Nat
  deriving DecidableEq, Repr

/-- `offset += snprintf(tmp + offset, len - offset, …)`. Behind the end of the buffer the difference
wraps, and the text is written outside of it. -/
def MapBuf.print (len : Nat) (b : MapBuf) (piece : List UInt8) : Option MapBuf :=
  if b.offset ≤ len then
    some ⟨b.text ++ piece.take (len - b.offset - 1), b.offset + piece.length⟩
  else none

/-- The text of `map_ram`. -/
def mapRam (r : TargetRam) : List UInt8 :=
  ascii "<memory type=\"ram\" start=\"0x" ++ hex8 r.start ++ ascii "\" length=\"0x" ++
    hex r.length ++
    ascii "\"/>"

/-- The two texts of `map_flash`. -/
def mapFlash (g : FlashGeometry) : List (List UInt8) :=
  [ascii "<memory type=\"flash\" start=\"0x" ++ hex8 g.start ++ ascii "\" length=\"0x" ++
      hex g.length ++ ascii "\">",
    ascii "<property name=\"blocksize\">0x" ++ hex g.blocksize ++ ascii "</property></memory>"]

section
variable {δ : Type}

/-- What `target_mem_map` prints, call by call. -/
def memMapPieces (t : Target δ) : List (List UInt8) :=
  ascii "<memory-map>" ::
    (t.ram.map mapRam ++ t.flash.flatMap (fun f => mapFlash f.toFlashGeometry) ++
    [ascii "</memory-map>"])

/-- `target_mem_map`: whether the map fits, and the text in the buffer. -/
def targetMemMap (t : Target δ) (len : Nat) : Option (Bool × List UInt8) := do
  let b ← (memMapPieces t).foldlM (MapBuf.print len) ⟨[], 0⟩
  pure (decide (b.offset < len - 1), b.text)

/-! ## `read` -/

/-- The search of `v_read` for the flash regions of a map: start and length of each. Each one is
looked for behind the one before, so the text's length bounds their number. -/
def flashRanges : (fuel : Nat) → (pos : List UInt8) → List (Nat × Nat)
  | 0, _ => []
  | fuel + 1, pos =>
    match strstr (ascii "type=\"flash\"") pos with
    | none => []
    | some pos =>
      match strstr (ascii "start=\"") pos, strstr (ascii "length=\"") pos with
      | some sp, some lp =>
        ((strtoulAuto (sp.drop 7)).toNat, (strtoulAuto (lp.drop 8)).toNat) :: flashRanges fuel lp
      | _, _ => []

/-- Why a `read` ends early. `overrun` is a map that does not fit its buffer by far. -/
inductive ReadStop
  | overrun
  | noMap
  | noRegions
  | zeroLength
  | readFailed (addr : Nat)
  | writeFailed (pos : Nat)
  deriving DecidableEq, Repr

/-- The target, and what the dump file holds. -/
structure Dump (δ : Type) where
  target : Target δ
  file : List UInt8

/-- A `read` in progress. -/
abbrev ReadM (δ : Type) := EStateM ReadStop (Dump δ)

variable (memRead : (addr len : Nat) → δ → Option (List UInt8) × δ)

/-- `target_mem_read` on a target. -/
def targetMemRead (t : Target δ) (addr len : Nat) : Option (List UInt8) × Target δ :=
  let (got, d) := memRead addr len t.dev
  (got, { t with dev := d })

variable (accepts : (pos len : Nat) → Bool)

/-- The loop of `v_read_range` over the chunks that are left. `accepts` says whether `fwrite` takes
so many bytes at a position. -/
def readLoop : List Nat → (addr : Nat) → ReadM δ Unit
  | [], _ => pure ()
  | chunk :: rest, addr => do
    let s ← get
    let (got, t) := targetMemRead memRead s.target addr chunk
    set { s with target := t }
    match got with
    | none => throw (.readFailed addr)
    | some bytes =>
      if accepts s.file.length chunk then
        set (⟨t, s.file ++ bytes⟩ : Dump δ)
        readLoop rest (add32 addr chunk)
      else throw (.writeFailed s.file.length)

/-- `v_read_range`. -/
def vReadRange (addr len : Nat) : ReadM δ Unit :=
  readLoop memRead accepts (Bytes.chunks 1024 len) addr

/-- The regions of the map, one after the other. -/
def readRanges : List (Nat × Nat) → ReadM δ Unit
  | [] => pure ()
  | (start, length) :: rest => do
    vReadRange memRead accepts start length
    readRanges rest

/-- `v_read` with the file open: a range, or the whole flash. The result of `fclose` is ignored. -/
def vRead : (range : Option (Nat × Nat)) → ReadM δ Unit
  | some (addr, len) =>
    if len = 0 then throw .zeroLength else vReadRange memRead accepts addr len
  | none => do
    let s ← get
    match targetMemMap s.target 4096 with
    | none => throw .overrun
    | some (false, _) => throw .noMap
    | some (true, text) =>
      let ranges := flashRanges text.length text
      readRanges memRead accepts ranges
      if ranges = [] then throw .noRegions

/-! ## `flash` -/

/-- The sink that `v_flash` binds to `target_flash_*`; its `in_flash` is `NULL`. -/
def uiSink (drv : FlashDriver δ) : FlashSink (Target δ) where
  erase := fun addr len t => .ok (targetFlashErase drv t addr len)
  write := fun addr data t => targetFlashWrite drv t addr data
  complete := targetFlashComplete drv
  read := some fun addr len t => targetMemRead memRead t addr len
  inFlash := none

@[simp] theorem uiSink_complete (drv : FlashDriver δ) :
    (uiSink memRead drv).complete = targetFlashComplete drv := rfl

@[simp] theorem uiSink_read (drv : FlashDriver δ) :
    (uiSink memRead drv).read = some fun addr len t => targetMemRead memRead t addr len := rfl

@[simp] theorem uiSink_inFlash (drv : FlashDriver δ) : (uiSink memRead drv).inFlash = none := rfl

/-- `v_flash` with the file open: an ELF file by its first four characters, else a raw image at the
address given, or at `0x08000000`. -/
def vFlash (drv : FlashDriver δ) (f : File) (addr : Option Nat) : LoadM (Target δ) LoadResult :=
  if f.fread 0 4 = some elfMagic then bmpLoadElf (uiSink memRead drv) f
  else bmpLoadBin (uiSink memRead drv) f (addr.getD 0x08000000)

/-! ## The map read back -/

/-- Pieces printed in a row move the offset by their lengths, by induction on the pieces. -/
theorem foldlM_print (len : Nat) :
    ∀ {pieces : List (List UInt8)} {b b' : MapBuf},
      pieces.foldlM (MapBuf.print len) b = some b' →
        b'.offset = b.offset + pieces.flatten.length ∧
          (b'.offset < len → b'.text = b.text ++ pieces.flatten) := by
  intro pieces
  induction pieces with
  | nil =>
    intro b b' h
    cases h
    simp
  | cons piece pieces ih =>
    intro b b' h
    rw [List.foldlM_cons] at h
    obtain ⟨b₁, hprint, h⟩ := Option.bind_eq_some_iff.1 h
    obtain ⟨hoff, htext⟩ := ih h
    unfold MapBuf.print at hprint
    split at hprint
    · cases hprint
      rw [List.flatten_cons, List.length_append]
      refine ⟨by rw [hoff, Nat.add_assoc], fun hlt => ?_⟩
      rw [htext hlt, List.take_of_length_le (by rw [hoff] at hlt; dsimp only at hlt; omega),
        List.append_assoc]
    · cases hprint

/-- A map that fits is in the buffer as it was printed. -/
theorem targetMemMap_text {t : Target δ} {len : Nat} {text : List UInt8}
    (h : targetMemMap t len = some (true, text)) : text = (memMapPieces t).flatten := by
  obtain ⟨b, hb, h⟩ := Option.bind_eq_some_iff.1 h
  obtain ⟨hlt, rfl⟩ := Prod.mk.inj (Option.some.inj h)
  have hlt := of_decide_eq_true hlt
  rw [(foldlM_print len hb).2 (by omega)]
  rfl

/-- A needle that begins with no digit does not begin in digits. -/
theorem passes_digits {needle : List UInt8} (hn : needle.head?.any (!isDigit 16 ·) = true)
    {ds : List UInt8} (hds : ∀ c ∈ ds, isDigit 16 c = true) : passes needle ds = true := by
  cases needle with
  | nil => cases hn
  | cons a needle =>
    refine passes_of_not_mem fun hmem => ?_
    simp only [List.head?_cons, Option.any_some, hds a hmem] at hn
    cases hn

/-- The needle of the outer search is not in the text of a RAM region. -/
theorem strstr_mapRam (r : TargetRam) (rest : List UInt8) :
    strstr (ascii "type=\"flash\"") (mapRam r ++ rest) =
      strstr (ascii "type=\"flash\"") rest := by
  unfold mapRam
  rw [List.append_assoc, List.append_assoc, List.append_assoc, List.append_assoc,
    strstr_append _ (by decide), strstr_append _ (passes_digits (by decide) (isDigit_hex8 _)),
    strstr_append _ (by decide), strstr_append _ (passes_digits (by decide) (isDigit_hex _)),
    strstr_append _ (by decide)]

/-- The RAM entries hold no flash entry. -/
theorem strstr_mapRams (rams : List TargetRam) (rest : List UInt8) :
    strstr (ascii "type=\"flash\"") ((rams.map mapRam).flatten ++ rest) =
      strstr (ascii "type=\"flash\"") rest := by
  induction rams with
  | nil => rfl
  | cons r rams ih => rw [List.map_cons, List.flatten_cons, List.append_assoc, strstr_mapRam, ih]

/-- A region's start and length fit a word. -/
structure FlashGeometry.Words (g : FlashGeometry) : Prop where
  start_lt : g.start < 2 ^ 32
  length_lt : g.length < 2 ^ 32

/-- Every region takes at least one character of the map. -/
theorem length_le_mapFlash (gs : List FlashGeometry) :
    gs.length ≤ (gs.flatMap mapFlash).flatten.length := by
  induction gs with
  | nil => exact Nat.le_refl _
  | cons g gs ih =>
    rw [List.flatMap_cons, List.flatten_append, List.length_append, List.length_cons, Nat.add_comm]
    refine Nat.add_le_add ?_ ih
    simp [mapFlash, ascii]

/-- The search finds the regions of a map in their order. -/
theorem flashRanges_flash :
    ∀ {gs : List FlashGeometry} {fuel : Nat} {pos : List UInt8}, (∀ g ∈ gs, g.Words) →
      gs.length < fuel →
      strstr (ascii "type=\"flash\"") pos = strstr (ascii "type=\"flash\"")
        ((gs.flatMap mapFlash).flatten ++ ascii "</memory-map>") →
      flashRanges fuel pos = gs.map fun g => (g.start, g.length) := by
  intro gs
  induction gs with
  | nil =>
    intro fuel pos _ hfuel hpos
    obtain ⟨fuel, rfl⟩ := Nat.exists_eq_succ_of_ne_zero (Nat.ne_of_gt hfuel)
    rw [flashRanges, hpos]
    rfl
  | cons g gs ih =>
    intro fuel pos hgs hfuel hpos
    obtain ⟨fuel, rfl⟩ := Nat.exists_eq_succ_of_ne_zero (Nat.ne_of_gt (by omega : 0 < fuel))
    obtain ⟨hstart, hlength⟩ := hgs g List.mem_cons_self
    have hmark : ascii "<memory type=\"flash\" start=\"0x" =
        ascii "<memory " ++ (ascii "type=\"flash\"" ++ (ascii " " ++ (ascii "start=\"" ++
          ascii "0x"))) := by decide
    have hlen : ascii "\" length=\"0x" =
        ascii "\" " ++ (ascii "length=\"" ++ ascii "0x") := by decide
    -- the text behind the length, and the text of this region and those after it
    generalize htail : ascii "\">" ++
      (ascii "<property name=\"blocksize\">0x" ++ (hex g.blocksize ++
      (ascii "</property></memory>" ++ ((gs.flatMap mapFlash).flatten ++ ascii "</memory-map>")))) =
        tail
    have htext : ((g :: gs).flatMap mapFlash).flatten ++ ascii "</memory-map>" =
        ascii "<memory " ++ (ascii "type=\"flash\"" ++ (ascii " " ++ (ascii "start=\"" ++
          (ascii "0x" ++ (hex8 g.start ++ (ascii "\" " ++ (ascii "length=\"" ++ (ascii "0x" ++
            (hex g.length ++ tail))))))))) := by
      rw [← htail, List.flatMap_cons, mapFlash, hmark, hlen]
      simp only [List.cons_append, List.nil_append, List.flatten_cons, List.append_assoc]
    rw [htext, strstr_append _ (by decide), strstr_self _ (by decide)] at hpos
    have hsp : strstr (ascii "start=\"")
        (ascii "type=\"flash\"" ++ (ascii " " ++ (ascii "start=\"" ++
        (ascii "0x" ++ (hex8 g.start ++ (ascii "\" " ++ (ascii "length=\"" ++ (ascii "0x" ++
          (hex g.length ++ tail))))))))) =
        some (ascii "start=\"" ++ (ascii "0x" ++ (hex8 g.start ++ (ascii "\" " ++
          (ascii "length=\"" ++ (ascii "0x" ++ (hex g.length ++ tail))))))) := by
      rw [strstr_append _ (by decide), strstr_append _ (by decide), strstr_self _ (by decide)]
    have hlp : strstr (ascii "length=\"") (ascii "type=\"flash\"" ++ (ascii " " ++
        (ascii "start=\"" ++ (ascii "0x" ++ (hex8 g.start ++ (ascii "\" " ++ (ascii "length=\"" ++
          (ascii "0x" ++ (hex g.length ++ tail))))))))) =
        some (ascii "length=\"" ++ (ascii "0x" ++ (hex g.length ++ tail))) := by
      rw [strstr_append _ (by decide), strstr_append _ (by decide), strstr_append _ (by decide),
        strstr_append _ (by decide), strstr_append _ (passes_digits (by decide) (isDigit_hex8 _)),
        strstr_append _ (by decide), strstr_self _ (by decide)]
    have hnext : strstr (ascii "type=\"flash\"")
        (ascii "length=\"" ++ (ascii "0x" ++ (hex g.length ++ tail))) =
        strstr (ascii "type=\"flash\"")
          ((gs.flatMap mapFlash).flatten ++ ascii "</memory-map>") := by
      rw [← htail, strstr_append _ (by decide), strstr_append _ (by decide),
        strstr_append _ (passes_digits (by decide) (isDigit_hex _)), strstr_append _ (by decide),
        strstr_append _ (by decide), strstr_append _ (passes_digits (by decide) (isDigit_hex _)),
        strstr_append _ (by decide)]
    have hrest := ih (fun g hg => hgs g (List.mem_cons_of_mem _ hg)) (by simpa using hfuel) hnext
    have hs : (strtoulAuto ((ascii "start=\"" ++ (ascii "0x" ++ (hex8 g.start ++ (ascii "\" " ++
        (ascii "length=\"" ++ (ascii "0x" ++ (hex g.length ++ tail))))))).drop 7)).toNat =
          g.start :=
      strtoulAuto_hex8 hstart (by decide) _
    have hl :
        (strtoulAuto ((ascii "length=\"" ++ (ascii "0x" ++ (hex g.length ++ tail))).drop 8)).toNat =
        g.length := by
      rw [← htail]
      exact strtoulAuto_hex hlength (by decide) _
    rw [flashRanges, hpos]
    dsimp only
    rw [hsp, hlp]
    dsimp only
    rw [hs, hl, hrest, List.map_cons]

/-- `v_read` finds the regions of the list in a map that fits, in the list's order. -/
theorem flashRanges_memMap {t : Target δ} {len : Nat} {text : List UInt8}
    (hwords : ∀ f ∈ t.flash, f.Words) (h : targetMemMap t len = some (true, text)) :
    flashRanges text.length text = t.flash.map fun f => (f.start, f.length) := by
  have htext : text = ascii "<memory-map>" ++ ((t.ram.map mapRam).flatten ++
      (((t.flash.map (·.toFlashGeometry)).flatMap mapFlash).flatten ++ ascii "</memory-map>")) := by
    rw [targetMemMap_text h, memMapPieces]
    simp [List.flatMap_map]
  have hfuel : (t.flash.map (·.toFlashGeometry)).length < text.length := by
    have hle := length_le_mapFlash (t.flash.map (·.toFlashGeometry))
    have hend : (ascii "</memory-map>").length = 13 := rfl
    rw [htext]
    simp only [List.length_append]
    omega
  have hgs : ∀ g ∈ t.flash.map (·.toFlashGeometry), g.Words := by
    intro g hg
    obtain ⟨f, hf, rfl⟩ := List.mem_map.1 hg
    exact hwords f hf
  have hpos : strstr (ascii "type=\"flash\"") text = strstr (ascii "type=\"flash\"")
      (((t.flash.map (·.toFlashGeometry)).flatMap mapFlash).flatten ++ ascii "</memory-map>") := by
    rw [htext, strstr_append _ (by decide), strstr_mapRams]
  rw [flashRanges_flash hgs hfuel hpos, List.map_map]
  rfl

end

end Blackmagic
