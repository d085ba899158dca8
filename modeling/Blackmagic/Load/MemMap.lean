import Blackmagic.Load.Verbs

/-!
# The memory map in its buffer

`target_mem_map` passes `len - offset` to each `snprintf`, an unsigned difference, where `offset` is
the sum of the lengths of all the texts so far, cut off or not. As long as the sum is at most `len`
the difference is what is left of the buffer. Beyond that it wraps, and the next text is stored
behind the buffer. So the map is rendered correctly (`MemMapCorrect`) exactly when everything in
front of the closing tag fits.
-/

namespace Blackmagic

open Word Scanf

/-- The indices that `snprintf(tmp + offset, len - offset, …)` stores to: the text as far as the
size allows, and the terminator. A size of zero stores nothing. -/
def printStores (len offset : Nat) (piece : List UInt8) : List Nat :=
  if sub32 len offset = 0 then []
  else List.range' offset (min piece.length (sub32 len offset - 1) + 1)

/-- The indices that a sequence of prints stores to, from an offset on. -/
def mapStores (len : Nat) : (offset : Nat) → List (List UInt8) → List Nat
  | _, [] => []
  | offset, piece :: rest =>
      printStores len offset piece ++ mapStores len (offset + piece.length) rest

section
variable {δ : Type}

/-- A map is rendered correctly: only the buffer is stored to, and if it returns true, the buffer
holds the whole document with a terminator and `v_read` finds in it the flash regions, in the list's
order. -/
structure MemMapCorrect (t : Target δ) (len : Nat) : Prop where
  inBounds : ∀ i ∈ mapStores len 0 (memMapPieces t), i < len
  complete : ∀ text, targetMemMap t len = some (true, text) →
    text = (memMapPieces t).flatten ∧ text.length < len
  parsed : ∀ text, targetMemMap t len = some (true, text) →
    flashRanges text.length text = t.flash.map fun f => (f.start, f.length)

/-! ## The stores of a sequence of prints -/

variable {len : Nat}

/-- Within the buffer a piece is stored in bounds. -/
theorem printStores_lt (hlen : len < 2 ^ 32) {offset : Nat} {piece : List UInt8}
    (h : offset ≤ len) :
    ∀ i ∈ printStores len offset piece, i < len := by
  intro i hi
  unfold printStores at hi
  rw [sub32_of_le h hlen] at hi
  split at hi
  · cases hi
  · rw [List.mem_range'_1] at hi
    omega

/-- Behind the buffer the first store is behind it too. -/
theorem offset_mem_printStores {offset : Nat} {piece : List UInt8}
    (h : len < offset) (h' : offset < len + 2 ^ 32) : offset ∈ printStores len offset piece := by
  have hne : sub32 len offset ≠ 0 := by
    unfold sub32
    omega
  rw [printStores, if_neg hne, List.mem_range'_1]
  omega

/-- A sequence of prints stays in the buffer when each one starts in it, or at its end. -/
theorem mapStores_lt_iff (hlen : len < 2 ^ 32) :
    ∀ {pieces : List (List UInt8)} {offset : Nat}, (∀ p ∈ pieces, p.length < 2 ^ 32) →
      offset < len + 2 ^ 32 → pieces ≠ [] →
      ((∀ i ∈ mapStores len offset pieces, i < len) ↔
        offset + pieces.dropLast.flatten.length ≤ len) := by
  intro pieces
  induction pieces with
  | nil => exact fun _ _ h => absurd rfl h
  | cons piece rest ih =>
    intro offset hpieces hoffset _
    obtain ⟨hpiece, hrest⟩ := List.forall_mem_cons.1 hpieces
    simp only [mapStores, List.forall_mem_append]
    rcases Nat.lt_or_ge len offset with hout | hin
    · constructor
      · intro h
        have := h.1 offset (offset_mem_printStores hout hoffset)
        omega
      · intro h
        omega
    · have hfirst : ∀ i ∈ printStores len offset piece, i < len := printStores_lt hlen hin
      cases rest with
      | nil =>
        refine ⟨fun _ => by simpa using hin, fun _ => ⟨hfirst, fun i hi => ?_⟩⟩
        cases hi
      | cons piece' rest =>
        rw [and_iff_right hfirst, ih hrest (by omega) (List.cons_ne_nil _ _),
          List.dropLast_cons_cons, List.flatten_cons, List.length_append, Nat.add_assoc]

/-! ## The texts of a map -/

/-- A word has eight digits at most. -/
theorem length_hex_le (n : Nat) : (hex n).length ≤ 8 := by
  unfold hex
  split
  · decide
  · exact (List.dropWhile_sublist _).length_le

/-- Each text of a map is short. -/
theorem length_memMapPieces (t : Target δ) : ∀ p ∈ memMapPieces t, p.length ≤ 76 := by
  intro p hp
  simp only [memMapPieces, List.mem_cons, List.mem_append, List.mem_map, List.mem_flatMap,
    List.not_mem_nil, or_false] at hp
  rcases hp with rfl | (⟨r, -, rfl⟩ | ⟨f, -, hp⟩) | rfl
  · decide
  · have hlen := length_hex_le r.length
    have htext : (mapRam r).length = 28 + 8 + 12 + (hex r.length).length + 3 := by
      simp only [mapRam, List.length_append]
      rfl
    omega
  · have hlen := length_hex_le f.length
    have hblock := length_hex_le f.blocksize
    rcases List.mem_cons.1 hp with rfl | hp
    · simp only [List.length_append]
      have htext : (ascii "<memory type=\"flash\" start=\"0x").length = 30 ∧
          (hex8 f.start).length = 8 ∧ (ascii "\" length=\"0x").length = 12 ∧
          (ascii "\">").length = 2 := ⟨rfl, rfl, rfl, rfl⟩
      omega
    · rw [List.mem_singleton.1 hp]
      simp only [List.length_append]
      have htext : (ascii "<property name=\"blocksize\">0x").length = 29 ∧
          (ascii "</property></memory>").length = 20 := ⟨rfl, rfl⟩
      omega
  · decide

/-- The text in front of the closing tag. -/
def memMapBody (t : Target δ) : List UInt8 :=
  ascii "<memory-map>" ++ ((t.ram.map mapRam).flatten ++
    (t.flash.flatMap fun f => mapFlash f.toFlashGeometry).flatten)

/-- The pieces before the last are the body of the map. -/
theorem dropLast_memMapPieces (t : Target δ) :
    (memMapPieces t).dropLast.flatten = memMapBody t := by
  rw [memMapPieces, ← List.cons_append, List.dropLast_concat]
  simp [memMapBody]

/-- The map is stored in its buffer exactly when everything in front of its closing tag fits. -/
theorem mapStores_memMap (t : Target δ) (hlen : len < 2 ^ 32) :
    (∀ i ∈ mapStores len 0 (memMapPieces t), i < len) ↔ (memMapBody t).length ≤ len := by
  have hshort : ∀ p ∈ memMapPieces t, p.length < 2 ^ 32 := fun p hp =>
    Nat.lt_of_le_of_lt (length_memMapPieces t p hp) (by decide)
  have hne : memMapPieces t ≠ [] := List.cons_ne_nil _ _
  rw [mapStores_lt_iff hlen hshort (Nat.add_pos_right _ (by decide)) hne, Nat.zero_add,
    dropLast_memMapPieces]

/-- A map is rendered correctly exactly when everything in front of its closing tag fits the
buffer. -/
theorem memMapCorrect_iff (t : Target δ) (len : Nat) (hpos : 1 ≤ len) (hlen : len < 2 ^ 32)
    (hwords : ∀ f ∈ t.flash, f.Words) :
    MemMapCorrect t len ↔ (memMapBody t).length ≤ len := by
  constructor
  · exact fun h => (mapStores_memMap t hlen).1 h.inBounds
  · intro h
    refine ⟨(mapStores_memMap t hlen).2 h, fun text htext => ?_,
      fun text htext => flashRanges_memMap hwords htext⟩
    have hflat := targetMemMap_text htext
    refine ⟨hflat, ?_⟩
    obtain ⟨b, hb, hret⟩ := Option.bind_eq_some_iff.1 htext
    have hlt := of_decide_eq_true (Prod.mk.inj (Option.some.inj hret)).1
    rw [(foldlM_print len hb).1, Nat.zero_add] at hlt
    rw [hflat]
    omega

end

/-- The region at an index of a chip of sectors of 16 KiB. -/
def sectorRegion (i : Nat) : TargetFlash where
  start := 0x08000000 + 0x4000 * i
  length := 0x4000
  blocksize := 0x4000
  writesize := 0x400
  writebufsize := 0x400
  erased := 0xff
  operation := .none
  buf := none
  bufAddrBase := 0
  bufAddrLow := 0
  bufAddrHigh := 0

/-- A chip with a number of such regions. -/
def sectorChip (n : Nat) : Target Unit := ⟨false, (List.range n).map sectorRegion, [], ()⟩

/-- Four regions in the buffer that `exec_q_memory_map` uses. -/
theorem memMapCorrect_iff_sectorChip :
    MemMapCorrect (sectorChip 4) 1024 ↔ (memMapBody (sectorChip 4)).length ≤ 1024 := by
  refine memMapCorrect_iff (sectorChip 4) 1024 (by decide) (by decide) fun f hf => ?_
  obtain ⟨i, hi, rfl⟩ := List.mem_map.1 hf
  rw [List.mem_range] at hi
  constructor
  · change 0x08000000 + 0x4000 * i < 2 ^ 32
    omega
  · change 0x4000 < 2 ^ 32
    decide

/-- Ten regions in that buffer are stored beyond its end. -/
theorem not_memMapCorrect_sectorChip : ¬ MemMapCorrect (sectorChip 10) 1024 := by
  intro h
  have hbody : 1024 < (memMapBody (sectorChip 10)).length := by decide +kernel
  have hle := (mapStores_memMap (sectorChip 10) (by decide)).1 h.inBounds
  omega

end Blackmagic
