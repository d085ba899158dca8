import Blackmagic.Gdb.Main

/-!
# The buffers of the packet handlers: `gdb_main.c` and `hex_utils.c`

The handlers that decode a packet store into `pbuf` and into buffers of their own, and give the
target bytes that they take from the packet. `touched` has every store of a handler, with the size
of the buffer it goes to, and where each byte for the target comes from. The bytes are the ones that
the handlers of `Gdb/Main` pass on (`handleWriteMem_eq` and the equations after it). A packet is
`Decodable` when its handler stays in its buffers and in the packet whatever uninitialised variables
hold.
-/

namespace Blackmagic

open Effect Scanf

/-! ## Stores and sources -/

/-- A store to a buffer. -/
structure Store where
  capacity : Nat
  index : Nat
  deriving DecidableEq, Repr

/-- Where a byte for the target comes from: two digits of `pbuf`, a character of `pbuf`, or
neither. -/
inductive Source
  | digits (index : Nat)
  | char (index : Nat)
  | zero
  deriving DecidableEq, Repr

/-- The byte that a source gives. -/
def Source.byte (pbuf : List UInt8) : Source → UInt8
  | .digits i => unhexDigit (pbuf.getD i 0) <<< 4 ||| unhexDigit (pbuf.getD (i + 1) 0)
  | .char i => pbuf.getD i 0
  | .zero => 0

/-- The source is a part of a packet of `size` characters. -/
def Source.Within (size : Nat) : Source → Prop
  | .digits i => i + 1 < size
  | .char i => i < size
  | .zero => False

instance (size : Nat) : (s : Source) → Decidable (s.Within size)
  | .digits i => inferInstanceAs (Decidable (i + 1 < size))
  | .char i => inferInstanceAs (Decidable (i < size))
  | .zero => inferInstanceAs (Decidable False)

/-- The stores of `hexify` to a buffer: two digits for each byte, and the terminator. -/
def hexifyStores (capacity size : Nat) : List Store :=
  ((List.range size).flatMap fun i => [⟨capacity, 2 * i⟩, ⟨capacity, 2 * i + 1⟩]) ++
    [⟨capacity, 2 * size⟩]

/-- The stores of `unhexify` to a buffer. -/
def unhexifyStores (capacity size : Nat) : List Store := (List.range size).map (⟨capacity, ·⟩)

/-- The bytes that `unhexify` makes of `pbuf + hex`. -/
def unhexifySources (hex size : Nat) : List Source :=
  (List.range size).map fun i => .digits (hex + 2 * i)

/-- The bytes at `pbuf + bin`. -/
def binarySources (bin size : Nat) : List Source := (List.range size).map fun i => .char (bin + i)

/-- What a handler stores, and what it passes to the target. -/
structure Touched where
  stores : List Store
  passed : List Source

/-- Nothing. -/
def Touched.none : Touched := ⟨[], []⟩

/-- The stores are to places of their buffers, and what is passed comes from the packet. -/
def Touched.InBounds (size : Nat) (t : Touched) : Prop :=
  (∀ s ∈ t.stores, s.index < s.capacity) ∧ ∀ s ∈ t.passed, s.Within size

instance (size : Nat) (t : Touched) : Decidable (t.InBounds size) :=
  inferInstanceAs (Decidable (_ ∧ _))

/-- `hexify` stays in a buffer that holds two characters for each byte and the terminator. -/
theorem hexifyStores_inside {capacity size : Nat} :
    (∀ s ∈ hexifyStores capacity size, s.index < s.capacity) ↔ 2 * size < capacity := by
  constructor
  · intro h
    exact h ⟨capacity, 2 * size⟩ (List.mem_append_right _ (List.mem_singleton_self _))
  · intro h s hs
    rcases List.mem_append.1 hs with hs | hs
    · obtain ⟨i, hi, hs⟩ := List.mem_flatMap.1 hs
      have := List.mem_range.1 hi
      rcases List.mem_pair.1 hs with rfl | rfl <;> dsimp only <;> omega
    · rw [List.mem_singleton.1 hs]
      exact h

/-- `unhexify` stays in a buffer that holds the bytes. -/
theorem unhexifyStores_inside {capacity size : Nat} :
    (∀ s ∈ unhexifyStores capacity size, s.index < s.capacity) ↔ size ≤ capacity := by
  unfold unhexifyStores
  rw [List.forall_mem_map]
  simp only [List.mem_range]
  constructor
  · intro h
    cases size with
    | zero => exact Nat.zero_le _
    | succ n => exact h n (Nat.lt_succ_self n)
  · intro h i hi
    omega

/-- `unhexify` reads two characters for each byte. -/
theorem unhexifySources_within {hex count size : Nat} :
    (∀ s ∈ unhexifySources hex count, s.Within size) ↔ count = 0 ∨ hex + 2 * count ≤ size := by
  unfold unhexifySources
  rw [List.forall_mem_map]
  simp only [List.mem_range, Source.Within]
  constructor
  · intro h
    cases count with
    | zero => exact .inl rfl
    | succ n =>
      have := h n (Nat.lt_succ_self n)
      omega
  · intro h i hi
    omega

/-- A binary packet is read byte for byte. -/
theorem binarySources_within {bin count size : Nat} :
    (∀ s ∈ binarySources bin count, s.Within size) ↔ count = 0 ∨ bin + count ≤ size := by
  unfold binarySources
  rw [List.forall_mem_map]
  simp only [List.mem_range, Source.Within]
  constructor
  · intro h
    cases count with
    | zero => exact .inl rfl
    | succ n =>
      have := h n (Nat.lt_succ_self n)
      omega
  · intro h i hi
    omega

@[simp] theorem none_inBounds (size : Nat) : Touched.none.InBounds size :=
  ⟨List.forall_mem_nil _, List.forall_mem_nil _⟩

/-! ## The handlers -/

/-- `sizeof(pbuf)`. -/
def pbufCapacity : Nat := gdbPacketBufferSize + 1

/-- What the handlers ask of a target: `regs_size`, which a reply can carry, what `reg_read` returns
when there is one, which is -1 or how much of the eight bytes of `val` it filled, and whether there
is a `reg_write`. -/
structure RegTarget where
  regsSize : Nat
  regRead : Option (UInt32 → Int)
  hasRegWrite : Bool
  regsSize_le : regsSize ≤ gdbPacketBufferSize / 2
  regRead_range : ∀ read ∈ regRead, ∀ reg, -1 ≤ read reg ∧ read reg ≤ 8

/-- The case `g`. -/
def readRegsTouched (regSize : Nat) : Touched :=
  if regSize ≠ 0 then ⟨hexifyStores pbufCapacity regSize, []⟩ else .none

/-- The case `m`. -/
def readMemTouched (locals : Locals) (pbuf : List UInt8) : Touched :=
  let args := (sscanf (cstr pbuf) (lits "m" ++ [.int 16 0, .lit 0x2c, .int 16 0])).values
  let len := args.getD 1 locals.len
  if gdbPacketBufferSize / 2 < len.toNat then .none
  else ⟨hexifyStores pbufCapacity len.toNat, []⟩

/-- The case `G`. -/
def writeRegsTouched (regSize : Nat) : Touched :=
  if regSize ≠ 0 then ⟨unhexifyStores regSize regSize, unhexifySources 1 regSize⟩ else .none

/-- What `sscanf` makes of an `M` or `X` packet. -/
def writeArgs (command : String) (pbuf : List UInt8) : Scanned :=
  sscanf (cstr pbuf) (lits command ++ [.int 16 0, .lit 0x2c, .int 16 0, .lit 0x3a, .position])

/-- The case `M`. -/
def writeMemTouched (locals : Locals) (pbuf : List UInt8) (size : Nat) : Touched :=
  let r := writeArgs "M" pbuf
  let len := r.values.getD 1 0
  let hex := r.position.getD locals.position
  if (UInt32.ofNat size - UInt32.ofNat hex) / 2 < len then .none
  else ⟨unhexifyStores len.toNat len.toNat, unhexifySources hex len.toNat⟩

/-- The case `X`. -/
def writeBinaryTouched (locals : Locals) (pbuf : List UInt8) (size : Nat) : Touched :=
  let r := writeArgs "X" pbuf
  let len := r.values.getD 1 locals.len
  let bin := r.position.getD locals.position
  if UInt32.ofNat size - UInt32.ofNat bin < len then .none
  else ⟨[], binarySources bin len.toNat⟩

/-- The register of a `p` packet, when there is one. -/
def readRegArg (pbuf : List UInt8) : Option UInt32 :=
  (sscanf (cstr pbuf) (lits "p" ++ [.int 16 0])).values.head?

/-- The case `p`: what `reg_read` returns becomes a `size_t`. -/
def readRegTouched (regRead : Option (UInt32 → Int)) (locals : Locals) (pbuf : List UInt8) :
    Touched :=
  match regRead with
  | some read =>
    let s := (UInt32.ofInt (read ((readRegArg pbuf).getD locals.reg))).toNat
    if 0 < s then ⟨hexifyStores pbufCapacity s, []⟩ else .none
  | none => .none

/-- The value of a `P` packet: where it begins in `pbuf`, and its characters. -/
def writeRegValue (pbuf : List UInt8) : Option (Nat × List UInt8) :=
  let text := cstr (pbuf.drop 1)
  let used := (strtoul 16 text).2
  match text.drop used with
  | 0x3d :: packet => some (1 + used + 1, packet)
  | _ => none

/-- The case `P`, where `value` has four bytes that are zero at first. -/
def writeRegTouched (hasRegWrite : Bool) (pbuf : List UInt8) : Touched :=
  if hasRegWrite then
    match writeRegValue pbuf with
    | some (start, packet) =>
      let length := packet.length / 2
      ⟨unhexifyStores 4 length,
        (unhexifySources start length ++ List.replicate 4 Source.zero).take 4⟩
    | none => .none
  else .none

/-- `exec_q_rcmd`, with the answer to a command that fails. -/
def rcmdTouched (start length : Nat) : Touched :=
  let datalen := length / 2
  ⟨unhexifyStores (datalen + 1) datalen ++ [⟨datalen + 1, datalen⟩] ++ hexifyStores (7 * 2 + 1) 7,
    unhexifySources start datalen⟩

/-- The case `vFlashWrite`. -/
def flashWriteTouched (locals : Locals) (position : Option Nat) (plen : Nat) : Touched :=
  let bin := position.getD locals.position
  ⟨[], binarySources bin (UInt32.ofNat plen - UInt32.ofNat bin).toNat⟩

/-- What the handler of the packet in `pbuf` touches. -/
def touched (t : RegTarget) (locals : Locals) (pbuf : List UInt8) (size : Nat) : Touched :=
  match gdbCommand (pbuf.headD 0) with
  | .readRegs => readRegsTouched t.regsSize
  | .readMem => readMemTouched locals pbuf
  | .writeRegs => writeRegsTouched t.regsSize
  | .writeMem => writeMemTouched locals pbuf size
  | .readReg => readRegTouched t.regRead locals pbuf
  | .writeReg => writeRegTouched t.hasRegWrite pbuf
  | .writeBinary => writeBinaryTouched locals pbuf size
  | .query =>
    match findCommand pbuf with
    | some (pre, .rcmd) => rcmdTouched pre.length (size - pre.length)
    | _ => .none
  | .verbose =>
    match vPacket pbuf with
    | .flashWrite _ position => flashWriteTouched locals position size
    | _ => .none
  | _ => .none

/-! ## What the handlers pass on -/

section
variable {env : GdbEnv} {pbuf : List UInt8} {size : Nat}

/-- What `unhexify` reads gives its bytes. -/
theorem map_unhexifySources (hex count : Nat) :
    (unhexifySources hex count).map (Source.byte pbuf) = unhexify (pbuf.drop hex) count := by
  unfold unhexifySources unhexify
  rw [List.map_map]
  refine List.map_congr_left fun i _ => ?_
  simp only [Function.comp_apply, Source.byte, List.getD_eq_getElem?_getD, List.getElem?_drop,
    Nat.add_assoc]

/-- What is read of a binary packet is a part of it. -/
theorem map_binarySources {bin count : Nat} (h : count = 0 ∨ bin + count ≤ pbuf.length) :
    (binarySources bin count).map (Source.byte pbuf) = (pbuf.drop bin).take count := by
  unfold binarySources
  rw [List.map_map]
  refine List.ext_getElem ?_ fun i h1 h2 => ?_
  · rw [List.length_map, List.length_range, List.length_take, List.length_drop]
    omega
  · rw [List.length_map, List.length_range] at h1
    have hi : bin + i < pbuf.length := by omega
    simp [Source.byte, hi]

/-- `unhexify` reads two characters for each byte. -/
theorem unhexify_append (hex rest : List UInt8) {count : Nat} (h : 2 * count ≤ hex.length) :
    unhexify (hex ++ rest) count = unhexify hex count := by
  unfold unhexify
  refine List.map_congr_left fun i hi => ?_
  have := List.mem_range.1 hi
  rw [List.getD_append _ _ _ _ (by omega), List.getD_append _ _ _ _ (by omega)]

/-- `M` writes what it touches. -/
theorem handleWriteMem_eq : handleWriteMem env pbuf size =
    let r := writeArgs "M" pbuf
    if (UInt32.ofNat size - UInt32.ofNat (r.position.getD env.locals.position)) / 2 <
        r.values.getD 1 0 then
      putPacketz "E02"
    else memWriteReply env (r.values.getD 0 0)
      ((writeMemTouched env.locals pbuf size).passed.map (Source.byte pbuf)) := by
  unfold writeMemTouched
  by_cases hlen : (UInt32.ofNat size -
      UInt32.ofNat ((writeArgs "M" pbuf).position.getD env.locals.position)) / 2 <
        (writeArgs "M" pbuf).values.getD 1 0
  · exact (if_pos hlen).trans (if_pos hlen).symm
  · refine (if_neg hlen).trans (Eq.trans ?_ (if_neg hlen).symm)
    dsimp only
    rw [if_neg hlen, map_unhexifySources]
    rfl

/-- `X` writes what it touches. -/
theorem handleWriteBinary_eq (hsize : size ≤ pbuf.length)
    (hin : (writeBinaryTouched env.locals pbuf size).InBounds size) :
    handleWriteBinary env pbuf size =
    let r := writeArgs "X" pbuf
    if UInt32.ofNat size - UInt32.ofNat (r.position.getD env.locals.position) <
        r.values.getD 1 env.locals.len then
      putPacketz "E02"
    else memWriteReply env (r.values.getD 0 env.locals.addr)
      ((writeBinaryTouched env.locals pbuf size).passed.map (Source.byte pbuf)) := by
  unfold writeBinaryTouched at hin ⊢
  by_cases hlen : UInt32.ofNat size -
      UInt32.ofNat ((writeArgs "X" pbuf).position.getD env.locals.position) <
        (writeArgs "X" pbuf).values.getD 1 env.locals.len
  · exact (if_pos hlen).trans (if_pos hlen).symm
  · refine (if_neg hlen).trans (Eq.trans ?_ (if_neg hlen).symm)
    dsimp only at hin ⊢
    rw [if_neg hlen] at hin ⊢
    have hwithin := binarySources_within.1 hin.2
    rw [map_binarySources (by omega)]
    rfl

/-- `G` writes what it touches. -/
theorem writeRegs_passed {regSize : Nat} (h : regSize ≠ 0) :
    (writeRegsTouched regSize).passed.map (Source.byte pbuf) = unhexify (pbuf.drop 1) regSize := by
  rw [writeRegsTouched, if_pos h, map_unhexifySources]

/-- The value of a `P` packet stands at the end of its string. -/
theorem writeRegValue_some {start : Nat} {packet : List UInt8}
    (h : writeRegValue pbuf = some (start, packet)) :
    start + packet.length = 1 + (cstr (pbuf.drop 1)).length ∧
      ∃ rest, pbuf.drop start = packet ++ rest := by
  unfold writeRegValue at h
  simp only at h
  split at h
  · next packet hdrop =>
    cases h
    set used := (strtoul 16 (cstr (pbuf.drop 1))).2
    have hlen := congrArg List.length hdrop
    rw [List.length_drop, List.length_cons] at hlen
    obtain ⟨rest, hrest⟩ : cstr (pbuf.drop 1) <+: pbuf.drop 1 := List.takeWhile_prefix _
    refine ⟨by omega, rest, ?_⟩
    have hused : used ≤ (cstr (pbuf.drop 1)).length := by omega
    have htail : (cstr (pbuf.drop 1)).drop (used + 1) = packet := by
      rw [← List.drop_drop, hdrop]
      rfl
    rw [show 1 + used + 1 = 1 + (used + 1) by omega, ← List.drop_drop, ← hrest,
      List.drop_append_of_le_length (by omega), htail]
  · cases h

/-- `P` writes what it touches. -/
theorem writeReg_passed {start : Nat} {packet : List UInt8}
    (h : writeRegValue pbuf = some (start, packet)) :
    (writeRegTouched true pbuf).passed.map (Source.byte pbuf) =
      (unhexify packet (packet.length / 2) ++ List.replicate 4 0).take 4 := by
  obtain ⟨-, rest, hrest⟩ := writeRegValue_some h
  have htouched : (writeRegTouched true pbuf).passed =
      (unhexifySources start (packet.length / 2) ++ List.replicate 4 Source.zero).take 4 := by
    simp only [writeRegTouched, if_true, h]
  rw [htouched, List.map_take, List.map_append, map_unhexifySources, hrest,
    unhexify_append _ _ (by omega), List.map_replicate]
  rfl

/-- The value is the one that the handler of `P` decodes, with its register. -/
theorem writeRegArgs_eq : writeRegArgs pbuf =
    (writeRegValue pbuf).map fun value => ((strtoul 16 (cstr (pbuf.drop 1))).1, value.2) := by
  unfold writeRegArgs writeRegValue
  dsimp only
  rcases (cstr (pbuf.drop 1)).drop (strtoul 16 (cstr (pbuf.drop 1))).2 with _ | ⟨c, packet⟩
  · rfl
  · by_cases hequals : c = 0x3d
    · rw [hequals]
      rfl
    · simp [hequals]

/-- The register of `p` is the one that the handler asks for. -/
theorem readRegNumber_eq : readRegNumber env pbuf = (readRegArg pbuf).getD env.locals.reg := by
  unfold readRegNumber readRegArg
  cases (sscanf (cstr pbuf) (lits "p" ++ [.int 16 0])).values <;> rfl

/-- A monitor command is what `exec_q_rcmd` touches. -/
theorem rcmd_passed (start length : Nat) :
    (rcmdTouched start length).passed.map (Source.byte pbuf) =
      unhexify (pbuf.drop start) (length / 2) :=
  map_unhexifySources start (length / 2)

/-- `vFlashWrite` writes what it touches. -/
theorem flashWrite_passed {position : Option Nat} (hsize : size ≤ pbuf.length)
    (hin : (flashWriteTouched env.locals position size).InBounds size) :
    (flashWriteTouched env.locals position size).passed.map (Source.byte pbuf) =
      (pbuf.drop (position.getD env.locals.position)).take
        (UInt32.ofNat size - UInt32.ofNat (position.getD env.locals.position)).toNat := by
  have hwithin := binarySources_within.1 hin.2
  exact map_binarySources (by omega)

end

/-! ## The packets that are decoded in bounds -/

/-- The packets whose handlers stay in bounds. `G` has digits for all registers. `M` and `X` are
read to the end of their arguments, or have nothing to write (or too much, for `M`). The register of
`p` is one that the target has, also when its number is not read. `P` has a value of four bytes or
none, and `vFlashWrite` has the colon after its address. -/
def Decodable (t : RegTarget) (packet : List UInt8) : Prop :=
  match gdbCommand (packet.headD 0) with
  | .writeRegs => t.regsSize = 0 ∨ 1 + 2 * t.regsSize ≤ packet.length
  | .writeMem =>
    (writeArgs "M" packet).position.isSome ∨ (writeArgs "M" packet).values.getD 1 0 = 0 ∨
      2 ^ 31 ≤ ((writeArgs "M" packet).values.getD 1 0).toNat
  | .writeBinary =>
    (writeArgs "X" packet).position.isSome ∨ (writeArgs "X" packet).values[1]? = some 0
  | .readReg => ∀ read ∈ t.regRead, ∀ reg, 0 ≤ read ((readRegArg packet).getD reg)
  | .writeReg => t.hasRegWrite = true → ∀ value ∈ writeRegValue packet, value.2.length / 2 = 4
  | .verbose => ∀ addr, vPacket packet ≠ .flashWrite addr none
  | _ => True

section
variable {t : RegTarget} {locals : Locals} {packet stale : List UInt8}

/-- The arguments of a write end at the terminator. -/
theorem writeArgs_terminated (command : String) :
    writeArgs command (packet ++ 0 :: stale) = writeArgs command packet := by
  rw [writeArgs, writeArgs, cstr_append_zero]

/-- So does the argument of `p`. -/
theorem readRegArg_terminated : readRegArg (packet ++ 0 :: stale) = readRegArg packet := by
  rw [readRegArg, readRegArg, cstr_append_zero]

/-- So does a `v` packet. -/
theorem vPacket_terminated : vPacket (packet ++ 0 :: stale) = vPacket packet := by
  rw [vPacket, vPacket, cstr_append_zero]

/-- So does the name of a query. -/
theorem findCommand_terminated : findCommand (packet ++ 0 :: stale) = findCommand packet := by
  rw [findCommand, findCommand, cstr_append_zero]

/-- The first character of a packet, or its terminator. -/
theorem headD_terminated : (packet ++ 0 :: stale).headD 0 = packet.headD 0 := by
  cases packet <;> rfl

/-- So does the value of `P`. -/
theorem writeRegValue_terminated (h : packet ≠ []) :
    writeRegValue (packet ++ 0 :: stale) = writeRegValue packet := by
  obtain ⟨c, packet, rfl⟩ := List.exists_cons_of_ne_nil h
  have hdrop : (c :: packet ++ 0 :: stale).drop 1 = packet ++ 0 :: stale := rfl
  rw [writeRegValue, writeRegValue, hdrop, cstr_append_zero]
  rfl

/-- The position that `M` or `X` stores lies in the packet. -/
theorem writeArgs_position_le {command : String} {p : Nat}
    (h : (writeArgs command packet).position = some p) : p ≤ packet.length := by
  have hscan := scan_position_le h
  have := length_cstr_le packet
  omega

/-- The difference of two lengths as words. -/
theorem toNat_ofNat_sub {a b : Nat} (hb : b ≤ a) (ha : a ≤ gdbPacketBufferSize) :
    (UInt32.ofNat a - UInt32.ofNat b).toNat = a - b := by
  unfold gdbPacketBufferSize at ha
  rw [UInt32.toNat_sub_of_le _ _ (by rw [UInt32.le_iff_toNat_le]; simp; omega)]
  simp
  omega

/-- The difference wraps around at a position just behind the packet. -/
theorem toNat_ofNat_sub_succ (a : Nat) :
    (UInt32.ofNat a - UInt32.ofNat (a + 1)).toNat = 2 ^ 32 - 1 := by
  rw [UInt32.toNat_sub]
  simp
  omega

/-- `g` stays inside when the registers fit into half the buffer. -/
theorem readRegs_inBounds {regSize : Nat} (h : regSize ≤ gdbPacketBufferSize / 2) (size : Nat) :
    (readRegsTouched regSize).InBounds size := by
  unfold readRegsTouched
  split
  · refine ⟨hexifyStores_inside.2 ?_, List.forall_mem_nil _⟩
    unfold pbufCapacity gdbPacketBufferSize at *
    omega
  · exact none_inBounds size

/-- `m` stays inside. -/
theorem readMem_inBounds (locals : Locals) (pbuf : List UInt8) (size : Nat) :
    (readMemTouched locals pbuf).InBounds size := by
  unfold readMemTouched
  simp only
  split
  · exact none_inBounds size
  · next hlen =>
    refine ⟨hexifyStores_inside.2 ?_, List.forall_mem_nil _⟩
    unfold pbufCapacity gdbPacketBufferSize at *
    omega

/-- `G` stays inside when the packet has all the digits. -/
theorem writeRegs_inBounds_iff {regSize size : Nat} :
    (writeRegsTouched regSize).InBounds size ↔ regSize = 0 ∨ 1 + 2 * regSize ≤ size := by
  unfold writeRegsTouched
  split
  · exact ⟨fun h => unhexifySources_within.1 h.2,
      fun h => ⟨unhexifyStores_inside.2 (Nat.le_refl _), unhexifySources_within.2 h⟩⟩
  · next h => exact iff_of_true (none_inBounds size) (.inl (not_not.1 h))

/-- Uninitialised variables that lead behind a packet. -/
def badLocals (size : Nat) : Locals :=
  { addr := 0, len := 1, reg := 0, type := 0, position := size + 1 }

/-- `M` stays inside when its arguments are complete or ask for nothing. -/
theorem writeMem_inBounds_iff (hsize : packet.length ≤ gdbPacketBufferSize) :
    (∀ locals,
      (writeMemTouched locals (packet ++ 0 :: stale) packet.length).InBounds packet.length) ↔
      (writeArgs "M" packet).position.isSome ∨ (writeArgs "M" packet).values.getD 1 0 = 0 ∨
        2 ^ 31 ≤ ((writeArgs "M" packet).values.getD 1 0).toNat := by
  simp only [writeMemTouched, writeArgs_terminated]
  generalize hlen : (writeArgs "M" packet).values.getD 1 0 = len
  cases hpos : (writeArgs "M" packet).position with
  | some hex =>
    refine iff_of_true (fun locals => ?_) (.inl rfl)
    have hhex := writeArgs_position_le hpos
    have hsub := toNat_ofNat_sub hhex hsize
    rw [Option.getD_some]
    split
    · exact none_inBounds _
    · next hle =>
      rw [UInt32.not_lt, UInt32.le_iff_toNat_le, UInt32.toNat_div, hsub] at hle
      refine ⟨unhexifyStores_inside.2 (Nat.le_refl _), unhexifySources_within.2 (.inr ?_)⟩
      simp only [UInt32.reduceToNat] at hle
      omega
  | none =>
    constructor
    · intro h
      have hbad := h (badLocals packet.length)
      by_contra! hcond
      obtain ⟨-, hne, hlt⟩ := hcond
      have hle : ¬ (UInt32.ofNat packet.length - UInt32.ofNat (packet.length + 1)) / 2 < len := by
        rw [UInt32.not_lt, UInt32.le_iff_toNat_le, UInt32.toNat_div, toNat_ofNat_sub_succ]
        simp
        omega
      rw [Option.getD_none, badLocals, if_neg hle] at hbad
      have hzero : len.toNat ≠ 0 := fun h => hne (UInt32.toNat_inj.1 h)
      have : len.toNat = 0 ∨ packet.length + 1 + 2 * len.toNat ≤ packet.length :=
        unhexifySources_within.1 hbad.2
      omega
    · rintro (h | rfl | h) locals
      · cases h
      · rw [if_neg (by simp)]
        exact ⟨unhexifyStores_inside.2 (Nat.le_refl _), unhexifySources_within.2 (.inl rfl)⟩
      · rw [if_pos ?_]
        · exact none_inBounds _
        · rw [UInt32.lt_iff_toNat_lt, UInt32.toNat_div]
          have := (UInt32.ofNat packet.length -
            UInt32.ofNat (Option.none.getD locals.position)).toNat_lt
          simp at this ⊢
          omega

/-- So does `X`. -/
theorem writeBinary_inBounds_iff (hsize : packet.length ≤ gdbPacketBufferSize) :
    (∀ locals,
      (writeBinaryTouched locals (packet ++ 0 :: stale) packet.length).InBounds packet.length) ↔
      (writeArgs "X" packet).position.isSome ∨ (writeArgs "X" packet).values[1]? = some 0 := by
  simp only [writeBinaryTouched, writeArgs_terminated, List.getD_eq_getElem?_getD]
  cases hpos : (writeArgs "X" packet).position with
  | some bin =>
    refine iff_of_true (fun locals => ?_) (.inl rfl)
    have hbin := writeArgs_position_le hpos
    have hsub := toNat_ofNat_sub hbin hsize
    rw [Option.getD_some]
    split
    · exact none_inBounds _
    · next hle =>
      rw [UInt32.not_lt, UInt32.le_iff_toNat_le, hsub] at hle
      exact ⟨List.forall_mem_nil _, binarySources_within.2 (.inr (by omega))⟩
  | none =>
    simp only [Option.getD_none, Option.isSome_none, Bool.false_eq_true, false_or]
    constructor
    · intro h
      have hbad := h (badLocals packet.length)
      have hle : ¬ UInt32.ofNat packet.length - UInt32.ofNat (packet.length + 1) <
          (writeArgs "X" packet).values[1]?.getD 1 := by
        rw [UInt32.not_lt, UInt32.le_iff_toNat_le, toNat_ofNat_sub_succ]
        have := ((writeArgs "X" packet).values[1]?.getD 1).toNat_lt
        omega
      rw [badLocals, if_neg hle] at hbad
      have hwithin : ((writeArgs "X" packet).values[1]?.getD 1).toNat = 0 ∨
          packet.length + 1 + ((writeArgs "X" packet).values[1]?.getD 1).toNat ≤ packet.length :=
        binarySources_within.1 hbad.2
      have hzero : ((writeArgs "X" packet).values[1]?.getD 1).toNat = 0 := by omega
      cases hlen : (writeArgs "X" packet).values[1]? with
      | none => simp [hlen] at hzero
      | some len =>
        rw [hlen, Option.getD_some] at hzero
        rw [UInt32.toNat_inj.1 (hzero.trans (by rfl : 0 = (0 : UInt32).toNat))]
    · intro h locals
      rw [h, Option.getD_some, if_neg (by simp)]
      exact ⟨List.forall_mem_nil _, binarySources_within.2 (.inl rfl)⟩

/-- What a `ssize_t` is as a `size_t`. -/
theorem toNat_ofInt_of_nonneg {r : Int} (h0 : 0 ≤ r) (h8 : r ≤ 8) :
    (UInt32.ofInt r).toNat = r.toNat := by
  rw [UInt32.ofInt, UInt32.toNat_ofNat']
  omega

/-- `p` stays inside when the target has the register. -/
theorem readReg_inBounds_iff {regRead : Option (UInt32 → Int)}
    (hrange : ∀ read ∈ regRead, ∀ reg, -1 ≤ read reg ∧ read reg ≤ 8) (size : Nat) :
    (∀ locals, (readRegTouched regRead locals (packet ++ 0 :: stale)).InBounds size) ↔
      ∀ read ∈ regRead, ∀ reg, 0 ≤ read ((readRegArg packet).getD reg) := by
  simp only [readRegTouched, readRegArg_terminated]
  cases regRead with
  | none => exact iff_of_true (fun _ => none_inBounds size) (fun _ h => by cases h)
  | some read =>
    have hrange := hrange read rfl
    simp only [Option.mem_some_iff, forall_eq']
    constructor
    · intro h reg
      have hreg := h { badLocals size with reg := reg }
      obtain ⟨hlow, -⟩ := hrange ((readRegArg packet).getD reg)
      by_contra! hneg
      -- minus one is the largest size there is
      have hmax : read ((readRegArg packet).getD reg) = -1 := by omega
      simp only [hmax] at hreg
      have := hexifyStores_inside.1 hreg.1
      revert this
      decide
    · intro h locals
      have hnonneg := h locals.reg
      obtain ⟨-, hhigh⟩ := hrange ((readRegArg packet).getD locals.reg)
      split
      · refine ⟨hexifyStores_inside.2 ?_, List.forall_mem_nil _⟩
        rw [toNat_ofInt_of_nonneg hnonneg hhigh]
        unfold pbufCapacity gdbPacketBufferSize
        omega
      · exact none_inBounds size

/-- `P` stays inside when its value has four bytes. -/
theorem writeReg_inBounds_iff {hasRegWrite : Bool} (h : packet ≠ []) :
    (writeRegTouched hasRegWrite (packet ++ 0 :: stale)).InBounds packet.length ↔
      (hasRegWrite = true → ∀ value ∈ writeRegValue packet, value.2.length / 2 = 4) := by
  rw [writeRegTouched, writeRegValue_terminated h]
  cases hasRegWrite with
  | false => exact iff_of_true (none_inBounds _) (fun h => by cases h)
  | true =>
    rw [if_pos rfl]
    cases hvalue : writeRegValue packet with
    | none => exact iff_of_true (none_inBounds _) (fun _ _ h => by cases h)
    | some value =>
      obtain ⟨start, value⟩ := value
      obtain ⟨hend, -⟩ := writeRegValue_some hvalue
      have hlen := length_cstr_le (packet.drop 1)
      have hpos := List.length_pos_of_ne_nil h
      rw [List.length_drop] at hlen
      simp only [Option.mem_some_iff, forall_eq', true_imp_iff]
      constructor
      · rintro ⟨hstores, hpassed⟩
        have hle := unhexifyStores_inside.1 hstores
        -- a shorter value is filled up with zeros
        by_contra hne
        refine hpassed .zero (List.mem_take_iff_getElem.2 ⟨value.length / 2, ?_, ?_⟩)
        · simp [unhexifySources]
          omega
        · rw [List.getElem_append_right (by simp [unhexifySources]), List.getElem_replicate]
      · intro hfour
        refine ⟨unhexifyStores_inside.2 (Nat.le_of_eq hfour), ?_⟩
        dsimp only
        rw [hfour, List.take_append_of_le_length (by simp [unhexifySources]),
          List.take_of_length_le (by simp [unhexifySources])]
        exact unhexifySources_within.2 (.inr (by omega))

/-- A monitor command stays inside. -/
theorem rcmd_inBounds {start length size : Nat} (h : start + length ≤ size) :
    (rcmdTouched start length).InBounds size := by
  refine ⟨?_, unhexifySources_within.2 (by omega)⟩
  intro s hs
  rcases List.mem_append.1 hs with hs | hs
  · rcases List.mem_append.1 hs with hs | hs
    · exact unhexifyStores_inside.2 (Nat.le_succ _) s hs
    · rw [List.mem_singleton.1 hs]
      exact Nat.lt_succ_self _
  · exact hexifyStores_inside.2 (by decide) s hs

/-- The prefix of a command is a part of the packet. -/
theorem findCommand_length_le {pre : List UInt8} {command : QCommand}
    (h : findCommand packet = some (pre, command)) : pre.length ≤ packet.length := by
  unfold findCommand at h
  have hpre := List.find?_some h
  exact (List.isPrefixOf_iff_prefix.1 hpre).length_le.trans (length_cstr_le packet)

/-- `vFlashWrite` stays inside when its address ends with a colon. -/
theorem flashWrite_inBounds_iff {position : Option Nat} {size : Nat}
    (hsize : size ≤ gdbPacketBufferSize) (hposition : ∀ p ∈ position, p ≤ size) :
    (∀ locals, (flashWriteTouched locals position size).InBounds size) ↔ position ≠ none := by
  unfold flashWriteTouched
  cases position with
  | none =>
    refine iff_of_false (fun h => ?_) (fun h => h rfl)
    have hbad := binarySources_within.1 (h (badLocals size)).2
    rw [Option.getD_none] at hbad
    change (UInt32.ofNat size - UInt32.ofNat (size + 1)).toNat = 0 ∨
      size + 1 + (UInt32.ofNat size - UInt32.ofNat (size + 1)).toNat ≤ size at hbad
    rw [toNat_ofNat_sub_succ] at hbad
    omega
  | some bin =>
    refine iff_of_true (fun _ => ⟨List.forall_mem_nil _, binarySources_within.2 (.inr ?_)⟩) nofun
    have hbin := hposition bin rfl
    rw [Option.getD_some, toNat_ofNat_sub hbin hsize]
    omega

/-- The data of `vFlashWrite` begins in the packet. -/
theorem vPacket_position_le {addr : UInt32} {p : Nat}
    (h : vPacket packet = .flashWrite addr (some p)) : p ≤ packet.length := by
  unfold vPacket at h
  dsimp only at h
  split at h
  · cases h
  split at h
  · cases h
  split at h
  · cases h
  split at h
  · cases h
  split at h
  · cases h
  split at h
  · have hscan := scan_position_le (VPacket.flashWrite.inj h).2
    have := length_cstr_le packet
    omega
  split at h
  · cases h
  split at h
  · cases h
  · cases h

/-- **Decoding in bounds.** A packet is decoded inside the buffers and from its own characters,
whatever uninitialised variables hold and earlier packets left behind it, exactly when it is one of
the packets of `Decodable`. -/
theorem touched_inBounds_iff (t : RegTarget) (packet stale : List UInt8)
    (hsize : packet.length ≤ gdbPacketBufferSize) :
    (∀ locals, (touched t locals (packet ++ 0 :: stale) packet.length).InBounds packet.length) ↔
      Decodable t packet := by
  have : Nonempty Locals := ⟨badLocals 0⟩
  unfold touched Decodable
  rw [headD_terminated, findCommand_terminated, vPacket_terminated]
  cases hcommand : gdbCommand (packet.headD 0) with
  | readRegs => exact iff_of_true (fun _ => readRegs_inBounds t.regsSize_le _) trivial
  | readMem => exact iff_of_true (fun _ => readMem_inBounds _ _ _) trivial
  | writeRegs => exact (forall_const Locals).trans writeRegs_inBounds_iff
  | writeMem => exact writeMem_inBounds_iff hsize
  | writeBinary => exact writeBinary_inBounds_iff hsize
  | readReg => exact readReg_inBounds_iff t.regRead_range _
  | writeReg =>
    have hne : packet ≠ [] := by
      rintro rfl
      cases hcommand
    exact (forall_const Locals).trans (writeReg_inBounds_iff hne)
  | query =>
    refine iff_of_true (fun _ => ?_) trivial
    dsimp only
    split
    · next pre hfind =>
      have := findCommand_length_le hfind
      exact rcmd_inBounds (by omega)
    · exact none_inBounds _
  | verbose =>
    dsimp only
    cases hv : vPacket packet with
    | flashWrite addr position =>
      have hposition : ∀ p ∈ position, p ≤ packet.length := by
        rintro p rfl
        exact vPacket_position_le hv
      refine (flashWrite_inBounds_iff hsize hposition).trans
        ⟨fun h addr' heq => ?_, fun h heq => ?_⟩
      · cases heq
        exact h rfl
      · exact h addr (by rw [heq])
    | _ => exact iff_of_true (fun _ => none_inBounds _) (fun _ h => by cases h)
  | _ => exact iff_of_true (fun _ => none_inBounds _) trivial

end

/-- A target with one register, number 0. -/
def oneReg : RegTarget where
  regsSize := 4
  regRead := some fun reg => if reg = 0 then 4 else -1
  hasRegWrite := true
  regsSize_le := by decide
  regRead_range := by
    simp only [Option.mem_some_iff, forall_eq']
    intro reg
    split <;> decide

/-- A write of two bytes, in front of what an older packet left. -/
theorem touched_inBounds_write :
    (ascii "M20,2:0F0F").length ≤ gdbPacketBufferSize ∧
      ∀ locals, (touched oneReg locals (ascii "M20,2:0F0F" ++ 0 :: ascii "stale") 10).InBounds 10 :=
  ⟨by decide, (touched_inBounds_iff oneReg (ascii "M20,2:0F0F") (ascii "stale") (by decide)).2
    (.inl (by decide))⟩

/-- Packets that are not decoded in bounds: `P` with a value of five bytes and with one of one byte,
`G` without digits, `M` and `X` without data, `vFlashWrite` without data, and `p` of a register that
the target does not have. -/
theorem touched_outOfBounds :
    ¬ (touched oneReg (badLocals 13) (ascii "P0=0011223344" ++ [0]) 13).InBounds 13 ∧
    ¬ (touched oneReg (badLocals 5) (ascii "P0=00" ++ [0]) 5).InBounds 5 ∧
    ¬ (touched oneReg (badLocals 1) (ascii "G" ++ [0]) 1).InBounds 1 ∧
    ¬ (touched oneReg (badLocals 4) (ascii "M0,1" ++ [0]) 4).InBounds 4 ∧
    ¬ (touched oneReg (badLocals 4) (ascii "X0,1" ++ [0]) 4).InBounds 4 ∧
    (¬ ∀ locals, (touched oneReg locals (ascii "vFlashWrite:0" ++ [0]) 13).InBounds 13) ∧
    ¬ ∀ locals, (touched oneReg locals (ascii "p1" ++ [0]) 2).InBounds 2 := by
  refine ⟨by decide, by decide, by decide, by decide +kernel, by decide +kernel, fun h => ?_,
    fun h => ?_⟩
  · have hcommand : gdbCommand ((ascii "vFlashWrite:0" ++ [0]).headD 0) = .verbose := by decide
    have hv : vPacket (ascii "vFlashWrite:0" ++ [0]) = .flashWrite 0 none := by decide +kernel
    simp only [touched, hcommand, hv] at h
    have hposition : ∀ p ∈ (none : Option Nat), p ≤ 13 := by simp
    exact (flashWrite_inBounds_iff (by decide) hposition).1 h rfl
  · have hcommand : gdbCommand ((ascii "p1" ++ [0]).headD 0) = .readReg := by decide
    simp only [touched, hcommand] at h
    have hnonneg := (readReg_inBounds_iff oneReg.regRead_range 2).1 h _ rfl 0
    revert hnonneg
    decide +kernel

end Blackmagic
