import Mathlib
import Blackmagic.Lib.Machine

/-!
# Break- and watchpoints: `target.c` and `cortexm.c`

The list of break- and watchpoints is kept by `target.c`, and which comparators are in use by
`cortexm.c`. Comparators are known by their slot. A call of `cortexm_attach` comes with what it
reads from the control registers of the two units, and one of `target_breakwatch_set` with whether
`malloc` gets memory.
-/

namespace Blackmagic

/-! ## The target -/

/-- `target_breakwatch_e`, and the other values that a packet can have for it. -/
inductive BreakwatchType
  | breakSoft
  | breakHard
  | watchWrite
  | watchRead
  | watchAccess
  | other (value : UInt32)
  deriving DecidableEq, Repr

/-- `breakwatch_s`, with its slot in `reserved[0]`. -/
structure Breakwatch where
  type : BreakwatchType
  addr : UInt32
  size : Nat
  slot : Nat
  deriving DecidableEq, Repr

/-- What `target_s` and `cortexm_priv_s` hold for break- and watchpoints, and the comparators. -/
structure CortexBw where
  bwList : List Breakwatch
  breakpointsMask : BitVec 8
  watchpointsMask : BitVec 8
  breakpointsAvailable : Nat
  watchpointsAvailable : Nat
  flashPatchRevision : UInt32
  flavourV6m : Bool
  fpbComp : Nat → UInt32
  dwtComp : Nat → UInt32
  dwtMask : Nat → UInt32
  dwtFunc : Nat → UInt32

/-- `CORTEX_MAX_BREAKPOINTS`. -/
def cortexMaxBreakpoints : Nat := 8

/-- `CORTEX_MAX_WATCHPOINTS`. -/
def cortexMaxWatchpoints : Nat := 8

/-- The target after its probe: nothing is set, and the units have not been sized. -/
def CortexBw.probed (flavourV6m : Bool) (fpbComp dwtComp dwtMask dwtFunc : Nat → UInt32) :
    CortexBw where
  bwList := []
  breakpointsMask := 0
  watchpointsMask := 0
  breakpointsAvailable := 0
  watchpointsAvailable := 0
  flashPatchRevision := 0
  flavourV6m := flavourV6m
  fpbComp := fpbComp
  dwtComp := dwtComp
  dwtMask := dwtMask
  dwtFunc := dwtFunc

/-! ## Attach and detach -/

/-- Write 0 to the registers below `n`. -/
def clearBelow (n : Nat) (regs : Nat → UInt32) : Nat → UInt32 :=
  fun i => if i < n then 0 else regs i

/-- `cortexm_attach`. -/
def cortexmAttach (s : CortexBw) (flashBreakCfg dwtCtrl : UInt32) : CortexBw :=
  let breakpoints := min cortexMaxBreakpoints ((flashBreakCfg >>> 4) &&& 0xf).toNat
  let watchpoints := min cortexMaxWatchpoints (dwtCtrl >>> 28).toNat
  { s with
    breakpointsAvailable := breakpoints,
    flashPatchRevision := flashBreakCfg >>> 28,
    watchpointsAvailable := watchpoints,
    breakpointsMask := 0,
    fpbComp := clearBelow breakpoints s.fpbComp,
    watchpointsMask := 0,
    dwtFunc := clearBelow watchpoints s.dwtFunc }

/-- `cortexm_detach`. -/
def cortexmDetach (s : CortexBw) : CortexBw :=
  { s with
    fpbComp := clearBelow s.breakpointsAvailable s.fpbComp,
    dwtFunc := clearBelow s.watchpointsAvailable s.dwtFunc }

/-! ## Set and clear -/

/-- The value of a breakpoint comparator. -/
def fpbValue (flashPatchRevision addr : UInt32) : UInt32 :=
  (if flashPatchRevision = 0 then
    (addr &&& 0x1ffffffc) ||| if addr &&& 2 ≠ 0 then 0x80000000 else 0x40000000
  else addr) ||| 1

/-- `cortexm_dwt_mask`. -/
def cortexmDwtMask (len : Nat) : UInt32 :=
  if len < 2 then 0 else UInt32.ofNat (min (Nat.log2 (len - 1) + 1) 31)

/-- `cortexm_dwt_func`. -/
def cortexmDwtFunc (flavourV6m : Bool) (type : BreakwatchType) : UInt32 :=
  let x : UInt32 := if flavourV6m then 0 else 0x800
  match type with
  | .watchWrite => 6 ||| x
  | .watchRead => 5 ||| x
  | .watchAccess => 7 ||| x
  | _ => 0xffffffff

/-- The first slot that is not in use. -/
def firstFree (mask : BitVec 8) (available : Nat) : Option Nat :=
  (List.range available).find? fun i => !mask.getLsbD i

/-- The case of a breakpoint in `cortexm_breakwatch_set`. -/
def setBreakpoint (s : CortexBw) (bw : Breakwatch) : Int × Breakwatch × CortexBw :=
  match firstFree s.breakpointsMask s.breakpointsAvailable with
  | none => (-1, bw, s)
  | some i =>
    (0, { bw with slot := i },
      { s with
        breakpointsMask := s.breakpointsMask ||| 1#8 <<< i,
        fpbComp := Function.update s.fpbComp i (fpbValue s.flashPatchRevision bw.addr) })

/-- The case of a watchpoint in `cortexm_breakwatch_set`. -/
def setWatchpoint (s : CortexBw) (bw : Breakwatch) : Int × Breakwatch × CortexBw :=
  match firstFree s.watchpointsMask s.watchpointsAvailable with
  | none => (-1, bw, s)
  | some i =>
    (0, { bw with slot := i },
      { s with
        watchpointsMask := s.watchpointsMask ||| 1#8 <<< i,
        dwtComp := Function.update s.dwtComp i bw.addr,
        dwtMask := Function.update s.dwtMask i (cortexmDwtMask bw.size),
        dwtFunc := Function.update s.dwtFunc i (cortexmDwtFunc s.flavourV6m bw.type) })

/-- `cortexm_breakwatch_set`. -/
def cortexmBreakwatchSet (s : CortexBw) (bw : Breakwatch) : Int × Breakwatch × CortexBw :=
  match bw.type with
  | .breakHard => setBreakpoint s bw
  | .watchWrite => setWatchpoint s bw
  | .watchRead => setWatchpoint s bw
  | .watchAccess => setWatchpoint s bw
  | _ => (1, bw, s)

/-- The case of a watchpoint in `cortexm_breakwatch_clear`. -/
def clearWatchpoint (s : CortexBw) (i : Nat) : CortexBw :=
  { s with
    watchpointsMask := s.watchpointsMask &&& ~~~ (1#8 <<< i),
    dwtFunc := Function.update s.dwtFunc i 0 }

/-- `cortexm_breakwatch_clear`. -/
def cortexmBreakwatchClear (s : CortexBw) (bw : Breakwatch) : Int × CortexBw :=
  match bw.type with
  | .breakHard =>
    (0, { s with
      breakpointsMask := s.breakpointsMask &&& ~~~ (1#8 <<< bw.slot),
      fpbComp := Function.update s.fpbComp bw.slot 0 })
  | .watchWrite => (0, clearWatchpoint s bw.slot)
  | .watchRead => (0, clearWatchpoint s bw.slot)
  | .watchAccess => (0, clearWatchpoint s bw.slot)
  | _ => (1, s)

/-- `target_breakwatch_set`. -/
def targetBreakwatchSet (s : CortexBw) (malloc : Bool) (type : BreakwatchType) (addr : UInt32)
    (len : Nat) : Int × CortexBw :=
  let (ret, bw, s) := cortexmBreakwatchSet s { type := type, addr := addr, size := len, slot := 0 }
  if ret = 0 then
    if malloc then (0, { s with bwList := bw :: s.bwList }) else (1, s)
  else (ret, s)

/-- The entry that a request is for. -/
def Breakwatch.is (type : BreakwatchType) (addr : UInt32) (len : Nat) (bw : Breakwatch) : Bool :=
  bw.type = type ∧ bw.addr = addr ∧ bw.size = len

/-- `target_breakwatch_clear`. -/
def targetBreakwatchClear (s : CortexBw) (type : BreakwatchType) (addr : UInt32) (len : Nat) :
    Int × CortexBw :=
  match s.bwList.find? (Breakwatch.is type addr len) with
  | none => (-1, s)
  | some bw =>
    let (ret, s') := cortexmBreakwatchClear s bw
    if ret = 0 then (ret, { s' with bwList := s.bwList.eraseP (Breakwatch.is type addr len) })
    else (ret, s')

/-! ## Runs -/

/-- A call. -/
inductive BwCall
  | attach (flashBreakCfg dwtCtrl : UInt32)
  | detach
  | set (malloc : Bool) (type : BreakwatchType) (addr : UInt32) (len : Nat)
  | clear (type : BreakwatchType) (addr : UInt32) (len : Nat)
  deriving DecidableEq, Repr

/-- Make a call. -/
def bwStep (s : CortexBw) : BwCall → Except Empty CortexBw
  | .attach flashBreakCfg dwtCtrl => .ok (cortexmAttach s flashBreakCfg dwtCtrl)
  | .detach => .ok (cortexmDetach s)
  | .set malloc type addr len => .ok (targetBreakwatchSet s malloc type addr len).2
  | .clear type addr len => .ok (targetBreakwatchClear s type addr len).2


/-! ## Bookkeeping -/

/-- A hardware breakpoint. -/
def BreakwatchType.isBreak : BreakwatchType → Bool
  | .breakHard => true
  | _ => false

/-- A watchpoint. -/
def BreakwatchType.isWatch : BreakwatchType → Bool
  | .watchWrite | .watchRead | .watchAccess => true
  | _ => false

/-- The slots of the entries of a kind. -/
def slotsOf (kind : BreakwatchType → Bool) (list : List Breakwatch) : List Nat :=
  (list.filter fun bw => kind bw.type).map (·.slot)

/-- Slots map one-to-one onto the set bits of a mask, and are all there. -/
structure SlotsOk (mask : BitVec 8) (available : Nat) (slots : List Nat) : Prop where
  nodup : slots.Nodup
  bits : ∀ i, mask.getLsbD i = true ↔ i ∈ slots
  below : ∀ i ∈ slots, i < available

/-- The comparator of an entry holds the value programmed for it. -/
def CortexBw.Armed (s : CortexBw) (bw : Breakwatch) : Prop :=
  (bw.type.isBreak = true → s.fpbComp bw.slot = fpbValue s.flashPatchRevision bw.addr) ∧
    (bw.type.isWatch = true → s.dwtComp bw.slot = bw.addr ∧
      s.dwtMask bw.slot = cortexmDwtMask bw.size ∧
      s.dwtFunc bw.slot = cortexmDwtFunc s.flavourV6m bw.type)

/-- The list, the masks and the comparators agree. -/
structure Bookkept (s : CortexBw) : Prop where
  breaks : SlotsOk s.breakpointsMask s.breakpointsAvailable
    (slotsOf BreakwatchType.isBreak s.bwList)
  watches : SlotsOk s.watchpointsMask s.watchpointsAvailable
    (slotsOf BreakwatchType.isWatch s.bwList)
  armed : ∀ bw ∈ s.bwList, s.Armed bw

/-- A slot for a type is free. -/
def CortexBw.SlotFree (s : CortexBw) (type : BreakwatchType) : Prop :=
  type.isBreak = true ∧ (∃ i < s.breakpointsAvailable, s.breakpointsMask.getLsbD i = false) ∨
    type.isWatch = true ∧ ∃ i < s.watchpointsAvailable, s.watchpointsMask.getLsbD i = false

/-- The calls that keep the books: attach and detach when nothing is set, and a set that has memory
for its entry when a slot is free. -/
def BwCall.Clean (s : CortexBw) : BwCall → Prop
  | .attach _ _ => s.bwList = []
  | .detach => s.bwList = []
  | .set malloc type _ _ => s.SlotFree type → malloc = true
  | .clear _ _ _ => True

/-- Clearing an entry leaves the comparators of the entries that stay as they were. -/
def ClearsApart (s : CortexBw) (calls : List BwCall) : Prop :=
  ∀ before type addr len after s₁, calls = before ++ .clear type addr len :: after →
    Machine.run bwStep s before = .ok s₁ →
    ∀ bw ∈ (targetBreakwatchClear s₁ type addr len).2.bwList,
      bw ∈ s₁.bwList ∧ (s₁.Armed bw → (targetBreakwatchClear s₁ type addr len).2.Armed bw)

/-- What holds between calls beside the bookkeeping: entries have a slot, and the masks have a bit
for each. -/
structure BwInv (s : CortexBw) : Prop extends Bookkept s where
  kinds : ∀ bw ∈ s.bwList, bw.type.isBreak = true ∨ bw.type.isWatch = true
  fewBreaks : s.breakpointsAvailable ≤ 8
  fewWatches : s.watchpointsAvailable ≤ 8

/-! ## Slots -/

section
variable {mask : BitVec 8} {available i : Nat} {slots : List Nat}

/-- What `firstFree` finds is free. -/
theorem firstFree_some (h : firstFree mask available = some i) :
    i < available ∧ mask.getLsbD i = false := by
  refine ⟨List.mem_range.1 (List.mem_of_find?_eq_some h), ?_⟩
  simpa using List.find?_some h

/-- Where it finds nothing, nothing is free. -/
theorem firstFree_none (h : firstFree mask available = none) :
    ¬ ∃ i < available, mask.getLsbD i = false := by
  rintro ⟨i, hi, hbit⟩
  have := List.find?_eq_none.1 h i (List.mem_range.2 hi)
  simp [hbit] at this

/-- The bits of one slot. -/
theorem getLsbD_bit {j : Nat} (hi : i < 8) : (1#8 <<< i).getLsbD j = decide (j = i) := by
  rw [BitVec.getLsbD_shiftLeft, BitVec.getLsbD_one]
  by_cases h : j = i
  · simp [h, hi]
  · simp only [h, decide_false, Bool.and_eq_false_imp, Bool.and_eq_true, decide_eq_true_eq,
      Bool.not_eq_true', decide_eq_false_iff_not]
    omega

/-- A free slot is taken. -/
theorem SlotsOk.take (h : SlotsOk mask available slots) (hi : i < available) (h8 : available ≤ 8)
    (hfree : mask.getLsbD i = false) : SlotsOk (mask ||| 1#8 <<< i) available (i :: slots) := by
  have hnot : i ∉ slots := fun hmem => by simp [(h.bits i).2 hmem] at hfree
  refine ⟨List.nodup_cons.2 ⟨hnot, h.nodup⟩, fun j => ?_, fun j hj => ?_⟩
  · rw [BitVec.getLsbD_or, getLsbD_bit (by omega), Bool.or_eq_true, h.bits, decide_eq_true_eq,
      List.mem_cons, or_comm]
  · rcases List.mem_cons.1 hj with rfl | hj
    · exact hi
    · exact h.below j hj

/-- A slot is given back. -/
theorem SlotsOk.release {slots₁ slots₂ : List Nat}
    (h : SlotsOk mask available (slots₁ ++ i :: slots₂)) (h8 : available ≤ 8) :
    SlotsOk (mask &&& ~~~ (1#8 <<< i)) available (slots₁ ++ slots₂) := by
  have hi : i < 8 := Nat.lt_of_lt_of_le (h.below i (by simp)) h8
  obtain ⟨hnot, hnodup⟩ := List.nodup_middle.1 h.nodup |> List.nodup_cons.1
  refine ⟨hnodup, fun j => ?_, fun j hj => h.below j ?_⟩
  · have hbits := h.bits j
    rw [List.mem_append, List.mem_cons] at hbits
    rw [BitVec.getLsbD_and, BitVec.getLsbD_not, getLsbD_bit hi, Bool.and_eq_true, hbits,
      Bool.and_eq_true, List.mem_append]
    constructor
    · rintro ⟨h1 | h1 | h1, -, hne⟩
      · exact .inl h1
      · simp [h1] at hne
      · exact .inr h1
    · intro hj
      have hne : j ≠ i := by
        rintro rfl
        exact hnot (List.mem_append.2 hj)
      refine ⟨hj.imp_right .inr, ?_, by simp [hne]⟩
      have := h.below j (by rcases hj with hj | hj <;> simp [hj])
      exact decide_eq_true (by omega)
  · rcases List.mem_append.1 hj with hj | hj <;> simp [hj]

end

/-! ## The calls -/

section
variable {s : CortexBw} {malloc : Bool} {type : BreakwatchType} {addr : UInt32} {len : Nat}

/-- The slots of a list with one more entry. -/
theorem slotsOf_cons (kind : BreakwatchType → Bool) (bw : Breakwatch) (list : List Breakwatch) :
    slotsOf kind (bw :: list) =
      if kind bw.type then bw.slot :: slotsOf kind list else slotsOf kind list := by
  unfold slotsOf
  rw [List.filter_cons]
  split <;> rfl

/-- The slots of two lists. -/
theorem slotsOf_append (kind : BreakwatchType → Bool) (list₁ list₂ : List Breakwatch) :
    slotsOf kind (list₁ ++ list₂) = slotsOf kind list₁ ++ slotsOf kind list₂ := by
  simp [slotsOf]

/-- The slot of an entry is one of the slots. -/
theorem mem_slotsOf {kind : BreakwatchType → Bool} {bw : Breakwatch} {list : List Breakwatch}
    (h : bw ∈ list) (hkind : kind bw.type = true) : bw.slot ∈ slotsOf kind list :=
  List.mem_map_of_mem (List.mem_filter.2 ⟨h, hkind⟩)

/-- No type is of both kinds. -/
theorem isWatch_of_isBreak (h : type.isBreak = true) : type.isWatch = false := by
  cases type <;> first | rfl | cases h

/-- No type is both a breakpoint and a watchpoint. -/
theorem isBreak_of_isWatch (h : type.isWatch = true) : type.isBreak = false := by
  cases type <;> first | rfl | cases h

/-- A comparator that is set is not 0. -/
theorem fpbValue_ne_zero (revision addr : UInt32) : fpbValue revision addr ≠ 0 := by
  unfold fpbValue
  generalize (if revision = 0 then _ else addr) = val
  intro h
  have hbv := congrArg (fun v : UInt32 => v.toBitVec.getLsbD 0) h
  simp at hbv

/-- The function of a watchpoint is not 0. -/
theorem cortexmDwtFunc_ne_zero (v6m : Bool) (h : type.isWatch = true) :
    cortexmDwtFunc v6m type ≠ 0 := by
  cases type <;> cases v6m <;> first | decide | cases h

/-- `cortexm_breakwatch_set` for a breakpoint. -/
theorem cortexmBreakwatchSet_break {bw : Breakwatch} (h : bw.type.isBreak = true) :
    cortexmBreakwatchSet s bw = setBreakpoint s bw := by
  unfold cortexmBreakwatchSet
  cases hbw : bw.type <;> rw [hbw] at h <;> first | rfl | cases h

/-- `cortexm_breakwatch_set` for a watchpoint. -/
theorem cortexmBreakwatchSet_watch {bw : Breakwatch} (h : bw.type.isWatch = true) :
    cortexmBreakwatchSet s bw = setWatchpoint s bw := by
  unfold cortexmBreakwatchSet
  cases hbw : bw.type <;> rw [hbw] at h <;> first | rfl | cases h

/-- Any other type is refused, and changes nothing. -/
theorem cortexmBreakwatchSet_other {bw : Breakwatch} (h : bw.type.isBreak = false)
    (h' : bw.type.isWatch = false) : cortexmBreakwatchSet s bw = (1, bw, s) := by
  unfold cortexmBreakwatchSet
  cases hbw : bw.type <;> rw [hbw] at h h' <;>
    first | rfl | exact absurd h (by decide) | exact absurd h' (by decide)

/-- An entry for which a breakpoint slot is taken. -/
theorem BwInv.addBreak (h : BwInv s) {bw : Breakwatch} (hbw : bw.type.isBreak = true)
    (hslot : bw.slot < s.breakpointsAvailable) (hfree : s.breakpointsMask.getLsbD bw.slot = false) :
    BwInv { s with
      bwList := bw :: s.bwList,
      breakpointsMask := s.breakpointsMask ||| 1#8 <<< bw.slot,
      fpbComp := Function.update s.fpbComp bw.slot (fpbValue s.flashPatchRevision bw.addr) } := by
  have hwatch := isWatch_of_isBreak hbw
  refine ⟨⟨?_, ?_, fun b hb => ?_⟩, fun b hb => ?_, h.fewBreaks, h.fewWatches⟩
  · dsimp only
    rw [slotsOf_cons, if_pos hbw]
    exact h.breaks.take hslot h.fewBreaks hfree
  · dsimp only
    rw [slotsOf_cons, hwatch]
    exact h.watches
  · rcases List.mem_cons.1 hb with rfl | hb
    · refine ⟨fun _ => Function.update_self _ _ _, fun hw => ?_⟩
      rw [hwatch] at hw
      cases hw
    · refine ⟨fun hk => ?_, (h.armed b hb).2⟩
      have hne : b.slot ≠ bw.slot := fun heq => by
        have := (h.breaks.bits b.slot).2 (mem_slotsOf hb hk)
        rw [heq, hfree] at this
        cases this
      dsimp only
      rw [Function.update_of_ne hne]
      exact (h.armed b hb).1 hk
  · rcases List.mem_cons.1 hb with rfl | hb
    · exact .inl hbw
    · exact h.kinds b hb

/-- An entry for which a watchpoint slot is taken. -/
theorem BwInv.addWatch (h : BwInv s) {bw : Breakwatch} (hbw : bw.type.isWatch = true)
    (hslot : bw.slot < s.watchpointsAvailable) (hfree : s.watchpointsMask.getLsbD bw.slot = false) :
    BwInv { s with
      bwList := bw :: s.bwList,
      watchpointsMask := s.watchpointsMask ||| 1#8 <<< bw.slot,
      dwtComp := Function.update s.dwtComp bw.slot bw.addr,
      dwtMask := Function.update s.dwtMask bw.slot (cortexmDwtMask bw.size),
      dwtFunc := Function.update s.dwtFunc bw.slot (cortexmDwtFunc s.flavourV6m bw.type) } := by
  have hbreak := isBreak_of_isWatch hbw
  refine ⟨⟨?_, ?_, fun b hb => ?_⟩, fun b hb => ?_, h.fewBreaks, h.fewWatches⟩
  · dsimp only
    rw [slotsOf_cons, hbreak]
    exact h.breaks
  · dsimp only
    rw [slotsOf_cons, if_pos hbw]
    exact h.watches.take hslot h.fewWatches hfree
  · rcases List.mem_cons.1 hb with rfl | hb
    · refine ⟨fun hk => ?_, fun _ => ⟨?_, ?_, ?_⟩⟩
      · rw [hbreak] at hk
        cases hk
      · exact Function.update_self _ _ _
      · exact Function.update_self _ _ _
      · exact Function.update_self _ _ _
    · refine ⟨(h.armed b hb).1, fun hk => ?_⟩
      have hne : b.slot ≠ bw.slot := fun heq => by
        have := (h.watches.bits b.slot).2 (mem_slotsOf hb hk)
        rw [heq, hfree] at this
        cases this
      dsimp only
      rw [Function.update_of_ne hne, Function.update_of_ne hne, Function.update_of_ne hne]
      exact (h.armed b hb).2 hk
  · rcases List.mem_cons.1 hb with rfl | hb
    · exact .inr hbw
    · exact h.kinds b hb

/-- A set keeps the books when there is memory for the entry of a free slot. -/
theorem BwInv.set (h : BwInv s) (hclean : (BwCall.set malloc type addr len).Clean s) :
    BwInv (targetBreakwatchSet s malloc type addr len).2 := by
  unfold targetBreakwatchSet
  cases hbreak : type.isBreak with
  | true =>
    rw [cortexmBreakwatchSet_break hbreak, setBreakpoint]
    dsimp only
    cases hfirst : firstFree s.breakpointsMask s.breakpointsAvailable with
    | none => exact h
    | some i =>
      obtain ⟨hi, hfree⟩ := firstFree_some hfirst
      rw [hclean (.inl ⟨hbreak, i, hi, hfree⟩)]
      exact @BwInv.addBreak s h { type := type, addr := addr, size := len, slot := i } hbreak
        hi hfree
  | false =>
    cases hwatch : type.isWatch with
    | true =>
      rw [cortexmBreakwatchSet_watch hwatch, setWatchpoint]
      dsimp only
      cases hfirst : firstFree s.watchpointsMask s.watchpointsAvailable with
      | none => exact h
      | some i =>
        obtain ⟨hi, hfree⟩ := firstFree_some hfirst
        rw [hclean (.inr ⟨hwatch, i, hi, hfree⟩)]
        exact @BwInv.addWatch s h { type := type, addr := addr, size := len, slot := i } hwatch
          hi hfree
    | false =>
      rw [cortexmBreakwatchSet_other hbreak hwatch]
      exact h

/-- A set without memory for the entry of a free slot leaves a bit without an entry. -/
theorem BwInv.set_leak (h : BwInv s) (hclean : ¬ (BwCall.set malloc type addr len).Clean s) :
    ¬ Bookkept (targetBreakwatchSet s malloc type addr len).2 := by
  obtain ⟨hfree, hmalloc⟩ := Classical.not_imp.1 hclean
  have hmalloc : malloc = false := Bool.eq_false_iff.2 hmalloc
  have hbit : ∀ {mask : BitVec 8} {i : Nat}, i < 8 → (mask ||| 1#8 <<< i).getLsbD i = true := by
    intro mask i hi
    rw [BitVec.getLsbD_or, getLsbD_bit hi]
    simp
  unfold targetBreakwatchSet
  rcases hfree with ⟨hbreak, hfree⟩ | ⟨hwatch, hfree⟩
  · rw [cortexmBreakwatchSet_break hbreak, setBreakpoint]
    cases hfirst : firstFree s.breakpointsMask s.breakpointsAvailable with
    | none => exact absurd hfree (firstFree_none hfirst)
    | some i =>
      obtain ⟨hi, hnot⟩ := firstFree_some hfirst
      rw [hmalloc]
      intro hbook
      have :=
        (h.breaks.bits i).2 ((hbook.breaks.bits i).1 (hbit (Nat.lt_of_lt_of_le hi h.fewBreaks)))
      rw [hnot] at this
      cases this
  · rw [cortexmBreakwatchSet_watch hwatch, setWatchpoint]
    cases hfirst : firstFree s.watchpointsMask s.watchpointsAvailable with
    | none => exact absurd hfree (firstFree_none hfirst)
    | some i =>
      obtain ⟨hi, hnot⟩ := firstFree_some hfirst
      rw [hmalloc]
      intro hbook
      have := (h.watches.bits i).2
        ((hbook.watches.bits i).1 (hbit (Nat.lt_of_lt_of_le hi h.fewWatches)))
      rw [hnot] at this
      cases this

/-- The entry that a request finds, with what is before and after it. -/
theorem find_entry {list : List Breakwatch} {bw : Breakwatch}
    (h : list.find? (Breakwatch.is type addr len) = some bw) :
    ∃ before after, list = before ++ bw :: after ∧
      list.eraseP (Breakwatch.is type addr len) = before ++ after := by
  obtain ⟨hbw, before, after, hlist, hnone⟩ := List.find?_eq_some_iff_append.1 h
  refine ⟨before, after, hlist, ?_⟩
  rw [hlist, List.eraseP_append_right _ fun b hb => by simpa using hnone b hb,
    List.eraseP_cons_of_pos hbw]

/-- The slots of the other entries of a kind differ from the slot of an entry. -/
theorem SlotsOk.slot_ne {mask : BitVec 8} {available : Nat} {kind : BreakwatchType → Bool}
    {before after : List Breakwatch} {b bw : Breakwatch}
    (h : SlotsOk mask available (slotsOf kind (before ++ bw :: after))) (hbw : kind bw.type = true)
    (hb : b ∈ before ++ after) (hkind : kind b.type = true) : b.slot ≠ bw.slot := by
  have hnodup := h.nodup
  rw [slotsOf_append, slotsOf_cons, if_pos hbw, List.nodup_middle, List.nodup_cons,
    ← slotsOf_append] at hnodup
  intro heq
  exact hnodup.1 (heq ▸ mem_slotsOf hb hkind)

/-- `cortexm_breakwatch_clear` for a breakpoint. -/
theorem cortexmBreakwatchClear_break {bw : Breakwatch} (h : bw.type.isBreak = true) :
    cortexmBreakwatchClear s bw =
      (0, { s with
        breakpointsMask := s.breakpointsMask &&& ~~~ (1#8 <<< bw.slot),
        fpbComp := Function.update s.fpbComp bw.slot 0 }) := by
  unfold cortexmBreakwatchClear
  cases hbw : bw.type <;> rw [hbw] at h <;> first | rfl | cases h

/-- `cortexm_breakwatch_clear` for a watchpoint. -/
theorem cortexmBreakwatchClear_watch {bw : Breakwatch} (h : bw.type.isWatch = true) :
    cortexmBreakwatchClear s bw = (0, clearWatchpoint s bw.slot) := by
  unfold cortexmBreakwatchClear
  cases hbw : bw.type <;> rw [hbw] at h <;> first | rfl | cases h

/-- An entry of another kind has none of the slots. -/
theorem slotsOf_skip {kind : BreakwatchType → Bool} {bw : Breakwatch}
    (before after : List Breakwatch) (h : kind bw.type = false) :
    slotsOf kind (before ++ bw :: after) = slotsOf kind (before ++ after) := by
  rw [slotsOf_append, slotsOf_cons, h, slotsOf_append]
  rfl

/-- A slot is given back when its entry goes. -/
theorem SlotsOk.clear {mask : BitVec 8} {available : Nat} {kind : BreakwatchType → Bool}
    {before after : List Breakwatch} {bw : Breakwatch}
    (h : SlotsOk mask available (slotsOf kind (before ++ bw :: after))) (h8 : available ≤ 8)
    (hbw : kind bw.type = true) :
    SlotsOk (mask &&& ~~~ (1#8 <<< bw.slot)) available (slotsOf kind (before ++ after)) := by
  rw [slotsOf_append, slotsOf_cons, if_pos hbw] at h
  rw [slotsOf_append]
  exact h.release h8

/-- An entry of a list is one of a longer list. -/
theorem mem_around {before after : List Breakwatch} {b : Breakwatch} (bw : Breakwatch)
    (h : b ∈ before ++ after) : b ∈ before ++ bw :: after := by
  rcases List.mem_append.1 h with h | h <;> simp [h]

/-- An entry whose breakpoint slot is given back. -/
theorem BwInv.dropBreak (h : BwInv s) {before after : List Breakwatch} {bw : Breakwatch}
    (hlist : s.bwList = before ++ bw :: after) (hbw : bw.type.isBreak = true) :
    BwInv { s with
      bwList := before ++ after,
      breakpointsMask := s.breakpointsMask &&& ~~~ (1#8 <<< bw.slot),
      fpbComp := Function.update s.fpbComp bw.slot 0 } := by
  have hmem : ∀ b ∈ before ++ after, b ∈ s.bwList := fun b hb => hlist ▸ mem_around bw hb
  have hbreaks := h.breaks
  have hwatches := h.watches
  rw [hlist] at hbreaks hwatches
  refine ⟨⟨hbreaks.clear h.fewBreaks hbw, ?_, fun b hb =>
    ⟨fun hk => ?_, (h.armed b (hmem b hb)).2⟩⟩,
    fun b hb => h.kinds b (hmem b hb), h.fewBreaks, h.fewWatches⟩
  · rw [slotsOf_skip _ _ (isWatch_of_isBreak hbw)] at hwatches
    exact hwatches
  · dsimp only
    rw [Function.update_of_ne (hbreaks.slot_ne hbw hb hk)]
    exact (h.armed b (hmem b hb)).1 hk

/-- An entry whose watchpoint slot is given back. -/
theorem BwInv.dropWatch (h : BwInv s) {before after : List Breakwatch} {bw : Breakwatch}
    (hlist : s.bwList = before ++ bw :: after) (hbw : bw.type.isWatch = true) :
    BwInv { clearWatchpoint s bw.slot with bwList := before ++ after } := by
  have hmem : ∀ b ∈ before ++ after, b ∈ s.bwList := fun b hb => hlist ▸ mem_around bw hb
  have hbreaks := h.breaks
  have hwatches := h.watches
  rw [hlist] at hbreaks hwatches
  refine ⟨⟨?_, hwatches.clear h.fewWatches hbw, fun b hb =>
    ⟨(h.armed b (hmem b hb)).1, fun hk => ?_⟩⟩,
    fun b hb => h.kinds b (hmem b hb), h.fewBreaks, h.fewWatches⟩
  · rw [slotsOf_skip _ _ (isBreak_of_isWatch hbw)] at hbreaks
    exact hbreaks
  · dsimp only [clearWatchpoint]
    rw [Function.update_of_ne (hwatches.slot_ne hbw hb hk)]
    exact (h.armed b (hmem b hb)).2 hk

/-- A clear keeps the books. -/
theorem BwInv.clear (h : BwInv s) : BwInv (targetBreakwatchClear s type addr len).2 := by
  unfold targetBreakwatchClear
  cases hfind : s.bwList.find? (Breakwatch.is type addr len) with
  | none => exact h
  | some bw =>
    obtain ⟨before, after, hlist, herase⟩ := find_entry hfind
    dsimp only
    rcases h.kinds bw (by simp [hlist]) with hbw | hbw
    · rw [cortexmBreakwatchClear_break hbw, herase]
      exact h.dropBreak hlist hbw
    · rw [cortexmBreakwatchClear_watch hbw, herase]
      exact h.dropWatch hlist hbw

/-- The entries that stay after a clear were there before. -/
theorem mem_of_mem_clear {bw : Breakwatch}
    (h : bw ∈ (targetBreakwatchClear s type addr len).2.bwList) : bw ∈ s.bwList := by
  have hlist : ∀ bw, (cortexmBreakwatchClear s bw).2.bwList = s.bwList := by
    intro bw
    unfold cortexmBreakwatchClear
    split <;> rfl
  unfold targetBreakwatchClear at h
  split at h
  · exact h
  · dsimp only at h
    split at h
    · exact List.mem_of_mem_eraseP h
    · rwa [hlist] at h

/-- With no entries no slot is taken. -/
theorem slotsOk_empty {available : Nat} : SlotsOk 0 available [] :=
  ⟨List.nodup_nil, fun i => by simp, fun i hi => by simp at hi⟩

/-- Attach keeps the books when nothing is set. -/
theorem BwInv.attach (hlist : s.bwList = []) (flashBreakCfg dwtCtrl : UInt32) :
    BwInv (cortexmAttach s flashBreakCfg dwtCtrl) := by
  have hlist' : (cortexmAttach s flashBreakCfg dwtCtrl).bwList = [] := hlist
  refine ⟨⟨?_, ?_, ?_⟩, ?_, Nat.min_le_left _ _, Nat.min_le_left _ _⟩
  · rw [hlist']
    exact slotsOk_empty
  · rw [hlist']
    exact slotsOk_empty
  · rw [hlist']
    exact fun bw hbw => absurd hbw List.not_mem_nil
  · rw [hlist']
    exact fun bw hbw => absurd hbw List.not_mem_nil

/-- Attach forgets the bits of the entries that are set. -/
theorem BwInv.attach_stale (h : BwInv s) (hlist : s.bwList ≠ []) (flashBreakCfg dwtCtrl : UInt32) :
    ¬ Bookkept (cortexmAttach s flashBreakCfg dwtCtrl) := by
  obtain ⟨bw, hbw⟩ := List.exists_mem_of_ne_nil _ hlist
  intro hbook
  have hno : ∀ i, (0 : BitVec 8).getLsbD i = true → False := by simp
  rcases h.kinds bw hbw with hk | hk
  · exact hno _ ((hbook.breaks.bits bw.slot).2 (mem_slotsOf hbw hk))
  · exact hno _ ((hbook.watches.bits bw.slot).2 (mem_slotsOf hbw hk))

/-- Detach keeps the books when nothing is set. -/
theorem BwInv.detach (h : BwInv s) (hlist : s.bwList = []) : BwInv (cortexmDetach s) := by
  have hnone : ∀ bw ∈ (cortexmDetach s).bwList, False := by
    intro bw hbw
    rw [show (cortexmDetach s).bwList = [] from hlist] at hbw
    exact absurd hbw List.not_mem_nil
  exact ⟨⟨h.breaks, h.watches, fun bw hbw => (hnone bw hbw).elim⟩, h.kinds, h.fewBreaks,
    h.fewWatches⟩

/-- Detach disables the comparators of the entries that are set. -/
theorem BwInv.detach_stale (h : BwInv s) (hlist : s.bwList ≠ []) :
    ¬ Bookkept (cortexmDetach s) := by
  obtain ⟨bw, hbw⟩ := List.exists_mem_of_ne_nil _ hlist
  intro hbook
  rcases h.kinds bw hbw with hk | hk
  · have harmed := (hbook.armed bw hbw).1 hk
    dsimp only [cortexmDetach, clearBelow] at harmed
    rw [if_pos (h.breaks.below _ (mem_slotsOf hbw hk))] at harmed
    exact fpbValue_ne_zero _ _ harmed.symm
  · have harmed := ((hbook.armed bw hbw).2 hk).2.2
    dsimp only [cortexmDetach, clearBelow] at harmed
    rw [if_pos (h.watches.below _ (mem_slotsOf hbw hk))] at harmed
    exact cortexmDwtFunc_ne_zero _ hk harmed.symm

end

/-! ## Runs of calls -/

section
variable {s s' : CortexBw} {c : BwCall}

/-- A clean call keeps the bookkeeping. -/
theorem BwInv.step (h : BwInv s) (hclean : c.Clean s) (hstep : bwStep s c = .ok s') : BwInv s' := by
  cases c with
  | attach flashBreakCfg dwtCtrl =>
    cases hstep
    exact BwInv.attach hclean _ _
  | detach =>
    cases hstep
    exact h.detach hclean
  | set malloc type addr len =>
    cases hstep
    exact h.set hclean
  | clear type addr len =>
    cases hstep
    exact h.clear

/-- Any other call succeeds and breaks it. -/
theorem BwInv.step_stale (h : BwInv s) (hclean : ¬ c.Clean s) :
    ∃ s', bwStep s c = .ok s' ∧ ¬ Bookkept s' := by
  cases c with
  | attach flashBreakCfg dwtCtrl => exact ⟨_, rfl, h.attach_stale hclean _ _⟩
  | detach => exact ⟨_, rfl, h.detach_stale hclean⟩
  | set malloc type addr len => exact ⟨_, rfl, h.set_leak hclean⟩
  | clear type addr len => exact absurd trivial hclean

/-- After the probe the bookkeeping is right. -/
theorem bwInv_probed (v6m : Bool) (fpbComp dwtComp dwtMask dwtFunc : Nat → UInt32) :
    BwInv (CortexBw.probed v6m fpbComp dwtComp dwtMask dwtFunc) :=
  ⟨⟨slotsOk_empty, slotsOk_empty, fun _ hbw => absurd hbw List.not_mem_nil⟩,
    fun _ hbw => absurd hbw List.not_mem_nil, Nat.zero_le _, Nat.zero_le _⟩

/-- The invariant holds after every part of a run of clean calls. -/
theorem BwInv.run {calls : List BwCall} : ∀ {s : CortexBw}, BwInv s →
    Machine.Along bwStep (fun s c => c.Clean s) s calls → ∀ {s'}, Machine.run bwStep s calls =
      .ok s' →
      BwInv s' := by
  induction calls with
  | nil =>
    intro s h _ s' hrun
    cases hrun
    exact h
  | cons c calls ih =>
    intro s h hclean s' hrun
    cases hstep : bwStep s c with
    | error e => exact e.elim
    | ok s₁ =>
      rw [Machine.run_cons hstep] at hrun
      obtain ⟨hc, hcalls⟩ := (Machine.along_cons hstep).1 hclean
      exact ih (h.step hc hstep) hcalls hrun

/-- The books are kept over a run exactly when attach and detach come with nothing set, and a set
has memory for its entry whenever it takes a slot. -/
theorem bwRun_bookkept (v6m : Bool) (fpbComp dwtComp dwtMask dwtFunc : Nat → UInt32)
    (calls : List BwCall) :
    (Machine.Always bwStep Bookkept (CortexBw.probed v6m fpbComp dwtComp dwtMask dwtFunc) calls ∧
        ClearsApart (CortexBw.probed v6m fpbComp dwtComp dwtMask dwtFunc) calls) ↔
      Machine.Along bwStep (fun s c => c.Clean s)
        (CortexBw.probed v6m fpbComp dwtComp dwtMask dwtFunc) calls := by
  have hinv := bwInv_probed v6m fpbComp dwtComp dwtMask dwtFunc
  rw [Machine.always_iff_along (fun s (h : BwInv s) => h.toBookkept)
    (fun s c s' h (hclean : c.Clean s) hstep => h.step hclean hstep)
    (fun s c h hclean => h.step_stale hclean) hinv]
  refine ⟨fun h => h.1, fun h => ⟨h, fun before type addr len after s₁ hcalls hrun bw hbw => ?_⟩⟩
  have hs₁ : BwInv s₁ := hinv.run (by rw [hcalls] at h; exact h.left) hrun
  exact ⟨mem_of_mem_clear hbw, fun _ => hs₁.clear.armed bw hbw⟩

/-- After a detach the comparator of the breakpoint that is set is disabled, and the entry stays. -/
theorem bwRun_detached :
    ¬ Machine.Always bwStep Bookkept (CortexBw.probed false 0 0 0 0)
        [.attach 0x60 0x40000000, .set true .breakHard 0x08000100 2, .detach] := by
  intro h
  have hbook := h _ [] _ (List.append_nil _).symm rfl
  have harmed := (hbook.armed ⟨.breakHard, 0x08000100, 2, 0⟩ (by decide)).1 rfl
  revert harmed
  decide

end

end Blackmagic
