import Blackmagic.Lib.Tap
import Blackmagic.Jtag.Stream

/-!
# The probe at a chain of TAP controllers

What is at the other end of the wire is a chain of controllers. Each function of `jtagtap.h` that
walks through their states is a step of every controller for itself, and a sequence of bits shifts
the registers of a path as one (`tdiTdoSeq_loaded`).
-/

namespace Blackmagic

open Tap

namespace Jtag

variable {κ : Type}

/-- A chain of controllers as a wire. -/
def chainWire (κ : Type) : Wire (List (Controller κ)) := ⟨fun x tms tdi => chain tms tdi x⟩

/-! ## Walks through the states -/

/-- No state that shifts is left in the clocks of a walk. -/
def quietWalk : State → List Bool → Bool
  | _, [] => true
  | s, tms :: walk => s != .shiftIr && s != .shiftDr && quietWalk (s.next tms) walk

/-- The walk of one controller. -/
def walkOne (walk : List Bool) (c : Controller κ) : Controller κ :=
  walk.foldl (fun c tms => c.clock tms true) c

/-- In a walk that does not shift, every controller goes for itself. -/
theorem tmsBits_quiet : ∀ {walk : List Bool} {s : State} {x : List (Controller κ)}, AllIn s x →
    quietWalk s walk = true → tmsBits (chainWire κ) walk x = x.map (walkOne walk) := by
  intro walk
  induction walk with
  | nil => exact fun _ _ => (List.map_id _).symm
  | cons tms walk ih =>
    intro s x hx hquiet
    rw [quietWalk, Bool.and_eq_true, Bool.and_eq_true, bne_iff_ne, bne_iff_ne] at hquiet
    obtain ⟨⟨hir, hdr⟩, hwalk⟩ := hquiet
    have hstep : ((chainWire κ).clock x tms true).2 = x.map (Controller.clock tms true) :=
      chain_of_allIn hx hir hdr tms true
    have hnext : AllIn (s.next tms) (x.map (Controller.clock tms true)) := by
      intro c hc
      obtain ⟨c', hc', rfl⟩ := List.mem_map.1 hc
      rw [Controller.state_clock, hx c' hc']
    rw [tmsBits, hstep, ih hnext hwalk, List.map_map]
    rfl

/-- A chain in Run-Test/Idle. -/
abbrev AtIdle (x : List (Controller κ)) : Prop := AllIn .runTestIdle x

/-- The controllers have entered the state that shifts a path, and captured its registers. -/
def opened (p : Path) (x : List (Controller κ)) : List (Controller κ) :=
  x.map fun c => (c.capture p).enter p.shift

/-- Controllers that enter a state are in it. -/
theorem allIn_map_enter (s : State) (f : Controller κ → Controller κ) (x : List (Controller κ)) :
    AllIn s (x.map fun c => (f c).enter s) := by
  intro c hc
  obtain ⟨c', -, rfl⟩ := List.mem_map.1 hc
  rfl

/-- From Run-Test/Idle the walk to Shift-IR opens the instruction registers. -/
theorem shiftIr_opened {x : List (Controller κ)} (h : AtIdle x) :
    jtagtapShiftIr (chainWire κ) x = opened .ir x := by
  refine (@tmsBits_quiet κ [true, true, false, false] _ _ h rfl).trans
    (List.map_congr_left fun c hc => ?_)
  obtain ⟨device, state, ir, irShift, drShift, core⟩ := c
  obtain rfl : state = .runTestIdle := h _ hc
  rfl

/-- The walk to Shift-DR opens the data registers. -/
theorem shiftDr_opened {x : List (Controller κ)} (h : AtIdle x) :
    jtagtapShiftDr (chainWire κ) x = opened .dr x := by
  refine (@tmsBits_quiet κ [true, false, false] _ _ h rfl).trans
    (List.map_congr_left fun c hc => ?_)
  obtain ⟨device, state, ir, irShift, drShift, core⟩ := c
  obtain rfl : state = .runTestIdle := h _ hc
  rfl

/-- From the state after the shifts of a path, its registers are updated. -/
def closed (p : Path) (x : List (Controller κ)) : List (Controller κ) :=
  x.map fun c => (c.update p).enter .runTestIdle

/-- The walk back from Exit1 closes them. -/
theorem returnIdle_closed {p : Path} {x : List (Controller κ)} (h : AllIn (p.shift.next true) x) :
    jtagtapReturnIdle (chainWire κ) 1 x = closed p x := by
  have hquiet : quietWalk (p.shift.next true) [true, false] = true := by cases p <;> rfl
  refine (@tmsBits_quiet κ [true, false] _ _ h hquiet).trans (List.map_congr_left fun c hc => ?_)
  have hstate := h c hc
  obtain ⟨device, state, ir, irShift, drShift, core⟩ := c
  cases p with
  | ir =>
    obtain rfl : state = .exit1Ir := hstate
    rfl
  | dr =>
    obtain rfl : state = .exit1Dr := hstate
    rfl

/-! ## A reset -/

/-- A walk leaves the devices in place. -/
theorem map_device_tmsBits (walk : List Bool) (x : List (Controller κ)) :
    (tmsBits (chainWire κ) walk x).map Controller.device = x.map Controller.device := by
  induction walk generalizing x with
  | nil => rfl
  | cons tms walk ih => rw [tmsBits, ih]; exact map_device_chain tms true x

/-- A walk moves every controller alike. -/
theorem map_state_tmsBits (walk : List Bool) (x : List (Controller κ)) :
    (tmsBits (chainWire κ) walk x).map Controller.state =
      (x.map Controller.state).map fun s => walk.foldl State.next s := by
  induction walk generalizing x with
  | nil => exact (List.map_id _).symm
  | cons tms walk ih =>
    rw [tmsBits, ih, show ((chainWire κ).clock x tms true).2 = (chain tms true x).2 from rfl,
      map_state_chain, List.map_map]
    rfl

/-- A walk in two parts. -/
theorem tmsBits_append (walk walk' : List Bool) (x : List (Controller κ)) :
    tmsBits (chainWire κ) (walk ++ walk') x =
      tmsBits (chainWire κ) walk' (tmsBits (chainWire κ) walk x) := by
  induction walk generalizing x with
  | nil => rfl
  | cons tms walk ih => exact ih _

/-- A chain of given devices that was reset: it is idle, with the instructions of a reset. -/
structure WasReset (devices : List (Device κ)) (x : List (Controller κ)) : Prop where
  devices : x.map Controller.device = devices
  idle : AtIdle x
  ir : ∀ c ∈ x, c.ir = c.device.resetIr

/-- A soft reset resets every device. -/
theorem softReset_wasReset (x : List (Controller κ)) :
    WasReset (x.map Controller.device) (jtagtapSoftReset (chainWire κ) x) := by
  have hsplit : jtagtapSoftReset (chainWire κ) x =
      tmsBits (chainWire κ) [false] (tmsBits (chainWire κ) [true, true, true, true, true] x) :=
    tmsBits_append [true, true, true, true, true] [false] x
  have hreset : AllIn .testLogicReset (tmsBits (chainWire κ) [true, true, true, true, true] x) := by
    intro c hc
    have hmem := List.mem_map_of_mem (f := Controller.state) hc
    rw [map_state_tmsBits] at hmem
    obtain ⟨s, -, hs⟩ := List.mem_map.1 hmem
    exact hs.symm.trans s.reset
  rw [hsplit, tmsBits_quiet hreset rfl, ← map_device_tmsBits [true, true, true, true, true] x]
  refine ⟨?_, ?_, ?_⟩
  · rw [List.map_map]
    exact List.map_congr_left fun c _ => Controller.device_clock c false true
  · intro c hc
    obtain ⟨c', hc', rfl⟩ := List.mem_map.1 hc
    rw [walkOne, List.foldl_cons, List.foldl_nil, Controller.state_clock, hreset c' hc']
    rfl
  · intro c hc
    obtain ⟨c', hc', rfl⟩ := List.mem_map.1 hc
    rw [walkOne, List.foldl_cons, List.foldl_nil, Controller.device_clock, Controller.clock,
      Controller.act, hreset c' hc']
    rfl

/-- The start leaves the devices in place. -/
theorem map_device_init (x : List (Controller κ)) :
    (jtagtapInit (chainWire κ) x).map Controller.device = x.map Controller.device := by
  have hclocks : ∀ n, ((fun x => (jtagtapNext (chainWire κ) true false x).2)^[n] x).map
      Controller.device =
      x.map Controller.device := by
    intro n
    induction n with
    | zero => rfl
    | succ n ih =>
      rw [Function.iterate_succ_apply']
      exact (map_device_chain true false _).trans ih
  exact (map_device_tmsBits _ _).trans (hclocks 51)

/-! ## Shifts -/

/-- Registers of a path that hold at least one bit each. -/
def Filled (p : Path) (x : List (Controller κ)) : Prop := ∀ c ∈ x, c.reg p ≠ []

/-- A sequence of bits goes in behind those of the path, and as many come out in front. -/
theorem tdiTdoSeq_loaded {p : Path} {x : List (Controller κ)} (hx : Filled p x) (finalTms : Bool) :
    ∀ (tdi : List Bool) {old : List Bool}, old.length = (bits p x).length →
      jtagtapTdiTdoSeq (chainWire κ) finalTms tdi (loaded p.shift p x old) =
        ((old ++ tdi).take tdi.length,
          loaded (if finalTms ∧ tdi ≠ [] then p.shift.next true else p.shift) p x
            ((old ++ tdi).drop tdi.length)) := by
  have hshift : p.shift.next false = p.shift := by cases p <;> rfl
  have hhead : ∀ (old : List Bool) (b : Bool) (rest : List Bool),
      (old ++ b :: rest) = (old ++ [b]).headD true :: ((old ++ [b]).tail ++ rest) := by
    intro old b rest
    cases old with
    | nil => rfl
    | cons a old => simp
  have htail : ∀ (old : List Bool) (b : Bool), (old ++ [b]).tail.length = old.length := by simp
  intro tdi
  induction tdi with
  | nil =>
    intro old _
    rw [jtagtapTdiTdoSeq, List.length_nil, List.append_nil, if_neg (by simp)]
    rfl
  | cons b tdi ih =>
    intro old hlen
    have hclock : ∀ tms, (chainWire κ).clock (loaded p.shift p x old) tms b =
        ((old ++ [b]).headD true, loaded (p.shift.next tms) p x (old ++ [b]).tail) := fun tms =>
      chain_loaded hx hlen tms b
    cases tdi with
    | nil =>
      rw [jtagtapTdiTdoSeq, hclock]
      cases finalTms with
      | true =>
        rw [if_pos (by simp), hhead old b []]
        simp
      | false =>
        rw [if_neg (by simp), hshift, hhead old b []]
        simp
    | cons b' tdi =>
      have hrest := ih ((htail old b).trans hlen)
      rw [jtagtapTdiTdoSeq, hclock, hshift]
      dsimp only
      rw [hrest, hhead old b (b' :: tdi)]
      simp

/-- The state of a path that shifts, with as many ones behind its bits as were clocked. -/
theorem onesAfter_loaded {p : Path} {x : List (Controller κ)} (hx : Filled p x) {old : List Bool}
    (hlen : old.length = (bits p x).length) (n : Nat) :
    onesAfter (chainWire κ) (loaded p.shift p x old) n =
      loaded p.shift p x ((old ++ List.replicate n true).drop n) := by
  have hseq := tdiTdoSeq_loaded hx false (List.replicate n true) hlen
  rw [tdiTdoSeq_ones, List.length_replicate, if_neg (by simp)] at hseq
  exact congrArg Prod.snd hseq

/-- The bits that a path gives while ones go in. -/
theorem bitAt_loaded {p : Path} {x : List (Controller κ)} (hx : Filled p x) {old : List Bool}
    (hlen : old.length = (bits p x).length) (n : Nat) :
    bitAt (chainWire κ) (loaded p.shift p x old) n = old.getD n true := by
  have hclock : bitAt (chainWire κ) (loaded p.shift p x old) n =
      ((old ++ List.replicate n true).drop n ++ [true]).headD true := by
    rw [bitAt, onesAfter_loaded hx hlen]
    exact congrArg Prod.fst (chain_loaded hx (by
      rw [List.length_drop, List.length_append, List.length_replicate]
      omega) false true)
  rw [hclock]
  rcases Nat.lt_or_ge n old.length with hlt | hge
  · rw [List.drop_append_of_le_length (Nat.le_of_lt hlt), List.drop_eq_getElem_cons hlt,
      List.cons_append, List.cons_append, List.headD_cons, List.getD_eq_getElem _ _ hlt]
  · rw [List.drop_append, List.drop_eq_nil_of_le hge, List.nil_append, List.drop_replicate,
      List.getD_eq_default _ _ hge]
    cases n - (n - old.length) with
    | zero => rfl
    | succ k => rfl

end Jtag

end Blackmagic
