import Mathlib

/-!
# Test access ports in a chain

A TAP controller of IEEE 1149.1 has 16 states that it goes through with TMS, an instruction register
and a data register that the instruction selects. In a chain every controller sees the same TMS, and
what it shifts out goes into the one before it. While all of them shift, the registers of a path are
one register (`chain_loaded`).
-/

namespace Tap

/-- The states of a controller. -/
inductive State
  | testLogicReset
  | runTestIdle
  | selectDr
  | captureDr
  | shiftDr
  | exit1Dr
  | pauseDr
  | exit2Dr
  | updateDr
  | selectIr
  | captureIr
  | shiftIr
  | exit1Ir
  | pauseIr
  | exit2Ir
  | updateIr
deriving DecidableEq

/-- The next state, with TMS low and with TMS high. -/
def State.next : State → Bool → State
  | testLogicReset, tms => if tms then testLogicReset else runTestIdle
  | runTestIdle, tms => if tms then selectDr else runTestIdle
  | selectDr, tms => if tms then selectIr else captureDr
  | captureDr, tms => if tms then exit1Dr else shiftDr
  | shiftDr, tms => if tms then exit1Dr else shiftDr
  | exit1Dr, tms => if tms then updateDr else pauseDr
  | pauseDr, tms => if tms then exit2Dr else pauseDr
  | exit2Dr, tms => if tms then updateDr else shiftDr
  | updateDr, tms => if tms then selectDr else runTestIdle
  | selectIr, tms => if tms then testLogicReset else captureIr
  | captureIr, tms => if tms then exit1Ir else shiftIr
  | shiftIr, tms => if tms then exit1Ir else shiftIr
  | exit1Ir, tms => if tms then updateIr else pauseIr
  | pauseIr, tms => if tms then exit2Ir else pauseIr
  | exit2Ir, tms => if tms then updateIr else shiftIr
  | updateIr, tms => if tms then selectDr else runTestIdle

/-- Five clocks with TMS high reset a controller from any state. -/
theorem State.reset (s : State) :
    ((((s.next true).next true).next true).next true).next true = testLogicReset := by
  cases s <;> rfl

/-- A device: what its registers capture and what an update does to the rest of it. Bits are in the
order in which they are shifted out. -/
structure Device (κ : Type) where
  irCapture : List Bool
  resetIr : List Bool
  drCapture : List Bool → κ → List Bool
  drUpdate : List Bool → List Bool → κ → κ

/-- The controller of a device. -/
structure Controller (κ : Type) where
  device : Device κ
  state : State
  ir : List Bool
  irShift : List Bool
  drShift : List Bool
  core : κ

/-- The two paths through a controller. -/
inductive Path
  | ir
  | dr
deriving DecidableEq

/-- The state in which a path shifts. -/
def Path.shift : Path → State
  | ir => .shiftIr
  | dr => .shiftDr

namespace Controller

variable {κ : Type}

/-- The shift register of a path. -/
def reg (c : Controller κ) : Path → List Bool
  | .ir => c.irShift
  | .dr => c.drShift

/-- Load the shift register of a path. -/
def setReg (c : Controller κ) : Path → List Bool → Controller κ
  | .ir, bits => { c with irShift := bits }
  | .dr, bits => { c with drShift := bits }

/-- TDO; nothing drives it low when no register shifts. -/
def tdo (c : Controller κ) : Bool :=
  match c.state with
  | .shiftIr => c.irShift.headD true
  | .shiftDr => c.drShift.headD true
  | _ => true

/-- The register of a path takes what is there for it. -/
def capture (c : Controller κ) : Path → Controller κ
  | .ir => { c with irShift := c.device.irCapture }
  | .dr => { c with drShift := c.device.drCapture c.ir c.core }

/-- What was shifted into the register of a path takes effect. -/
def update (c : Controller κ) : Path → Controller κ
  | .ir => { c with ir := c.irShift }
  | .dr => { c with core := c.device.drUpdate c.ir c.drShift c.core }

/-- What the state of a controller does in a clock. -/
def act (c : Controller κ) (tdi : Bool) : Controller κ :=
  match c.state with
  | .testLogicReset => { c with ir := c.device.resetIr }
  | .captureIr => c.capture .ir
  | .shiftIr => c.setReg .ir (c.irShift.tail ++ [tdi])
  | .updateIr => c.update .ir
  | .captureDr => c.capture .dr
  | .shiftDr => c.setReg .dr (c.drShift.tail ++ [tdi])
  | .updateDr => c.update .dr
  | _ => c

/-- A controller goes to a state. -/
def enter (s : State) (c : Controller κ) : Controller κ := { c with state := s }

/-- A clock. -/
def clock (tms tdi : Bool) (c : Controller κ) : Controller κ := (c.act tdi).enter (c.state.next tms)

@[simp] theorem setReg_reg (c : Controller κ) (p : Path) : c.setReg p (c.reg p) = c := by
  cases p <;> rfl

@[simp] theorem reg_setReg (c : Controller κ) (p : Path) (bits : List Bool) :
    (c.setReg p bits).reg p = bits := by
  cases p <;> rfl

@[simp] theorem setReg_setReg (c : Controller κ) (p : Path) (bits bits' : List Bool) :
    (c.setReg p bits).setReg p bits' = c.setReg p bits' := by
  cases p <;> rfl

/-- A state can be entered before or after a register is set. -/
theorem enter_setReg (c : Controller κ) (p : Path) (bits : List Bool) (s : State) :
    (c.setReg p bits).enter s = (c.enter s).setReg p bits := by
  cases p <;> rfl

@[simp] theorem reg_enter (c : Controller κ) (p : Path) (s : State) :
    (c.enter s).reg p = c.reg p := by
  cases p <;> rfl

@[simp] theorem enter_enter (c : Controller κ) (s s' : State) : (c.enter s).enter s' = c.enter s' :=
  rfl

/-- Staying in a state changes nothing. -/
theorem enter_state (c : Controller κ) : c.enter c.state = c := rfl

@[simp] theorem state_enter (c : Controller κ) (s : State) : (c.enter s).state = s := rfl

@[simp] theorem state_clock (c : Controller κ) (tms tdi : Bool) :
    (c.clock tms tdi).state = c.state.next tms := rfl

@[simp] theorem device_clock (c : Controller κ) (tms tdi : Bool) :
    (c.clock tms tdi).device = c.device := by
  unfold clock act enter
  cases c.state <;> rfl

/-- A controller that does not shift does not look at TDI. -/
theorem act_congr {c : Controller κ} (hir : c.state ≠ .shiftIr) (hdr : c.state ≠ .shiftDr)
    (tdi tdi' : Bool) :
    c.act tdi = c.act tdi' := by
  unfold act
  cases hs : c.state with
  | shiftIr => exact absurd hs hir
  | shiftDr => exact absurd hs hdr
  | _ => rfl

/-- A register that shifts. -/
theorem clock_shift {c : Controller κ} {p : Path} (h : c.state = p.shift) (tms tdi : Bool) :
    c.clock tms tdi = (c.setReg p ((c.reg p).tail ++ [tdi])).enter (p.shift.next tms) := by
  cases p with
  | ir =>
    rw [clock, h, act, h]
    rfl
  | dr =>
    rw [clock, h, act, h]
    rfl

/-- In a shift state TDO is the first bit of the register. -/
theorem tdo_shift {c : Controller κ} {p : Path} (h : c.state = p.shift) :
    c.tdo = (c.reg p).headD true := by
  cases p with
  | ir => rw [tdo, h]; rfl
  | dr => rw [tdo, h]; rfl

end Controller

open Controller

variable {κ : Type}

/-- A clock of a chain: TDO, and the controllers after it. The first one is next to TDO. -/
def chain (tms tdi : Bool) : List (Controller κ) → Bool × List (Controller κ)
  | [] => (tdi, [])
  | c :: cs => (c.tdo, c.clock tms (chain tms tdi cs).1 :: (chain tms tdi cs).2)

/-- A clock does not change the devices. -/
theorem map_device_chain (tms tdi : Bool) (cs : List (Controller κ)) :
    (chain tms tdi cs).2.map Controller.device = cs.map Controller.device := by
  induction cs with
  | nil => rfl
  | cons c cs ih => rw [chain, List.map_cons, List.map_cons, device_clock, ih]

/-- All controllers of a chain take the same step. -/
theorem map_state_chain (tms tdi : Bool) (cs : List (Controller κ)) :
    (chain tms tdi cs).2.map Controller.state = (cs.map Controller.state).map fun s =>
      s.next tms := by
  induction cs with
  | nil => rfl
  | cons c cs ih => rw [chain, List.map_cons, List.map_cons, List.map_cons, state_clock, ih]

/-- All controllers are in a state. -/
def AllIn (s : State) (cs : List (Controller κ)) : Prop := ∀ c ∈ cs, c.state = s

/-- A chain that does not shift: every controller makes its own step. -/
theorem chain_of_allIn {s : State} {cs : List (Controller κ)} (h : AllIn s cs) (hir : s ≠ .shiftIr)
    (hdr : s ≠ .shiftDr) (tms tdi : Bool) : (chain tms tdi cs).2 = cs.map (clock tms true) := by
  induction cs with
  | nil => rfl
  | cons c cs ih =>
    obtain ⟨hc, hcs⟩ := List.forall_mem_cons.1 h
    have hact := act_congr (hc ▸ hir) (hc ▸ hdr) (chain tms tdi cs).1 true
    rw [chain, List.map_cons, ih hcs, clock, clock, hact]

/-! ## The registers of a path as one register -/

/-- The bits of a path, from TDO to TDI. -/
def bits (p : Path) (cs : List (Controller κ)) : List Bool := cs.flatMap fun c => c.reg p

/-- The bits of a path are others. -/
def load (p : Path) : List (Controller κ) → List Bool → List (Controller κ)
  | [], _ => []
  | c :: cs, new => c.setReg p (new.take (c.reg p).length) :: load p cs (new.drop (c.reg p).length)

/-- All controllers are in a state, and the bits of a path are others. -/
def loaded (s : State) (p : Path) (cs : List (Controller κ)) (new : List Bool) :
    List (Controller κ) :=
  (load p cs new).map (enter s)

variable {p : Path} {s : State} {cs : List (Controller κ)}

@[simp] theorem bits_nil : bits p ([] : List (Controller κ)) = [] := rfl

@[simp] theorem bits_cons (c : Controller κ) : bits p (c :: cs) = c.reg p ++ bits p cs :=
  List.flatMap_cons

/-- Bits are loaded into the first device first. -/
theorem loaded_cons (c : Controller κ) (new : List Bool) :
    loaded s p (c :: cs) new =
      (c.setReg p (new.take (c.reg p).length)).enter s :: loaded s p cs
        (new.drop (c.reg p).length) := rfl

/-- Loading what is there changes nothing. -/
theorem loaded_bits (h : AllIn s cs) : loaded s p cs (bits p cs) = cs := by
  induction cs with
  | nil => rfl
  | cons c cs ih =>
    obtain ⟨hc, hcs⟩ := List.forall_mem_cons.1 h
    rw [loaded_cons, bits_cons, List.take_left, List.drop_left, setReg_reg, ih hcs, ← hc,
      enter_state]

/-- One clock of a path that shifts: the first bit goes out, and TDI comes in behind the last
one. -/
theorem chain_loaded (hne : ∀ c ∈ cs, c.reg p ≠ []) {old : List Bool}
    (hlen : old.length = (bits p cs).length) (tms tdi : Bool) :
    chain tms tdi (loaded p.shift p cs old) =
      ((old ++ [tdi]).headD true, loaded (p.shift.next tms) p cs (old ++ [tdi]).tail) := by
  induction cs generalizing old with
  | nil =>
    obtain rfl : old = [] := List.length_eq_zero_iff.1 hlen
    rfl
  | cons c cs ih =>
    obtain ⟨hc, hcs⟩ := List.forall_mem_cons.1 hne
    obtain ⟨n, hn⟩ : ∃ n, (c.reg p).length = n + 1 :=
      Nat.exists_eq_succ_of_ne_zero fun h => hc (List.length_eq_zero_iff.1 h)
    rw [bits_cons, List.length_append, hn] at hlen
    -- the bits of this register are `b` and `front`, and those of the others come behind them
    obtain ⟨b, front, back, rfl, hfront⟩ : ∃ b front back, old = b :: (front ++ back) ∧
        front.length = n := by
      cases old with
      | nil =>
        rw [List.length_nil] at hlen
        omega
      | cons b old =>
        rw [List.length_cons] at hlen
        refine ⟨b, old.take n, old.drop n, by rw [List.take_append_drop], ?_⟩
        rw [List.length_take]
        omega
    have hback : back.length = (bits p cs).length := by
      rw [List.length_cons, List.length_append] at hlen
      omega
    obtain ⟨e, rest, hnext⟩ : ∃ e rest, back ++ [tdi] = e :: rest := by
      cases back with
      | nil => exact ⟨tdi, [], rfl⟩
      | cons e back => exact ⟨e, back ++ [tdi], rfl⟩
    have hshifts := ih hcs hback
    rw [hnext] at hshifts
    have hstate : ((c.setReg p (b :: front)).enter p.shift).state = p.shift := rfl
    have hlen' : (front ++ [e]).length = n + 1 := by
      rw [List.length_append, hfront]
      rfl
    have hin : b :: (front ++ back) ++ [tdi] = b :: (front ++ [e] ++ rest) := by
      rw [List.cons_append, List.append_assoc, hnext, List.append_cons]
    rw [loaded_cons, hn, List.take_succ_cons, List.drop_succ_cons, List.take_left' hfront,
      List.drop_left' hfront, chain, hshifts, tdo_shift hstate, clock_shift hstate, reg_enter,
      reg_setReg, hin, loaded_cons, hn,
      List.tail_cons, List.tail_cons, List.tail_cons, List.take_left' hlen',
      List.drop_left' hlen', ← enter_setReg, setReg_setReg,
      enter_enter]
    rfl

/-- A load of two chains, one behind the other. -/
theorem load_append : ∀ (cs cs' : List (Controller κ)) {new new' : List Bool},
    new.length = (bits p cs).length →
    load p (cs ++ cs') (new ++ new') = load p cs new ++ load p cs' new' := by
  intro cs
  induction cs with
  | nil =>
    intro cs' new new' hlen
    obtain rfl : new = [] := List.length_eq_zero_iff.1 hlen
    rfl
  | cons c cs ih =>
    intro cs' new new' hlen
    rw [bits_cons, List.length_append] at hlen
    rw [List.cons_append, load, load, List.take_append_of_le_length (by omega),
      List.drop_append_of_le_length (by omega), ih cs' (by rw [List.length_drop]; omega),
      List.cons_append]

/-- A load of one device. -/
theorem load_singleton (c : Controller κ) {new : List Bool} (hlen : new.length = (c.reg p).length) :
    load p [c] new = [c.setReg p new] := by
  rw [load, List.take_of_length_le (Nat.le_of_eq hlen), load]

/-- A load of equal bits. -/
theorem load_replicate (b : Bool) (cs : List (Controller κ)) :
    load p cs (List.replicate (bits p cs).length b) =
      cs.map fun c => c.setReg p (List.replicate (c.reg p).length b) := by
  induction cs with
  | nil => rfl
  | cons c cs ih =>
    rw [bits_cons, List.length_append, List.replicate_add, load,
      List.take_left' List.length_replicate, List.drop_left' List.length_replicate, ih,
      List.map_cons]

/-! ## A register on its own -/

/-- What a register holds after a sequence of bits. -/
def shiftIn (reg stream : List Bool) : List Bool := (reg ++ stream).drop stream.length

/-- What comes out of it meanwhile. -/
def shiftOut (reg stream : List Bool) : List Bool := (reg ++ stream).take stream.length

@[simp] theorem length_shiftIn (reg stream : List Bool) :
    (shiftIn reg stream).length = reg.length := by
  rw [shiftIn, List.length_drop, List.length_append, Nat.add_sub_cancel]

@[simp] theorem shiftIn_nil (reg : List Bool) : shiftIn reg [] = reg := List.append_nil reg

/-- Bits are shifted in in two parts. -/
theorem shiftIn_append (reg stream stream' : List Bool) :
    shiftIn reg (stream ++ stream') = shiftIn (shiftIn reg stream) stream' := by
  rw [shiftIn, shiftIn, shiftIn, ← List.append_assoc,
    ← List.drop_append_of_le_length (by rw [List.length_append]; omega), List.drop_drop,
    List.length_append]

/-- As many bits as the register has are what it holds then. -/
theorem shiftIn_of_length {reg stream : List Bool} (h : stream.length = reg.length) :
    shiftIn reg stream = stream :=
  List.drop_left' h.symm

section
variable (front back : Nat) (reg stream : List Bool)

/-- What comes into the register of a device between bypassed ones: their bits, and then the
sequence that is meant for it. -/
def between : List Bool := List.replicate back false ++ List.replicate front true ++ stream

/-- The register of a device between bypassed ones, with ones before and behind its bits. -/
theorem shiftIn_between :
    ∃ rest, rest.length = front ∧
      shiftIn (List.replicate front false ++ (reg ++ List.replicate back false))
          (List.replicate front true ++ (stream ++ List.replicate back true)) =
        rest ++ (shiftIn reg (between front back stream) ++ List.replicate back true) := by
  -- all that goes through the register
  obtain ⟨through, hthrough⟩ : ∃ through, reg ++ between front back stream = through := ⟨_, rfl⟩
  have hlen : (between front back stream).length = back + front + stream.length := by
    rw [between, List.length_append, List.length_append, List.length_replicate,
      List.length_replicate]
  have hle : stream.length + back ≤ through.length := by
    rw [← hthrough, List.length_append, hlen]
    omega
  have hall : List.replicate front false ++ (reg ++ List.replicate back false) ++
      (List.replicate front true ++ (stream ++ List.replicate back true)) =
      List.replicate front false ++ (through ++ List.replicate back true) := by
    rw [← hthrough, between]
    simp only [List.append_assoc]
  refine ⟨(through.drop (stream.length + back)).take front, ?_, ?_⟩
  · rw [List.length_take, List.length_drop, ← hthrough, List.length_append, hlen]
    omega
  · rw [shiftIn, hall, List.length_append, List.length_append, List.length_replicate,
      List.length_replicate, ← List.drop_drop, List.drop_left' List.length_replicate,
      List.drop_append_of_le_length hle, shiftIn, hthrough,
      hlen, ← List.append_assoc]
    have hsplit := List.take_append_drop front (through.drop (stream.length + back))
    rw [List.drop_drop] at hsplit
    rw [show back + front + stream.length = stream.length + back + front by omega, hsplit]

/-- What comes out of the others first is dropped. -/
theorem shiftOut_between :
    shiftOut
        (shiftIn (List.replicate front false ++ (reg ++ List.replicate back false))
        (List.replicate front true))
        stream = (shiftOut reg (between front back stream)).take stream.length := by
  have hfront : shiftIn (List.replicate front false ++ (reg ++ List.replicate back false))
      (List.replicate front true) =
      reg ++ (List.replicate back false ++ List.replicate front true) := by
    rw [shiftIn, List.append_assoc, List.length_replicate, List.drop_left' List.length_replicate,
      List.append_assoc]
  rw [hfront, shiftOut, shiftOut, List.take_take, between, List.length_append,
    Nat.min_eq_left (by omega)]
  simp only [List.append_assoc]

end

/-! ## What a chain is for -/

/-- The instruction that puts a device into BYPASS. -/
def Device.bypass (d : Device κ) : List Bool := List.replicate d.irCapture.length true

/-- A device as the standard has it: no path is empty, and in BYPASS it is one bit that captures a
zero and changes nothing. -/
structure Device.WellFormed (d : Device κ) : Prop where
  irFilled : d.irCapture ≠ []
  drFilled : ∀ ir core, d.drCapture ir core ≠ []
  bypassCapture : ∀ core, d.drCapture d.bypass core = [false]
  bypassUpdate : ∀ bits core, d.drUpdate d.bypass bits core = core

/-- What a device keeps between two scans of a path. -/
structure Port (κ : Type) where
  device : Device κ
  ir : List Bool
  core : κ

def Controller.port (c : Controller κ) : Port κ := ⟨c.device, c.ir, c.core⟩

namespace Port

def withIr (ir : List Bool) (port : Port κ) : Port κ := { port with ir := ir }

def bypassed (port : Port κ) : Port κ := { port with ir := port.device.bypass }

/-- The data register that the instruction selects. -/
def dataRegister (port : Port κ) : List Bool := port.device.drCapture port.ir port.core

/-- The data register is scanned, and updated. -/
def shift (stream : List Bool) (port : Port κ) : Port κ :=
  { port with core := port.device.drUpdate port.ir (shiftIn port.dataRegister stream) port.core }

end Port

/-- One element of a list changes in one way and the others in another. -/
def atPlace {α : Type} (f g : α → α) : Nat → List α → List α
  | _, [] => []
  | 0, a :: l => f a :: l.map g
  | n + 1, a :: l => g a :: atPlace f g n l

/-- A change at one place of a list. -/
theorem atPlace_append {α : Type} (f g : α → α) (l : List α) (a : α) (l' : List α) :
    atPlace f g l.length (l ++ a :: l') = l.map g ++ f a :: l'.map g := by
  induction l with
  | nil => rfl
  | cons b l ih =>
      rw [List.cons_append, List.length_cons, atPlace, ih, List.map_cons, List.cons_append]

/-- Two changes at one place. -/
theorem atPlace_atPlace {α : Type} (f g f' g' : α → α) :
    ∀ (n : Nat) (l : List α), atPlace f g n (atPlace f' g' n l) =
      atPlace (f ∘ f') (g ∘ g') n l := by
  intro n l
  induction l generalizing n with
  | nil => cases n <;> rfl
  | cons a l ih =>
    cases n with
    | zero => rw [atPlace, atPlace, atPlace, List.map_map]; rfl
    | succ n => rw [atPlace, atPlace, atPlace, ih]; rfl

/-- An element after a change at one place. -/
theorem getElem?_atPlace {α : Type} (f g : α → α) :
    ∀ (n : Nat) (l : List α) (i : Nat), (atPlace f g n l)[i]? =
      l[i]?.map (if i = n then f else g) := by
  intro n l
  induction l generalizing n with
  | nil =>
    intro i
    cases n <;> simp [atPlace]
  | cons a l ih =>
    intro i
    cases n with
    | zero => cases i <;> simp [atPlace]
    | succ n =>
      cases i with
      | zero => simp [atPlace]
      | succ i => simp [atPlace, ih]

/-- A data register of one device of the chain is scanned. -/
def shiftedAt (d : Nat) (stream : List Bool) (ports : List (Port κ)) : List (Port κ) :=
  atPlace (Port.shift (between d (ports.length - (d + 1)) stream)) id d ports

/-- What comes out of it. -/
def givenAt (d : Nat) (stream : List Bool) (ports : List (Port κ)) : List Bool :=
  match ports[d]? with
  | some port => (shiftOut port.dataRegister (between d (ports.length - (d + 1)) stream)).take
      stream.length
  | none => []

end Tap
