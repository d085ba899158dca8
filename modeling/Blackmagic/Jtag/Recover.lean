import Blackmagic.Jtag.Chain
import Blackmagic.Jtag.Robust

/-!
# A scan of a conformant chain

A conformant device has an ID code, an instruction register that captures a one and then zeros, and
a BYPASS register of one bit. The three walks of a scan read these registers one device after the
other (`least_idcodes`, `registers_chain`, `least_bypass`), so the table is filled in with what the
chain is, up to the widths of its fields.
-/

namespace Blackmagic

open Effect Tap

namespace Jtag

/-! ## Conformant devices -/

/-- The bits of a word, the lowest first. -/
def wordBits (word : UInt32) : List Bool := (List.range 32).map word.toNat.testBit

/-- A device as a scan expects it. -/
structure ConformantDevice (κ : Type) extends Device κ where
  idcode : UInt32
  irLen : Nat
  two_le : 2 ≤ irLen
  le_max : irLen ≤ jtagMaxIrLen
  idcode_ne : idcode ≠ 0xffffffff
  ir_capture : irCapture = true :: List.replicate (irLen - 1) false
  dr_idcode : ∀ core, drCapture resetIr core = wordBits idcode
  dr_bypass : ∀ core, drCapture (List.replicate irLen true) core = [false]

/-- A number is put together from its low bits. -/
theorem bitsNat_testBit (n x : Nat) : bitsNat ((List.range n).map x.testBit) = x % 2 ^ n := by
  induction n generalizing x with
  | zero => rw [pow_zero, Nat.mod_one]; rfl
  | succ n ih =>
    have htail : (List.range n).map (x.testBit ∘ Nat.succ) = (List.range n).map (x / 2).testBit :=
      List.map_congr_left fun i _ => Nat.testBit_succ x i
    have hbit : (x.testBit 0).toNat = x % 2 := by
      rw [Nat.testBit_zero]
      rcases Nat.mod_two_eq_zero_or_one x with h | h
      · rw [h]; rfl
      · rw [h]; rfl
    rw [List.range_succ_eq_map, List.map_cons, List.map_map, htail, bitsNat,
      List.foldr_cons, ← bitsNat, ih, hbit, Nat.pow_succ', Nat.mod_mul]

/-- A word is put together from its bits. -/
theorem ofNat_wordBits (word : UInt32) : UInt32.ofNat (bitsNat (wordBits word)) = word := by
  rw [wordBits, bitsNat_testBit, Nat.mod_eq_of_lt word.toNat_lt, UInt32.ofNat_toNat]

section
variable {κ : Type} {chain : List (ConformantDevice κ)} {x : List (Controller κ)}

/-- A device captures as many bits as its instruction register has. -/
theorem ConformantDevice.length_irCapture (d : ConformantDevice κ) :
    d.irCapture.length = d.irLen := by
  rw [d.ir_capture, List.length_cons, List.length_replicate,
    Nat.sub_add_cancel (Nat.le_trans (by decide) d.two_le)]

/-- The devices of a chain, from the controllers of the wire. -/
abbrev Devices (chain : List (ConformantDevice κ)) (x : List (Controller κ)) : Prop :=
  x.map Controller.device = chain.map ConformantDevice.toDevice

/-- What the controllers hold, device for device. -/
theorem flatMap_devices {β : Type} {f : Controller κ → List β} {g : ConformantDevice κ → List β}
    (h : Devices chain x) (hfg : ∀ c ∈ x, ∀ d ∈ chain, c.device = d.toDevice → f c = g d) :
    x.flatMap f = chain.flatMap g := by
  induction chain generalizing x with
  | nil =>
    obtain rfl : x = [] := List.map_eq_nil_iff.1 h
    rfl
  | cons d chain ih =>
    cases x with
    | nil => cases h
    | cons c x =>
      obtain ⟨hc, hx⟩ := List.cons.inj h
      rw [List.flatMap_cons, List.flatMap_cons, hfg c List.mem_cons_self d List.mem_cons_self hc,
        ih hx fun c' hc' d' hd' =>
        hfg c' (List.mem_cons_of_mem c hc') d' (List.mem_cons_of_mem d hd')]

/-- A controller of the chain belongs to one of the devices. -/
theorem Devices.mem (h : Devices chain x) {c : Controller κ} (hc : c ∈ x) :
    ∃ d ∈ chain, c.device = d.toDevice := by
  have hmem := List.mem_map_of_mem (f := Controller.device) hc
  rw [h] at hmem
  obtain ⟨d, hd, heq⟩ := List.mem_map.1 hmem
  exact ⟨d, hd, heq.symm⟩

/-- What keeps the devices of the controllers keeps the chain. -/
theorem Devices.map {f : Controller κ → Controller κ} (h : Devices chain x)
    (hf : ∀ c, (f c).device = c.device) :
    Devices chain (x.map f) := by
  unfold Devices
  rw [List.map_map, ← h]
  exact List.map_congr_left fun c _ => hf c

/-! ## A path is opened, read and left -/

/-- The state says nothing about the register. -/
theorem reg_capture_enter (c : Controller κ) (p : Path) (s : State) :
    ((c.capture p).enter s).reg p = (c.capture p).reg p := Controller.reg_enter _ p s

/-- The bits of an open chain are those of its registers in order. -/
theorem bits_opened (p : Path) (x : List (Controller κ)) :
    bits p (opened p x) = x.flatMap fun c => (c.capture p).reg p := by
  rw [bits, opened, List.flatMap_map]
  exact List.flatMap_congr fun c _ => reg_capture_enter c p _

/-- An open chain is loaded with its own bits. -/
theorem opened_loaded (p : Path) (x : List (Controller κ)) :
    opened p x = loaded p.shift p (opened p x) (bits p (opened p x)) :=
  (loaded_bits (allIn_map_enter _ _ _)).symm

/-- Opening keeps the devices. -/
theorem Devices.opened (h : Devices chain x) (p : Path) : Devices chain (opened p x) :=
  h.map fun c => by cases p <;> rfl

/-- Loading keeps them. -/
theorem devices_load {p : Path} {new : List Bool} (s : State) (h : Devices chain x) :
    Devices chain (loaded s p x new) := by
  have hmap : ∀ (x : List (Controller κ)) (new : List Bool),
      (loaded s p x new).map Controller.device = x.map Controller.device := by
    intro x
    induction x with
    | nil => exact fun _ => rfl
    | cons c x ih =>
      intro new
      rw [loaded_cons, List.map_cons, List.map_cons, ih]
      cases p <;> rfl
  exact (hmap x new).trans h

/-- From the shifts of a path back to Run-Test/Idle. -/
theorem leaveShift_loaded {p : Path} (hx : Filled p x) {old : List Bool}
    (hlen : old.length = (bits p x).length) :
    leaveShift (chainWire κ) (loaded p.shift p x old) =
      closed p (loaded (p.shift.next true) p x (old ++ [true]).tail) := by
  have hnext : (jtagtapNext (chainWire κ) true true (loaded p.shift p x old)).2 =
      loaded (p.shift.next true) p x (old ++ [true]).tail :=
        congrArg Prod.snd (chain_loaded hx hlen true true)
  rw [leaveShift, hnext]
  exact returnIdle_closed fun c hc => by
    obtain ⟨c', -, rfl⟩ := List.mem_map.1 hc
    rfl

/-- A closed chain is in Run-Test/Idle. -/
theorem atIdle_closed (p : Path) (x : List (Controller κ)) : AtIdle (closed p x) :=
  allIn_map_enter _ _ _

/-- Closing keeps the devices. -/
theorem Devices.closed (h : Devices chain x) (p : Path) : Devices chain (closed p x) :=
  h.map fun c => by cases p <;> rfl

/-- The walk over a path of a chain in Run-Test/Idle, so many clocks long, leaves the chain in
Run-Test/Idle. -/
theorem leave_opened {p : Path} (h : Devices chain x) (hx : Filled p (opened p x)) (n : Nat) :
    AtIdle (leaveShift (chainWire κ) (onesAfter (chainWire κ) (opened p x) n)) ∧
      Devices chain (leaveShift (chainWire κ) (onesAfter (chainWire κ) (opened p x) n)) := by
  rw [opened_loaded, onesAfter_loaded hx rfl, leaveShift_loaded hx (by simp)]
  exact ⟨atIdle_closed _ _, (devices_load _ (h.opened p)).closed p⟩

/-! ## The ID codes -/

/-- After a reset the chain holds the ID codes. -/
theorem bits_idcodes (h : WasReset (chain.map ConformantDevice.toDevice) x) :
    bits .dr (opened .dr x) = chain.flatMap fun d => wordBits d.idcode := by
  rw [bits_opened]
  refine flatMap_devices h.devices fun c hc d _ hd => ?_
  change c.device.drCapture c.ir c.core = _
  rw [h.ir c hc, hd, d.dr_idcode]

/-- A device that was reset has a data register to shift. -/
theorem filled_idcodes (h : WasReset (chain.map ConformantDevice.toDevice) x) :
    Filled .dr (opened .dr x) := by
  intro c hc
  obtain ⟨c', hc', rfl⟩ := List.mem_map.1 hc
  obtain ⟨d, -, hd⟩ := Devices.mem h.devices hc'
  change c'.device.drCapture c'.ir c'.core ≠ []
  rw [h.ir c' hc', hd, d.dr_idcode]
  exact List.cons_ne_nil _ _

/-- Bits of the words of a list. -/
theorem getD_words (chain : List (ConformantDevice κ)) (i : Nat) {j : Nat} (hj : j < 32) :
    (chain.flatMap fun d => wordBits d.idcode).getD (32 * i + j) true =
      ((chain.map ConformantDevice.idcode).getD i 0xffffffff).toNat.testBit j := by
  induction chain generalizing i with
  | nil =>
    have hones : ∀ j < 32, (0xffffffff : UInt32).toNat.testBit j = true := by decide
    exact (hones j hj).symm
  | cons d chain ih =>
    have hlen : (wordBits d.idcode).length = 32 := by
      rw [wordBits, List.length_map, List.length_range]
    rw [List.flatMap_cons, List.map_cons]
    cases i with
    | zero =>
      rw [Nat.mul_zero, Nat.zero_add, List.getD_append _ _ _ _ (by omega), List.getD_cons_zero,
        wordBits, List.getD_eq_getElem _ _ (by simpa using hj), List.getElem_map,
        List.getElem_range]
    | succ i =>
      rw [List.getD_append_right _ _ _ _ (by omega), hlen, List.getD_cons_succ, ← ih i]
      congr 1
      omega

/-- The words on the wire are the ID codes, then ones. -/
theorem wordAt_idcodes (h : WasReset (chain.map ConformantDevice.toDevice) x) (i : Nat) :
    wordAt (chainWire κ) (opened .dr x) i = (chain.map ConformantDevice.idcode).getD i
      0xffffffff := by
  have hbit : ∀ n, bitAt (chainWire κ) (opened .dr x) n =
      (chain.flatMap fun d => wordBits d.idcode).getD n true := by
    intro n
    rw [opened_loaded, bitAt_loaded (filled_idcodes h) rfl, bits_idcodes h]
  have hbits : (List.range 32).map (fun j => bitAt (chainWire κ) (opened .dr x) (32 * i + j)) =
      wordBits ((chain.map ConformantDevice.idcode).getD i 0xffffffff) := by
    refine List.map_congr_left fun j hj => ?_
    rw [hbit, getD_words chain i (List.mem_range.1 hj)]
  rw [wordAt, hbits, ofNat_wordBits]

/-- The word of ones comes after the ID codes. -/
theorem least_idcodes (h : WasReset (chain.map ConformantDevice.toDevice) x) :
    IsLeast {i | wordAt (chainWire κ) (opened .dr x) i = 0xffffffff} chain.length := by
  constructor
  · change wordAt _ _ _ = _
    rw [wordAt_idcodes h, List.getD_eq_default _ _ (by rw [List.length_map])]
  · intro i hi
    by_contra hlt
    rw [Nat.not_le] at hlt
    change wordAt _ _ _ = _ at hi
    rw [wordAt_idcodes h, List.getD_eq_getElem _ _ (by rwa [List.length_map]),
      List.getElem_map] at hi
    exact (chain[i]).idcode_ne hi

/-! ## The instruction registers -/

/-- The instruction registers hold what the devices capture. -/
theorem bits_irs (h : Devices chain x) :
    bits .ir (opened .ir x) = chain.flatMap fun d => d.irCapture := by
  rw [bits_opened]
  exact flatMap_devices h fun c _ d _ hd => congrArg Device.irCapture hd

/-- Every device has an instruction register to shift. -/
theorem filled_irs (h : Devices chain x) : Filled .ir (opened .ir x) := by
  intro c hc
  obtain ⟨c', hc', rfl⟩ := List.mem_map.1 hc
  obtain ⟨d, -, hd⟩ := h.mem hc'
  change c'.device.irCapture ≠ []
  rw [hd, d.ir_capture]
  exact List.cons_ne_nil _ _

/-- The lengths of the instruction registers. -/
def irLens (chain : List (ConformantDevice κ)) : List Nat := chain.map ConformantDevice.irLen

/-- They are as long as the lengths add up to. -/
theorem length_irs (chain : List (ConformantDevice κ)) :
    (chain.flatMap fun d => d.irCapture).length = (irLens chain).sum := by
  rw [List.length_flatMap, irLens]
  exact congrArg List.sum (List.map_congr_left fun d _ => d.length_irCapture)

/-- Registers that capture a one and then zeros are cut where the next one begins. -/
theorem registers_chain : ∀ (chain : List (ConformantDevice κ)) {bits : Nat → Bool} (p : Nat),
    (∀ i, bits (p + i) = (chain.flatMap fun d => d.irCapture).getD i true) →
      Registers bits p (irLens chain) true (p + (irLens chain).sum + 2) := by
  intro chain
  induction chain with
  | nil => exact fun p hbits => .last (hbits 1)
  | cons d chain ih =>
    intro bits p hbits
    have hlen := d.length_irCapture
    have htwo := d.two_le
    have hown : ∀ i, 1 ≤ i → i < d.irLen → bits (p + i) = false := by
      intro i hi hlt
      obtain ⟨i, rfl⟩ := Nat.exists_eq_add_of_le' hi
      rw [hbits, List.flatMap_cons, List.getD_append _ _ _ _ (by omega), d.ir_capture,
        List.getD_cons_succ, List.getD_eq_getElem _ _ (by rw [List.length_replicate]; omega),
        List.getElem_replicate]
    have hrest : ∀ i, bits (p + d.irLen + i) = (chain.flatMap fun d => d.irCapture).getD i
        true := by
      intro i
      rw [Nat.add_assoc, hbits, List.flatMap_cons, List.getD_append_right _ _ _ _ (by omega), hlen,
        Nat.add_sub_cancel_left]
    have hone : bits (p + d.irLen) = true := by
      have hfirst := hrest 0
      rw [Nat.add_zero] at hfirst
      rw [hfirst]
      cases chain with
      | nil => rfl
      | cons d' chain =>
        rw [List.flatMap_cons, d'.ir_capture]
        rfl
    have hnext := ih (p + d.irLen) hrest
    rw [irLens, List.map_cons, List.sum_cons, ← irLens, ← Nat.add_assoc]
    exact .next htwo d.le_max hown hone hnext

/-! ## The BYPASS registers -/

/-- All the instructions are ones. -/
def InBypass (x : List (Controller κ)) : Prop :=
  ∀ c ∈ x, c.ir = List.replicate c.device.irCapture.length true

/-- A bit loaded all along a chain fills every register. -/
theorem mem_load_replicate {p : Path} (b : Bool) : ∀ {x : List (Controller κ)} {c : Controller κ},
    c ∈ load p x (List.replicate (bits p x).length b) →
      ∃ c' ∈ x, c = c'.setReg p (List.replicate (c'.reg p).length b) := by
  intro x
  induction x with
  | nil =>
    intro c hc
    cases hc
  | cons c' x ih =>
    intro c hc
    rw [load, bits_cons, List.length_append, List.take_replicate, List.drop_replicate,
      Nat.min_eq_left (by omega), Nat.add_sub_cancel_left] at hc
    rcases List.mem_cons.1 hc with rfl | hc
    · exact ⟨c', List.mem_cons_self, rfl⟩
    · obtain ⟨c'', hc'', heq⟩ := ih hc
      exact ⟨c'', List.mem_cons_of_mem c' hc'', heq⟩

/-- The walk over the instruction registers leaves all devices in BYPASS. -/
theorem inBypass_irs (h : Devices chain x) {n : Nat} (hn : (irLens chain).sum ≤ n) :
    InBypass (leaveShift (chainWire κ) (onesAfter (chainWire κ) (opened .ir x) n)) := by
  have hlen : (bits .ir (opened .ir x)).length = (irLens chain).sum := by
    rw [bits_irs h, length_irs]
  have hones : ((bits .ir (opened .ir x) ++ List.replicate n true).drop n ++ [true]).tail =
      List.replicate (bits .ir (opened .ir x)).length true := by
    rw [List.drop_append, List.drop_eq_nil_of_le (by omega), List.nil_append,
      List.drop_replicate, ← List.replicate_succ', List.replicate_succ, List.tail_cons]
    congr 1
    omega
  rw [opened_loaded, onesAfter_loaded (filled_irs h) rfl,
    leaveShift_loaded (filled_irs h) (by simp), hones]
  intro c hc
  obtain ⟨c₁, hc₁, rfl⟩ := List.mem_map.1 hc
  obtain ⟨c₂, hc₂, rfl⟩ := List.mem_map.1 hc₁
  obtain ⟨c₃, hc₃, rfl⟩ := mem_load_replicate true hc₂
  obtain ⟨c₄, -, rfl⟩ := List.mem_map.1 hc₃
  rfl

/-- In BYPASS every device holds one zero. -/
theorem bits_bypass (h : Devices chain x) (hbypass : InBypass x) :
    bits .dr (opened .dr x) = List.replicate chain.length false := by
  have hzeros : ∀ l : List (ConformantDevice κ), l.flatMap (fun _ => [false]) =
      List.replicate l.length false := by
    intro l
    induction l with
    | nil => rfl
    | cons d l ih => rw [List.flatMap_cons, ih]; rfl
  rw [bits_opened, ← hzeros]
  refine flatMap_devices h fun c hc d _ hd => ?_
  change c.device.drCapture c.ir c.core = _
  rw [hbypass c hc, hd, d.length_irCapture, d.dr_bypass]

/-- In BYPASS every device has a bit to shift. -/
theorem filled_bypass (h : Devices chain x) (hbypass : InBypass x) : Filled .dr (opened .dr x) := by
  intro c hc
  obtain ⟨c', hc', rfl⟩ := List.mem_map.1 hc
  obtain ⟨d, -, hd⟩ := h.mem hc'
  change c'.device.drCapture c'.ir c'.core ≠ []
  rw [hbypass c' hc', hd, d.length_irCapture, d.dr_bypass]
  exact List.cons_ne_nil _ _

/-- The ones come after the BYPASS registers. -/
theorem least_bypass (h : Devices chain x) (hbypass : InBypass x) :
    IsLeast {i | bitAt (chainWire κ) (opened .dr x) i = true} chain.length := by
  have hbit : ∀ i, bitAt (chainWire κ) (opened .dr x) i = (List.replicate chain.length false).getD i
      true := by
    intro i
    rw [opened_loaded, bitAt_loaded (filled_bypass h hbypass) rfl, bits_bypass h hbypass]
  constructor
  · exact (hbit _).trans (List.getD_eq_default _ _ (by rw [List.length_replicate]))
  · intro i hi
    by_contra hlt
    rw [Nat.not_le] at hlt
    change bitAt _ _ _ = true at hi
    rw [hbit, List.getD_eq_getElem _ _ (by rwa [List.length_replicate]),
      List.getElem_replicate] at hi
    exact Bool.false_ne_true hi

end

/-! ## What is recorded -/

/-- The fields of a device of a chain whose instruction registers have the lengths `lens`. -/
structure RecordedDev (lens : List Nat) (i : Nat) (d : JtagDev) : Prop where
  irLen : d.irLen.toNat = lens.getD i 0
  irPrescan : d.irPrescan.toNat = (lens.take i).sum
  irPostscan : d.irPostscan.toNat = (lens.drop (i + 1)).sum
  drPrescan : d.drPrescan.toNat = i
  drPostscan : d.drPostscan.toNat = lens.length - 1 - i

/-- The table holds a chain. -/
structure Recorded {σ : Type} (lens : List Nat) (s : Probe σ) : Prop where
  count : s.count = lens.length
  dev : ∀ i : Fin jtagMaxDevs, i.val < lens.length → RecordedDev lens i.val (s.devs i)

section
variable {σ : Type} {w : Wire σ}

/-- `ir_postscan` of a device is filled in. -/
def setPostscan (postscan : UInt8) (dev : JtagDev) : JtagDev := { dev with irPostscan := postscan }

/-- One turn of the loop over the bits behind a device. -/
theorem postscanLoop_succ {k : Nat} (hk : k < jtagMaxDevs) (postscan : UInt8) (s : Probe σ) :
    postscanLoop (k + 1) postscan s =
      postscanLoop k (postscan + (s.devs ⟨k, hk⟩).irLen)
        { s with devs := Function.update s.devs ⟨k, hk⟩ (setPostscan postscan (s.devs ⟨k, hk⟩))
          } := by
  rw [postscanLoop, run_bind_ok (modifyDev_ok hk _), run_bind_ok (getDev_ok hk)]
  dsimp only
  rw [Function.update_self]
  rfl

/-- What the loop that fills in `ir_postscan` leaves, where the registers have the lengths
`lens`. -/
theorem postscanLoop_run {lens : List Nat} : ∀ (k postscan : Nat) {s : Probe σ}, k ≤ jtagMaxDevs →
    (∀ i : Fin jtagMaxDevs, i.val < k → (s.devs i).irLen = UInt8.ofNat (lens.getD i.val 0)) →
    k ≤ lens.length →
    postscanLoop k (UInt8.ofNat postscan) s =
      .ok () { s with devs := onRange (fun i =>
        setPostscan (UInt8.ofNat (postscan + ((lens.take k).drop (i.val + 1)).sum))) 0 k s.devs
          } := by
  intro k
  induction k with
  | zero =>
    intro postscan s _ _ _
    rw [onRange_self]
    rfl
  | succ k ih =>
    intro postscan s hk hlen hle
    have hlt : k < jtagMaxDevs := hk
    have hget : lens.getD k 0 = lens[k] := List.getD_eq_getElem _ _ hle
    rw [postscanLoop_succ hlt, hlen ⟨k, hlt⟩ (Nat.lt_succ_self k), ← UInt8.ofNat_add]
    refine (ih (postscan + lens.getD k 0) (by omega) (fun i hi => ?_) (by omega)).trans ?_
    · have hne : i ≠ ⟨k, hlt⟩ := fun h => by
        rw [h] at hi
        exact Nat.lt_irrefl k hi
      dsimp only
      rw [Function.update_of_ne hne]
      exact hlen i (by omega)
    refine congrArg (fun devs => EStateM.Result.ok () { s with devs := devs }) ?_
    funext i
    unfold onRange
    dsimp only
    rcases Nat.lt_trichotomy i.val k with hi | hi | hi
    · have hne : i ≠ ⟨k, hlt⟩ := fun h => by
        rw [h] at hi
        exact Nat.lt_irrefl k hi
      have hsum : postscan + lens.getD k 0 + ((lens.take k).drop (i.val + 1)).sum =
          postscan + ((lens.take (k + 1)).drop (i.val + 1)).sum := by
        rw [List.take_succ_eq_append_getElem hle,
          List.drop_append_of_le_length (by rw [List.length_take]; omega), List.sum_append,
          List.sum_singleton, hget]
        omega
      rw [if_pos ⟨Nat.zero_le _, hi⟩, if_pos ⟨Nat.zero_le _, by omega⟩,
        Function.update_of_ne hne, hsum]
    · obtain rfl : i = ⟨k, hlt⟩ := Fin.ext hi
      have hnone : (lens.take (k + 1)).drop (k + 1) = [] :=
        List.drop_eq_nil_of_le (by rw [List.length_take]; omega)
      rw [if_neg (by simp), if_pos ⟨Nat.zero_le _, Nat.lt_succ_self k⟩, Function.update_self, hnone,
        List.sum_nil, Nat.add_zero]
    · have hne : i ≠ ⟨k, hlt⟩ := fun h => by
        rw [h] at hi
        exact Nat.lt_irrefl k hi
      rw [if_neg (by omega), if_neg (by omega), Function.update_of_ne hne]

/-- The state after a scan that found registers with the lengths `lens`. -/
def scanned (w : Wire σ) (x : σ) (lens : List Nat) (q : Nat) : Probe σ :=
  { afterSanity w x lens.length lens q with
    devs := onRange (fun i => setPostscan (UInt8.ofNat ((lens.drop (i.val + 1)).sum))) 0 lens.length
      (afterSanity w x lens.length lens q).devs }

/-- A number as a byte. -/
theorem toNat_ofNat8 (n : Nat) : (UInt8.ofNat n).toNat = n % 256 := rfl

/-- A field of eight bits holds a number below 256. -/
theorem toNat_ofNat8_eq_iff {n : Nat} : (UInt8.ofNat n).toNat = n ↔ n < 256 := by
  rw [toNat_ofNat8]
  omega

/-- The number of devices behind one of them does not wrap. -/
theorem drPostscan_eq {n i : Nat} (hi : i < n) (hn : n ≤ jtagMaxDevs) :
    ((UInt32.ofNat n - UInt32.ofNat i - 1).toUInt8).toNat = n - 1 - i := by
  have hn32 : n ≤ 32 := hn
  have hsize : UInt32.size = 4294967296 := rfl
  have hn' : (UInt32.ofNat n).toNat = n := UInt32.toNat_ofNat_of_lt' (by omega)
  have hi' : (UInt32.ofNat i).toNat = i := UInt32.toNat_ofNat_of_lt' (by omega)
  rw [UInt32.toNat_toUInt8, UInt32.toNat_sub, UInt32.toNat_sub, hn', hi', show (1 : UInt32).toNat =
    1 from rfl]
  omega

/-- What the table says of a device after a scan. -/
theorem recordedDev_scanned_iff {x : σ} {lens : List Nat} {q : Nat}
    (hlens : ∀ len ∈ lens, len ≤ jtagMaxIrLen) {i : Fin jtagMaxDevs} (hi : i.val < lens.length)
    (hmax : lens.length ≤ jtagMaxDevs) :
    RecordedDev lens i.val ((scanned w x lens q).devs i) ↔
      (lens.take i.val).sum < 256 ∧ (lens.drop (i.val + 1)).sum < 256 := by
  have hdev : (scanned w x lens q).devs i =
      setPostscan (UInt8.ofNat ((lens.drop (i.val + 1)).sum))
        (setDr lens.length i (setIr 0 0 lens i (setIdcode w (idcodesAt w x) i (noDevs i)))) := by
    have hrange : 0 ≤ i.val ∧ i.val < lens.length := ⟨Nat.zero_le _, hi⟩
    simp only [scanned, afterSanity, afterIrs, afterIdcodes, onRange, if_pos hrange]
  have hget : lens.getD i.val 0 ≤ jtagMaxIrLen := by
    rw [List.getD_eq_getElem _ _ hi]
    exact hlens _ (List.getElem_mem hi)
  rw [hdev]
  have hpre : (UInt8.ofNat (0 + (lens.take (i.val - 0)).sum)).toNat = (lens.take i.val).sum ↔
      (lens.take i.val).sum < 256 := by
    rw [Nat.zero_add, Nat.sub_zero]
    exact toNat_ofNat8_eq_iff
  constructor
  · intro h
    exact ⟨hpre.1 h.irPrescan, toNat_ofNat8_eq_iff.1 h.irPostscan⟩
  · rintro ⟨hprescan, hpostscan⟩
    refine ⟨?_, hpre.2 hprescan, toNat_ofNat8_eq_iff.2 hpostscan, ?_, drPostscan_eq hi hmax⟩
    · exact toNat_ofNat8_eq_iff.2 (Nat.lt_of_le_of_lt hget (by decide))
    · exact toNat_ofNat8_eq_iff.2 (by have := i.isLt; simp only [jtagMaxDevs] at this; omega)

/-- A table holds a chain after a scan when the sums of the lengths fit into its fields. -/
theorem recorded_scanned_iff {x : σ} {lens : List Nat} {q : Nat}
    (hlens : ∀ len ∈ lens, len ≤ jtagMaxIrLen) (hpos : 0 < lens.length)
    (hmax : lens.length ≤ jtagMaxDevs) :
    Recorded lens (scanned w x lens q) ↔ lens.dropLast.sum < 256 ∧ lens.tail.sum < 256 := by
  have hdev : ∀ i : Fin jtagMaxDevs, i.val < lens.length →
      (RecordedDev lens i.val ((scanned w x lens q).devs i) ↔ _) := fun i hi =>
    recordedDev_scanned_iff hlens hi hmax
  rw [List.dropLast_eq_take, ← List.drop_one]
  constructor
  · rintro ⟨-, hrec⟩
    have hlast := (hdev ⟨lens.length - 1, by omega⟩ (by simp only; omega)).1
      (hrec _ (by simp only; omega))
    have hfirst := (hdev ⟨0, by decide⟩ hpos).1 (hrec _ hpos)
    exact ⟨hlast.1, hfirst.2⟩
  · rintro ⟨hpre, hpost⟩
    refine ⟨rfl, fun i hi => (hdev i hi).2 ⟨?_, ?_⟩⟩
    · have htake : lens.take i.val = (lens.take (lens.length - 1)).take i.val := by
        rw [List.take_take, Nat.min_eq_left (by omega)]
      rw [htake]
      exact Nat.lt_of_le_of_lt ((List.take_sublist _ _).sum_le_sum fun _ _ => Nat.zero_le _) hpre
    · have hdrop : lens.drop (i.val + 1) = (lens.drop 1).drop i.val := by
        rw [List.drop_drop, Nat.add_comm]
      rw [hdrop]
      exact Nat.lt_of_le_of_lt ((List.drop_sublist _ _).sum_le_sum fun _ _ => Nat.zero_le _) hpost

/-- Once the sanity check has passed, the scan ends with the fields for the bits behind a device. -/
theorem jtagScan_of_chain {fuel : Nat} {s : Probe σ} {x : σ} {lens : List Nat} {q : Nat}
    (hpos : 0 < lens.length) (hmax : lens.length ≤ jtagMaxDevs)
    (hrun : jtagScanChain w fuel s = .ok true (afterSanity w x lens.length lens q)) :
    jtagScan w fuel s = .ok true (scanned w x lens q) := by
  have hloop := @postscanLoop_run σ lens lens.length 0 (afterSanity w x lens.length lens q) hmax
      (fun i hi => by
    have hrange : 0 ≤ i.val ∧ i.val < lens.length := ⟨Nat.zero_le _, hi⟩
    simp only [afterSanity, afterIrs, onRange, if_pos hrange, setDr, setIr, Nat.sub_zero]) le_rfl
  rw [List.take_length] at hloop
  simp only [Nat.zero_add] at hloop
  unfold jtagScan
  rw [run_bind_ok hrun, if_pos rfl, run_bind_ok (show (get : JtagM σ _) _ = .ok _ _ from rfl)]
  refine (run_bind_ok hloop).trans ?_
  have htrue : (lens.length != 0) = true := bne_iff_ne.2 (Nat.ne_of_gt hpos)
  exact congrArg (fun b => EStateM.Result.ok b (scanned w x lens q)) htrue

end

/-! ## The scan of a conformant chain -/

section
variable {κ : Type} {chain : List (ConformantDevice κ)}

/-- The walks of a scan over a conformant chain. -/
structure Walks (chain : List (ConformantDevice κ)) (x : List (Controller κ)) : Prop where
  idcodes : IsLeast {i | wordAt (chainWire κ) (idcodesAt (chainWire κ) x) i = 0xffffffff}
    chain.length
  irs : Registers (bitAt (chainWire κ) (irsAt (chainWire κ) x chain.length)) 0 (irLens chain) true
    ((irLens chain).sum + 2)
  bypass : IsLeast
    {i | bitAt (chainWire κ) (bypassAt (chainWire κ) x chain.length ((irLens chain).sum + 2)) i =
      true} chain.length

/-- The chain once it was reset, and once its ID codes were read. -/
theorem idcodesAt_opened {x : List (Controller κ)} (h : Devices chain x) :
    ∃ y, idcodesAt (chainWire κ) x = opened .dr y ∧
      WasReset (chain.map ConformantDevice.toDevice) y := by
  have hreset : WasReset (chain.map ConformantDevice.toDevice)
      (jtagtapSoftReset (chainWire κ) (jtagtapInit (chainWire κ) x)) := by
    have hdevices := (map_device_init x).trans h
    rw [← hdevices]
    exact softReset_wasReset _
  exact ⟨_, shiftDr_opened hreset.idle, hreset⟩

/-- The chain where its instruction registers are about to be read. -/
theorem irsAt_opened {x : List (Controller κ)} (h : Devices chain x) :
    ∃ y, irsAt (chainWire κ) x chain.length = opened .ir y ∧ Devices chain y := by
  obtain ⟨r, hr, hreset⟩ := idcodesAt_opened h
  obtain ⟨hidle, hdevices⟩ :=
    leave_opened hreset.devices (filled_idcodes hreset) (32 * (chain.length + 1))
  exact ⟨_, by rw [irsAt, hr, shiftIr_opened hidle], hdevices⟩

/-- The chain where its BYPASS registers are about to be read. -/
theorem bypassAt_opened {x : List (Controller κ)} (h : Devices chain x) :
    ∃ y, bypassAt (chainWire κ) x chain.length ((irLens chain).sum + 2) = opened .dr y ∧
      Devices chain y ∧
      InBypass y := by
  obtain ⟨y, hy, hdevices⟩ := irsAt_opened h
  obtain ⟨hidle, hdevices'⟩ := leave_opened hdevices (filled_irs hdevices) ((irLens chain).sum + 2)
  exact ⟨_, by rw [bypassAt, hy, shiftDr_opened hidle], hdevices',
    inBypass_irs hdevices (show (irLens chain).sum ≤ (irLens chain).sum + 2 by omega)⟩

/-- Conformant devices give the walks that a scan makes. -/
theorem walks_of_devices {x : List (Controller κ)} (h : Devices chain x) : Walks chain x := by
  obtain ⟨r, hid, hreset⟩ := idcodesAt_opened h
  obtain ⟨y, hirs, hdev₁⟩ := irsAt_opened h
  obtain ⟨z, hdr, hdev₂, hbypass⟩ := bypassAt_opened h
  refine ⟨?_, ?_, ?_⟩
  · rw [hid]
    exact least_idcodes hreset
  · have hregs := @registers_chain κ chain
        (bitAt (chainWire κ) (irsAt (chainWire κ) x chain.length)) 0 fun i => by
      rw [Nat.zero_add, hirs, opened_loaded, bitAt_loaded (filled_irs hdev₁) rfl, bits_irs hdev₁]
    rwa [Nat.zero_add] at hregs
  · rw [hdr]
    exact least_bypass hdev₂ hbypass

/-- There is a length for every device. -/
theorem length_irLens (chain : List (ConformantDevice κ)) : (irLens chain).length = chain.length :=
  List.length_map _

/-- The sanity check of a conformant chain passes. -/
theorem sanity_of_walks {x : List (Controller κ)} (h : Walks chain x) (hpos : 0 < chain.length)
    (hmax : chain.length ≤ jtagMaxDevs) :
    jtagSanityCheck (chainWire κ)
      (afterIrs (chainWire κ) x chain.length (irLens chain) ((irLens chain).sum + 2)) =
      .ok true
        (afterSanity (chainWire κ) x chain.length (irLens chain) ((irLens chain).sum + 2)) := by
  obtain ⟨-, hrun⟩ | ⟨hnot, -⟩ | ⟨⟨-, hnone⟩, -⟩ := jtagSanityCheck_run (w := chainWire κ)
    (s := afterIrs (chainWire κ) x chain.length (irLens chain) ((irLens chain).sum + 2)) hmax
  · refine hrun.trans ?_
    have htrue : (chain.length != 0) = true := bne_iff_ne.2 (Nat.ne_of_gt hpos)
    exact congrArg (fun b => EStateM.Result.ok b _) htrue
  · exact absurd h.bypass hnot
  · have hlast : bitAt (chainWire κ)
        (bypassAt (chainWire κ) x chain.length ((irLens chain).sum + 2)) chain.length =
        false := hnone chain.length hmax
    have htrue : bitAt (chainWire κ)
        (bypassAt (chainWire κ) x chain.length ((irLens chain).sum + 2)) chain.length =
        true := h.bypass.1
    exact absurd (hlast.symm.trans htrue) Bool.false_ne_true

/-- A scan that succeeds has left the table with the chain, and there was a place behind it. -/
theorem scanned_of_jtagScan {s s' : Probe (List (Controller κ))} {fuel : Nat}
    (h : Walks chain s.wire) (hpos : 0 < chain.length) (hmax : chain.length ≤ jtagMaxDevs)
    (hrun : jtagScan (chainWire κ) fuel s = .ok true s') :
    chain.length < jtagMaxDevs ∧
      s' = scanned (chainWire κ) s.wire (irLens chain) ((irLens chain).sum + 2) := by
  have hchain := jtagScanChain_idcodes hmax h.idcodes fuel
  cases hread : jtagReadIrs (chainWire κ) fuel (afterIdcodes (chainWire κ) s.wire chain.length) with
  | error e s₁ =>
    have hirs : scanIrs (chainWire κ) fuel (afterIdcodes (chainWire κ) s.wire chain.length) =
        .error e s₁ := by
      unfold scanIrs
      exact run_bind_error hread
    have hall := hchain.trans hirs
    unfold jtagScan at hrun
    rw [run_bind_error hall] at hrun
    cases hrun
  | ok ok s₁ =>
    cases ok with
    | false =>
      have hirs : scanIrs (chainWire κ) fuel (afterIdcodes (chainWire κ) s.wire chain.length) =
          .ok false s₁ := by
        unfold scanIrs
        rw [run_bind_ok hread, if_neg Bool.false_ne_true]
        rfl
      have hall := hchain.trans hirs
      unfold jtagScan at hrun
      rw [run_bind_ok hall, if_neg Bool.false_ne_true] at hrun
      cases hrun
    | true =>
      obtain ⟨lens, q, hregs, hlens, hsanity⟩ := scanIrs_sanity hread
      obtain ⟨rfl, -, rfl⟩ := h.irs.unique hregs
      rw [length_irLens] at hlens
      have hall := hchain.trans (hsanity.trans (sanity_of_walks h hpos hmax))
      rw [← length_irLens] at hall hpos hmax
      have hdone := jtagScan_of_chain hpos hmax hall
      rw [hdone] at hrun
      cases hrun
      exact ⟨hlens, rfl⟩

/-- A scan of fewer than 32 devices records their lengths. -/
theorem jtagScan_scanned {s : Probe (List (Controller κ))} (h : Walks chain s.wire)
    (hpos : 0 < chain.length) (hlt : chain.length < jtagMaxDevs) :
    ∃ fuel, jtagScan (chainWire κ) fuel s =
      .ok true (scanned (chainWire κ) s.wire (irLens chain) ((irLens chain).sum + 2)) := by
  have hmax := Nat.le_of_lt hlt
  obtain ⟨fuel, ok, s₁, hread⟩ := jtagReadIrs_of_registers
    (s := afterIdcodes (chainWire κ) s.wire chain.length) h.irs (by rwa [length_irLens])
  obtain ⟨lens, q, hregs, hlens, hs₁⟩ := registers_of_jtagReadIrs hread
  obtain ⟨rfl, rfl, rfl⟩ := h.irs.unique hregs
  obtain ⟨lens', q', hregs', -, hsanity⟩ := scanIrs_sanity hread
  obtain ⟨rfl, -, rfl⟩ := h.irs.unique hregs'
  have hall := (jtagScanChain_idcodes hmax h.idcodes fuel).trans
    (hsanity.trans (sanity_of_walks h hpos hmax))
  rw [← length_irLens] at hall hpos hmax
  exact ⟨fuel, jtagScan_of_chain hpos hmax hall⟩

/-- No instruction register is longer than the scan admits. -/
theorem le_of_mem_irLens : ∀ len ∈ irLens chain, len ≤ jtagMaxIrLen := by
  intro len hlen
  obtain ⟨d, -, rfl⟩ := List.mem_map.1 hlen
  exact d.le_max

/-- What a scan asks of a chain that it recovers. -/
theorem sums_of_recorded {s s' : Probe (List (Controller κ))} {fuel : Nat}
    (hdev : Devices chain s.wire) (hpos : 0 < chain.length) (hmax : chain.length ≤ jtagMaxDevs)
    (hrun : jtagScan (chainWire κ) fuel s = .ok true s') (hrec : Recorded (irLens chain) s') :
    chain.length < jtagMaxDevs ∧ (irLens chain).dropLast.sum < 256 ∧ (irLens chain).tail.sum <
      256 := by
  obtain ⟨hlt, rfl⟩ := scanned_of_jtagScan (walks_of_devices hdev) hpos hmax hrun
  rw [← length_irLens] at hpos hmax
  exact ⟨hlt, (recorded_scanned_iff le_of_mem_irLens hpos hmax).1 hrec⟩

/-- A scan recovers a conformant chain exactly when the table has a place behind it, and the lengths
of all instruction registers but the last and of all but the first fit into eight bits. -/
theorem scan_records_iff {s : Probe (List (Controller κ))} (hdev : Devices chain s.wire)
    (hpos : 0 < chain.length) (hmax : chain.length ≤ jtagMaxDevs) :
    (∃ fuel s', jtagScan (chainWire κ) fuel s = .ok true s' ∧ Recorded (irLens chain) s') ↔
      chain.length < jtagMaxDevs ∧ (irLens chain).dropLast.sum < 256 ∧ (irLens chain).tail.sum <
        256 := by
  constructor
  · rintro ⟨fuel, s', hrun, hrec⟩
    exact sums_of_recorded hdev hpos hmax hrun hrec
  · rintro ⟨hlt, hsums⟩
    obtain ⟨fuel, hrun⟩ := jtagScan_scanned (walks_of_devices hdev) hpos hlt
    rw [← length_irLens] at hpos hmax
    exact ⟨fuel, _, hrun, (recorded_scanned_iff le_of_mem_irLens hpos hmax).2 hsums⟩

end

/-! ## Chains of one kind of device -/

/-- The ID code of the debug port is not that of the end. -/
theorem debugPort_idcode_ne : (0x4ba00477 : UInt32) ≠ 0xffffffff := by decide

/-- Its instruction register is not too short. -/
theorem two_le_debugPort_irLen : 2 ≤ 4 := by decide

/-- Nor is it too long. -/
theorem debugPort_irLen_le : 4 ≤ jtagMaxIrLen := by decide

/-- A device that shows an ID code until its instruction register starts with a one. -/
def idcodeDevice (irLen : Nat) (two_le : 2 ≤ irLen) (le_max : irLen ≤ jtagMaxIrLen) :
    ConformantDevice Unit where
  irCapture := true :: List.replicate (irLen - 1) false
  resetIr := List.replicate irLen false
  drCapture ir _ := if ir.headD true then [false] else wordBits 0x4ba00477
  drUpdate _ _ core := core
  idcode := 0x4ba00477
  irLen
  two_le
  le_max
  idcode_ne := debugPort_idcode_ne
  ir_capture := rfl
  dr_idcode _ := by
    obtain ⟨n, rfl⟩ := Nat.exists_eq_add_of_le' (Nat.le_trans (by decide : 1 ≤ 2) two_le)
    rfl
  dr_bypass _ := by
    obtain ⟨n, rfl⟩ := Nat.exists_eq_add_of_le' (Nat.le_trans (by decide : 1 ≤ 2) two_le)
    rfl

/-- The controller of a device that has just been powered up. -/
def powerUp {κ : Type} (core : κ) (d : ConformantDevice κ) : Controller κ :=
  ⟨d.toDevice, .testLogicReset, d.resetIr, [], [], core⟩

/-- A probe before its first scan. -/
def unscanned {κ : Type} (core : κ) (chain : List (ConformantDevice κ)) :
    Probe (List (Controller κ)) :=
  ⟨noDevs, 0, chain.map (powerUp core)⟩

/-- The wire before a scan has the devices of the chain. -/
theorem devices_unscanned {κ : Type} (core : κ) (chain : List (ConformantDevice κ)) :
    Devices chain (unscanned core chain).wire := by
  unfold Devices unscanned
  rw [List.map_map]
  rfl

/-- Two debug ports. -/
def twoPorts : List (ConformantDevice Unit) :=
  List.replicate 2 (idcodeDevice 4 two_le_debugPort_irLen debugPort_irLen_le)

/-- Nine devices with instruction registers of the greatest length. -/
def nineWide : List (ConformantDevice Unit) :=
  List.replicate 9 (idcodeDevice 32 (by decide) (by decide))

/-- A chain of two debug ports is recorded. -/
theorem scan_records_twoPorts :
    Devices twoPorts (unscanned () twoPorts).wire ∧ 0 < twoPorts.length ∧
      twoPorts.length ≤ jtagMaxDevs ∧
      ∃ fuel s', jtagScan (chainWire Unit) fuel (unscanned () twoPorts) = .ok true s' ∧
        Recorded (irLens twoPorts) s' :=
  ⟨devices_unscanned _ _, by decide, by decide,
    (scan_records_iff (devices_unscanned () twoPorts) (by decide) (by decide)).2 (by decide)⟩

/-- Before the last of the nine devices there are 256 bits. -/
theorem scan_not_records_nineWide :
    Devices nineWide (unscanned () nineWide).wire ∧ 0 < nineWide.length ∧
      nineWide.length ≤ jtagMaxDevs ∧
      ¬ ∃ fuel s', jtagScan (chainWire Unit) fuel (unscanned () nineWide) = .ok true s' ∧
        Recorded (irLens nineWide) s' := by
  refine ⟨devices_unscanned _ _, by decide, by decide, ?_⟩
  rintro ⟨fuel, s', hrun, hrec⟩
  have hsums := sums_of_recorded (devices_unscanned _ _) (by decide) (by decide) hrun hrec
  exact absurd hsums.2.1 (by decide)

end Jtag

end Blackmagic
