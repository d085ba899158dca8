import Blackmagic.Jtag.Recover

/-!
# Instructions and data for one device of the chain

`jtag_dev_write_ir` puts one device out of BYPASS and remembers its instruction, and
`jtag_dev_shift_dr` scans the data register that the instruction selects. Over the devices of the
chain each is a change of one device (`jtagDevWriteIr_run`, `jtagDevShiftDr_run`), and so is every
sequence of them.
-/

namespace Blackmagic

open Effect Tap

namespace Jtag

/-! ## The requests: `jtag_scan.c` -/

section
variable {σ : Type} (w : Wire σ)

/-- The first `n` bits of a buffer. -/
def bufferBits (buffer : List Bool) (n : Nat) : JtagM σ (List Bool) :=
  if n ≤ buffer.length then return buffer.take n else throw .outOfBounds

/-- `current_ir` of a device that is in BYPASS. -/
def setBypass (dev : JtagDev) : JtagDev := { dev with currentIr := 0xffffffff }

/-- The loop of `jtag_dev_write_ir` over the first `n` devices. -/
def bypassLoop : Nat → JtagM σ Unit
  | 0 => return ()
  | n + 1 => do
    bypassLoop n
    modifyDev n setBypass

/-- `jtag_dev_write_ir`. -/
def jtagDevWriteIr (devIndex : UInt8) (ir : UInt32) : JtagM σ Unit := do
  let device ← getDev devIndex.toNat
  if ir = device.currentIr then return ()
  else do
    let s ← get
    bypassLoop s.count
    modifyDev devIndex.toNat fun dev => { dev with currentIr := ir }
    onWire' (jtagtapShiftIr w)
    let before ← bufferBits ones device.irPrescan.toNat
    onWire' (jtagtapTdiSeq w false before)
    let irBits ← bufferBits (wordBits ir) device.irLen.toNat
    onWire' (jtagtapTdiSeq w (device.irPostscan == 0) irBits)
    let behind ← bufferBits ones device.irPostscan.toNat
    onWire' (jtagtapTdiSeq w true behind)
    onWire' (jtagtapReturnIdle w 1)

/-- The data of `jtag_dev_shift_dr`. -/
def clockData (dataOut finalTms : Bool) (bits : List Bool) : JtagM σ (List Bool) :=
  if dataOut then onWire (jtagtapTdiTdoSeq w finalTms bits)
  else do
    onWire' (jtagtapTdiSeq w finalTms bits)
    return []

/-- `jtag_dev_shift_dr`: what it puts into `data_out`, unless that is the null pointer. -/
def jtagDevShiftDr (devIndex : UInt8) (dataOut : Bool) (dataIn : List Bool) (clockCycles : Nat) :
    JtagM σ (List Bool) := do
  let device ← getDev devIndex.toNat
  onWire' (jtagtapShiftDr w)
  let before ← bufferBits ones device.drPrescan.toNat
  onWire' (jtagtapTdiSeq w false before)
  let bits ← bufferBits dataIn clockCycles
  let out ← clockData w dataOut (device.drPostscan == 0) bits
  let behind ← bufferBits ones device.drPostscan.toNat
  onWire' (jtagtapTdiSeq w true behind)
  onWire' (jtagtapReturnIdle w 1)
  return out

/-- A scan reads its bits from the front of the buffer. -/
theorem bufferBits_ok {buffer : List Bool} {n : Nat} (h : n ≤ buffer.length) (s : Probe σ) :
    bufferBits buffer n s = .ok (buffer.take n) s := by
  rw [bufferBits, if_pos h]
  rfl

/-- The data is clocked in the same way when nobody wants what comes out. -/
theorem clockData_ok (dataOut finalTms : Bool) (bits : List Bool) (s : Probe σ) :
    clockData w dataOut finalTms bits s =
      .ok (if dataOut then (jtagtapTdiTdoSeq w finalTms bits s.wire).1 else [])
        { s with wire := jtagtapTdiSeq w finalTms bits s.wire } := by
  cases dataOut with
  | true => rfl
  | false => rfl

/-- The loop over the first `n` devices marks each as being in BYPASS. -/
theorem bypassLoop_ok : ∀ {n : Nat} (s : Probe σ), n ≤ jtagMaxDevs →
    bypassLoop n s = .ok () { s with devs := onRange (fun _ => setBypass) 0 n s.devs } := by
  intro n
  induction n with
  | zero =>
    intro s _
    rw [onRange_self]
    rfl
  | succ n ih =>
    intro s hn
    have hlt : n < jtagMaxDevs := hn
    rw [bypassLoop, run_bind_ok (ih s (Nat.le_of_lt hlt)), modifyDev_ok hlt]
    refine congrArg (fun devs => EStateM.Result.ok () { s with devs := devs }) ?_
    funext i
    rcases eq_or_ne i ⟨n, hlt⟩ with rfl | hne
    · rw [Function.update_self]
      simp [onRange]
    · have hi : i.val ≠ n := fun h => hne (Fin.ext h)
      rw [Function.update_of_ne hne]
      simp only [onRange]
      congr 1
      exact propext (by omega)

end

/-! ## Three sequences, the last clock with TMS high -/

section
variable {κ : Type} {p : Path} {x : List (Controller κ)}

/-- A scan without an output buffer moves its bits through the loaded registers. -/
theorem tdiSeq_loaded (hx : Filled p x) (finalTms : Bool) (tdi : List Bool) {old : List Bool}
    (hlen : old.length = (bits p x).length) :
    jtagtapTdiSeq (chainWire κ) finalTms tdi (loaded p.shift p x old) =
      loaded (if finalTms ∧ tdi ≠ [] then p.shift.next true else p.shift) p x (shiftIn old tdi) :=
  congrArg Prod.snd (tdiTdoSeq_loaded hx finalTms tdi hlen)

/-- With a device behind, the last of the ones for it ends the shifts; without, the last bit of the
sequence does, if there is one. -/
theorem lastSeqs_loaded (hx : Filled p x) {old mid : List Bool} {behind : Nat}
    (hmid : mid ≠ [] ∨ behind ≠ 0) (hlen : old.length = (bits p x).length) :
    jtagtapTdiSeq (chainWire κ) true (List.replicate behind true)
        (jtagtapTdiSeq (chainWire κ) (behind == 0) mid (loaded p.shift p x old)) =
      loaded (p.shift.next true) p x (shiftIn old (mid ++ List.replicate behind true)) := by
  rw [tdiSeq_loaded hx _ _ hlen]
  cases behind with
  | zero =>
    have hne : mid ≠ [] := hmid.resolve_right (not_not.2 rfl)
    rw [if_pos ⟨rfl, hne⟩, List.replicate_zero, List.append_nil]
    rfl
  | succ behind =>
    rw [if_neg (by simp), tdiSeq_loaded hx _ _ ((length_shiftIn _ _).trans hlen),
      if_pos ⟨rfl, by simp⟩, ← shiftIn_append]

/-- The devices after the scan of a path that leaves bits in its registers. -/
def portsAfter (p : Path) (x : List (Controller κ)) (new : List Bool) : List (Port κ) :=
  (closed p (loaded (p.shift.next true) p (opened p x) new)).map Controller.port

/-- A chain is opened device by device. -/
theorem opened_append (p : Path) (x x' : List (Controller κ)) :
    opened p (x ++ x') = opened p x ++ opened p x' :=
  List.map_append

/-- What a scan leaves in two chains in a row. -/
theorem portsAfter_append (x x' : List (Controller κ)) {new new' : List Bool}
    (hlen : new.length = (bits p (opened p x)).length) :
    portsAfter p (x ++ x') (new ++ new') = portsAfter p x new ++ portsAfter p x' new' := by
  unfold portsAfter closed loaded
  rw [opened_append, load_append _ _ hlen, List.map_append, List.map_append, List.map_append]

/-- The bits of one device. -/
theorem bits_opened_singleton (p : Path) (c : Controller κ) :
    bits p (opened p [c]) = (c.capture p).reg p := by
  rw [bits_opened, List.flatMap_singleton]

/-- An instruction scan leaves its instruction in the device. -/
theorem portsAfter_ir_singleton (c : Controller κ) {new : List Bool}
    (hlen : new.length = c.device.irCapture.length) :
    portsAfter .ir [c] new = [c.port.withIr new] := by
  have hload : load .ir (opened .ir [c]) new = [((c.capture .ir).enter .shiftIr).setReg .ir new] :=
    load_singleton _ hlen
  unfold portsAfter closed loaded
  rw [hload]
  rfl

/-- A data scan shifts its stream through the device. -/
theorem portsAfter_dr_singleton (c : Controller κ) {stream : List Bool} :
    portsAfter .dr [c] (shiftIn c.port.dataRegister stream) = [c.port.shift stream] := by
  have hload : load .dr (opened .dr [c]) (shiftIn c.port.dataRegister stream) =
      [((c.capture .dr).enter .shiftDr).setReg .dr (shiftIn c.port.dataRegister stream)] :=
    load_singleton _ (length_shiftIn _ _)
  unfold portsAfter closed loaded
  rw [hload]
  rfl

/-- The instruction registers are as long as what they capture. -/
theorem length_bits_ir (x : List (Controller κ)) :
    (bits .ir (opened .ir x)).length = (x.map fun c => c.device.irCapture.length).sum := by
  rw [bits_opened, List.length_flatMap]
  rfl

/-- Devices that were given ones as an instruction are in BYPASS. -/
theorem portsAfter_ir_ones (x : List (Controller κ)) :
    portsAfter .ir x (List.replicate (x.map fun c => c.device.irCapture.length).sum true) =
      (x.map Controller.port).map Port.bypassed := by
  unfold portsAfter closed loaded
  rw [← length_bits_ir, load_replicate, opened]
  simp only [List.map_map]
  exact List.map_congr_left fun c _ => rfl

/-- A device of the standard that is in BYPASS. -/
def Quiet (c : Controller κ) : Prop := c.device.WellFormed ∧ c.ir = c.device.bypass

/-- Devices in BYPASS give a zero each. -/
theorem bits_quiet (hquiet : ∀ c ∈ x, Quiet c) :
    bits .dr (opened .dr x) = List.replicate x.length false := by
  rw [bits_opened]
  induction x with
  | nil => rfl
  | cons c x ih =>
    obtain ⟨⟨hwell, hir⟩, hx⟩ := List.forall_mem_cons.1 hquiet
    rw [List.flatMap_cons, ih hx, List.length_cons, List.replicate_succ]
    change c.device.drCapture c.ir c.core ++ _ = _
    rw [hir, hwell.bypassCapture]
    rfl

/-- Whatever is left in BYPASS registers, it changes nothing. -/
theorem portsAfter_dr_quiet (hquiet : ∀ c ∈ x, Quiet c) (new : List Bool) :
    portsAfter .dr x new = x.map Controller.port := by
  induction x generalizing new with
  | nil => rfl
  | cons c x ih =>
    obtain ⟨⟨hwell, hir⟩, hx⟩ := List.forall_mem_cons.1 hquiet
    have hhead : ∀ bits, (⟨c.device, c.ir, c.device.drUpdate c.ir bits c.core⟩ : Port κ) =
        c.port := by
      intro bits
      rw [hir, hwell.bypassUpdate, ← hir]
      rfl
    have hrest := ih hx (new.drop (c.device.drCapture c.ir c.core).length)
    exact congrArg₂ List.cons (hhead _) hrest

/-- Every device of an open chain has a register to shift. -/
theorem filled_opened (hwell : ∀ c ∈ x, c.device.WellFormed) (p : Path) :
    Filled p (opened p x) := by
  intro c hc
  obtain ⟨c', hc', rfl⟩ := List.mem_map.1 hc
  cases p with
  | ir => exact (hwell c' hc').irFilled
  | dr => exact (hwell c' hc').drFilled _ _

/-- What a scan of a path leaves alone. -/
theorem map_after {β : Type} {kept : Controller κ → β} (henter : ∀ c s, kept (c.enter s) = kept c)
    (hcapture : ∀ c, kept (c.capture p) = kept c) (hset : ∀ c bits, kept (c.setReg p bits) = kept c)
    (hupdate : ∀ c, kept (c.update p) = kept c) (x : List (Controller κ)) (new : List Bool) :
    (closed p (loaded (p.shift.next true) p (opened p x) new)).map kept = x.map kept := by
  have hload : ∀ (x : List (Controller κ)) (new : List Bool), (load p x new).map kept =
      x.map kept := by
    intro x
    induction x with
    | nil => exact fun _ => rfl
    | cons c x ih =>
      intro new
      rw [load, List.map_cons, List.map_cons, ih, hset]
  have hclose : kept ∘ (fun c : Controller κ => (c.update p).enter .runTestIdle) ∘
      Controller.enter (p.shift.next true) = kept := by
    funext c
    exact (henter _ _).trans ((hupdate _).trans (henter _ _))
  unfold closed loaded
  rw [List.map_map, List.map_map, Function.comp_assoc, hclose, hload, opened, List.map_map]
  exact List.map_congr_left fun c _ => (henter _ _).trans (hcapture c)

/-- A scan leaves the devices in place. -/
theorem map_device_after (p : Path) (x : List (Controller κ)) (new : List Bool) :
    (closed p (loaded (p.shift.next true) p (opened p x) new)).map Controller.device =
      x.map Controller.device := by
  refine map_after (fun _ _ => rfl) (fun c => ?_) (fun c bits => ?_) (fun c => ?_) x new
  all_goals cases p <;> rfl

/-- The clocks that `jtag_dev_write_ir` and `jtag_dev_shift_dr` make once a path is open. -/
def scanPath (before behind : Nat) (mid : List Bool) (x : List (Controller κ)) :
    List (Controller κ) :=
  jtagtapReturnIdle (chainWire κ) 1 (jtagtapTdiSeq (chainWire κ) true (List.replicate behind true)
    (jtagtapTdiSeq (chainWire κ) (behind == 0) mid
      (jtagtapTdiSeq (chainWire κ) false (List.replicate before true) x)))

/-- A scan of the path, with the bits before and behind the device, loads the registers. -/
theorem scanPath_opened (hwell : ∀ c ∈ x, c.device.WellFormed) (before : Nat) {behind : Nat}
    {mid : List Bool} (hmid : mid ≠ [] ∨ behind ≠ 0) :
    scanPath before behind mid (opened p x) =
      closed p (loaded (p.shift.next true) p (opened p x) (shiftIn (bits p (opened p x))
        (List.replicate before true ++ (mid ++ List.replicate behind true)))) := by
  have hfilled := filled_opened hwell p
  have hlen := length_shiftIn (bits p (opened p x)) (List.replicate before true)
  have hfirst : jtagtapTdiSeq (chainWire κ) false (List.replicate before true) (opened p x) =
      loaded p.shift p (opened p x)
        (shiftIn (bits p (opened p x)) (List.replicate before true)) := by
    have hseq := tdiSeq_loaded hfilled false (List.replicate before true) rfl
    rwa [← opened_loaded, if_neg (by simp)] at hseq
  rw [scanPath, hfirst, lastSeqs_loaded hfilled hmid hlen, ← shiftIn_append]
  exact returnIdle_closed (allIn_map_enter _ id _)

/-- It ends in Run-Test/Idle, with the devices in place. -/
theorem scanPath_keeps (hwell : ∀ c ∈ x, c.device.WellFormed) (before : Nat) {behind : Nat}
    {mid : List Bool} (hmid : mid ≠ [] ∨ behind ≠ 0) :
    AtIdle (scanPath before behind mid (opened p x)) ∧
      (scanPath before behind mid (opened p x)).map Controller.device =
        x.map Controller.device := by
  rw [scanPath_opened hwell before hmid]
  exact ⟨atIdle_closed _ _, map_device_after _ _ _⟩

/-- An instruction goes to one device, and ones to the others. -/
theorem scanPath_ir {x₁ x₂ : List (Controller κ)} {c : Controller κ}
    (hwell : ∀ c' ∈ x₁ ++ c :: x₂, c'.device.WellFormed) {irBits : List Bool}
    (hlen : irBits.length = c.device.irCapture.length) :
    (scanPath (x₁.map fun c => c.device.irCapture.length).sum
      (x₂.map fun c => c.device.irCapture.length).sum irBits
        (opened .ir (x₁ ++ c :: x₂))).map Controller.port =
      (x₁.map Controller.port).map Port.bypassed ++
        c.port.withIr irBits :: (x₂.map Controller.port).map Port.bypassed := by
  have hne : irBits ≠ [] :=
    fun h => (hwell c (by simp)).irFilled (List.length_eq_zero_iff.1 (by rw [← hlen, h]; rfl))
  rw [scanPath_opened hwell _ (.inl hne), shiftIn_of_length]
  · change portsAfter .ir (x₁ ++ ([c] ++ x₂)) _ = _
    rw [portsAfter_append _ _ (by rw [List.length_replicate, length_bits_ir]),
      portsAfter_append _ _ (by rw [hlen, bits_opened_singleton]; rfl), portsAfter_ir_ones,
      portsAfter_ir_singleton c hlen, portsAfter_ir_ones]
    rfl
  · rw [length_bits_ir, List.length_append, List.length_append, List.length_replicate,
      List.length_replicate, List.map_append, List.sum_append, List.map_cons, List.sum_cons, hlen]

/-- The data register of one device is scanned, between devices in BYPASS. -/
theorem scanPath_dr {x₁ x₂ : List (Controller κ)} {c : Controller κ} (hwell : c.device.WellFormed)
    (hbefore : ∀ c' ∈ x₁, Quiet c') (hbehind : ∀ c' ∈ x₂, Quiet c') {stream : List Bool}
    (hstream : stream ≠ [] ∨ x₂ ≠ []) :
    (scanPath x₁.length x₂.length stream (opened .dr (x₁ ++ c :: x₂))).map Controller.port =
      shiftedAt x₁.length stream ((x₁ ++ c :: x₂).map Controller.port) := by
  have hall : ∀ c' ∈ x₁ ++ c :: x₂, c'.device.WellFormed := by
    intro c' hc'
    rcases List.mem_append.1 hc' with h | h
    · exact (hbefore c' h).1
    · rcases List.mem_cons.1 h with rfl | h
      · exact hwell
      · exact (hbehind c' h).1
  have hbits : bits .dr (opened .dr (x₁ ++ c :: x₂)) =
      List.replicate x₁.length false ++
        (c.port.dataRegister ++ List.replicate x₂.length false) := by
    rw [opened_append, bits, List.flatMap_append]
    change bits .dr (opened .dr x₁) ++ (c.port.dataRegister ++ bits .dr (opened .dr x₂)) = _
    rw [bits_quiet hbefore, bits_quiet hbehind]
  obtain ⟨rest, hrest, hshift⟩ := shiftIn_between x₁.length x₂.length c.port.dataRegister stream
  have hmid : stream ≠ [] ∨ x₂.length ≠ 0 :=
    hstream.imp_right fun h => by rwa [Ne, List.length_eq_zero_iff]
  rw [scanPath_opened hall _ hmid, hbits, hshift, shiftedAt, List.length_map, List.length_append,
    List.length_cons, show x₁.length + (x₂.length + 1) - (x₁.length + 1) = x₂.length by omega,
    List.map_append, List.map_cons,
    show atPlace _ _ x₁.length _ = _ from by rw [← List.length_map Controller.port, atPlace_append]]
  change portsAfter .dr (x₁ ++ ([c] ++ x₂)) _ = _
  rw [portsAfter_append _ _ (by rw [bits_quiet hbefore, hrest, List.length_replicate]),
    portsAfter_append _ _ (by rw [length_shiftIn, bits_opened_singleton]; rfl),
    portsAfter_dr_quiet hbefore, portsAfter_dr_singleton, portsAfter_dr_quiet hbehind, List.map_id,
    List.map_id]
  simp

/-- What comes out of the register of one device. -/
theorem tdo_dr {x₁ x₂ : List (Controller κ)} {c : Controller κ} (hwell : c.device.WellFormed)
    (hbefore : ∀ c' ∈ x₁, Quiet c') (hbehind : ∀ c' ∈ x₂, Quiet c') (finalTms : Bool)
    (stream : List Bool) :
    (jtagtapTdiTdoSeq (chainWire κ) finalTms stream (jtagtapTdiSeq (chainWire κ) false
        (List.replicate x₁.length true) (opened .dr (x₁ ++ c :: x₂)))).1 =
      givenAt x₁.length stream ((x₁ ++ c :: x₂).map Controller.port) := by
  have hall : ∀ c' ∈ x₁ ++ c :: x₂, c'.device.WellFormed := by
    intro c' hc'
    rcases List.mem_append.1 hc' with h | h
    · exact (hbefore c' h).1
    · rcases List.mem_cons.1 h with rfl | h
      · exact hwell
      · exact (hbehind c' h).1
  have hbits : bits .dr (opened .dr (x₁ ++ c :: x₂)) =
      List.replicate x₁.length false ++
        (c.port.dataRegister ++ List.replicate x₂.length false) := by
    rw [opened_append, bits, List.flatMap_append]
    change bits .dr (opened .dr x₁) ++ (c.port.dataRegister ++ bits .dr (opened .dr x₂)) = _
    rw [bits_quiet hbefore, bits_quiet hbehind]
  have hfilled := filled_opened hall .dr
  have hfirst := tdiSeq_loaded hfilled false (List.replicate x₁.length true) rfl
  rw [← opened_loaded, if_neg (by simp)] at hfirst
  have hport : ((x₁ ++ c :: x₂).map Controller.port)[x₁.length]? = some c.port := by
    rw [List.map_append, List.map_cons, List.getElem?_append_right (by rw [List.length_map]),
      List.length_map, Nat.sub_self]
    rfl
  have hout := tdiTdoSeq_loaded hfilled finalTms stream
    (length_shiftIn (bits .dr (opened .dr (x₁ ++ c :: x₂)))
    (List.replicate x₁.length true))
  rw [hfirst, hout, givenAt, hport, List.length_map, List.length_append, List.length_cons,
    show x₁.length + (x₂.length + 1) - (x₁.length + 1) = x₂.length by omega, hbits]
  exact shiftOut_between x₁.length x₂.length c.port.dataRegister stream

end

/-! ## What the table says about the chain -/

section
variable {κ : Type}

/-- The lengths of the instruction registers. -/
def irLengths (devices : List (Device κ)) : List Nat := devices.map fun d => d.irCapture.length

/-- A chain that the table can hold, with no more than 64 bits of instruction registers on either
side of a device. -/
structure InReach (lens : List Nat) : Prop where
  count : lens.length ≤ jtagMaxDevs
  length : ∀ len ∈ lens, len ≤ jtagMaxIrLen
  before : ∀ i < lens.length, (lens.take i).sum ≤ 64
  behind : ∀ i < lens.length, (lens.drop (i + 1)).sum ≤ 64

/-- `current_ir` of a device, by the instruction that was written last. -/
def cachedIr (last : Option (Nat × UInt32)) (i : Nat) : UInt32 :=
  match last with
  | some (d, ir) => if i = d then ir else 0xffffffff
  | none => 0xffffffff

/-- A device with an instruction from `jtag_dev_write_ir`. -/
def instruct (ir : UInt32) (port : Port κ) : Port κ :=
  port.withIr ((wordBits ir).take port.device.irCapture.length)

/-- A chain with the instruction that was written last. -/
def instructed (last : Option (Nat × UInt32)) (ports : List (Port κ)) : List (Port κ) :=
  match last with
  | some (d, ir) => atPlace (instruct ir) Port.bypassed d ports
  | none => ports.map Port.bypassed

/-- The devices at the other end of the wire. -/
def ports (s : Probe (List (Controller κ))) : List (Port κ) := s.wire.map Controller.port

/-- The table and the chain agree. -/
structure Addressed (devices : List (Device κ)) (last : Option (Nat × UInt32))
    (s : Probe (List (Controller κ))) :
    Prop where
  connected : s.wire.map Controller.device = devices
  recorded : Recorded (irLengths devices) s
  idle : AtIdle s.wire
  cache : ∀ i : Fin jtagMaxDevs, i.val < devices.length → (s.devs i).currentIr = cachedIr last i.val
  instructed : instructed last (ports s) = ports s

/-- A place of the chain. -/
theorem exists_split {x : List (Controller κ)} {d : Nat} (hd : d < x.length) :
    ∃ x₁ c x₂, x = x₁ ++ c :: x₂ ∧ x₁.length = d := by
  refine ⟨x.take d, x[d], x.drop (d + 1), ?_, ?_⟩
  · rw [← List.drop_eq_getElem_cons hd, List.take_append_drop]
  · rw [List.length_take, Nat.min_eq_left (Nat.le_of_lt hd)]

/-- The table gives the lengths of the instruction registers around a device. -/
theorem RecordedDev.around {x₁ x₂ : List (Controller κ)} {c : Controller κ} {dev : JtagDev}
    (h : RecordedDev (irLengths ((x₁ ++ c :: x₂).map Controller.device)) x₁.length dev) :
    dev.irPrescan.toNat = (x₁.map fun c => c.device.irCapture.length).sum ∧
      dev.irPostscan.toNat = (x₂.map fun c => c.device.irCapture.length).sum ∧
      dev.irLen.toNat = c.device.irCapture.length ∧ dev.drPrescan.toNat = x₁.length ∧
      dev.drPostscan.toNat = x₂.length := by
  have hlens : irLengths ((x₁ ++ c :: x₂).map Controller.device) =
      (x₁.map fun c => c.device.irCapture.length) ++ c.device.irCapture.length ::
        x₂.map fun c => c.device.irCapture.length := by
    rw [irLengths, List.map_map, List.map_append, List.map_cons]
    rfl
  rw [hlens] at h
  have hfront : (x₁.map fun c => c.device.irCapture.length).length = x₁.length := List.length_map _
  refine ⟨?_, ?_, ?_, h.drPrescan, ?_⟩
  · rw [h.irPrescan, List.take_left' hfront]
  · rw [h.irPostscan, List.append_cons, List.drop_left' (by rw [List.length_append, hfront]; rfl)]
  · rw [h.irLen, List.getD_append_right _ _ _ _ (Nat.le_of_eq hfront), hfront, Nat.sub_self]
    rfl
  · rw [h.drPostscan, List.length_append, List.length_cons, List.length_map, List.length_map]
    omega

/-- The buffer of ones, cut to a number of bits. -/
theorem ones_take {n : Nat} (h : n ≤ 64) : ones.take n = List.replicate n true := by
  rw [ones, List.take_replicate, Nat.min_eq_left h]

/-- A byte is zero when its number is. -/
theorem eq_zero_of_toNat {byte : UInt8} {n : Nat} (h : byte.toNat = n) :
    (byte == 0) = (n == 0) := by
  rw [← h, Bool.eq_iff_iff, beq_iff_eq, beq_iff_eq, ← UInt8.toNat_inj]
  rfl

/-- The cache names an instruction only for the device it was written to. -/
theorem eq_of_cachedIr {last : Option (Nat × UInt32)} {i : Nat} {ir : UInt32}
    (h : cachedIr last i = ir) (hir : ir ≠ 0xffffffff) : last = some (i, ir) := by
  cases last with
  | none => exact absurd h.symm hir
  | some sel =>
    obtain ⟨d, ir'⟩ := sel
    rw [cachedIr] at h
    split at h
    · next hd => rw [hd, h]
    · exact absurd h.symm hir

variable {devices : List (Device κ)} {last : Option (Nat × UInt32)}
  {s : Probe (List (Controller κ))}

/-- `current_ir` of the devices after the loop, with the instruction of one. -/
def withCurrentIr (d : Fin jtagMaxDevs) (ir : UInt32) (count : Nat)
    (devs : Fin jtagMaxDevs → JtagDev) :
    Fin jtagMaxDevs → JtagDev :=
  Function.update (onRange (fun _ => setBypass) 0 count devs) d
    { onRange (fun _ => setBypass) 0 count devs d with currentIr := ir }

/-- The caches say nothing about the lengths. -/
theorem recordedDev_withCurrentIr {lens : List Nat} {d i : Fin jtagMaxDevs} {ir : UInt32}
    {count k : Nat} {devs : Fin jtagMaxDevs → JtagDev} (h : RecordedDev lens k (devs i)) :
    RecordedDev lens k (withCurrentIr d ir count devs i) := by
  have hrange : RecordedDev lens k (onRange (fun _ => setBypass) 0 count devs i) := by
    unfold onRange
    split
    · exact ⟨h.irLen, h.irPrescan, h.irPostscan, h.drPrescan, h.drPostscan⟩
    · exact h
  unfold withCurrentIr
  rcases eq_or_ne i d with rfl | hne
  · rw [Function.update_self]
    exact ⟨hrange.irLen, hrange.irPrescan, hrange.irPostscan, hrange.drPrescan, hrange.drPostscan⟩
  · rwa [Function.update_of_ne hne]

/-- After a write the caches are what the last write leaves. -/
theorem currentIr_withCurrentIr {d i : Fin jtagMaxDevs} {ir : UInt32} {count : Nat}
    {devs : Fin jtagMaxDevs → JtagDev} (hi : i.val < count) :
    (withCurrentIr d ir count devs i).currentIr = cachedIr (some (d.val, ir)) i.val := by
  rcases eq_or_ne i d with rfl | hne
  · rw [withCurrentIr, Function.update_self]
    exact (if_pos rfl).symm
  · rw [withCurrentIr, Function.update_of_ne hne, onRange, if_pos ⟨Nat.zero_le _, hi⟩]
    exact (if_neg fun h => hne (Fin.ext h)).symm

/-- There is a length for every device. -/
theorem length_irLengths : (irLengths devices).length = devices.length := List.length_map _

/-- All devices were put into BYPASS and one out of it, whichever had an instruction before. -/
theorem instructed_instructed (d : Nat) (ir : UInt32) (ports : List (Port κ)) :
    instructed (some (d, ir)) (instructed (some (d, ir)) ports) =
      instructed (some (d, ir)) ports := by
  exact atPlace_atPlace _ _ _ _ d ports

/-- `jtag_dev_write_ir`: the device has the instruction, and all others are in BYPASS. -/
theorem jtagDevWriteIr_run (h : Addressed devices last s) (hwell : ∀ d ∈ devices, d.WellFormed)
    (hreach : InReach (irLengths devices)) {d : UInt8} (hd : d.toNat < devices.length) {ir : UInt32}
    (hir : ir ≠ 0xffffffff) :
    ∃ s', jtagDevWriteIr (chainWire κ) d ir s = .ok () s' ∧
      Addressed devices (some (d.toNat, ir)) s' ∧
      ports s' = instructed (some (d.toNat, ir)) (ports s) := by
  have hcount : devices.length ≤ jtagMaxDevs := length_irLengths.symm ▸ hreach.count
  have hd32 : d.toNat < jtagMaxDevs := Nat.lt_of_lt_of_le hd hcount
  obtain ⟨device, hdevice⟩ : ∃ device, s.devs ⟨d.toNat, hd32⟩ = device := ⟨_, rfl⟩
  have hget : getDev d.toNat s = .ok device s := by rw [getDev_ok hd32, hdevice]
  have hcached : device.currentIr = cachedIr last d.toNat := by rw [← hdevice]; exact h.cache _ hd
  by_cases hsame : ir = device.currentIr
  · -- the device is as it should be
    obtain rfl := eq_of_cachedIr (hcached.symm.trans hsame.symm) hir
    refine ⟨s, ?_, h, h.instructed.symm⟩
    unfold jtagDevWriteIr
    rw [run_bind_ok hget, if_pos hsame]
    rfl
  · have hrec : RecordedDev (irLengths devices) d.toNat device :=
      hdevice ▸ h.recorded.dev ⟨d.toNat, hd32⟩ (by rwa [length_irLengths])
    have hbefore : device.irPrescan.toNat ≤ 64 :=
      hrec.irPrescan ▸ hreach.before _ (by rwa [length_irLengths])
    have hbehind : device.irPostscan.toNat ≤ 64 :=
      hrec.irPostscan ▸ hreach.behind _ (by rwa [length_irLengths])
    have hir32 : device.irLen.toNat ≤ (wordBits ir).length := by
      have hlen : (wordBits ir).length = 32 := by rw [wordBits, List.length_map, List.length_range]
      rw [hlen, hrec.irLen, List.getD_eq_getElem _ _ (by rwa [length_irLengths])]
      exact hreach.length _ (List.getElem_mem _)
    have hfinal : jtagDevWriteIr (chainWire κ) d ir s =
        .ok () { s with
          devs := withCurrentIr ⟨d.toNat, hd32⟩ ir s.count s.devs
          wire := scanPath device.irPrescan.toNat device.irPostscan.toNat
            ((wordBits ir).take device.irLen.toNat)
            (opened .ir s.wire) } := by
      unfold jtagDevWriteIr
      rw [run_bind_ok hget, if_neg hsame, run_bind_ok (show (get : JtagM _ _) s = .ok s s from rfl),
        run_bind_ok (bypassLoop_ok s (by rw [h.recorded.count]; exact hreach.count)),
        run_bind_ok (modifyDev_ok hd32 _), run_bind_ok (show onWire' _ _ = .ok () _ from rfl),
        run_bind_ok (bufferBits_ok hbefore _),
        run_bind_ok (show onWire' _ _ = .ok () _ from rfl), run_bind_ok (bufferBits_ok hir32 _),
        run_bind_ok (show onWire' _ _ = .ok () _ from rfl), run_bind_ok (bufferBits_ok hbehind _),
        run_bind_ok (show onWire' _ _ = .ok () _ from rfl), ones_take hbefore, ones_take hbehind,
        eq_zero_of_toNat (rfl : device.irPostscan.toNat = _), ← shiftIr_opened h.idle]
      rfl
    have hx : d.toNat < s.wire.length := by rwa [← List.length_map Controller.device, h.connected]
    have hwire : ∀ c ∈ s.wire, c.device.WellFormed := fun c hc =>
      hwell _ (h.connected ▸ List.mem_map_of_mem hc)
    obtain ⟨x₁, c, x₂, hsplit, hx₁⟩ := exists_split hx
    have haround : RecordedDev (irLengths ((x₁ ++ c :: x₂).map Controller.device)) x₁.length
        device := by
      rwa [← hsplit, h.connected, hx₁]
    obtain ⟨hpre, hpost, hlen, -, -⟩ := haround.around
    have htake : ((wordBits ir).take device.irLen.toNat).length = c.device.irCapture.length := by
      rw [List.length_take, Nat.min_eq_left hir32, hlen]
    have hports :
        (scanPath device.irPrescan.toNat device.irPostscan.toNat
        ((wordBits ir).take device.irLen.toNat)
        (opened .ir s.wire)).map Controller.port = instructed (some (d.toNat, ir)) (ports s) := by
      rw [hsplit, hpre, hpost, scanPath_ir (by rwa [← hsplit]) htake, ports, hsplit,
        List.map_append, List.map_cons, ← hx₁, ← List.length_map Controller.port, instructed,
        atPlace_append, instruct, hlen]
      rfl
    have hmid : (wordBits ir).take device.irLen.toNat ≠ [] := fun hnil => by
      rw [hnil] at htake
      exact (hwire c (by rw [hsplit]; simp)).irFilled (List.length_eq_zero_iff.1 htake.symm)
    obtain ⟨hidle, hdevices⟩ :=
      @scanPath_keeps κ .ir s.wire hwire device.irPrescan.toNat device.irPostscan.toNat _
      (.inl hmid)
    refine ⟨_, hfinal,
      ⟨hdevices.trans h.connected, ⟨h.recorded.count, fun i hi => ?_⟩, hidle, fun i hi => ?_, ?_⟩,
      hports⟩
    · exact recordedDev_withCurrentIr (h.recorded.dev i hi)
    · refine currentIr_withCurrentIr ?_
      rwa [h.recorded.count, length_irLengths]
    · exact (congrArg _ hports).trans ((instructed_instructed _ _ _).trans hports.symm)

/-- A scan of a data register leaves the instructions. -/
theorem instructed_shiftedAt {d : Nat} {ir : UInt32} {ports : List (Port κ)}
    (h : instructed (some (d, ir)) ports = ports) (stream : List Bool) :
    instructed (some (d, ir)) (shiftedAt d stream ports) = shiftedAt d stream ports := by
  obtain ⟨before, hbefore⟩ : ∃ before, ports = instructed (some (d, ir)) before := ⟨ports, h.symm⟩
  rw [hbefore]
  unfold shiftedAt instructed
  dsimp only
  rw [atPlace_atPlace, atPlace_atPlace, atPlace_atPlace]
  rfl

/-- The instructions around a device. -/
theorem quiet_around {x₁ x₂ : List (Controller κ)} {c : Controller κ} {ir : UInt32}
    (hwell : ∀ c' ∈ x₁ ++ c :: x₂, c'.device.WellFormed)
    (h : instructed (some (x₁.length, ir)) ((x₁ ++ c :: x₂).map Controller.port) =
      (x₁ ++ c :: x₂).map Controller.port) :
    (∀ c' ∈ x₁, Quiet c') ∧ ∀ c' ∈ x₂, Quiet c' := by
  have hself : ∀ {x : List (Controller κ)}, (x.map Controller.port).map Port.bypassed =
      x.map Controller.port →
      ∀ c' ∈ x, c'.ir = c'.device.bypass := by
    intro x hx c' hc'
    rw [List.map_map] at hx
    exact (congrArg Port.ir (List.map_inj_left.1 hx c' hc')).symm
  rw [List.map_append, List.map_cons, instructed, ← List.length_map Controller.port,
    atPlace_append] at h
  obtain ⟨hbefore, hrest⟩ := List.append_inj h (List.length_map _)
  obtain ⟨-, hbehind⟩ := List.cons.inj hrest
  refine ⟨fun c' hc' => ⟨hwell c' (by simp [hc']), hself hbefore c' hc'⟩, fun c' hc' =>
    ⟨hwell c' (by simp [hc']), hself hbehind c' hc'⟩⟩

/-- `jtag_dev_shift_dr`: the data register of the device takes the bits and gives its own, and
nothing else changes. -/
theorem jtagDevShiftDr_run {d : UInt8} {ir : UInt32} (h : Addressed devices (some (d.toNat, ir)) s)
    (hwell : ∀ d ∈ devices, d.WellFormed) (hreach : InReach (irLengths devices))
    (hd : d.toNat < devices.length) (dataOut : Bool) {dataIn : List Bool} {n : Nat}
    (hn : n ≤ dataIn.length) (hclock : n ≠ 0 ∨ d.toNat + 1 < devices.length) :
    ∃ s', jtagDevShiftDr (chainWire κ) d dataOut dataIn n s =
        .ok (if dataOut then givenAt d.toNat (dataIn.take n) (ports s) else []) s' ∧
      Addressed devices (some (d.toNat, ir)) s' ∧
        ports s' = shiftedAt d.toNat (dataIn.take n) (ports s) := by
  have hcount : devices.length ≤ jtagMaxDevs := length_irLengths.symm ▸ hreach.count
  have hd32 : d.toNat < jtagMaxDevs := Nat.lt_of_lt_of_le hd hcount
  obtain ⟨device, hdevice⟩ : ∃ device, s.devs ⟨d.toNat, hd32⟩ = device := ⟨_, rfl⟩
  have hget : getDev d.toNat s = .ok device s := by rw [getDev_ok hd32, hdevice]
  have hrec : RecordedDev (irLengths devices) d.toNat device :=
    hdevice ▸ h.recorded.dev ⟨d.toNat, hd32⟩ (by rwa [length_irLengths])
  have hbefore : device.drPrescan.toNat ≤ 64 := by
    rw [hrec.drPrescan]
    exact Nat.le_trans (Nat.le_of_lt hd32) (by decide)
  have hbehind : device.drPostscan.toNat ≤ 64 := by
    rw [hrec.drPostscan, length_irLengths]
    have hmax : devices.length ≤ 32 := hcount
    omega
  have hx : d.toNat < s.wire.length := by rwa [← List.length_map Controller.device, h.connected]
  have hwire : ∀ c ∈ s.wire, c.device.WellFormed := fun c hc =>
    hwell _ (h.connected ▸ List.mem_map_of_mem hc)
  obtain ⟨x₁, c, x₂, hsplit, hx₁⟩ := exists_split hx
  have haround : RecordedDev (irLengths ((x₁ ++ c :: x₂).map Controller.device)) x₁.length
      device := by
    rwa [← hsplit, h.connected, hx₁]
  obtain ⟨-, -, -, hpre, hpost⟩ := haround.around
  have hinstructed := h.instructed
  rw [ports, hsplit, ← hx₁] at hinstructed
  obtain ⟨hquiet₁, hquiet₂⟩ := quiet_around (hsplit ▸ hwire) hinstructed
  have hlen : devices.length = x₁.length + (x₂.length + 1) := by
    rw [← h.connected, List.length_map, hsplit, List.length_append, List.length_cons]
  have hstream : dataIn.take n ≠ [] ∨ x₂ ≠ [] := by
    rcases hclock with hpos | hlt
    · refine .inl fun hnil => hpos ?_
      have hzero := congrArg List.length hnil
      rwa [List.length_take, Nat.min_eq_left hn] at hzero
    · refine .inr fun hnil => ?_
      rw [hlen, hnil, hx₁] at hlt
      exact absurd hlt (Nat.lt_irrefl _)
  have hgiven :
      (jtagtapTdiTdoSeq (chainWire κ) (device.drPostscan == 0) (dataIn.take n)
      (jtagtapTdiSeq (chainWire κ)
      false (List.replicate device.drPrescan.toNat true) (opened .dr s.wire))).1 =
      givenAt d.toNat (dataIn.take n) (ports s) := by
    rw [hsplit, hpre, tdo_dr (hwire c (by rw [hsplit]; simp)) hquiet₁ hquiet₂, ports, hsplit, hx₁]
  have hfinal : jtagDevShiftDr (chainWire κ) d dataOut dataIn n s =
      .ok (if dataOut then givenAt d.toNat (dataIn.take n) (ports s) else []) { s with
        wire := scanPath device.drPrescan.toNat device.drPostscan.toNat (dataIn.take n)
          (opened .dr s.wire) } := by
    unfold jtagDevShiftDr
    rw [run_bind_ok hget, run_bind_ok (show onWire' _ _ = .ok () _ from rfl),
      run_bind_ok (bufferBits_ok hbefore _), run_bind_ok (show onWire' _ _ = .ok () _ from rfl),
      run_bind_ok (bufferBits_ok hn _), shiftDr_opened h.idle,
      ones_take hbefore]
    rw [run_bind_ok (clockData_ok _ _ _ _ _), hgiven, run_bind_ok (bufferBits_ok hbehind _),
      run_bind_ok (show onWire' _ _ = .ok () _ from rfl), ones_take hbehind,
      eq_zero_of_toNat (rfl : device.drPostscan.toNat = _)]
    rfl
  have hports :
      (scanPath device.drPrescan.toNat device.drPostscan.toNat (dataIn.take n)
      (opened .dr s.wire)).map
      Controller.port = shiftedAt d.toNat (dataIn.take n) (ports s) := by
    rw [hsplit, hpre, hpost, scanPath_dr (hwire c (by rw [hsplit]; simp)) hquiet₁ hquiet₂ hstream,
      ports, hsplit, hx₁]
  have hmid : dataIn.take n ≠ [] ∨ device.drPostscan.toNat ≠ 0 :=
    hstream.imp_right fun hne => by rwa [hpost, Ne, List.length_eq_zero_iff]
  obtain ⟨hidle, hdevices⟩ :=
    @scanPath_keeps κ .dr s.wire hwire device.drPrescan.toNat device.drPostscan.toNat _ hmid
  refine ⟨_, hfinal,
    ⟨hdevices.trans h.connected, ⟨h.recorded.count, h.recorded.dev⟩, hidle, h.cache, ?_⟩, hports⟩
  exact (congrArg _ hports).trans ((instructed_shiftedAt h.instructed _).trans hports.symm)

end

/-! ## Sequences of requests -/

/-- A call of `jtag_dev_write_ir` or of `jtag_dev_shift_dr`. -/
inductive Request
  | writeIr (devIndex : UInt8) (ir : UInt32)
  | shiftDr (devIndex : UInt8) (dataOut : Bool) (dataIn : List Bool) (clockCycles : Nat)

/-- The call, and what it puts into its buffer. -/
def Request.run {σ : Type} (w : Wire σ) : Request → JtagM σ (List Bool)
  | .writeIr devIndex ir => do
    jtagDevWriteIr w devIndex ir
    return []
  | .shiftDr devIndex dataOut dataIn clockCycles =>
      jtagDevShiftDr w devIndex dataOut dataIn clockCycles

def runRequests {σ : Type} (w : Wire σ) : List Request → JtagM σ (List (List Bool))
  | [] => return []
  | request :: requests => do
    let out ← request.run w
    let outs ← runRequests w requests
    return out :: outs

/-- The instruction that was written last. -/
def Request.written (last : Option (Nat × UInt32)) : Request → Option (Nat × UInt32)
  | .writeIr devIndex ir => some (devIndex.toNat, ir)
  | .shiftDr .. => last

/-- Instructions fit into their registers and are no `UINT32_MAX`, and data is for the device that
was written last. -/
def Request.WellUsed (lens : List Nat) (last : Option (Nat × UInt32)) : Request → Prop
  | .writeIr devIndex ir =>
    devIndex.toNat < lens.length ∧ ir.toNat < 2 ^ lens.getD devIndex.toNat 0 ∧ ir ≠ 0xffffffff
  | .shiftDr devIndex _ dataIn clockCycles =>
    (∃ ir, last = some (devIndex.toNat, ir)) ∧ clockCycles ≤ dataIn.length

def WellUsed (lens : List Nat) : Option (Nat × UInt32) → List Request → Prop
  | _, [] => True
  | last, request :: requests =>
      request.WellUsed lens last ∧ WellUsed lens (request.written last) requests

/-- The last device of the chain is not asked for no clocks at all. -/
def Request.Clocked (count : Nat) : Request → Prop
  | .writeIr .. => True
  | .shiftDr devIndex _ _ clockCycles => clockCycles ≠ 0 ∨ devIndex.toNat + 1 < count

section
variable {κ : Type}

/-- What a request does to the devices. -/
def Request.effect : Request → List (Port κ) → List (Port κ)
  | .writeIr devIndex ir, ports => instructed (some (devIndex.toNat, ir)) ports
  | .shiftDr devIndex _ dataIn clockCycles, ports =>
      shiftedAt devIndex.toNat (dataIn.take clockCycles) ports

/-- What the device of a request shifts out. -/
def Request.answer : Request → List (Port κ) → List Bool
  | .writeIr .., _ => []
  | .shiftDr devIndex dataOut dataIn clockCycles, ports =>
    if dataOut then givenAt devIndex.toNat (dataIn.take clockCycles) ports else []

def effects (requests : List Request) (ports : List (Port κ)) : List (Port κ) :=
  requests.foldl (fun ports request => request.effect ports) ports

def answers : List Request → List (Port κ) → List (List Bool)
  | [], _ => []
  | request :: requests, ports => request.answer ports :: answers requests (request.effect ports)

/-- The device that was written last has its instruction, and the others are in BYPASS. -/
def HasInstructions (last : Option (Nat × UInt32)) (ports : List (Port κ)) : Prop :=
  ∀ i port, ports[i]? = some port →
    match last with
    | some (d, ir) => if i = d then bitsNat port.ir = ir.toNat else port.ir = port.device.bypass
    | none => port.ir = port.device.bypass

variable {devices : List (Device κ)} {last : Option (Nat × UInt32)}
  {s : Probe (List (Controller κ))}

/-- The instruction written last is one for a device of the chain, and fits into its register. -/
def LastFits (lens : List Nat) (last : Option (Nat × UInt32)) : Prop :=
  ∀ d ir, last = some (d, ir) → d < lens.length ∧ ir.toNat < 2 ^ lens.getD d 0

/-- The low bits of an instruction that fits are the instruction. -/
theorem bitsNat_take_wordBits {ir : UInt32} {len : Nat} (hlen : len ≤ 32)
    (hir : ir.toNat < 2 ^ len) :
    bitsNat ((wordBits ir).take len) = ir.toNat := by
  rw [wordBits, ← List.map_take, List.take_range, Nat.min_eq_left hlen, bitsNat_testBit,
    Nat.mod_eq_of_lt hir]

/-- The devices hold the instructions that the caches name. -/
theorem Addressed.hasInstructions (h : Addressed devices last s)
    (hreach : InReach (irLengths devices)) (hfits : LastFits (irLengths devices) last) :
    HasInstructions last (ports s) := by
  intro i port hport
  have hlens : (ports s).map (fun port => port.device.irCapture.length) = irLengths devices := by
    rw [← h.connected, ports, irLengths, List.map_map, List.map_map]
    rfl
  have hlen : (irLengths devices)[i]? = some port.device.irCapture.length := by
    rw [← hlens, List.getElem?_map, hport]
    rfl
  have hat : (Jtag.instructed last (ports s))[i]? = some port := by rw [h.instructed, hport]
  cases last with
  | none =>
    rw [Jtag.instructed, List.getElem?_map, hport] at hat
    exact (congrArg Port.ir (Option.some.inj hat)).symm
  | some written =>
    obtain ⟨d, ir⟩ := written
    rw [Jtag.instructed, getElem?_atPlace, hport] at hat
    have hir := congrArg Port.ir (Option.some.inj hat)
    dsimp only
    split at hir
    · next hi =>
      rw [if_pos hi, ← hir]
      have hfit := (hfits d ir rfl).2
      rw [List.getD_eq_getElem?_getD, ← hi, hlen] at hfit
      exact bitsNat_take_wordBits (hreach.length _ (List.mem_of_getElem? hlen)) hfit
    · next hi =>
      rw [if_neg hi]
      exact hir.symm

/-- A request is what it does to the devices. -/
theorem Request.run_ok (h : Addressed devices last s) (hwell : ∀ d ∈ devices, d.WellFormed)
    (hreach : InReach (irLengths devices)) (hfits : LastFits (irLengths devices) last)
    {request : Request} (huse : request.WellUsed (irLengths devices) last)
    (hclocked : request.Clocked devices.length) :
    ∃ s', request.run (chainWire κ) s = .ok (request.answer (ports s)) s' ∧
      Addressed devices (request.written last) s' ∧ ports s' = request.effect (ports s) := by
  cases request with
  | writeIr devIndex ir =>
    obtain ⟨hd, -, hir⟩ := huse
    obtain ⟨s', hrun, hnext, hports⟩ :=
      jtagDevWriteIr_run h hwell hreach (by rwa [← length_irLengths]) hir
    refine ⟨s', ?_, hnext, hports⟩
    rw [Request.run, run_bind_ok hrun]
    rfl
  | shiftDr devIndex dataOut dataIn clockCycles =>
    obtain ⟨⟨ir, rfl⟩, hn⟩ := huse
    have hd := (hfits _ ir rfl).1
    rw [length_irLengths] at hd
    exact jtagDevShiftDr_run h hwell hreach hd dataOut hn hclocked

/-- A request writes an instruction that fits its register. -/
theorem Request.written_fits {lens : List Nat} {request : Request} (hfits : LastFits lens last)
    (huse : request.WellUsed lens last) : LastFits lens (request.written last) := by
  cases request with
  | writeIr devIndex ir =>
    rintro d ir' hwritten
    cases hwritten
    exact ⟨huse.1, huse.2.1⟩
  | shiftDr => exact hfits

/-- The instruction that is written last in a sequence of requests. -/
def lastWritten (last : Option (Nat × UInt32)) (requests : List Request) : Option (Nat × UInt32) :=
  requests.foldl Request.written last

/-- By induction on the requests: each answers what the device alone answers, and leaves the chain
addressed. -/
theorem runRequests_ok {requests : List Request} (hwell : ∀ d ∈ devices, d.WellFormed)
    (hreach : InReach (irLengths devices))
    (hclocked : ∀ request ∈ requests, request.Clocked devices.length) :
    ∀ {last : Option (Nat × UInt32)} {s : Probe (List (Controller κ))}, Addressed devices last s →
      LastFits (irLengths devices) last → WellUsed (irLengths devices) last requests →
      ∃ s', runRequests (chainWire κ) requests s = .ok (answers requests (ports s)) s' ∧
        Addressed devices (lastWritten last requests) s' ∧
          LastFits (irLengths devices) (lastWritten last requests) ∧
        ports s' = effects requests (ports s) := by
  induction requests with
  | nil => exact fun h hfits _ => ⟨_, rfl, h, hfits, rfl⟩
  | cons request requests ih =>
    intro last s h hfits huse
    obtain ⟨hrequest, hrequests⟩ := List.forall_mem_cons.1 hclocked
    obtain ⟨s₁, hrun, hnext, hports⟩ := Request.run_ok h hwell hreach hfits huse.1 hrequest
    obtain ⟨s', hrest, hlast, hfits', hports'⟩ :=
      ih hrequests hnext (Request.written_fits hfits huse.1) huse.2
    refine ⟨s', ?_, hlast, hfits', ?_⟩
    · rw [runRequests, run_bind_ok hrun, run_bind_ok hrest, hports]
      rfl
    · rw [hports', hports]
      rfl

/-- From a chain in BYPASS on, every sequence of requests does to the devices what each of its
requests is for, and leaves them in Run-Test/Idle. -/
theorem requests_refine {requests : List Request} (hwell : ∀ d ∈ devices, d.WellFormed)
    (hreach : InReach (irLengths devices)) (h : Addressed devices none s)
    (huse : WellUsed (irLengths devices) none requests)
    (hclocked : ∀ request ∈ requests, request.Clocked devices.length) :
    ∃ s', runRequests (chainWire κ) requests s = .ok (answers requests (ports s)) s' ∧
      ports s' = effects requests (ports s) ∧ AtIdle s'.wire ∧
      HasInstructions (lastWritten none requests) (ports s') := by
  obtain ⟨s', hrun, hnext, hfits, hports⟩ :=
    runRequests_ok hwell hreach hclocked h (fun _ _ hnone => by cases hnone) huse
  exact ⟨s', hrun, hports, hnext.idle, hnext.hasInstructions hreach hfits⟩

end

/-! ## From a scan on -/

section
variable {κ : Type} {chain : List (ConformantDevice κ)}

/-- A scan of data registers leaves the instructions. -/
theorem inBypass_leave {x : List (Controller κ)} (h : Devices chain x) (hbypass : InBypass x)
    (n : Nat) :
    InBypass (leaveShift (chainWire κ) (onesAfter (chainWire κ) (opened .dr x) n)) := by
  have hkept : ∀ new, (closed .dr (loaded (Path.dr.shift.next true) .dr (opened .dr x) new)).map
      (fun c => (c.device, c.ir)) = x.map fun c => (c.device, c.ir) := fun new =>
    map_after (fun _ _ => rfl) (fun _ => rfl) (fun _ _ => rfl) (fun _ => rfl) x new
  rw [opened_loaded, onesAfter_loaded (filled_bypass h hbypass) rfl,
    leaveShift_loaded (filled_bypass h hbypass) (by simp)]
  intro c hc
  have hmem := List.mem_map_of_mem (f := fun c : Controller κ => (c.device, c.ir)) hc
  rw [hkept] at hmem
  obtain ⟨c', hc', heq⟩ := List.mem_map.1 hmem
  obtain ⟨hdevice, hir⟩ := Prod.mk.inj heq
  rw [← hdevice, ← hir]
  exact hbypass c' hc'

/-- The lengths of conformant devices. -/
theorem irLengths_toDevice (chain : List (ConformantDevice κ)) :
    irLengths (chain.map ConformantDevice.toDevice) = irLens chain := by
  rw [irLengths, irLens, List.map_map]
  exact List.map_congr_left fun d _ => d.length_irCapture

/-- A scan ends with the table and the chain in agreement, and all devices in BYPASS. -/
theorem scan_addressed {s : Probe (List (Controller κ))} (hdev : Devices chain s.wire)
    (hpos : 0 < chain.length) (hlt : chain.length < jtagMaxDevs)
    (hpre : (irLens chain).dropLast.sum < 256) (hpost : (irLens chain).tail.sum < 256) :
    ∃ fuel s', jtagScan (chainWire κ) fuel s = .ok true s' ∧
      Addressed (chain.map ConformantDevice.toDevice) none s' := by
  obtain ⟨fuel, hrun⟩ := jtagScan_scanned (walks_of_devices hdev) hpos hlt
  obtain ⟨y, hy, hdevices, hbypass⟩ := bypassAt_opened hdev
  have hwire : (scanned (chainWire κ) s.wire (irLens chain) ((irLens chain).sum + 2)).wire =
      leaveShift (chainWire κ) (onesAfter (chainWire κ) (opened .dr y) (chain.length + 1)) := by
    rw [← hy, ← length_irLens chain]
    rfl
  obtain ⟨hidle, hleft⟩ := leave_opened hdevices (filled_bypass hdevices hbypass) (chain.length + 1)
  have hstays := inBypass_leave hdevices hbypass (chain.length + 1)
  rw [← hwire] at hidle hleft hstays
  have hlens := irLengths_toDevice chain
  have hlen := length_irLens chain
  refine ⟨fuel, _, hrun, hleft, ?_, hidle, fun i hi => ?_, ?_⟩
  · rw [hlens]
    exact (recorded_scanned_iff le_of_mem_irLens (by omega) (by omega)).2 ⟨hpre, hpost⟩
  · have hrange : 0 ≤ i.val ∧ i.val < (irLens chain).length :=
      ⟨Nat.zero_le _, by rwa [hlen, ← List.length_map]⟩
    simp only [scanned, afterSanity, afterIrs, afterIdcodes, onRange, if_pos hrange]
    rfl
  · refine (List.map_map.trans ?_)
    refine List.map_congr_left fun c hc => ?_
    change (⟨c.device, c.device.bypass, c.core⟩ : Port κ) = ⟨c.device, c.ir, c.core⟩
    rw [hstays c hc]
    rfl

/-- The lengths on either side of a device add up to a byte. -/
theorem InReach.sums {lens : List Nat} (h : InReach lens) (hpos : 0 < lens.length) :
    lens.dropLast.sum < 256 ∧ lens.tail.sum < 256 := by
  have hpre := h.before (lens.length - 1) (by omega)
  have hpost := h.behind 0 hpos
  rw [← List.dropLast_eq_take] at hpre
  rw [List.drop_one] at hpost
  exact ⟨by omega, by omega⟩

end

/-! ## A chain of flags -/

/-- A device whose data register is one bit that it keeps. -/
def flagDevice : ConformantDevice Bool where
  irCapture := [true, false, false, false]
  resetIr := [false, true, true, true]
  drCapture ir flag :=
    if ir = [false, true, true, true] then wordBits 0x4ba00477
      else if ir = [true, true, true, true] then [false] else [flag]
  drUpdate ir bits flag :=
    if ir = [false, true, true, true] ∨ ir = [true, true, true, true] then flag else bits.headD flag
  idcode := 0x4ba00477
  irLen := 4
  two_le := two_le_debugPort_irLen
  le_max := debugPort_irLen_le
  idcode_ne := debugPort_idcode_ne
  ir_capture := rfl
  dr_idcode _ := rfl
  dr_bypass _ := rfl

/-- The device with one flag is well formed. -/
theorem flagDevice_wellFormed : flagDevice.toDevice.WellFormed where
  irFilled := List.cons_ne_nil _ _
  drFilled ir flag := by
    unfold flagDevice
    dsimp only
    split
    · exact List.cons_ne_nil _ _
    · split
      · exact List.cons_ne_nil _ _
      · exact List.cons_ne_nil _ _
  bypassCapture _ := rfl
  bypassUpdate _ _ := rfl

/-- So many flags, as a scan leaves them. -/
def scannedFlags (n : Nat) : Probe (List (Controller Bool)) where
  devs i := ⟨0x4ba00477, 0xffffffff, UInt8.ofNat i, UInt8.ofNat (n - 1 - i), 4, UInt8.ofNat (4 * i),
    UInt8.ofNat (4 * (n - 1 - i))⟩
  count := n
  wire :=
    List.replicate n ⟨flagDevice.toDevice, .runTestIdle, [true, true, true, true], [], [], false⟩

/-- The devices of a chain of flags. -/
def flags (n : Nat) : List (Device Bool) := List.replicate n flagDevice.toDevice

/-- Its chains have instruction registers of four bits. -/
theorem irLengths_flags (n : Nat) : irLengths (flags n) = List.replicate n 4 := List.map_replicate

/-- Its chains are well formed. -/
theorem wellFormed_flags (n : Nat) : ∀ d ∈ flags n, d.WellFormed := by
  intro d hd
  rw [List.eq_of_mem_replicate hd]
  exact flagDevice_wellFormed

/-- Up to seventeen of them are in reach of a byte. -/
theorem inReach_flags {n : Nat} (hn : n ≤ 17) : InReach (irLengths (flags n)) := by
  rw [irLengths_flags]
  have hmax : jtagMaxDevs = 32 := rfl
  constructor
  · rw [List.length_replicate]
    omega
  · intro len hlen
    rw [List.eq_of_mem_replicate hlen]
    decide
  · intro i hi
    rw [List.length_replicate] at hi
    rw [List.take_replicate, List.sum_replicate, smul_eq_mul]
    omega
  · intro i hi
    rw [List.length_replicate] at hi
    rw [List.drop_replicate, List.sum_replicate, smul_eq_mul]
    omega

/-- After a scan they are addressed. -/
theorem addressed_scannedFlags {n : Nat} (hn : n ≤ 17) :
    Addressed (flags n) none (scannedFlags n) := by
  refine ⟨List.map_replicate, ⟨?_, fun i hi => ?_⟩, fun c hc => ?_, fun i _ => rfl, ?_⟩
  · rw [irLengths_flags, List.length_replicate]
    rfl
  · rw [irLengths_flags, List.length_replicate] at hi
    rw [irLengths_flags]
    refine ⟨?_, ?_, ?_, ?_, ?_⟩
    · rw [List.getD_eq_getElem _ _ (by rwa [List.length_replicate]), List.getElem_replicate]
      rfl
    · rw [List.take_replicate, List.sum_replicate, smul_eq_mul, Nat.min_eq_left (Nat.le_of_lt hi),
        Nat.mul_comm]
      exact Nat.mod_eq_of_lt (by omega)
    · rw [List.drop_replicate, List.sum_replicate, smul_eq_mul, Nat.mul_comm, Nat.sub_add_eq,
        Nat.sub_right_comm]
      exact Nat.mod_eq_of_lt (by omega)
    · exact Nat.mod_eq_of_lt (by omega)
    · rw [List.length_replicate]
      exact Nat.mod_eq_of_lt (by omega)
  · rw [List.eq_of_mem_replicate hc]
  · rw [instructed, ports, scannedFlags, List.map_replicate, List.map_replicate]
    rfl

/-- The flag of the second device is set, and the first one is read. -/
def flagRequests : List Request :=
  [.writeIr 1 8, .shiftDr 1 true [true] 1, .writeIr 0 8, .shiftDr 0 true [] 0]

/-- The requests use the instructions they need. -/
theorem wellUsed_flagRequests : WellUsed (irLengths (flags 2)) none flagRequests :=
  ⟨⟨by decide, by decide, by decide⟩, ⟨⟨8, rfl⟩, by decide⟩, ⟨by decide, by decide, by decide⟩,
    ⟨⟨8, rfl⟩, by decide⟩, trivial⟩

/-- Each request clocks the last device. -/
theorem clocked_flagRequests : ∀ request ∈ flagRequests, request.Clocked 2 := by
  intro request hrequest
  simp only [flagRequests, List.mem_cons, List.not_mem_nil, or_false] at hrequest
  rcases hrequest with rfl | rfl | rfl | rfl
  · trivial
  · exact .inl (by decide)
  · trivial
  · exact .inr (by decide)

/-- Two devices and two requests. -/
theorem requests_refine_flags :
    ∃ s', runRequests (chainWire Bool) flagRequests (scannedFlags 2) =
        .ok (answers flagRequests (ports (scannedFlags 2))) s' ∧
      ports s' = effects flagRequests (ports (scannedFlags 2)) ∧ AtIdle s'.wire ∧
      HasInstructions (lastWritten none flagRequests) (ports s') :=
  requests_refine (wellFormed_flags 2) (inReach_flags (by decide))
    (addressed_scannedFlags (by decide))
    wellUsed_flagRequests clocked_flagRequests

/-- No bits for the only device: its controller is left in Pause-DR. -/
theorem requests_not_idle :
    Addressed (flags 1) none (scannedFlags 1) ∧ (∀ d ∈ flags 1, d.WellFormed) ∧
      InReach (irLengths (flags 1)) ∧
      WellUsed (irLengths (flags 1)) none [.writeIr 0 8, .shiftDr 0 true [] 0] ∧
      ∃ outs s', runRequests (chainWire Bool) [.writeIr 0 8, .shiftDr 0 true [] 0]
        (scannedFlags 1) = .ok outs s' ∧
        s'.wire.map Controller.state = [.pauseDr] ∧ ¬ AtIdle s'.wire := by
  refine ⟨addressed_scannedFlags (by decide), wellFormed_flags 1, inReach_flags (by decide),
    ⟨⟨by decide, by decide, by decide⟩, ⟨⟨8, rfl⟩, by decide⟩, trivial⟩, _, _, rfl, rfl, ?_⟩
  intro hidle
  exact absurd (hidle _ List.mem_cons_self) (by decide)

end Jtag

end Blackmagic
