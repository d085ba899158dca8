import Blackmagic.Jtag.Scan

/-!
# What a scan reads: the bits of the wire while ones go in

In each of the three walks of a scan, the probe holds TMS low and TDI high and reads one bit after
the other. What a walk does is a matter of these bits alone. `Registers` is how they are cut into
instruction registers.
-/

namespace Blackmagic

open Effect

namespace Jtag

section
variable {σ : Type} (w : Wire σ)

/-! ## The bits -/

/-- The wire after `n` clocks with TMS low and TDI high. -/
def onesAfter (x : σ) (n : Nat) : σ := (fun x => (w.clock x false true).2)^[n] x

/-- The bit that clock `n` of these reads. -/
def bitAt (x : σ) (n : Nat) : Bool := (w.clock (onesAfter w x n) false true).1

/-- ID code `i` of the wire. -/
def wordAt (x : σ) (i : Nat) : UInt32 :=
  UInt32.ofNat (bitsNat ((List.range 32).map fun j => bitAt w x (32 * i + j)))

/-- The registers that a walk over the instruction registers cuts out of the bits from `p` on,
whether it came to an end marker, and how far it went. A register ends before the next one in the
bits, and two ones in a row end the walk. -/
inductive Registers (bits : Nat → Bool) : Nat → List Nat → Bool → Nat → Prop
  | last {p : Nat} : bits (p + 1) = true → Registers bits p [] true (p + 2)
  | long {p : Nat} : (∀ i, 1 ≤ i → i ≤ jtagMaxIrLen → bits (p + i) = false) →
      Registers bits p [] false (p + jtagMaxIrLen + 1)
  | next {p len q : Nat} {lens : List Nat} {ok : Bool} : 2 ≤ len → len ≤ jtagMaxIrLen →
      (∀ i, 1 ≤ i → i < len → bits (p + i) = false) → bits (p + len) = true →
      Registers bits (p + len) lens ok q → Registers bits p (len :: lens) ok q

variable {w}

@[simp] theorem onesAfter_zero (x : σ) : onesAfter w x 0 = x := rfl

/-- One clock more. -/
theorem onesAfter_succ (x : σ) (n : Nat) :
    onesAfter w x (n + 1) = (w.clock (onesAfter w x n) false true).2 :=
  Function.iterate_succ_apply' _ n x

/-- Clocks after clocks. -/
theorem onesAfter_onesAfter (x : σ) (m n : Nat) :
    onesAfter w (onesAfter w x m) n = onesAfter w x (m + n) := by
  rw [Nat.add_comm]
  exact (Function.iterate_add_apply _ n m x).symm

/-- Bits are counted on after clocks. -/
theorem bitAt_onesAfter (x : σ) (m n : Nat) : bitAt w (onesAfter w x m) n = bitAt w x (m + n) := by
  unfold bitAt
  rw [onesAfter_onesAfter]

/-- So are words. -/
theorem wordAt_onesAfter (x : σ) (i j : Nat) :
    wordAt w (onesAfter w x (32 * i)) j = wordAt w x (i + j) := by
  unfold wordAt
  simp only [bitAt_onesAfter, Nat.mul_add, Nat.add_assoc]

/-- One clock with TMS low and TDI high reads the next bit. -/
theorem jtagtapNext_ones (x : σ) (n : Nat) :
    jtagtapNext w false true (onesAfter w x n) = (bitAt w x n, onesAfter w x (n + 1)) := by
  rw [onesAfter_succ]
  rfl

/-- A shift of ones reads the bits in turn. -/
theorem tdiTdoSeq_ones (n : Nat) (x : σ) :
    jtagtapTdiTdoSeq w false (List.replicate n true) x =
      ((List.range n).map (bitAt w x), onesAfter w x n) := by
  induction n generalizing x with
  | zero => rfl
  | succ n ih =>
    cases n with
    | zero => rfl
    | succ n =>
      have hbits : (List.range (n + 1 + 1)).map (bitAt w x) =
          bitAt w x 0 :: (List.range (n + 1)).map (bitAt w (onesAfter w x 1)) := by
        rw [List.range_succ_eq_map, List.map_cons, List.map_map]
        rfl
      have hafter : onesAfter w x (n + 1 + 1) = onesAfter w (onesAfter w x 1) (n + 1) := by
        rw [onesAfter_onesAfter, Nat.add_comm 1]
      rw [hbits, hafter, List.replicate_succ, List.replicate_succ,
        jtagtapTdiTdoSeq, ← List.replicate_succ, show (w.clock x false true).2 =
        onesAfter w x 1 from rfl, ih]
      rfl

/-- No two lists of registers are cut out of the same bits. -/
theorem Registers.unique {bits : Nat → Bool} {p q q' : Nat} {lens lens' : List Nat} {ok ok' : Bool}
    (h : Registers bits p lens ok q) (h' : Registers bits p lens' ok' q') :
    lens = lens' ∧ ok = ok' ∧ q = q' := by
  induction h generalizing lens' ok' q' with
  | last hone =>
    cases h' with
    | last => exact ⟨rfl, rfl, rfl⟩
    | long hzero => exact absurd hone (by rw [hzero 1 le_rfl (by decide)]; decide)
    | next hlen _ hzero _ _ => exact absurd hone (by rw [hzero 1 le_rfl hlen]; decide)
  | long hzero =>
    cases h' with
    | last hone => exact absurd hone (by rw [hzero 1 le_rfl (by decide)]; decide)
    | long => exact ⟨rfl, rfl, rfl⟩
    | next hlen hmax _ hone _ => exact absurd hone (by rw [hzero _ (by omega) hmax]; decide)
  | @next p len q lens ok hlen hmax hzero hone _ ih =>
    cases h' with
    | last hone' => exact absurd hone' (by rw [hzero 1 le_rfl hlen]; decide)
    | long hzero' => exact absurd hone (by rw [hzero' _ (by omega) hmax]; decide)
    | @next _ len' _ lens' _ hlen' hmax' hzero' hone' hrest =>
      obtain hlt | rfl | hgt := Nat.lt_trichotomy len len'
      · exact absurd hone (by rw [hzero' _ (by omega) hlt]; decide)
      · obtain ⟨rfl, rfl, rfl⟩ := ih hrest
        exact ⟨rfl, rfl, rfl⟩
      · exact absurd hone' (by rw [hzero _ (by omega) hgt]; decide)

/-! ## The table of devices -/

section
variable (w : Wire σ)

/-- Devices `d` to `k` of the table are changed. -/
def onRange (f : Fin jtagMaxDevs → JtagDev → JtagDev) (d k : Nat)
    (devs : Fin jtagMaxDevs → JtagDev) :
    Fin jtagMaxDevs → JtagDev := fun i => if d ≤ i.val ∧ i.val < k then f i (devs i) else devs i

/-- The ID code of a device is read. -/
def setIdcode (x : σ) (i : Fin jtagMaxDevs) (dev : JtagDev) : JtagDev :=
  { dev with jdIdcode := wordAt w x i }

/-- The register of a device is found, where those from device `d` on have the lengths `lens`. -/
def setIr (d prescan : Nat) (lens : List Nat) (i : Fin jtagMaxDevs) (dev : JtagDev) : JtagDev :=
  { dev with
    irLen := UInt8.ofNat (lens.getD (i.val - d) 0)
    irPrescan := UInt8.ofNat (prescan + (lens.take (i.val - d)).sum)
    currentIr := 0xffffffff }

/-- The BYPASS register of a device is counted. -/
def setDr (count : Nat) (i : Fin jtagMaxDevs) (dev : JtagDev) : JtagDev :=
  { dev with
    drPrescan := UInt8.ofNat i.val
    drPostscan := (UInt32.ofNat count - UInt32.ofNat i.val - 1).toUInt8 }

end

section
variable {f : Fin jtagMaxDevs → JtagDev → JtagDev} {d k : Nat} {devs : Fin jtagMaxDevs → JtagDev}

/-- An empty range changes no device. -/
theorem onRange_self : onRange f d d devs = devs := by
  funext i
  exact if_neg (by omega)

/-- Device `d` is changed before those after it. -/
theorem onRange_update (hd : d < jtagMaxDevs) (hk : d < k) :
    onRange f (d + 1) k (Function.update devs ⟨d, hd⟩ (f ⟨d, hd⟩ (devs ⟨d, hd⟩))) =
      onRange f d k devs := by
  funext i
  unfold onRange
  by_cases hi : i = ⟨d, hd⟩
  · subst hi
    rw [Function.update_self, if_neg (by simp), if_pos ⟨le_rfl, hk⟩]
  · have hne : i.val ≠ d := fun h => hi (Fin.ext h)
    rw [Function.update_of_ne hi]
    by_cases hrange : d + 1 ≤ i.val ∧ i.val < k
    · rw [if_pos hrange, if_pos ⟨by omega, hrange.2⟩]
    · rw [if_neg hrange, if_neg (by omega)]

end

/-- Only the functions within the range matter. -/
theorem onRange_congr {f g : Fin jtagMaxDevs → JtagDev → JtagDev} {d k : Nat}
    (h : ∀ i : Fin jtagMaxDevs, d ≤ i.val → i.val < k → f i = g i)
    (devs : Fin jtagMaxDevs → JtagDev) :
    onRange f d k devs = onRange g d k devs := by
  funext i
  unfold onRange
  by_cases hrange : d ≤ i.val ∧ i.val < k
  · rw [if_pos hrange, if_pos hrange, h i hrange.1 hrange.2]
  · rw [if_neg hrange, if_neg hrange]

/-- The first device takes the first length. -/
theorem setIr_self {d : Nat} (hd : d < jtagMaxDevs) (prescan k : Nat) (lens : List Nat)
    (dev : JtagDev) :
    setIr d prescan (k :: lens) ⟨d, hd⟩ dev =
      { dev with irLen := UInt8.ofNat k, irPrescan := UInt8.ofNat prescan, currentIr :=
        0xffffffff } := by
  unfold setIr
  rw [Nat.sub_self, List.getD_cons_zero, List.take_zero, List.sum_nil, Nat.add_zero]

/-- The others take the lengths that follow. -/
theorem setIr_cons {d : Nat} {i : Fin jtagMaxDevs} (hi : d < i.val) (prescan k : Nat)
    (lens : List Nat) :
    setIr d prescan (k :: lens) i = setIr (d + 1) (prescan + k) lens i := by
  funext dev
  unfold setIr
  rw [show i.val - d = i.val - (d + 1) + 1
    by omega, List.getD_cons_succ, List.take_succ_cons, List.sum_cons, Nat.add_assoc]

/-- A store to a device in bounds. -/
theorem modifyDev_ok {s : Probe σ} {d : Nat} (hd : d < jtagMaxDevs) (f : JtagDev → JtagDev) :
    modifyDev d f s =
      .ok () { s with devs := Function.update s.devs ⟨d, hd⟩ (f (s.devs ⟨d, hd⟩)) } := dif_pos hd

/-- A store behind the array is a fault. -/
theorem modifyDev_error {s : Probe σ} {d : Nat} (hd : ¬ d < jtagMaxDevs) (f : JtagDev → JtagDev) :
    modifyDev d f s = .error .outOfBounds s := dif_neg hd

/-- A read of a device in bounds. -/
theorem getDev_ok {s : Probe σ} {d : Nat} (hd : d < jtagMaxDevs) :
    getDev d s = .ok (s.devs ⟨d, hd⟩) s := dif_pos hd

/-- A read behind the array is a fault. -/
theorem getDev_error {s : Probe σ} {d : Nat} (hd : ¬ d < jtagMaxDevs) :
    getDev d s = .error .outOfBounds s :=
  dif_neg hd

/-! ## The ID codes -/

/-- A scan of 32 bits reads the next word. -/
theorem readWord_run {x : σ} {d : Nat} {s : Probe σ} (hwire : s.wire = onesAfter w x (32 * d)) :
    ∃ bits, onWire (jtagtapTdiTdoSeq w false (ones.take 32)) s =
        .ok bits { s with wire := onesAfter w x (32 * (d + 1)) } ∧ UInt32.ofNat (bitsNat bits) =
          wordAt w x d := by
  refine ⟨(List.range 32).map (bitAt w s.wire), ?_, ?_⟩
  · rw [onWire, show ones.take 32 = List.replicate 32 true from rfl, tdiTdoSeq_ones, hwire,
      onesAfter_onesAfter]
    rfl
  · rw [hwire, ← Nat.add_zero d, ← wordAt_onesAfter, Nat.add_zero]
    unfold wordAt
    simp only [Nat.mul_zero, Nat.zero_add]

/-- The loop stops at the first word of ones, or there is none up to the last place. -/
theorem readIdcodesLoop_run (x : σ) {n d : Nat} {s : Probe σ} (hd : d + n = jtagMaxDevs)
    (hwire : s.wire = onesAfter w x (32 * d)) :
    (∃ k, d ≤ k ∧ k ≤ jtagMaxDevs ∧ wordAt w x k = 0xffffffff ∧
        (∀ i, d ≤ i → i < k → wordAt w x i ≠ 0xffffffff) ∧
        readIdcodesLoop w (n + 1) d s =
          .ok (some k) ⟨onRange (setIdcode w x) d k s.devs, s.count,
            onesAfter w x (32 * (k + 1))⟩) ∨
      (∀ i, d ≤ i → i ≤ jtagMaxDevs → wordAt w x i ≠ 0xffffffff) ∧
        ∃ s', readIdcodesLoop w (n + 1) d s = .ok none s' := by
  induction n generalizing d s with
  | zero =>
    obtain ⟨bits, hread, hword⟩ := readWord_run hwire
    rw [readIdcodesLoop, run_bind_ok hread, hword]
    obtain rfl : d = jtagMaxDevs := hd
    by_cases hones : wordAt w x jtagMaxDevs = 0xffffffff
    · refine .inl ⟨jtagMaxDevs, le_rfl, le_rfl, hones, fun i h h' => absurd h (by omega), ?_⟩
      rw [if_pos hones, onRange_self]
      rfl
    · refine .inr ⟨fun i h h' => (by rwa [Nat.le_antisymm h' h]), ?_⟩
      rw [if_neg hones, if_pos rfl]
      exact ⟨_, rfl⟩
  | succ n ih =>
    obtain ⟨bits, hread, hword⟩ := readWord_run hwire
    rw [readIdcodesLoop, run_bind_ok hread, hword]
    by_cases hones : wordAt w x d = 0xffffffff
    · refine .inl ⟨d, le_rfl, by omega, hones, fun i h h' => absurd h (by omega), ?_⟩
      rw [if_pos hones, onRange_self]
      rfl
    · have hlt : d < jtagMaxDevs := by omega
      rw [if_neg hones, if_neg (by omega), run_bind_ok (modifyDev_ok hlt _)]
      have hrest :=
        ih (d := d + 1)
        (s := ⟨Function.update s.devs ⟨d, hlt⟩ (setIdcode w x ⟨d, hlt⟩ (s.devs ⟨d, hlt⟩)),
        s.count, onesAfter w x (32 * (d + 1))⟩) (by omega) rfl
      refine hrest.imp ?_ ?_
      · rintro ⟨k, hdk, hk, hlast, hfirst, hrun⟩
        refine ⟨k, by omega, hk, hlast, fun i h h' => ?_, ?_⟩
        · obtain rfl | h := Nat.eq_or_lt_of_le h
          · exact hones
          · exact hfirst i h h'
        · refine hrun.trans ?_
          rw [onRange_update hlt hdk]
      · rintro ⟨hnone, hrun⟩
        refine ⟨fun i h h' => ?_, hrun⟩
        obtain rfl | h := Nat.eq_or_lt_of_le h
        · exact hones
        · exact hnone i h h'

/-! ## The instruction registers -/

/-- This build has no descriptor with quirks. -/
theorem jtagDeviceGetQuirks_eq (idcode : UInt32) : jtagDeviceGetQuirks idcode = noQuirks := by
  have hall : ∀ descr ∈ devDescr, descr.irQuirks = noQuirks := by simp [devDescr]
  unfold jtagDeviceGetQuirks
  split
  · next descr hfind => exact hall descr (List.mem_of_find?_eq_some hfind)
  · rfl

section
variable {x : σ} {p d prescan k : Nat} {s : Probe σ}

/-- A bit that ends no register. -/
theorem readIrsLoop_zero (fuel : Nat) (hk : k ≤ jtagMaxIrLen)
    (hwire : s.wire = onesAfter w x (p + k)) (hbit : k = 0 ∨ bitAt w x (p + k) = false) :
    readIrsLoop w (fuel + 1) prescan d k noQuirks s =
      readIrsLoop w fuel prescan d (k + 1) noQuirks
        { s with wire := onesAfter w x (p + (k + 1)) } := by
  have hread : onWire (jtagtapNext w false true) s =
      .ok (bitAt w x (p + k)) { s with wire := onesAfter w x (p + (k + 1)) } := by
    rw [onWire, hwire, jtagtapNext_ones]
    rfl
  have hinside : irBoundary noQuirks (k + 1) (bitAt w x (p + k)) = false := by
    obtain rfl | hbit := hbit
    · cases bitAt w x (p + 0) <;> rfl
    · rw [hbit]
      simp [irBoundary, noQuirks]
  rw [readIrsLoop, if_pos hk, run_bind_ok hread, hinside]
  rfl

/-- Two ones in a row. -/
theorem readIrsLoop_last (fuel : Nat) (hwire : s.wire = onesAfter w x (p + 1))
    (hbit : bitAt w x (p + 1) = true) :
    readIrsLoop w (fuel + 1) prescan d 1 noQuirks s =
      .ok (some 2) { s with wire := onesAfter w x (p + 2) } := by
  have hread : onWire (jtagtapNext w false true) s =
      .ok true { s with wire := onesAfter w x (p + 2) } := by
    rw [onWire, hwire, jtagtapNext_ones, hbit]
  rw [readIrsLoop, if_pos (by decide), run_bind_ok hread]
  rfl

/-- The first bit of the next register: this one is recorded, and the device after it is looked
at. -/
theorem readIrsLoop_one (fuel : Nat) (hk : 2 ≤ k) (hk' : k ≤ jtagMaxIrLen)
    (hwire : s.wire = onesAfter w x (p + k)) (hbit : bitAt w x (p + k) = true) :
    readIrsLoop w (fuel + 1) prescan d k noQuirks s =
      (do
        modifyDev d fun dev =>
          { dev with irLen := UInt8.ofNat k, irPrescan := UInt8.ofNat prescan, currentIr :=
            0xffffffff }
        let next ← getDev (d + 1)
        readIrsLoop w fuel (prescan + k) (d + 1) 1 (jtagDeviceGetQuirks next.jdIdcode))
        { s with wire := onesAfter w x (p + k + 1) } := by
  have hread : onWire (jtagtapNext w false true) s =
      .ok true { s with wire := onesAfter w x (p + k + 1) } := by
    rw [onWire, hwire, jtagtapNext_ones, hbit]
  have hends : irBoundary noQuirks (k + 1) true = true := by
    simp [irBoundary, noQuirks]
    omega
  have hgoes : ¬ (noQuirks.irLength = 0 ∧ k + 1 = 2) := by omega
  rw [readIrsLoop, if_pos hk', run_bind_ok hread, hends, if_pos rfl, if_neg hgoes]
  rfl

/-- The register at `p` is not yet at its end, and its first `k` bits are read. -/
structure Inside (w : Wire σ) (x : σ) (p k : Nat) (s : Probe σ) : Prop where
  pos : 1 ≤ k
  zeros : ∀ i, 1 ≤ i → i < k → bitAt w x (p + i) = false
  wire : s.wire = onesAfter w x (p + k)

/-- Behind the first bit of a register. -/
theorem Inside.start (hwire : s.wire = onesAfter w x (p + 1)) : Inside w x p 1 s :=
  ⟨le_rfl, fun i h h' => absurd h' (by omega), hwire⟩

/-- A zero is a further bit of the same register. -/
theorem Inside.step (h : Inside w x p k s) (hbit : bitAt w x (p + k) = false) :
    Inside w x p (k + 1) { s with wire := onesAfter w x (p + (k + 1)) } := by
  refine ⟨by omega, fun i hi hi' => ?_, rfl⟩
  obtain hlt | rfl := Nat.lt_or_eq_of_le (Nat.lt_succ_iff.1 hi')
  · exact h.zeros i hi hlt
  · exact hbit

/-- A walk that returns has cut out registers, fewer of them than there are places left in the
table. -/
theorem registers_of_readIrsLoop {fuel : Nat} {r : Option Nat} {s' : Probe σ} (hd : d < jtagMaxDevs)
    (hin : Inside w x p k s) (hk : k ≤ jtagMaxIrLen + 1)
    (hrun : readIrsLoop w fuel prescan d k noQuirks s = .ok r s') :
    ∃ lens ok q, Registers (bitAt w x) p lens ok q ∧ d + lens.length < jtagMaxDevs ∧
      r = some (if ok then 2 else jtagMaxIrLen + 1) ∧
      s' = ⟨onRange (setIr d prescan lens) d (d + lens.length) s.devs, s.count,
        onesAfter w x q⟩ := by
  induction fuel generalizing p d prescan k s with
  | zero => cases hrun
  | succ fuel ih =>
    by_cases hlong : k = jtagMaxIrLen + 1
    · subst hlong
      rw [readIrsLoop, if_neg (by omega)] at hrun
      cases hrun
      refine ⟨[], false, p + jtagMaxIrLen + 1, .long fun i h h' => hin.zeros i h (by omega), hd,
        rfl, ?_⟩
      rw [List.length_nil, Nat.add_zero d, onRange_self, Nat.add_assoc, ← hin.wire]
    have hk' : k ≤ jtagMaxIrLen := by omega
    cases hbit : bitAt w x (p + k) with
    | false =>
      rw [readIrsLoop_zero fuel hk' hin.wire (.inr hbit)] at hrun
      have hrest := ih hd (hin.step hbit) (by omega) hrun
      exact hrest
    | true =>
      obtain rfl | hk₂ := Nat.eq_or_lt_of_le hin.pos
      · rw [readIrsLoop_last fuel hin.wire hbit] at hrun
        cases hrun
        refine ⟨[], true, p + 2, .last hbit, hd, rfl, ?_⟩
        rw [List.length_nil, Nat.add_zero d, onRange_self]
      rw [readIrsLoop_one fuel hk₂ hk' hin.wire hbit] at hrun
      rw [run_bind_ok (modifyDev_ok hd _)] at hrun
      by_cases hd' : d + 1 < jtagMaxDevs
      swap
      · rw [run_bind_error (getDev_error hd')] at hrun
        cases hrun
      rw [run_bind_ok (getDev_ok hd'), jtagDeviceGetQuirks_eq] at hrun
      obtain ⟨lens, ok, q, hregs, hlens, hr, hs'⟩ := ih hd' (Inside.start rfl) (by decide) hrun
      refine ⟨k :: lens, ok, q, .next hk₂ hk' hin.zeros hbit hregs, ?_, hr, hs'.trans ?_⟩
      · rw [List.length_cons]
        omega
      · rw [List.length_cons, ← onRange_update hd (by omega), setIr_self,
          onRange_congr fun i hi _ => setIr_cons hi prescan k lens, Nat.add_right_comm,
          Nat.add_assoc d]

/-- The first bit of all is not looked at. -/
theorem readIrsLoop_start (w : Wire σ) (fuel : Nat) (s : Probe σ) :
    readIrsLoop w (fuel + 1) 0 0 0 noQuirks s =
      readIrsLoop w fuel 0 0 1 noQuirks { s with wire := onesAfter w s.wire 1 } :=
  readIrsLoop_zero (x := s.wire) (p := 0) fuel (Nat.zero_le _) rfl (.inl rfl)

/-- Zeros lengthen the register that is being read, by induction on their number. -/
theorem readIrsLoop_zeros (fuel m : Nat) (hk : k + m ≤ jtagMaxIrLen + 1)
    (hwire : s.wire = onesAfter w x (p + k))
    (hbits : ∀ i, k ≤ i → i < k + m → bitAt w x (p + i) = false) :
    readIrsLoop w (fuel + m) prescan d k noQuirks s =
      readIrsLoop w fuel prescan d (k + m) noQuirks
        { s with wire := onesAfter w x (p + (k + m)) } := by
  induction m generalizing k s with
  | zero => rw [Nat.add_zero, Nat.add_zero k, ← hwire]
  | succ m ih =>
    rw [← Nat.add_assoc, readIrsLoop_zero (fuel + m) (by omega) hwire
      (.inr (hbits k le_rfl (by omega))), ih (by omega) rfl fun i hi hi' =>
        hbits i (by omega) (by omega), Nat.add_right_comm, Nat.add_assoc k]

/-- Registers that fit into the table are walked to the end. -/
theorem readIrsLoop_of_registers {lens : List Nat} {ok : Bool} {q : Nat}
    (hregs : Registers (bitAt w x) p lens ok q) (hlens : d + lens.length < jtagMaxDevs)
    (hwire : s.wire = onesAfter w x (p + 1)) :
    ∃ fuel r s', readIrsLoop w fuel prescan d 1 noQuirks s = .ok r s' := by
  induction hregs generalizing d prescan s with
  | last hbit => exact ⟨1, _, _, readIrsLoop_last 0 hwire hbit⟩
  | long hzero =>
    refine ⟨1 + jtagMaxIrLen, ?_⟩
    rw [readIrsLoop_zeros 1 jtagMaxIrLen (by decide) hwire fun i hi hi' => hzero i hi (by omega),
      readIrsLoop, if_neg (by decide)]
    exact ⟨_, _, rfl⟩
  | @next p len q lens ok hlen hmax hzero hone _ ih =>
    rw [List.length_cons] at hlens
    have hd : d < jtagMaxDevs := by omega
    obtain ⟨fuel, hrun⟩ := @ih (d + 1) (prescan + len)
      ⟨Function.update s.devs ⟨d, hd⟩ { s.devs ⟨d, hd⟩ with
        irLen := UInt8.ofNat len, irPrescan := UInt8.ofNat prescan, currentIr := 0xffffffff },
        s.count, onesAfter w x (p + len + 1)⟩ (by omega) rfl
    refine ⟨fuel + 1 + (len - 1), ?_⟩
    rw [readIrsLoop_zeros (fuel + 1) (len - 1) (by omega) hwire fun i hi hi' =>
      hzero i hi (by omega), Nat.add_sub_cancel' (by omega : 1 ≤ len),
        readIrsLoop_one fuel hlen hmax rfl hone,
      run_bind_ok (modifyDev_ok hd _), run_bind_ok (getDev_ok (by omega)), jtagDeviceGetQuirks_eq]
    exact hrun

end

/-- The bits that `jtag_read_irs` reads. -/
def irBits (w : Wire σ) (s : Probe σ) : Nat → Bool := bitAt w (jtagtapShiftIr w s.wire)

/-- What `jtag_read_irs` found when it returns. -/
theorem registers_of_jtagReadIrs {fuel : Nat} {ok : Bool} {s s' : Probe σ}
    (hrun : jtagReadIrs w fuel s = .ok ok s') :
    ∃ lens q, Registers (irBits w s) 0 lens ok q ∧ lens.length < jtagMaxDevs ∧
      (ok = true → s' = ⟨onRange (setIr 0 0 lens) 0 lens.length s.devs, s.count,
        onesAfter w (jtagtapShiftIr w s.wire) q⟩) := by
  unfold jtagReadIrs at hrun
  rw [run_bind_ok
    (show onWire' (jtagtapShiftIr w) s = .ok () { s with wire := jtagtapShiftIr w s.wire }
    from rfl), run_bind_ok (getDev_ok (by decide)), jtagDeviceGetQuirks_eq] at hrun
  cases fuel with
  | zero => cases hrun
  | succ fuel =>
    cases hloop : readIrsLoop w (fuel + 1) 0 0 0 noQuirks { s with wire := jtagtapShiftIr w s.wire }
      with
    | error e s₁ =>
      rw [run_bind_error hloop] at hrun
      cases hrun
    | ok r s₁ =>
      rw [run_bind_ok hloop] at hrun
      obtain ⟨lens, ok', q, hregs, hlens, rfl, hs₁⟩ :=
        registers_of_readIrsLoop (x := jtagtapShiftIr w s.wire) (p := 0) (by decide)
          (Inside.start rfl) (by decide)
          ((readIrsLoop_start w fuel _).symm.trans hloop)
      rw [Nat.zero_add] at hlens hs₁
      cases ok' with
      | false =>
        cases hrun
        exact ⟨lens, q, hregs, hlens, fun h => (by cases h)⟩
      | true =>
        cases hrun
        exact ⟨lens, q, hregs, hlens, fun _ => hs₁⟩

/-- `jtag_read_irs` returns when the registers on the wire, and the device after them, fit into the
table. -/
theorem jtagReadIrs_of_registers {s : Probe σ} {lens : List Nat} {ok : Bool} {q : Nat}
    (hregs : Registers (irBits w s) 0 lens ok q) (hlens : lens.length < jtagMaxDevs) :
    ∃ fuel ok' s', jtagReadIrs w fuel s = .ok ok' s' := by
  obtain ⟨fuel, r, s₁, hloop⟩ : ∃ fuel r s₁, readIrsLoop w fuel 0 0 1 noQuirks
      { s with wire := onesAfter w (jtagtapShiftIr w s.wire) 1 } = .ok r s₁ :=
    readIrsLoop_of_registers hregs (by omega) rfl
  refine ⟨fuel + 1, ?_⟩
  unfold jtagReadIrs
  rw [run_bind_ok
    (show onWire' (jtagtapShiftIr w) s = .ok () { s with wire := jtagtapShiftIr w s.wire }
    from rfl), run_bind_ok (getDev_ok (by decide)), jtagDeviceGetQuirks_eq,
      run_bind_ok ((readIrsLoop_start w fuel _).trans hloop)]
  cases r with
  | none => exact ⟨_, _, rfl⟩
  | some irLen =>
    by_cases hlong : jtagMaxIrLen < irLen
    · exact ⟨false, _, by simp only [if_pos hlong]; rfl⟩
    · exact ⟨true, _, by simp only [if_neg hlong]; rfl⟩

/-! ## The BYPASS registers -/

/-- A BYPASS register is counted. -/
theorem sanityLoop_zero {x : σ} {count d : Nat} {s : Probe σ} (n : Nat) (hd : d < jtagMaxDevs)
    (hwire : s.wire = onesAfter w x d) (hbit : bitAt w x d = false) :
    sanityLoop w count (n + 1) d s =
      sanityLoop w count n (d + 1)
        ⟨Function.update s.devs ⟨d, hd⟩ (setDr count ⟨d, hd⟩ (s.devs ⟨d, hd⟩)), s.count,
          onesAfter w x (d + 1)⟩ := by
  have hread : onWire (jtagtapNext w false true) s =
      .ok false { s with wire := onesAfter w x (d + 1) } := by
    rw [onWire, hwire, jtagtapNext_ones, hbit]
  rw [sanityLoop, run_bind_ok hread, if_neg Bool.false_ne_true, run_bind_ok (modifyDev_ok hd _)]
  rfl

/-- A one ends the count of the sanity check. -/
theorem sanityLoop_one {x : σ} {count d : Nat} {s : Probe σ} (n : Nat)
    (hwire : s.wire = onesAfter w x d) (hbit : bitAt w x d = true) :
    sanityLoop w count (n + 1) d s = .ok d { s with wire := onesAfter w x (d + 1) } := by
  have hread : onWire (jtagtapNext w false true) s =
      .ok true { s with wire := onesAfter w x (d + 1) } := by
    rw [onWire, hwire, jtagtapNext_ones, hbit]
  rw [sanityLoop, run_bind_ok hread, if_pos rfl]
  rfl

/-- The loop stops at the first one, and runs off the table where there is none for a full table. -/
theorem sanityLoop_run (x : σ) {count n d : Nat} {s : Probe σ} (hd : d + n = count)
    (hcount : count ≤ jtagMaxDevs) (hwire : s.wire = onesAfter w x d) :
    (∃ k, d ≤ k ∧ k ≤ count ∧ bitAt w x k = true ∧ (∀ i, d ≤ i → i < k → bitAt w x i = false) ∧
        sanityLoop w count (n + 1) d s =
          .ok k ⟨onRange (setDr count) d k s.devs, s.count, onesAfter w x (k + 1)⟩) ∨
      (∀ i, d ≤ i → i ≤ count → bitAt w x i = false) ∧
        ((count < jtagMaxDevs ∧ ∃ s', sanityLoop w count (n + 1) d s = .ok (count + 1) s' ∧
          s'.count = s.count) ∨
          count = jtagMaxDevs ∧ ∃ s', sanityLoop w count (n + 1) d s = .error .outOfBounds s') := by
  induction n generalizing d s with
  | zero =>
    obtain rfl : d = count := hd
    cases hbit : bitAt w x d with
    | true =>
      refine .inl ⟨d, le_rfl, le_rfl, hbit, fun i h h' => absurd h (by omega), ?_⟩
      rw [sanityLoop_one 0 hwire hbit, onRange_self]
    | false =>
      refine .inr ⟨fun i h h' => (by rwa [Nat.le_antisymm h' h]), ?_⟩
      by_cases hlt : d < jtagMaxDevs
      · refine .inl ⟨hlt, ?_⟩
        rw [sanityLoop_zero 0 hlt hwire hbit]
        exact ⟨_, rfl, rfl⟩
      · refine .inr ⟨by omega, ?_⟩
        have hread : onWire (jtagtapNext w false true) s =
            .ok false { s with wire := onesAfter w x (d + 1) } := by
          rw [onWire, hwire, jtagtapNext_ones, hbit]
        rw [sanityLoop, run_bind_ok hread, if_neg Bool.false_ne_true,
          run_bind_error (modifyDev_error hlt _)]
        exact ⟨_, rfl⟩
  | succ n ih =>
    cases hbit : bitAt w x d with
    | true =>
      refine .inl ⟨d, le_rfl, by omega, hbit, fun i h h' => absurd h (by omega), ?_⟩
      rw [sanityLoop_one (n + 1) hwire hbit, onRange_self]
    | false =>
      have hlt : d < jtagMaxDevs := by omega
      rw [sanityLoop_zero (n + 1) hlt hwire hbit]
      have hrest :=
        ih (d := d + 1)
        (s := ⟨Function.update s.devs ⟨d, hlt⟩ (setDr count ⟨d, hlt⟩ (s.devs ⟨d, hlt⟩)),
        s.count, onesAfter w x (d + 1)⟩) (by omega) rfl
      refine hrest.imp ?_ ?_
      · rintro ⟨k, hdk, hk, hlast, hfirst, hrun⟩
        refine ⟨k, by omega, hk, hlast, fun i h h' => ?_, ?_⟩
        · obtain rfl | h := Nat.eq_or_lt_of_le h
          · exact hbit
          · exact hfirst i h h'
        · rw [hrun, onRange_update hlt hdk]
      · rintro ⟨hnone, hrun⟩
        refine ⟨fun i h h' => ?_, hrun⟩
        obtain rfl | h := Nat.eq_or_lt_of_le h
        · exact hbit
        · exact hnone i h h'

/-! ## The scan -/

/-- From a Shift state to Run-Test/Idle. -/
def leaveShift (w : Wire σ) (x : σ) : σ := jtagtapReturnIdle w 1 (jtagtapNext w true true x).2

/-- Where a scan begins to read ID codes. -/
def idcodesAt (w : Wire σ) (x : σ) : σ := jtagtapShiftDr w (jtagtapSoftReset w (jtagtapInit w x))

/-- Where it begins to read instruction registers, after `n` ID codes. -/
def irsAt (w : Wire σ) (x : σ) (n : Nat) : σ :=
  jtagtapShiftIr w (leaveShift w (onesAfter w (idcodesAt w x) (32 * (n + 1))))

/-- Where it begins to read BYPASS registers, after `q` bits of instruction registers. -/
def bypassAt (w : Wire σ) (x : σ) (n q : Nat) : σ :=
  jtagtapShiftDr w (leaveShift w (onesAfter w (irsAt w x n) q))

/-- The loop over the ID codes stops at the first word of ones, or fails when there is none within
32. -/
theorem jtagReadIdcodes_run (w : Wire σ) (s : Probe σ) :
    (∃ n ≤ jtagMaxDevs, IsLeast {i | wordAt w (jtagtapShiftDr w s.wire) i = 0xffffffff} n ∧
        jtagReadIdcodes w s =
          .ok true ⟨onRange (setIdcode w (jtagtapShiftDr w s.wire)) 0 n s.devs, n,
            leaveShift w (onesAfter w (jtagtapShiftDr w s.wire) (32 * (n + 1)))⟩) ∨
      (∀ i ≤ jtagMaxDevs, wordAt w (jtagtapShiftDr w s.wire) i ≠ 0xffffffff) ∧
        ∃ s', jtagReadIdcodes w s = .ok false s' := by
  unfold jtagReadIdcodes
  rw [run_bind_ok
    (show onWire' (jtagtapShiftDr w) s = .ok () { s with wire := jtagtapShiftDr w s.wire }
    from rfl)]
  obtain ⟨n, -, hn, hlast, hfirst, hrun⟩ | ⟨hnone, s', hrun⟩ :=
    readIdcodesLoop_run (n := jtagMaxDevs) (d := 0)
    (s := { s with wire := jtagtapShiftDr w s.wire }) (jtagtapShiftDr w s.wire) (Nat.zero_add _) rfl
  · refine .inl ⟨n, hn, ⟨hlast, fun i hi => ?_⟩, ?_⟩
    · by_contra hlt
      exact hfirst i (Nat.zero_le i) (Nat.lt_of_not_le hlt) hi
    · rw [run_bind_ok hrun]
      rfl
  · refine .inr ⟨fun i hi => hnone i (Nat.zero_le i) hi, ?_⟩
    rw [run_bind_ok hrun]
    exact ⟨_, rfl⟩

/-- The bits that `jtag_sanity_check` reads. -/
def bypassBits (w : Wire σ) (s : Probe σ) : Nat → Bool := bitAt w (jtagtapShiftDr w s.wire)

/-- The sanity check returns unless a full table is followed by a zero. -/
theorem jtagSanityCheck_run {s : Probe σ} (hcount : s.count ≤ jtagMaxDevs) :
    (IsLeast {i | bypassBits w s i = true} s.count ∧
        jtagSanityCheck w s = .ok (s.count != 0) ⟨onRange (setDr s.count) 0 s.count s.devs, s.count,
          leaveShift w (onesAfter w (jtagtapShiftDr w s.wire) (s.count + 1))⟩) ∨
      (¬ IsLeast {i | bypassBits w s i = true} s.count ∧
        (s.count = jtagMaxDevs → ∃ i ≤ jtagMaxDevs, bypassBits w s i = true) ∧
          ∃ s', jtagSanityCheck w s = .ok false s') ∨
        (s.count = jtagMaxDevs ∧ (∀ i ≤ jtagMaxDevs, bypassBits w s i = false)) ∧
          ∃ s', jtagSanityCheck w s = .error .outOfBounds s' := by
  unfold jtagSanityCheck
  rw [run_bind_ok
    (show onWire' (jtagtapShiftDr w) s = .ok () { s with wire := jtagtapShiftDr w s.wire }
    from rfl), run_bind_ok (show (get : JtagM σ _) _ = .ok _ _ from rfl)]
  obtain ⟨k, -, hk, hlast, hfirst, hrun⟩ | ⟨hnone, hrun⟩ := sanityLoop_run (n := s.count) (d := 0)
    (s := { s with wire := jtagtapShiftDr w s.wire }) (jtagtapShiftDr w s.wire) (Nat.zero_add _)
      hcount rfl
  · have hleast : IsLeast {i | bypassBits w s i = true} k := by
      refine ⟨hlast, fun i hi => ?_⟩
      by_contra hlt
      exact Bool.false_ne_true ((hfirst i (Nat.zero_le i) (Nat.lt_of_not_le hlt)).symm.trans hi)
    rw [run_bind_ok hrun]
    by_cases heq : k = s.count
    · subst heq
      refine .inl ⟨hleast, ?_⟩
      rw [if_neg (not_not.2 rfl)]
      rfl
    · refine .inr (.inl ⟨fun h => heq (hleast.unique h), fun _ => ⟨k, hk.trans hcount, hlast⟩, ?_⟩)
      rw [if_pos heq]
      exact ⟨_, rfl⟩
  · obtain ⟨hlt, s', hrun, -⟩ | ⟨hfull, s', hrun⟩ := hrun
    · refine .inr (.inl ⟨fun h => ?_, fun h => absurd h (Nat.ne_of_lt hlt), ?_⟩)
      · exact Bool.false_ne_true ((hnone s.count (Nat.zero_le _) le_rfl).symm.trans h.1)
      · rw [run_bind_ok hrun, if_pos (Nat.succ_ne_self s.count)]
        exact ⟨_, rfl⟩
    · refine .inr (.inr ⟨⟨hfull, fun i hi => hnone i (Nat.zero_le i) (hfull ▸ hi)⟩, ?_⟩)
      rw [run_bind_error hrun]
      exact ⟨_, rfl⟩

end

end Jtag

end Blackmagic
