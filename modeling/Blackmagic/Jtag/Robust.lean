import Blackmagic.Jtag.Stream

/-!
# A scan of any wire

The walk over the ID codes and the count of the BYPASS registers are bounded by the table and by the
number of ID codes. The walk over the instruction registers is bounded by neither: its end is a
matter of the bits, and so is whether its devices are those that were counted. `ScanOk` says which
bits keep it in order.
-/

namespace Blackmagic

open Effect

namespace Jtag

section
variable {σ : Type} (w : Wire σ)

/-! ## The states between the walks -/

/-- The table that a scan starts with. -/
def noDevs : Fin jtagMaxDevs → JtagDev := fun _ => ⟨0, 0, 0, 0, 0, 0, 0⟩

def afterIdcodes (x : σ) (n : Nat) : Probe σ :=
  ⟨onRange (setIdcode w (idcodesAt w x)) 0 n noDevs, n,
    leaveShift w (onesAfter w (idcodesAt w x) (32 * (n + 1)))⟩

def afterIrs (x : σ) (n : Nat) (lens : List Nat) (q : Nat) : Probe σ :=
  ⟨onRange (setIr 0 0 lens) 0 lens.length (afterIdcodes w x n).devs, n,
    leaveShift w (onesAfter w (irsAt w x n) q)⟩

def afterSanity (x : σ) (n : Nat) (lens : List Nat) (q : Nat) : Probe σ :=
  ⟨onRange (setDr n) 0 n (afterIrs w x n lens q).devs, n,
    leaveShift w (onesAfter w (bypassAt w x n q) (n + 1))⟩

/-- What `jtag_scan` does once it has the ID codes. -/
def scanIrs (fuel : Nat) : JtagM σ Bool := do
  let irs ← jtagReadIrs w fuel
  if irs then do
    let _ ← onWire (jtagtapNext w true true)
    onWire' (jtagtapReturnIdle w 1)
    jtagSanityCheck w
  else return false

variable {w}

/-- A chain with an end goes on to the instruction registers. -/
theorem jtagScanChain_idcodes {s : Probe σ} {n : Nat} (hn : n ≤ jtagMaxDevs)
    (hleast : IsLeast {i | wordAt w (idcodesAt w s.wire) i = 0xffffffff} n) (fuel : Nat) :
    jtagScanChain w fuel s = scanIrs w fuel (afterIdcodes w s.wire n) := by
  unfold jtagScanChain
  rw [run_bind_ok (show (modify _ : JtagM σ Unit) s = .ok _ _ from rfl),
    run_bind_ok (show onWire' (jtagtapInit w) _ = .ok _ _ from rfl),
    run_bind_ok (show onWire' (jtagtapSoftReset w) _ = .ok _ _ from rfl)]
  obtain ⟨n', -, hleast', hrun⟩ | ⟨hnone, -⟩ :=
    jtagReadIdcodes_run w ⟨noDevs, 0, jtagtapSoftReset w (jtagtapInit w s.wire)⟩
  · obtain rfl : n' = n := hleast'.unique hleast
    exact run_bind_ok hrun
  · exact absurd hleast.1 (hnone n hn)

/-- No end of the ID codes in sight: the scan gives up. -/
theorem jtagScanChain_tooMany {s : Probe σ}
    (hnone : ∀ n ≤ jtagMaxDevs, ¬ IsLeast {i | wordAt w (idcodesAt w s.wire) i = 0xffffffff} n)
    (fuel : Nat) :
    ∃ s', jtagScanChain w fuel s = .ok false s' := by
  unfold jtagScanChain
  rw [run_bind_ok (show (modify _ : JtagM σ Unit) s = .ok _ _ from rfl),
    run_bind_ok (show onWire' (jtagtapInit w) _ = .ok _ _ from rfl),
    run_bind_ok (show onWire' (jtagtapSoftReset w) _ = .ok _ _ from rfl)]
  obtain ⟨n, hn, hleast, -⟩ | ⟨-, s', hrun⟩ :=
    jtagReadIdcodes_run w ⟨noDevs, 0, jtagtapSoftReset w (jtagtapInit w s.wire)⟩
  · exact absurd hleast (hnone n hn)
  · exact ⟨s', run_bind_ok hrun⟩

/-- With an end marker after the registers, the sanity check is next. -/
theorem scanIrs_sanity {x : σ} {n fuel : Nat} {s' : Probe σ}
    (hrun : jtagReadIrs w fuel (afterIdcodes w x n) = .ok true s') :
    ∃ lens q, Registers (bitAt w (irsAt w x n)) 0 lens true q ∧ lens.length < jtagMaxDevs ∧
      scanIrs w fuel (afterIdcodes w x n) = jtagSanityCheck w (afterIrs w x n lens q) := by
  obtain ⟨lens, q, hregs, hlens, hs'⟩ := registers_of_jtagReadIrs hrun
  refine ⟨lens, q, hregs, hlens, ?_⟩
  unfold scanIrs
  rw [run_bind_ok hrun, hs' rfl]
  rfl

/-! ## The registers that were found -/

/-- How many devices have an instruction register. -/
def irsFound (s : Probe σ) : Nat := (Finset.univ.filter fun i => (s.devs i).irLen ≠ 0).card

/-- The registers that were found have lengths in bounds. -/
theorem Registers.mem {bits : Nat → Bool} {p q : Nat} {lens : List Nat} {ok : Bool}
    (h : Registers bits p lens ok q) : ∀ len ∈ lens, 2 ≤ len ∧ len ≤ jtagMaxIrLen := by
  induction h with
  | last => simp
  | long => simp
  | next hlen hmax _ _ _ ih => exact List.forall_mem_cons.2 ⟨⟨hlen, hmax⟩, ih⟩

/-- The devices recorded are those with a length. -/
theorem irLen_afterSanity {bits : Nat → Bool} {x : σ} {n q : Nat} {lens : List Nat} {ok : Bool}
    (h : Registers bits 0 lens ok q) (i : Fin jtagMaxDevs) :
    ((afterSanity w x n lens q).devs i).irLen ≠ 0 ↔ i.val < lens.length := by
  have hdr : ((afterSanity w x n lens q).devs i).irLen =
      ((afterIrs w x n lens q).devs i).irLen := by
    simp only [afterSanity, onRange]
    split
    · rfl
    · rfl
  have hid : ((afterIdcodes w x n).devs i).irLen = 0 := by
    simp only [afterIdcodes, onRange]
    split
    · rfl
    · rfl
  rw [hdr]
  simp only [afterIrs, onRange, Nat.zero_le, true_and]
  by_cases hi : i.val < lens.length
  · have hlen := h.mem _ (List.getElem_mem hi)
    rw [if_pos hi]
    simp only [setIr, Nat.sub_zero, List.getD_eq_getElem _ _ hi, hi, iff_true, ne_eq]
    intro hzero
    have hnat := congrArg UInt8.toNat hzero
    rw [UInt8.toNat_ofNat', Nat.mod_eq_of_lt
      (by have := hlen.2; simp only [jtagMaxIrLen] at this; omega)] at hnat
    have hpos := hlen.1
    rw [hnat] at hpos
    exact absurd hpos (by decide)
  · rw [if_neg hi]
    exact iff_of_false (not_not.2 hid) hi

/-- The search for the first device without a length finds their number. -/
theorem irsFound_afterSanity {bits : Nat → Bool} {x : σ} {n q : Nat} {lens : List Nat} {ok : Bool}
    (h : Registers bits 0 lens ok q) (hlens : lens.length < jtagMaxDevs) :
    irsFound (afterSanity w x n lens q) = lens.length := by
  unfold irsFound
  simp only [irLen_afterSanity h]
  rw [Fin.card_filter_val_lt, Nat.min_eq_right (Nat.le_of_lt hlens)]

/-! ## When a scan keeps in order -/

/-- The BYPASS bits of `n` devices end inside of the table, and the registers are as many as the
devices where these are counted right. -/
structure BypassOk (bits : Nat → Bool) (n irs : Nat) : Prop where
  inside : n = jtagMaxDevs → ∃ i ≤ jtagMaxDevs, bits i = true
  agree : n ≠ 0 → IsLeast {i | bits i = true} n → irs = n

/-- Whatever number of ID codes is read, the instruction registers come to an end before the table
does, and with an end marker the BYPASS bits agree with them. -/
def ScanOk (w : Wire σ) (x : σ) : Prop :=
  ∀ n ≤ jtagMaxDevs, IsLeast {i | wordAt w (idcodesAt w x) i = 0xffffffff} n →
    ∃ lens ok q, Registers (bitAt w (irsAt w x n)) 0 lens ok q ∧ lens.length < jtagMaxDevs ∧
      (ok = true → BypassOk (bitAt w (bypassAt w x n q)) n lens.length)

/-- A part of the scan returns, and where it goes on it has found as many registers as devices. -/
structure Robust (m : JtagM σ Bool) (s : Probe σ) : Prop where
  ends : Ends m s (fun proceeds s' => proceeds = true → irsFound s' = s'.count) fun _ _ => False

/-- Equal outcomes are robust together. -/
theorem robust_congr {m m' : JtagM σ Bool} {s s' : Probe σ} (h : m s = m' s') :
    Robust m s ↔ Robust m' s' := by
  constructor
  · rintro ⟨hends⟩
    refine ⟨?_⟩
    unfold Ends at hends ⊢
    rwa [← h]
  · rintro ⟨hends⟩
    refine ⟨?_⟩
    unfold Ends at hends ⊢
    rwa [h]

/-- A part of the scan that fails is robust. -/
theorem robust_of_false {m : JtagM σ Bool} {s s' : Probe σ} (h : m s = .ok false s') :
    Robust m s := by
  refine ⟨?_⟩
  unfold Ends
  rw [h]
  exact fun h => absurd h Bool.false_ne_true

/-- One that leaves its arrays is not. -/
theorem not_robust_of_error {m : JtagM σ Bool} {s s' : Probe σ} {e : Stop} (h : m s = .error e s') :
    ¬ Robust m s := by
  rintro ⟨hends⟩
  exact hends.error h

/-- The sanity check passes when every device answers with one bit in BYPASS. -/
theorem robust_sanity_iff {x : σ} {n q : Nat} {lens : List Nat} (hn : n ≤ jtagMaxDevs)
    (hregs : Registers (bitAt w (irsAt w x n)) 0 lens true q) (hlens : lens.length < jtagMaxDevs) :
    Robust (jtagSanityCheck w) (afterIrs w x n lens q) ↔
      BypassOk (bitAt w (bypassAt w x n q)) n lens.length := by
  obtain ⟨hleast, hrun⟩ | ⟨hleast, hinside, s', hrun⟩ | ⟨⟨hfull, hnone⟩, s', hrun⟩ :=
    jtagSanityCheck_run (s := afterIrs w x n lens q) hn
  · have hfound : irsFound (afterSanity w x n lens q) = lens.length :=
      irsFound_afterSanity hregs hlens
    constructor
    · rintro ⟨hends⟩
      refine ⟨fun h => ⟨n, h.le, hleast.1⟩, fun hne _ => ?_⟩
      rw [← hfound]
      exact hends.ok hrun (bne_iff_ne.2 hne)
    · intro h
      refine ⟨?_⟩
      unfold Ends
      rw [hrun]
      exact fun hproceeds => hfound.trans (h.agree (bne_iff_ne.1 hproceeds) hleast)
  · exact iff_of_true (robust_of_false hrun) ⟨hinside, fun _ h => absurd h hleast⟩
  · refine iff_of_false (not_robust_of_error hrun) fun h => ?_
    obtain ⟨i, hi, hbit⟩ := h.inside hfull
    exact Bool.false_ne_true ((hnone i hi).symm.trans hbit)

/-- The wire of a robust scan meets the condition. -/
theorem scanOk_of_robust {s : Probe σ} {fuel : Nat} (h : Robust (jtagScanChain w fuel) s) :
    ScanOk w s.wire := by
  intro n hn hleast
  have hirs := (robust_congr (jtagScanChain_idcodes hn hleast fuel)).1 h
  cases hread : jtagReadIrs w fuel (afterIdcodes w s.wire n) with
  | error e s' => exact absurd hirs (not_robust_of_error (run_bind_error hread))
  | ok ok s' =>
    cases ok with
    | false =>
      obtain ⟨lens, q, hregs, hlens, -⟩ := registers_of_jtagReadIrs hread
      exact ⟨lens, false, q, hregs, hlens, fun h => absurd h Bool.false_ne_true⟩
    | true =>
      obtain ⟨lens, q, hregs, hlens, hrun⟩ := scanIrs_sanity hread
      exact ⟨lens, true, q, hregs, hlens, fun _ =>
        (robust_sanity_iff hn hregs hlens).1 ((robust_congr hrun).1 hirs)⟩

/-- On a wire that meets the condition the scan ends and is robust. -/
theorem robust_of_scanOk {s : Probe σ} (h : ScanOk w s.wire) :
    ∃ fuel, Robust (jtagScanChain w fuel) s := by
  by_cases hend : ∃ n ≤ jtagMaxDevs, IsLeast {i | wordAt w (idcodesAt w s.wire) i = 0xffffffff} n
  · obtain ⟨n, hn, hleast⟩ := hend
    obtain ⟨lens, ok, q, hregs, hlens, hbypass⟩ := h n hn hleast
    obtain ⟨fuel, ok', s', hread⟩ :=
      jtagReadIrs_of_registers (s := afterIdcodes w s.wire n) hregs hlens
    refine ⟨fuel, (robust_congr (jtagScanChain_idcodes hn hleast fuel)).2 ?_⟩
    cases ok' with
    | false => exact robust_of_false (run_bind_ok hread)
    | true =>
      obtain ⟨lens', q', hregs', hlens', hrun⟩ := scanIrs_sanity hread
      obtain ⟨rfl, rfl, rfl⟩ := hregs.unique hregs'
      exact (robust_congr hrun).2 ((robust_sanity_iff hn hregs hlens).2 (hbypass rfl))
  · obtain ⟨s', hrun⟩ := jtagScanChain_tooMany (fun n hn hleast => hend ⟨n, hn, hleast⟩) 0
    exact ⟨0, robust_of_false hrun⟩

/-- A scan is robust exactly on the wires that keep it in order. -/
theorem scan_robust_iff (w : Wire σ) (s : Probe σ) :
    (∃ fuel, Robust (jtagScanChain w fuel) s) ↔ ScanOk w s.wire := by
  constructor
  · rintro ⟨fuel, h⟩
    exact scanOk_of_robust h
  · exact robust_of_scanOk

end

/-! ## A noisy wire -/

/-- A wire that says the same whatever is sent. -/
def stream (bits : Nat → Bool) : Wire Nat := ⟨fun n _ _ => (bits n, n + 1)⟩

/-- A stream of bits moves on by a clock. -/
theorem onesAfter_stream (bits : Nat → Bool) (x n : Nat) : onesAfter (stream bits) x n = x + n := by
  induction n with
  | zero => rfl
  | succ n ih =>
    rw [onesAfter_succ, ih]
    rfl

/-- The bits of a stream. -/
theorem bitAt_stream (bits : Nat → Bool) (x n : Nat) : bitAt (stream bits) x n = bits (x + n) := by
  unfold bitAt
  rw [onesAfter_stream]
  rfl

/-- Ones up to the instruction registers, and from there on a bit that changes with every clock. -/
def alternating (n : Nat) : Bool := n < 115 || n % 2 == 1

/-- Where the bits alternate, there is always another register. -/
theorem not_registers_of_alternating {bits : Nat → Bool} {p q : Nat} {lens : List Nat} {ok : Bool}
    (hbits : ∀ i, bits (p + i) = (i % 2 == 0)) : ¬ Registers bits p lens ok q := by
  intro h
  induction h with
  | last hone => exact absurd hone (by rw [hbits 1]; decide)
  | long hzero => exact absurd (hzero 2 (by decide) (by decide)) (by rw [hbits 2]; decide)
  | @next p len q lens ok hlen _ hzero _ _ ih =>
    obtain rfl | hlt := Nat.eq_or_lt_of_le hlen
    · refine ih fun i => ?_
      rw [Nat.add_assoc, hbits, Nat.add_mod_left]
    · exact absurd (hzero 2 (by decide) hlt) (by rw [hbits 2]; decide)

/-- The scan of a noisy wire has no end inside of the table. -/
theorem not_robust_alternating :
    ¬ ∃ fuel, Robust (jtagScanChain (stream alternating) fuel) ⟨noDevs, 0, 0⟩ := by
  rintro ⟨fuel, h⟩
  obtain ⟨lens, ok, q, hregs, -⟩ := scanOk_of_robust h 0 (Nat.zero_le _)
    ⟨by simp only [Set.mem_ofPred_eq]; decide +kernel, fun i _ => Nat.zero_le i⟩
  refine not_registers_of_alternating (fun i => ?_) hregs
  rw [bitAt_stream, show irsAt (stream alternating) 0 0 =
    115 by decide +kernel, Nat.zero_add, Bool.eq_iff_iff]
  simp only [alternating, Bool.or_eq_true, decide_eq_true_eq, beq_iff_eq]
  omega

end Jtag

end Blackmagic
