import Blackmagic.Adiv5.Shim
import Blackmagic.Emu.Access

/-!
# Reads over the emulated transport

A read of DRW returns what the one before it asked for, so that the loop of `advi5_mem_read_bytes`
is one access behind: `PostedFor` is the state in which the value at an address has been asked for,
and with it where TAR is. Where TAR wraps, the loop writes it and asks again (`readCross_posts`).
-/

namespace Blackmagic

open Bytes Effect Word

/-! ## The transport, access by access -/

section
variable {malloc : Bool} {ap : Adiv5AccessPort} {s : EmuShim} {align : Align}
  {v x src osrc : UInt32}

/-- The size of an access in bytes. -/
def Align.width (align : Align) : Nat := 1 <<< align.log2

/-- No access is wider than a word. -/
theorem minAlign_ne (x y : Nat) : minAlign x y ≠ .bits64 := by
  have halign : ∀ x, alignOf x ≠ .bits64 := by
    intro x
    unfold alignOf
    repeat' split
    all_goals decide
  unfold minAlign
  split
  · exact halign x
  · exact halign y

/-- The access size divides the address and the length. -/
theorem minAlign_dvd (x y : Nat) : (minAlign x y).width ∣ x ∧ (minAlign x y).width ∣ y := by
  have h3 : ∀ x, x &&& 3 = x % 4 := fun x => Nat.and_two_pow_sub_one_eq_mod x 2
  have h1 : ∀ x, x &&& 1 = x % 2 := fun x => Nat.and_two_pow_sub_one_eq_mod x 1
  unfold minAlign alignOf
  simp only [h3, h1]
  repeat' split
  all_goals simp_all [Align.log2, Align.width]
  all_goals omega

/-- The widths of the accesses. -/
theorem Align.width_cases (h : align ≠ .bits64) :
    align.width = 1 ∨ align.width = 2 ∨ align.width = 4 := by
  cases align with
  | bits8 => exact .inl rfl
  | bits16 => exact .inr (.inl rfl)
  | bits32 => exact .inr (.inr rfl)
  | bits64 => exact absurd rfl h

/-- The next address is an access size further. -/
theorem step_eq (align : Align) :
    (1 <<< UInt32.ofNat align.log2 : UInt32) = UInt32.ofNat align.width := by
  cases align <;> rfl

/-- A load that the emulated target answers. -/
theorem shimLoad_ok {addr : UInt32} {size : Nat} (h : emuTargetLoad s.target addr size = .ok v) :
    shimLoad addr size s = .ok v s := by
  unfold shimLoad
  rw [run_bind_ok (show (get : ShimM EmuShim) s = .ok s s from rfl), h]
  rfl

/-- A write of TAR. -/
theorem lowAccess_writeTar : emuShimLowAccess malloc .write 0x104 v s = .ok 0 { s with tar := v } :=
  rfl

/-- RDBUFF gives the word that was posted. -/
theorem lowAccess_readRdbuff : emuShimLowAccess malloc .read 0xc x s = .ok s.posted s := rfl

/-- A read of DRW gives the posted word, posts the next one and moves TAR on. -/
theorem lowAccess_readDrw (hsel : s.select >>> 24 = 0)
    (hload : emuTargetLoad s.target s.tar (cswAccessSize s.csw) = .ok v) :
    emuShimLowAccess malloc .read 0x10c x s = .ok s.posted
      (({ s with posted := v <<< laneShift s.tar (cswAccessSize s.csw) } : EmuShim).tarAutoinc
        (cswAccessSize s.csw)) := by
  have hread : drwRead s = .ok ()
      (({ s with posted := v <<< laneShift s.tar (cswAccessSize s.csw) } : EmuShim).tarAutoinc
        (cswAccessSize s.csw)) := by
    change (shimLoad s.tar (cswAccessSize s.csw) >>= _) s = _
    rw [run_bind_ok (shimLoad_ok hload)]
    rfl
  have hpost : apRegPost 0xc s = drwRead s := by
    change (if s.select >>> 24 ≠ 0 then _ else drwRead : ShimM PUnit) s = _
    rw [if_neg (not_not.2 hsel)]
  change (apRegPost 0xc >>= fun _ => pure s.posted : ShimM UInt32) s = _
  rw [run_bind_ok (hpost.trans hread)]
  rfl

/-- TAR after an increment: the low ten bits wrap. -/
theorem toNat_tarAutoinc (tar : UInt32) {size : Nat} :
    ((tar &&& ~~~ 0x3ff) ||| ((tar + UInt32.ofNat size) &&& 0x3ff)).toNat =
      tar.toNat - tar.toNat % 1024 + (tar.toNat + size) % 1024 := by
  have hhigh : (tar &&& ~~~ 0x3ff).toNat = tar.toNat - tar.toNat % 2 ^ 10 := by
    rw [show ~~~ (0x3ff : UInt32) =
      UInt32.ofNat (2 ^ 32 - 2 ^ 10) by decide, toNat_and_high _ (by decide)]
  have hlow : ((tar + UInt32.ofNat size) &&& 0x3ff).toNat =
      (tar + UInt32.ofNat size).toNat % 2 ^ 10 := by
    rw [show (0x3ff : UInt32) = UInt32.ofNat (2 ^ 10 - 1) by decide, toNat_and_low _ (by decide)]
  have hlt : ((tar + UInt32.ofNat size) &&& 0x3ff).toNat < 2 ^ 10 := by
    rw [hlow]
    exact Nat.mod_lt _ (by decide)
  have hdvd : 2 ^ 10 ∣ (tar &&& ~~~ 0x3ff).toNat := by
    rw [hhigh]
    exact dvd_unit _ _
  rw [toNat_or_low hdvd hlt, hhigh, hlow, UInt32.toNat_add, UInt32.toNat_ofNat']
  omega

/-- The test on the bits of two addresses says whether they are in different pages. -/
theorem crossed_iff (a b : UInt32) : crossed a b ↔ a.toNat / 1024 ≠ b.toNat / 1024 :=
  and_high_ne_zero_iff (k := 10) a b (by decide)

/-- The transport is set up for accesses of one size to AP 0. -/
structure ApReady (align : Align) (s : EmuShim) : Prop where
  select : s.select >>> 24 = 0
  size : cswAccessSize s.csw = align.width
  autoinc : cswAutoinc s.csw = true

/-- What is at an address. -/
def loadAt (m : EmuTarget) (align : Align) (addr : UInt32) : UInt32 :=
  (emuTargetLoad m addr align.width).toOption.getD 0

/-- An aligned load is answered. -/
theorem emuTargetLoad_loadAt (m : EmuTarget) (ha : align ≠ .bits64) (h : align.width ∣ src.toNat) :
    emuTargetLoad m src align.width = .ok (loadAt m align src) := by
  obtain ⟨v, hv⟩ := @emuTargetLoad_aligned m src _ (Align.width_cases ha) h
  rw [loadAt, hv]
  rfl

/-- The value at `src` has been asked for and not been returned. -/
structure PostedFor (m : EmuTarget) (align : Align) (src : UInt32) (s : EmuShim) : Prop extends
    ApReady align s where
  target : s.target = m
  posted : s.posted = loadAt m align src <<< laneShift src align.width
  tar : s.tar.toNat = src.toNat - src.toNat % 1024 + (src.toNat + align.width) % 1024

/-- A read of DRW asks for the value at TAR. -/
theorem lowAccess_posts (hs : ApReady align s) (ha : align ≠ .bits64)
    (h : align.width ∣ s.tar.toNat) :
    ∃ s', emuShimLowAccess malloc .read 0x10c x s = .ok s.posted s' ∧
      PostedFor s.target align s.tar s' := by
  have hload := emuTargetLoad_loadAt s.target ha h
  rw [← hs.size] at hload
  refine ⟨_, lowAccess_readDrw hs.select hload, ?_⟩
  simp only [EmuShim.tarAutoinc, hs.autoinc, if_true]
  exact ⟨⟨hs.select, hs.size, hs.autoinc⟩, rfl, by rw [hs.size], by rw [toNat_tarAutoinc, hs.size]⟩

/-- TAR is aligned while units are posted. -/
theorem PostedFor.dvd_tar {m : EmuTarget} (h : PostedFor m align src s) (ha : align ≠ .bits64)
    (hsrc : align.width ∣ src.toNat) : align.width ∣ s.tar.toNat := by
  rw [h.tar]
  rcases Align.width_cases ha with hw | hw | hw <;> rw [hw] at hsrc ⊢ <;> omega

/-- The addresses of the units are aligned. -/
theorem dvd_next (ha : align ≠ .bits64) (hsrc : align.width ∣ src.toNat) (n : Nat) :
    align.width ∣ (src + UInt32.ofNat (n * align.width)).toNat := by
  rw [UInt32.toNat_add, UInt32.toNat_ofNat']
  rcases Align.width_cases ha with hw | hw | hw <;> rw [hw] at hsrc ⊢ <;> omega

/-! ## Lanes -/

/-- A lane is inside of the word. -/
theorem laneShift_eq (ha : align ≠ .bits64) (src : UInt32) :
    ∃ shift, laneShift src align.width = UInt32.ofNat shift ∧ shift + 8 * align.width ≤ 32 := by
  have hmask : ∀ b : UInt32, (src &&& b).toNat ≤ b.toNat := by
    intro b
    rw [UInt32.toNat_and]
    exact Nat.and_le_right
  refine ⟨8 * (src &&& UInt32.ofNat (4 - align.width)).toNat, ?_, ?_⟩
  · rw [laneShift, UInt32.ofNat_mul, UInt32.ofNat_toNat]
    rfl
  · have := hmask (UInt32.ofNat (4 - align.width))
    rcases Align.width_cases ha with hw | hw | hw <;> rw [hw] at this ⊢ <;> simp at this ⊢ <;> omega

/-- The lane that the shim puts a value in is the one that is unpacked. -/
theorem adiv5UnpackData_lane (ha : align ≠ .bits64) (hv : v.toNat < 256 ^ align.width) :
    adiv5UnpackData src (v <<< laneShift src align.width) align = leBytes align.width v.toNat := by
  obtain ⟨shift, hshift, hle⟩ := laneShift_eq ha src
  have hdown : ((v <<< laneShift src align.width) >>> laneShift src align.width).toNat =
      v.toNat := by
    rw [hshift]
    refine @toNat_shiftRight_shiftLeft v shift (8 * align.width) ?_ (by omega) ?_
    · rw [Nat.pow_mul]
      exact hv
    · rcases Align.width_cases ha with hw | hw | hw <;> omega
  cases align with
  | bits8 =>
    change leBytes 1 (((v <<< laneShift src 1) >>> laneShift src 1) &&& 0xff).toNat = _
    rw [show (0xff : UInt32) = UInt32.ofNat (2 ^ 8 - 1) from rfl, toNat_and_low _ (by decide)]
    change ((v <<< laneShift src 1) >>> laneShift src 1).toNat = _ at hdown
    rw [hdown, Nat.mod_eq_of_lt (show v.toNat < 2 ^ 8 from hv)]
    rfl
  | bits16 =>
    change leBytes 2 (((v <<< laneShift src 2) >>> laneShift src 2) &&& 0xffff).toNat = _
    rw [show (0xffff : UInt32) = UInt32.ofNat (2 ^ 16 - 1) from rfl, toNat_and_low _ (by decide)]
    change ((v <<< laneShift src 2) >>> laneShift src 2).toNat = _ at hdown
    rw [hdown, Nat.mod_eq_of_lt (show v.toNat < 2 ^ 16 from hv)]
    rfl
  | bits32 =>
    have hzero : laneShift src Align.bits32.width = 0 := by
      change 8 * (src &&& 0) = 0
      rw [UInt32.and_zero]
      rfl
    rw [hzero]
    change leBytes 4 (v <<< 0).toNat = leBytes 4 v.toNat
    rw [UInt32.shiftLeft_zero]
  | bits64 => exact absurd rfl ha
end

/-! ## The loop -/

section
variable {malloc : Bool} {ap : Adiv5AccessPort} {s : EmuShim} {m : EmuTarget} {align : Align}
  {src osrc : UInt32}

/-- The bytes that one access reads. -/
def unitBytes (m : EmuTarget) (align : Align) (addr : UInt32) : List UInt8 :=
  leBytes align.width (loadAt m align addr).toNat

/-- The lanes of the posted word are the bytes of the unit. -/
theorem PostedFor.unpack (h : PostedFor m align src s) (ha : align ≠ .bits64)
    (hsrc : align.width ∣ src.toNat) :
    adiv5UnpackData src s.posted align = unitBytes m align src := by
  have hsize : align.width ≤ 4 := by
    rcases Align.width_cases ha with hw | hw | hw <;> omega
  rw [h.posted, adiv5UnpackData_lane ha (emuTargetLoad_lt hsize (emuTargetLoad_loadAt m ha hsrc))]
  rfl

/-- After the check for an overflow the value at the next address has been asked for. -/
theorem readCross_posts (hs : ApReady align s) (ha : align ≠ .bits64) (hm : s.target = m)
    (hsrc : align.width ∣ src.toNat) (hnot : ¬ crossed src osrc → PostedFor m align src s) :
    ∃ osrc' s', readCross malloc src osrc s = .ok osrc' s' ∧ PostedFor m align src s' ∧
      ¬ crossed src osrc' := by
  unfold readCross
  by_cases hc : crossed src osrc
  · rw [if_pos hc]
    have hready : ApReady align { s with tar := src } := ⟨hs.select, hs.size, hs.autoinc⟩
    obtain ⟨s', hread, hposted⟩ := @lowAccess_posts malloc _ align 0 hready ha hsrc
    rw [run_bind_ok lowAccess_writeTar, run_bind_ok hread]
    exact ⟨src, s', rfl, hm ▸ hposted, fun h => (crossed_iff src src).1 h rfl⟩
  · rw [if_neg hc]
    exact ⟨osrc, s, rfl, hnot hc, hc⟩

/-- The invariant of the loop: the value at `src` has been asked for, and TAR was last written in
the 1 KiB of `src`. -/
theorem memReadLoop_run (ha : align ≠ .bits64) (n : Nat) : ∀ {src osrc : UInt32} {s : EmuShim},
    align.width ∣ src.toNat → PostedFor m align src s → ¬ crossed src osrc →
    ∃ s', memReadLoop malloc align n src osrc s =
        .ok ((List.range n).flatMap fun i =>
          unitBytes m align (src + UInt32.ofNat (i * align.width)),
          src + UInt32.ofNat (n * align.width)) s' ∧
      PostedFor m align (src + UInt32.ofNat (n * align.width)) s' := by
  induction n with
  | zero =>
    intro src osrc s _ hposted _
    refine ⟨s, ?_, ?_⟩
    · rw [Nat.zero_mul, show src + UInt32.ofNat 0 = src from UInt32.add_zero src]
      rfl
    · rwa [Nat.zero_mul, show src + UInt32.ofNat 0 = src from UInt32.add_zero src]
  | succ n ih =>
    intro src osrc s hsrc hposted hpage
    have hnext : align.width ∣ (src + UInt32.ofNat align.width).toNat := by
      simpa using dvd_next ha hsrc 1
    -- the value at `src` is returned, and what is at TAR is asked for
    obtain ⟨s₁, hread, hposted₁⟩ := @lowAccess_posts malloc s align 0 hposted.toApReady ha
      (hposted.dvd_tar ha hsrc)
    rw [hposted.target] at hposted₁
    -- in the same 1 KiB TAR is the next address
    have htar : ¬ crossed (src + UInt32.ofNat align.width) osrc →
        PostedFor m align (src + UInt32.ofNat align.width) s₁ := by
      intro hc
      have heq : s.tar = src + UInt32.ofNat align.width := by
        have hlt := src.toNat_lt
        have hw := Align.width_cases ha
        rw [crossed_iff, not_not] at hc hpage
        rw [UInt32.toNat_add, UInt32.toNat_ofNat'] at hc
        rw [← UInt32.toNat_inj, hposted.tar, UInt32.toNat_add, UInt32.toNat_ofNat']
        rcases hw with hw | hw | hw <;> rw [hw] at hc hsrc ⊢ <;> omega
      rwa [heq] at hposted₁
    obtain ⟨osrc', s₂, hcross, hposted₂, hpage₂⟩ :=
      @readCross_posts malloc s₁ m align _ osrc hposted₁.toApReady ha hposted₁.target hnext htar
    obtain ⟨s₃, hloop, hposted₃⟩ := ih hnext hposted₂ hpage₂
    have hshift : ∀ k, src + UInt32.ofNat align.width + UInt32.ofNat (k * align.width) =
        src + UInt32.ofNat ((k + 1) * align.width) := by
      intro k
      rw [UInt32.add_assoc, ← UInt32.ofNat_add, Nat.add_comm, ← Nat.succ_mul]
    refine ⟨s₃, ?_, ?_⟩
    · rw [memReadLoop, run_bind_ok hread, step_eq, run_bind_ok hcross, run_bind_ok hloop]
      simp only [hshift, hposted.unpack ha hsrc, List.range_succ_eq_map, List.flatMap_cons,
        List.flatMap_map, Nat.zero_mul]
      rw [show src + UInt32.ofNat 0 = src from UInt32.add_zero src]
      rfl
    · rwa [hshift] at hposted₃
end

/-! ## Reading memory -/

section
variable {malloc : Bool} {ap : Adiv5AccessPort} {s : EmuShim} {m : EmuTarget} {align : Align}
  {src : UInt32}

/-- An AP that `adiv5_new_ap` builds for AP 0. -/
def NewAp0 (ap : Adiv5AccessPort) : Prop :=
  ∃ malloc s s', adiv5NewAp malloc 0 s = .ok (some ap) s'

/-- AP 0, with the size and increment bits of CSW clear. -/
structure MemAp (ap : Adiv5AccessPort) : Prop where
  apsel : ap.apsel = 0
  csw : ap.csw &&& 0x37 = 0

/-- The transport after `ap_mem_access_setup`. -/
def EmuShim.setup (ap : Adiv5AccessPort) (addr : UInt32) (align : Align) (s : EmuShim) : EmuShim :=
  { s with
    select := ap.apsel.toUInt32 <<< 24 ||| 0, fault := if s.fault = 7 then 0 else s.fault,
    csw := ap.csw ||| 0x10 ||| match align with
      | .bits8 => 0
      | .bits16 => 1
      | .bits32 => 2
      | .bits64 => 2,
    tar := addr }

/-- The bank of a register is selected in AP 0. -/
theorem selectBank_ok (addr : UInt16) : selectBank malloc ap addr s = .ok () { s with
    select := (ap.apsel.toUInt32 <<< 24) ||| (addr &&& 0xf0).toUInt32,
    fault := if s.fault = 7 then 0 else s.fault } := by
  by_cases h : s.fault = 7
  · have hrun : adiv5DpRecoverableAccess malloc .write 0x8
        ((ap.apsel.toUInt32 <<< 24) ||| (addr &&& 0xf0).toUInt32) s = .ok 0 { s with
          select := (ap.apsel.toUInt32 <<< 24) ||| (addr &&& 0xf0).toUInt32, fault := 0 } := by
      change (if s.fault = 7 then _ else _ : ShimM UInt32) _ = _
      rw [if_pos h]
      rfl
    unfold selectBank
    rw [run_bind_ok hrun, if_pos h]
    rfl
  · have hrun : adiv5DpRecoverableAccess malloc .write 0x8
        ((ap.apsel.toUInt32 <<< 24) ||| (addr &&& 0xf0).toUInt32) s = .ok 0 { s with
          select := (ap.apsel.toUInt32 <<< 24) ||| (addr &&& 0xf0).toUInt32 } := by
      change (if s.fault = 7 then _ else _ : ShimM UInt32) _ = _
      rw [if_neg h]
      rfl
    unfold selectBank
    rw [run_bind_ok hrun, if_neg h]
    rfl

/-- CSW and TAR are set up for an access. -/
theorem apMemAccessSetup_ok (addr : UInt32) (align : Align) :
    apMemAccessSetup malloc ap addr align s = .ok () (s.setup ap addr align) := by
  unfold apMemAccessSetup firmwareApWrite
  rw [bind_assoc, run_bind_ok (selectBank_ok 0x100)]
  cases align <;> rfl

/-- The transport is set up. -/
theorem setup_ready (hap : MemAp ap) (addr : UInt32) (s : EmuShim) (ha : align ≠ .bits64) :
    ApReady align (s.setup ap addr align) := by
  have h7 : ap.csw &&& 0x7 = 0 := and_eq_zero_of_and hap.csw (by decide)
  have h30 : ap.csw &&& 0x30 = 0 := and_eq_zero_of_and hap.csw (by decide)
  refine ⟨?_, ?_, ?_⟩
  · simp only [EmuShim.setup, hap.apsel]
    decide
  · simp only [EmuShim.setup, cswAccessSize, or_and_mask, h7]
    cases align with
    | bits8 => rfl
    | bits16 => rfl
    | bits32 => rfl
    | bits64 => exact absurd rfl ha
  · simp only [EmuShim.setup, cswAutoinc, or_and_mask, h30]
    cases align <;> rfl

/-- `adiv5_new_ap` clears the size and increment bits. -/
theorem adiv5NewAp_ends (malloc : Bool) (apsel : UInt8) (s : EmuShim) :
    Ends (adiv5NewAp malloc apsel) s
      (fun r _ => ∀ ap, r = some ap → ap.apsel = apsel ∧ ap.csw &&& 0x37 = 0) fun _ _ => True := by
  unfold adiv5NewAp
  rw [ends_bind]
  refine (ends_true _ s).imp (fun idr s₁ _ => ?_) fun _ _ h => h
  rw [ends_bind]
  refine (ends_true _ s₁).imp (fun base s₂ _ => ?_) fun _ _ h => h
  split
  · exact fun ap h => by cases h
  split
  · exact fun ap h => by cases h
  rw [ends_bind]
  refine (ends_true _ s₂).imp (fun csw s₃ _ => ?_) fun _ _ h => h
  dsimp only
  split
  · exact fun ap h => by cases h
  · intro ap h
    cases h
    refine ⟨rfl, ?_⟩
    dsimp only
    rw [or_and_mask, UInt32.and_assoc,
      show (~~~ (0x7 ||| 0x30 ||| 0x8000 ||| 0x40000000) &&& 0x37 : UInt32) = 0 by decide,
      UInt32.and_zero]
    decide

/-- An access port that `adiv5_new_ap` made is AP 0. -/
theorem NewAp0.memAp (h : NewAp0 ap) : MemAp ap := by
  obtain ⟨malloc, s, s', h⟩ := h
  obtain ⟨hapsel, hcsw⟩ := (adiv5NewAp_ends malloc 0 s).ok h ap rfl
  exact ⟨hapsel, hcsw⟩

/-- A read of any length from any address reads access by access, and leaves the target alone. -/
theorem advi5MemReadBytes_run (hap : MemAp ap) (src : UInt32) {len : Nat} (hlen : len ≠ 0) :
    ∃ s', advi5MemReadBytes malloc ap src len s =
        .ok ((List.range (len / (minAlign src.toNat len).width)).flatMap fun i =>
          unitBytes s.target (minAlign src.toNat len)
            (src + UInt32.ofNat (i * (minAlign src.toNat len).width))) s' ∧
      s'.target = s.target := by
  have ha := minAlign_ne src.toNat len
  obtain ⟨hsrc, hdvd⟩ := minAlign_dvd src.toNat len
  unfold advi5MemReadBytes
  simp only [if_neg hlen]
  generalize minAlign src.toNat len = align at ha hsrc hdvd ⊢
  obtain ⟨s₁, hread, hposted⟩ :=
    @lowAccess_posts malloc _ align 0 (setup_ready hap src s ha) ha
      (show align.width ∣ src.toNat from hsrc)
  obtain ⟨s₂, hloop, hposted₂⟩ :=
    @memReadLoop_run malloc s.target align ha (len >>> align.log2 - 1) src src s₁ hsrc hposted
      fun h => (crossed_iff src src).1 h rfl
  have hcount : len >>> align.log2 - 1 + 1 = len / align.width := by
    have hpos : 0 < len / align.width := Nat.div_pos (Nat.le_of_dvd (by omega) hdvd) (by
      rcases Align.width_cases ha with hw | hw | hw <;> omega)
    rw [Nat.shiftRight_eq_div_pow, Align.width, Nat.one_shiftLeft] at *
    omega
  refine ⟨s₂, ?_, hposted₂.target⟩
  rw [run_bind_ok (apMemAccessSetup_ok src align), run_bind_ok hread, run_bind_ok hloop,
    run_bind_ok lowAccess_readRdbuff, hposted₂.unpack ha (dvd_next ha hsrc _), ← hcount,
    List.range_succ,
    List.flatMap_append, List.flatMap_singleton]
  rfl

end

section
variable {malloc : Bool} {ap : Adiv5AccessPort} {s : EmuShim} {m : EmuTarget} {align : Align}
  {src : UInt32}

/-- The bytes of a unit are those that the window has at its address. -/
theorem unitBytes_window (ha : align ≠ .bits64) (h : InWindow src align.width) :
    unitBytes m align src = m.bytes src align.width := by
  have hw := Align.width_cases ha
  obtain ⟨v, hload, hval⟩ := @emuTargetLoad_window m src align.width (by omega) (by omega) h
  have hlen : (m.bytes src align.width).length = align.width := by simp [EmuTarget.bytes]
  have hunit : loadAt m align src = v := by
    rw [loadAt, hload]
    rfl
  rw [unitBytes, hunit, hval]
  have hbytes := leBytes_leNat (m.bytes src align.width)
  rwa [hlen] at hbytes

/-- The accesses go through the bytes in order. -/
theorem flatMap_bytes (m : EmuTarget) (src : UInt32) (w n : Nat) :
    ((List.range n).flatMap fun i => m.bytes (src + UInt32.ofNat (i * w)) w) =
      m.bytes src (n * w) := by
  induction n with
  | zero => simp [EmuTarget.bytes]
  | succ n ih =>
    rw [List.range_succ, List.flatMap_append, List.flatMap_singleton, ih, Nat.succ_mul]
    simp only [EmuTarget.bytes, List.range_add, List.map_append, List.map_map]
    congr 1
    refine List.map_congr_left fun i _ => ?_
    rw [UInt32.add_assoc, ← UInt32.ofNat_add]
    rfl

/-- A read from one of the windows. -/
theorem advi5MemReadBytes_window (hap : MemAp ap) {len : Nat} (hlen : len ≠ 0)
    (h : InWindow src len) :
    ∃ s', advi5MemReadBytes malloc ap src len s = .ok (s.target.bytes src len) s' ∧
      s'.target = s.target := by
  obtain ⟨s', hrun, htarget⟩ := @advi5MemReadBytes_run malloc ap s hap src len hlen
  obtain ⟨hsrc, hdvd⟩ := minAlign_dvd src.toNat len
  have ha := minAlign_ne src.toNat len
  refine ⟨s', ?_, htarget⟩
  rw [hrun]
  generalize minAlign src.toNat len = align at ha hsrc hdvd ⊢
  have hw := Align.width_cases ha
  have hunits : ((List.range (len / align.width)).flatMap fun i =>
      unitBytes s.target align (src + UInt32.ofNat (i * align.width))) =
        s.target.bytes src len := by
    obtain ⟨n, rfl⟩ := hdvd
    rw [Nat.mul_div_cancel_left n (by omega),
      Nat.mul_comm, ← flatMap_bytes s.target src align.width n]
    refine List.flatMap_congr fun i hi => ?_
    have hi := List.mem_range.1 hi
    refine unitBytes_window ha ?_
    have hmul : (i + 1) * align.width ≤ align.width * n := by
      rw [Nat.mul_comm]
      exact Nat.mul_le_mul_left _ hi
    rw [Nat.succ_mul] at hmul
    rw [inWindow_iff] at h ⊢
    have hsum : (src + UInt32.ofNat (i * align.width)).toNat = src.toNat + i * align.width :=
      toNat_add_small (by omega)
    rw [hsum]
    omega
  rw [hunits]

/-- A read inside of the flash or of SRAM returns the bytes that are there, whatever state the
transport was in, and leaves the target as it was. -/
theorem advi5MemReadBytes_correct (hap : NewAp0 ap) (s : EmuShim) (src : UInt32) (len : Nat)
    (hlen : 1 ≤ len) (h : InWindow src len) :
    ∃ dest s', advi5MemReadBytes malloc ap src len s = .ok dest s' ∧ s'.target = s.target ∧
      dest.length = len ∧ ∀ i < len, ∃ b, dest[i]? = some b ∧
        emuTargetLoad s.target (src + UInt32.ofNat i) 1 = .ok b.toUInt32 := by
  obtain ⟨s', hrun, htarget⟩ := @advi5MemReadBytes_window malloc ap s src hap.memAp len (by omega) h
  refine ⟨_, s', hrun, htarget, by simp [EmuTarget.bytes], fun i hi => ?_⟩
  have hwin : InWindow (src + UInt32.ofNat i) 1 := by
    rw [inWindow_iff] at h ⊢
    rw [toNat_add_small (by omega)]
    omega
  refine ⟨s.target.byte (src + UInt32.ofNat i), ?_, ?_⟩
  · simp [EmuTarget.bytes, hi]
  · obtain ⟨v, hload, hval⟩ := @emuTargetLoad_window s.target _ 1 (by decide) (by decide) hwin
    rw [hload]
    congr 1
    rw [← UInt32.toNat_inj, hval]
    simp [EmuTarget.bytes, leNat]

/-- A transport before its first access, to the emulated target after a reset. -/
def EmuShim.reset : EmuShim where
  posted := 0
  tar := 0
  csw := 0
  ctrlstat := 0
  select := 0
  fault := 0
  target := emuTargetReset true

/-- The AP that `adiv5_new_ap` builds first. -/
def ap0 : Adiv5AccessPort where
  apsel := 0
  idr := 0x14770011
  base := 0xe00ff003
  csw := 0x80000000

/-- `ap0` is what `adiv5_new_ap` makes after a reset. -/
theorem newAp0_ap0 : NewAp0 ap0 := ⟨true, .reset, _, rfl⟩

/-- Five bytes over the end of a page. -/
theorem advi5MemReadBytes_correct_fivebytes :
    ∃ dest s', advi5MemReadBytes true ap0 0x080003fd 5 .reset = .ok dest s' ∧
      s'.target = EmuShim.reset.target ∧ dest.length = 5 ∧ ∀ i < 5, ∃ b, dest[i]? = some b ∧
        emuTargetLoad EmuShim.reset.target (0x080003fd + UInt32.ofNat i) 1 = .ok b.toUInt32 :=
  advi5MemReadBytes_correct newAp0_ap0 .reset 0x080003fd 5 (by decide) (by
    rw [inWindow_iff]
    decide)

end

end Blackmagic
