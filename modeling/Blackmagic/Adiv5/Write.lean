import Blackmagic.Adiv5.Read

/-!
# Writes over the emulated transport

A write is the stores of its accesses, one after the other (`adiv5MemWriteBytes_run`): before each
of them TAR is the address, where it wraps because the loop writes it. Inside of SRAM the stores
together are one `overwrite` of the data (`unitStores_sram`).
-/

namespace Blackmagic

open Bytes Effect Word

/-! ## The loop -/

section
variable {malloc : Bool} {ap : Adiv5AccessPort} {s : EmuShim} {m m' : EmuTarget} {align : Align}
  {dest odest v x : UInt32} {data : List UInt8}

/-- A store that the emulated target takes. -/
theorem shimStore_ok {addr : UInt32} {size : Nat}
    (h : emuTargetStore malloc s.target { addr := addr, value := v, size := size } = .ok m') :
    shimStore malloc addr v size s = .ok () { s with target := m' } := by
  unfold shimStore
  rw [run_bind_ok (show (get : ShimM EmuShim) s = .ok s s from rfl), h]
  rfl

/-- A write of DRW stores at TAR and moves TAR on. -/
theorem lowAccess_writeDrw (h : emuTargetStore malloc s.target
      { addr := s.tar
        value := (v >>> laneShift s.tar (cswAccessSize s.csw)) &&& sizeMask (cswAccessSize s.csw)
        size := cswAccessSize s.csw } = .ok m') :
    emuShimLowAccess malloc .write 0x10c v s = .ok 0
      (({ s with target := m' } : EmuShim).tarAutoinc (cswAccessSize s.csw)) := by
  change ((shimStore malloc s.tar _ (cswAccessSize s.csw) >>= fun _ => _) >>= fun _ => pure 0
    : ShimM UInt32) s = _
  rw [bind_assoc, run_bind_ok (shimStore_ok h)]
  rfl

/-- The store of one access. -/
def unitStore (align : Align) (dest : UInt32) (data : List UInt8) : EmuStore where
  addr := dest
  value := UInt32.ofNat (leNat (data.take align.width))
  size := align.width

/-- The stores of a write. -/
def unitStores (align : Align) : Nat → UInt32 → List UInt8 → List EmuStore
  | 0, _, _ => []
  | n + 1, dest, data => unitStore align dest data ::
      unitStores align n (dest + UInt32.ofNat align.width) (data.drop align.width)

/-- The lane that data is packed in is the one that the shim stores. -/
theorem adiv5PackData_lane (ha : align ≠ .bits64) (dest : UInt32) (data : List UInt8) :
    ((adiv5PackData dest data align).1 >>> laneShift dest align.width) &&& sizeMask align.width =
      UInt32.ofNat (leNat (data.take align.width)) := by
  have hw := Align.width_cases ha
  have hlt : leNat (data.take align.width) < 256 ^ align.width := by
    refine Nat.lt_of_lt_of_le (leNat_lt _) (Nat.pow_le_pow_right (by decide) ?_)
    rw [List.length_take]
    exact Nat.min_le_left _ _
  have h32 : 256 ^ align.width ≤ 2 ^ 32 := by
    rcases hw with hw | hw | hw <;> rw [hw] <;> decide
  have hval : (UInt32.ofNat (leNat (data.take align.width))).toNat =
      leNat (data.take align.width) := by
    rw [UInt32.toNat_ofNat', Nat.mod_eq_of_lt (by omega)]
  have hpack : (adiv5PackData dest data align).1 =
      UInt32.ofNat (leNat (data.take align.width)) <<< laneShift dest align.width := by
    cases align with
    | bits8 => rfl
    | bits16 => rfl
    | bits32 =>
      have hzero : laneShift dest Align.bits32.width = 0 := by
        change 8 * (dest &&& 0) = 0
        rw [UInt32.and_zero]
        rfl
      rw [hzero, UInt32.shiftLeft_zero]
      rfl
    | bits64 => exact absurd rfl ha
  obtain ⟨shift, hshift, hle⟩ := laneShift_eq ha dest
  have hdown : (UInt32.ofNat (leNat (data.take align.width)) <<< laneShift dest align.width >>>
      laneShift dest align.width).toNat = (UInt32.ofNat (leNat (data.take align.width))).toNat := by
    rw [hshift]
    refine @toNat_shiftRight_shiftLeft _ shift (8 * align.width) ?_ (by omega) (by omega)
    rw [hval, Nat.pow_mul]
    exact hlt
  rw [hpack, ← UInt32.toNat_inj, and_sizeMask (by omega), hdown, hval, Nat.mod_eq_of_lt hlt]

/-- After the check for an overflow TAR is the next address. -/
theorem writeCross_ok (hs : ApReady align s) (hnot : ¬ crossed dest odest → s.tar = dest) :
    ∃ odest' s', writeCross malloc dest odest s = .ok odest' s' ∧ ApReady align s' ∧
      s'.target = s.target ∧ s'.tar = dest ∧ ¬ crossed dest odest' := by
  unfold writeCross
  by_cases hc : crossed dest odest
  · rw [if_pos hc]
    rw [run_bind_ok lowAccess_writeTar]
    exact ⟨dest, _, rfl, ⟨hs.select, hs.size, hs.autoinc⟩, rfl, rfl,
      fun h => (crossed_iff dest dest).1 h rfl⟩
  · rw [if_neg hc]
    exact ⟨odest, s, rfl, hs, rfl, hnot hc, hc⟩

/-- The invariant of the loop: TAR is `dest`, and was last written in the same 1 KiB. -/
theorem memWriteLoop_run (ha : align ≠ .bits64) (n : Nat) : ∀ {dest odest : UInt32}
    {data : List UInt8} {s : EmuShim}, align.width ∣ dest.toNat → ApReady align s → s.tar = dest →
    ¬ crossed dest odest → ∃ s', memWriteLoop malloc align n dest odest data s = .ok () s' ∧
      Machine.run (emuTargetStore malloc) s.target (unitStores align n dest data) =
        .ok s'.target := by
  induction n with
  | zero => exact fun _ _ _ _ => ⟨_, rfl, rfl⟩
  | succ n ih =>
    intro dest odest data s hdest hs htar hpage
    have hnext : align.width ∣ (dest + UInt32.ofNat align.width).toNat := by
      simpa using dvd_next ha hdest 1
    obtain ⟨m₁, hstore⟩ := @emuTargetStore_aligned malloc s.target (unitStore align dest data)
      (Align.width_cases ha) hdest
    have hdrw : emuShimLowAccess malloc .write 0x10c (adiv5PackData dest data align).1 s = .ok 0
        (({ s with target := m₁ } : EmuShim).tarAutoinc align.width) := by
      rw [← hs.size]
      refine lowAccess_writeDrw ?_
      rw [hs.size, htar, adiv5PackData_lane ha]
      exact hstore
    generalize hs₁ : ({ s with target := m₁ } : EmuShim).tarAutoinc align.width = s₁ at hdrw
    have hs₁ : s₁ = { s with
        target := m₁,
        tar := (s.tar &&& ~~~ 0x3ff) ||| ((s.tar + UInt32.ofNat align.width) &&& 0x3ff) } := by
      rw [← hs₁, EmuShim.tarAutoinc]
      exact if_pos hs.autoinc
    have hready : ApReady align s₁ := by
      rw [hs₁]
      exact ⟨hs.select, hs.size, hs.autoinc⟩
    -- in the same 1 KiB TAR is the next address
    have hnot : ¬ crossed (dest + UInt32.ofNat align.width) odest →
        s₁.tar = dest + UInt32.ofNat align.width := by
      intro hc
      have hlt := dest.toNat_lt
      have hw := Align.width_cases ha
      rw [crossed_iff, not_not] at hc hpage
      rw [UInt32.toNat_add, UInt32.toNat_ofNat'] at hc
      rw [hs₁, ← UInt32.toNat_inj, toNat_tarAutoinc, htar, UInt32.toNat_add, UInt32.toNat_ofNat']
      rcases hw with hw | hw | hw <;> rw [hw] at hc hdest ⊢ <;> omega
    obtain ⟨odest', s₂, hcross, hready₂, htarget₂, htar₂, hpage₂⟩ :=
      @writeCross_ok malloc s₁ align _ odest hready hnot
    obtain ⟨s', hloop, hrun⟩ := @ih _ odest' (data.drop align.width) s₂ hnext hready₂ htar₂ hpage₂
    refine ⟨s', ?_, ?_⟩
    · rw [memWriteLoop]
      change (emuShimLowAccess malloc .write 0x10c (adiv5PackData dest data align).1 >>= fun _ => _)
        s = _
      rw [run_bind_ok hdrw, step_eq, run_bind_ok hcross]
      exact hloop
    · rw [unitStores, Machine.run_cons hstore, ← hrun, htarget₂, hs₁]

/-- A write is the stores of its accesses, whatever state the transport was in. -/
theorem adiv5MemWriteBytes_run (hap : MemAp ap) (ha : align ≠ .bits64)
    (hdest : align.width ∣ dest.toNat) (data : List UInt8) (s : EmuShim) :
    ∃ s', adiv5MemWriteBytes malloc ap dest data align s = .ok () s' ∧
      Machine.run (emuTargetStore malloc) s.target
        (unitStores align (data.length / align.width) dest data) = .ok s'.target := by
  obtain ⟨s', hloop, hrun⟩ :=
    @memWriteLoop_run malloc align ha (data.length >>> align.log2) dest dest data _ hdest
      (setup_ready hap dest s ha) rfl fun h => (crossed_iff dest dest).1 h rfl
  refine ⟨s', ?_, ?_⟩
  · unfold adiv5MemWriteBytes
    rw [run_bind_ok (apMemAccessSetup_ok dest align), run_bind_ok hloop]
    rfl
  · rw [Nat.shiftRight_eq_div_pow, ← Nat.one_shiftLeft] at hrun
    exact hrun

/-! ## Writing SRAM -/

/-- Stores of data to SRAM. -/
theorem unitStores_sram (malloc : Bool) (ha : align ≠ .bits64) (n : Nat) : ∀ (m : EmuTarget)
    {dest : UInt32} {data : List UInt8}, data.length = n * align.width → 0x20000000 ≤ dest.toNat →
    dest.toNat + data.length ≤ 0x20005000 →
    ∃ sram', Machine.run (emuTargetStore malloc) m (unitStores align n dest data) =
        .ok { m with sram := sram' } ∧
      sram'.toList = overwrite m.sram.toList (dest.toNat - 0x20000000) data := by
  have hw := Align.width_cases ha
  induction n with
  | zero =>
    intro m dest data hlen _ _
    rw [Nat.zero_mul, List.length_eq_zero_iff] at hlen
    exact ⟨m.sram, rfl, by rw [hlen, overwrite_nil]⟩
  | succ n ih =>
    intro m dest data hlen hlow hend
    rw [Nat.succ_mul] at hlen
    have htake : (data.take align.width).length = align.width := by
      rw [List.length_take]
      omega
    have hdrop : (data.drop align.width).length = n * align.width := by
      rw [List.length_drop]
      omega
    have hnext : (dest + UInt32.ofNat align.width).toNat = dest.toNat + align.width :=
      toNat_add_small (by omega)
    obtain ⟨sram₁, hstore, hval₁⟩ := @emuTargetStore_sram malloc m (unitStore align dest data)
      (show align.width ≤ 4 by omega) hlow (show 0 < align.width by omega)
      (show dest.toNat + align.width ≤ _ by omega)
    have hlt : leNat (data.take align.width) < 2 ^ 32 := by
      refine Nat.lt_of_lt_of_le (leNat_lt _) ?_
      rw [htake]
      rcases hw with hw | hw | hw <;> rw [hw] <;> decide
    have hbytes : leBytes align.width (UInt32.ofNat (leNat (data.take align.width))).toNat =
        data.take align.width := by
      have hround := leBytes_leNat (data.take align.width)
      rw [htake] at hround
      rw [UInt32.toNat_ofNat', Nat.mod_eq_of_lt hlt, hround]
    change sram₁.toList = overwrite m.sram.toList (dest.toNat - 0x20000000)
      (leBytes align.width (UInt32.ofNat (leNat (data.take align.width))).toNat) at hval₁
    rw [hbytes] at hval₁
    obtain ⟨sram', hrun, hval⟩ := @ih { m with sram := sram₁ }
      (dest + UInt32.ofNat align.width) (data.drop align.width) hdrop
      (by omega) (by omega)
    refine ⟨sram', ?_, ?_⟩
    · rw [unitStores, Machine.run_cons hstore, hrun]
    · have hsram : m.sram.toList.length = emuSramSize := Vector.length_toList
      have happ := @overwrite_append _ m.sram.toList (dest.toNat - 0x20000000)
        (data.take align.width)
        (data.drop align.width) (by
          rw [htake, hdrop, hsram, show emuSramSize = 0x5000 from rfl]
          omega)
      rw [List.take_append_drop, htake] at happ
      rw [hval, hnext, ← happ, ← hval₁, Nat.sub_add_comm hlow]

/-- A write inside of SRAM. -/
theorem adiv5MemWrite_sram (hap : MemAp ap) (s : EmuShim) (hlow : 0x20000000 ≤ dest.toNat)
    (hend : dest.toNat + data.length ≤ 0x20005000) :
    ∃ s' sram', adiv5MemWrite malloc ap dest data s = .ok () s' ∧
      s'.target = { s.target with sram := sram' } ∧
        sram'.toList = overwrite s.target.sram.toList (dest.toNat - 0x20000000) data := by
  have ha := minAlign_ne dest.toNat data.length
  obtain ⟨hdest, hdvd⟩ := minAlign_dvd dest.toNat data.length
  unfold adiv5MemWrite
  generalize minAlign dest.toNat data.length = align at ha hdest hdvd ⊢
  obtain ⟨s', hwrite, hrun⟩ := @adiv5MemWriteBytes_run malloc ap align dest hap ha hdest data s
  obtain ⟨sram', hrun', hval⟩ :=
    @unitStores_sram align malloc ha (data.length / align.width) s.target dest data
      (Nat.div_mul_cancel hdvd).symm hlow hend
  exact ⟨s', sram', hwrite, Except.ok.inj (hrun.symm.trans hrun'), hval⟩

/-- The bytes of SRAM, as they are in `g_sram`. -/
theorem bytes_sram (m : EmuTarget) {n : Nat} (hlow : 0x20000000 ≤ dest.toNat)
    (hend : dest.toNat + n ≤ 0x20005000) :
    m.bytes dest n = slice m.sram.toList (dest.toNat - 0x20000000) n := by
  have hsram : m.sram.toList.length = emuSramSize := Vector.length_toList
  have hsize : emuSramSize = 0x5000 := rfl
  refine List.ext_getElem? fun i => ?_
  by_cases hi : i < n
  · have hnot : ¬ inFlash (dest + UInt32.ofNat i) := by
      rw [inFlash_iff, toNat_add_small (by omega)]
      omega
    have hindex : (dest + UInt32.ofNat i - emuSramBase).toNat = dest.toNat - 0x20000000 + i := by
      rw [UInt32.toNat_sub, toNat_add_small (by omega), show emuSramBase.toNat =
        0x20000000 from rfl]
      omega
    rw [EmuTarget.bytes, List.getElem?_map, List.getElem?_range hi, Option.map_some, EmuTarget.byte,
      if_neg hnot, hindex, slice, List.getElem?_take_of_lt hi, List.getElem?_drop,
      Vector.getElem?_toList,
      Vector.getElem?_eq_getElem (by omega), Option.getD_some]
  · rw [List.getElem?_eq_none (by simp [EmuTarget.bytes]; omega),
      List.getElem?_eq_none (by rw [length_slice (by omega)]; omega)]

/-- A write inside of SRAM changes the bytes it is given, and nothing else; they are read back. -/
theorem adiv5MemWrite_correct (hap : NewAp0 ap) (s : EmuShim) (dest : UInt32) (data : List UInt8)
    (hlow : emuSramBase.toNat ≤ dest.toNat)
    (hend : dest.toNat + data.length ≤ emuSramBase.toNat + emuSramSize) :
    ∃ s₁, adiv5MemWrite malloc ap dest data s = .ok () s₁ ∧
      s₁.target = { s.target with sram := s₁.target.sram } ∧
      (∀ p < emuSramSize, s₁.target.sram[p]? =
        if dest.toNat ≤ emuSramBase.toNat + p ∧ emuSramBase.toNat + p <
            dest.toNat + data.length then
          data[emuSramBase.toNat + p - dest.toNat]?
        else s.target.sram[p]?) ∧
      ∃ s₂, advi5MemReadBytes malloc ap dest data.length s₁ = .ok data s₂ := by
  have hbase : emuSramBase.toNat = 0x20000000 := rfl
  have hsize : emuSramSize = 0x5000 := rfl
  rw [hbase] at hlow hend ⊢
  obtain ⟨s₁, sram', hwrite, htarget, hval⟩ :=
    @adiv5MemWrite_sram malloc ap dest data hap.memAp s hlow (by omega)
  have hlen : s.target.sram.toList.length = emuSramSize := Vector.length_toList
  have hsram : s₁.target.sram = sram' := by rw [htarget]
  refine ⟨s₁, hwrite, by rw [hsram, htarget], fun p hp => ?_, ?_⟩
  · rw [hsram, ← Vector.getElem?_toList, hval, getElem?_overwrite (by omega),
      Vector.getElem?_toList]
    by_cases hin : dest.toNat ≤ 0x20000000 + p ∧ 0x20000000 + p < dest.toNat + data.length
    · have hindex : p - (dest.toNat - 0x20000000) = 0x20000000 + p - dest.toNat := by omega
      rw [if_pos hin, if_pos (by omega), hindex]
    · rw [if_neg hin, if_neg (by omega)]
  · by_cases hzero : data.length = 0
    · refine ⟨s₁, ?_⟩
      unfold advi5MemReadBytes
      rw [if_pos hzero, List.length_eq_zero_iff.1 hzero]
      rfl
    · obtain ⟨s₂, hread, -⟩ :=
        @advi5MemReadBytes_window malloc ap s₁ dest hap.memAp data.length hzero
        (inWindow_iff.2 (.inr ⟨hlow, by omega⟩))
      refine ⟨s₂, ?_⟩
      have hback := @slice_overwrite _ s.target.sram.toList (dest.toNat - 0x20000000) 0
        data.length data
        (by omega) (by omega)
      rw [hread, bytes_sram _ hlow (by omega), hsram, hval]
      rw [Nat.add_zero] at hback
      rw [hback, slice, List.drop_zero, List.take_length]

/-- Seven bytes over the end of a page. -/
theorem adiv5MemWrite_correct_sevenbytes :
    ∃ s₁, adiv5MemWrite true ap0 0x200003fb [1, 2, 3, 4, 5, 6, 7] .reset = .ok () s₁ ∧
      s₁.target = { EmuShim.reset.target with sram := s₁.target.sram } ∧
      (∀ p < emuSramSize, s₁.target.sram[p]? =
        if (0x200003fb : UInt32).toNat ≤ emuSramBase.toNat + p ∧
            emuSramBase.toNat + p < (0x200003fb : UInt32).toNat + 7 then
          [1, 2, 3, 4, 5, 6, 7][emuSramBase.toNat + p - (0x200003fb : UInt32).toNat]?
        else EmuShim.reset.target.sram[p]?) ∧
      ∃ s₂, advi5MemReadBytes true ap0 0x200003fb 7 s₁ = .ok [1, 2, 3, 4, 5, 6, 7] s₂ :=
  adiv5MemWrite_correct newAp0_ap0 .reset 0x200003fb [1, 2, 3, 4, 5, 6, 7] (by decide) (by decide)

end

end Blackmagic
