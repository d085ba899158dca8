import Mathlib
import Blackmagic.Flash.Deliver

/-!
# Ascending writes

What reaches the flash when the input comes in ascending order, cut into calls of
`target_flash_write` in any way, with a `target_flash_complete` at the end. `A` is the whole input,
as a partial map from addresses to bytes, and the cursor `c` separates what has been taken in from
what is still to come. `AscInv` relates the log, the buffers, the input and the cursor; the steps
of a `Trace` keep it.
-/

namespace Blackmagic

open Word

/-! ## Callbacks -/

/-- The region a callback is for. -/
def FlashEvent.region : FlashEvent → FlashGeometry
  | .erase g _ _ => g
  | .write g _ _ => g

/-- The address a callback starts at. -/
def FlashEvent.addr : FlashEvent → Nat
  | .erase _ a _ => a
  | .write _ a _ => a

/-- The byte that a callback writes at `a`. -/
def FlashEvent.byteAt : FlashEvent → Nat → Option UInt8
  | .erase _ _ _, _ => none
  | .write _ addr data, a => if addr ≤ a then data[a - addr]? else none

/-- The bytes passed to `flash->write` for the address `a`, in order. -/
def passed (log : List FlashEvent) (a : Nat) : List UInt8 := log.filterMap (·.byteAt a)

/-- One write unit of the input, laid over the erased value. -/
def overlay (A : Nat → Option UInt8) (g : FlashGeometry) (addr : Nat) : List UInt8 :=
  (List.range g.writesize).map fun j => (A (addr + j)).getD g.erased

/-- Consecutive units. -/
theorem unitsFrom_pairwise (b : List UInt8) (ws : Nat) :
    ∀ (addr index count : Nat),
      (unitsFrom b ws addr index count).Pairwise fun u u' => u.1 + ws ≤ u'.1
  | _, _, 0 => .nil
  | addr, index, count + 1 => by
    refine .cons (fun u hu => ?_) (unitsFrom_pairwise b ws (addr + ws) (index + ws) count)
    obtain ⟨k, -, rfl⟩ := mem_unitsFrom.1 hu
    exact Nat.le_add_right _ _

/-- Two regions of the map that share an address have the same geometry. -/
theorem MapDisjoint.geometry_eq {gs : List FlashGeometry} (h : MapDisjoint gs)
    {g g' : FlashGeometry} (hg : g ∈ gs) (hg' : g' ∈ gs) {a : Nat} (ha : g.Contains a)
    (ha' : g'.Contains a) : g = g' := by
  by_contra hne
  have hsymm : Std.Symm fun g h : FlashGeometry => ∀ a, g.Contains a → ¬ h.Contains a :=
    ⟨fun _ _ h a hy hx => h a hx hy⟩
  exact List.Pairwise.forall h hg hg' hne a ha ha'

/-! ## The invariant -/

/-- A callback issued before the cursor reached `c`: one whole unit of its region with the data of
the input, below the unit of every address that is still to come. -/
structure UnitOk (A : Nat → Option UInt8) (gs : List FlashGeometry) (c : Nat) (e : FlashEvent) :
    Prop where
  region_mem : e.region ∈ gs
  data : e = .write e.region e.addr (overlay A e.region e.addr)
  dvd : e.region.writesize ∣ e.addr
  start_le : e.region.start ≤ e.addr
  le_end : e.addr + e.region.writesize ≤ e.region.start + e.region.length
  below : ∀ y, c ≤ y → e.region.Contains y →
    e.addr + e.region.writesize ≤ y - y % e.region.writesize

/-- The pending span of a region when the cursor is at `c`: it is behind the cursor, it starts
behind every unit of the region in the log, and it has the bytes of the input. -/
structure SpanOk (A : Nat → Option UInt8) (log : List FlashEvent) (c : Nat) (f : TargetFlash) :
    Prop where
  high_le : f.bufAddrHigh ≤ c
  start_le : f.start ≤ f.bufAddrLow
  le_end : f.bufAddrHigh ≤ f.start + f.length
  above : ∀ e ∈ log, e.region = f.toFlashGeometry → e.addr + f.writesize ≤ f.unitLow
  data : ∀ a, f.unitLow ≤ a → a < f.start + f.length → a < f.bufAddrBase + f.writebufsize →
    (f.buf.getD [])[a - f.bufAddrBase]? = some (if a < c then (A a).getD f.erased else f.erased)

/-- What has been issued and what is pending when the input below the cursor has been taken in. -/
structure AscInv (A : Nat → Option UInt8) (c : Nat) (s : Session) : Prop where
  clean : s.Clean
  map : MapWf s.geometry
  units : ∀ e ∈ s.log, UnitOk A s.geometry c e
  pairwise : s.log.Pairwise fun e e' => e.region = e'.region →
    e.addr + e.region.writesize ≤ e'.addr
  spans : ∀ f ∈ s.flash, f.Pending → SpanOk A s.log c f
  covered : ∀ a v, A a = some v → a < c →
    (∃ e ∈ s.log, e.addr ≤ a ∧ a < e.addr + e.region.writesize) ∨
      ∃ f ∈ s.flash, f.Pending ∧ f.bufAddrLow ≤ a ∧ a < f.bufAddrHigh

section
variable {A : Nat → Option UInt8}

/-- A unit may come from a write that ends later. -/
theorem UnitOk.mono {gs : List FlashGeometry} {c c' : Nat} {e : FlashEvent}
    (h : UnitOk A gs c e) (hc : c ≤ c') : UnitOk A gs c' e :=
  { h with below := fun y hy => h.below y (hc.trans hy) }

/-- Moving the cursor over addresses that the input has nothing for. -/
theorem AscInv.advance {c c' : Nat} {s : Session} (h : AscInv A c s) (hc : c ≤ c')
    (hgap : ∀ a, c ≤ a → a < c' → A a = none) : AscInv A c' s := by
  refine { h with units := fun e he => (h.units e he).mono hc, spans := fun f hf hp => ?_,
                  covered := fun a v hv hlt => ?_ }
  · have hspan := h.spans f hf hp
    refine { hspan with high_le := hspan.high_le.trans hc, data := fun a h1 h2 h3 => ?_ }
    rw [hspan.data a h1 h2 h3]
    by_cases hlt : a < c
    · rw [if_pos hlt, if_pos (by omega)]
    · rw [if_neg hlt]
      by_cases hlt' : a < c'
      · rw [if_pos hlt', hgap a (by omega) hlt']
        rfl
      · rw [if_neg hlt']
  · rcases Nat.lt_or_ge a c with hac | hac
    · exact h.covered a v hv hac
    · rw [hgap a hac hlt] at hv
      cases hv

/-- The units of a pending span stay in the region. -/
theorem SpanOk.units_le {log : List FlashEvent} {c : Nat} {f : TargetFlash}
    (h : SpanOk A log c f) (hp : f.Pending) (halign : f.toFlashGeometry.Aligned) :
    f.start ≤ f.unitLow ∧ f.unitLow + f.unitCount * f.writesize ≤ f.start + f.length := by
  have hlt := hp.2.2.2
  have h1 : f.start ≤ f.unitLow := le_unit_of_dvd halign.start_unit h.start_le
  have h2 : f.unitLow ≤ f.bufAddrLow := Nat.sub_le _ _
  have hle := h.le_end
  have hroom : f.writesize ∣ f.start + f.length - f.unitLow :=
    Nat.dvd_sub (Nat.dvd_add halign.start_unit halign.length_unit) (dvd_unit _ _)
  have hceil := ceil_units halign.writesize_pos hroom
    (show f.bufAddrHigh - f.unitLow ≤ f.start + f.length - f.unitLow by omega)
  refine ⟨h1, ?_⟩
  unfold TargetFlash.unitCount
  omega

/-- A pending region contains the addresses of its span. -/
theorem SpanOk.contains {log : List FlashEvent} {c : Nat} {f : TargetFlash}
    (h : SpanOk A log c f) (halign : f.toFlashGeometry.Aligned) {a : Nat} (h1 : f.bufAddrLow ≤ a)
    (h2 : a < f.bufAddrHigh) : f.Contains a := by
  have := h.start_le
  have := h.le_end
  rw [halign.contains_iff]
  omega

/-! ## One step -/

/-- The units of a page that is flushed for `x` are below the unit of every address from `x` on. -/
theorem SpanOk.below {log : List FlashEvent} {x : Nat} {f : TargetFlash} (h : SpanOk A log x f)
    (hf : f.Clean) (hp : f.Pending) (halign : f.toFlashGeometry.Aligned)
    (haway : Away x f ∨ 2 ^ 32 ≤ x) {y : Nat} (hy : x ≤ y) (hc : f.Contains y) :
    f.unitLow + f.unitCount * f.writesize ≤ y - y % f.writesize := by
  obtain ⟨hbase, -, hlow, -, -⟩ := hf.inv.pending hp
  obtain ⟨-, -, htop, -⟩ := hf.inv.units_span hp
  have hlt := hp.2.2.2
  have hhigh := h.high_le
  have hstart := h.start_le
  rcases haway with (hout | hpage) | hend
  · -- `x` is behind the region
    rw [halign.contains_iff] at hout hc
    omega
  · -- `x` is in a later page
    have hle : f.bufAddrBase ≤ x - x % f.writebufsize := le_unit_of_dvd hbase (by omega)
    have hnext : f.bufAddrBase - f.bufAddrBase % f.writebufsize + f.writebufsize ≤
        x - x % f.writebufsize :=
      unit_end_le_of_dvd (dvd_unit _ _) (lt_of_le_of_ne hle hpage)
    rw [Nat.mod_eq_zero_of_dvd hbase, Nat.sub_zero] at hnext
    have hunit : x - x % f.writebufsize ≤ y - y % f.writesize :=
      le_unit_of_dvd (halign.writesize_dvd.trans (dvd_unit _ _)) (by omega)
    omega
  · have := hc.succ_lt
    omega

/-- The callbacks of a flush for `x`. -/
theorem SpanOk.pendingEvents {gs : List FlashGeometry} {log : List FlashEvent} {x : Nat}
    {f : TargetFlash} (h : SpanOk A log x f) (hf : f.Clean) (hp : f.Pending)
    (halign : f.toFlashGeometry.Aligned) (hmem : f.toFlashGeometry ∈ gs)
    (haway : Away x f ∨ 2 ^ 32 ≤ x) {e : FlashEvent} (he : e ∈ f.pendingEvents) :
    e.region = f.toFlashGeometry ∧ f.unitLow ≤ e.addr ∧ UnitOk A gs x e := by
  unfold TargetFlash.pendingEvents at he
  obtain ⟨u, hu, rfl⟩ := List.mem_map.1 he
  obtain ⟨k, hk, rfl⟩ := mem_unitsFrom.1 hu
  obtain ⟨hstart, hend⟩ := h.units_le hp halign
  obtain ⟨hb1, hb2, hb3, hb4⟩ := hf.inv.units_span hp
  have hlast : f.unitLow + k * f.writesize + f.writesize ≤
      f.unitLow + f.unitCount * f.writesize := by
    rw [Nat.add_assoc, ← Nat.succ_mul]
    exact Nat.add_le_add_left (Nat.mul_le_mul_right _ hk) _
  have hbelow : ∀ y, x ≤ y → f.Contains y →
      f.unitLow + k * f.writesize + f.writesize ≤ y - y % f.writesize :=
    fun y hy hc => hlast.trans (h.below hf hp halign haway hy hc)
  refine ⟨rfl, Nat.le_add_right _ _, hmem, ?_, ?_, ?_, ?_, hbelow⟩
  · -- every byte of the unit is behind `x`
    simp only [FlashEvent.region, FlashEvent.addr, FlashEvent.write.injEq, true_and]
    apply List.ext_getElem?
    intro j
    rw [overlay, List.getElem?_map]
    rcases Nat.lt_or_ge j f.writesize with hj | hj
    · rw [List.getElem?_take_of_lt hj, List.getElem?_drop, List.getElem?_range hj]
      have hdata := h.data (f.unitLow + k * f.writesize + j) (by omega) (by omega) (by omega)
      have hlt : f.unitLow + k * f.writesize + j < x := by
        by_contra hge
        have hc : f.Contains (f.unitLow + k * f.writesize + j) := by
          rw [halign.contains_iff]
          omega
        have hunit := hbelow _ (by omega) hc
        have hsub := Nat.sub_le (f.unitLow + k * f.writesize + j)
          ((f.unitLow + k * f.writesize + j) % f.writesize)
        omega
      rw [if_pos hlt] at hdata
      rw [Option.map_some, ← hdata]
      congr 1
      omega
    · rw [List.getElem?_eq_none (by rw [List.length_take]; omega),
        List.getElem?_eq_none (by rw [List.length_range]; exact hj)]
      rfl
  · exact Nat.dvd_add (dvd_unit _ _) (Nat.dvd_mul_left _ _)
  · exact hstart.trans (Nat.le_add_right _ _)
  · exact hlast.trans hend

/-- The units of a flush cover what was pending. -/
theorem TargetFlash.BufInv.covers {f : TargetFlash} (hf : f.BufInv) (hp : f.Pending) {a : Nat}
    (h1 : f.bufAddrLow ≤ a) (h2 : a < f.bufAddrHigh) :
    ∃ e ∈ f.pendingEvents, e.addr ≤ a ∧ a < e.addr + e.region.writesize := by
  obtain ⟨hb1, hb2, hb3, hb4⟩ := hf.units_span hp
  have hws := hf.wf.writesize_pos
  have hdm := Nat.div_add_mod (a - f.unitLow) f.writesize
  have hlt := Nat.mod_lt (a - f.unitLow) hws
  rw [Nat.mul_comm] at hdm
  have hcount : (a - f.unitLow) / f.writesize < f.unitCount := by
    rw [Nat.div_lt_iff_lt_mul hws]
    omega
  refine ⟨_, List.mem_map_of_mem (mem_unitsFrom.2 ⟨_, hcount, rfl⟩), ?_⟩
  dsimp only [FlashEvent.addr, FlashEvent.region]
  omega

/-- The other regions of a split map have no address in common with the region split off. -/
theorem MapDisjoint.other {pre post : List TargetFlash} {f f' : TargetFlash}
    (h : MapDisjoint ((pre ++ f :: post).map (·.toFlashGeometry))) (hf' : f' ∈ pre ∨ f' ∈ post)
    {a : Nat} (ha : f'.Contains a) : ¬ f.Contains a := by
  rw [MapDisjoint, List.map_append, List.map_cons, List.pairwise_append, List.pairwise_cons] at h
  obtain ⟨-, ⟨hpost, -⟩, hpre⟩ := h
  rcases hf' with hf' | hf'
  · exact hpre _ (List.mem_map_of_mem hf') _ List.mem_cons_self a ha
  · exact fun hc => hpost _ (List.mem_map_of_mem hf') a hc ha

/-- Every region of the session is aligned. -/
theorem AscInv.aligned {c : Nat} {s : Session} (h : AscInv A c s) {f : TargetFlash}
    (hf : f ∈ s.flash) : f.toFlashGeometry.Aligned :=
  h.map.aligned _ (List.mem_map_of_mem hf)

/-- Flushing a page for the address at the cursor keeps the invariant. -/
theorem AscInv.flush {x : Nat} {pre post : List TargetFlash} {f : TargetFlash}
    {log : List FlashEvent} (h : AscInv A x ⟨pre ++ f :: post, log⟩) (hp : f.Pending)
    (haway : Away x f ∨ 2 ^ 32 ≤ x) :
    AscInv A x ⟨pre ++ { f with operation := .write }.clearSpan :: post,
      log ++ f.pendingEvents⟩ := by
  have hmem : f ∈ pre ++ f :: post := by simp
  have hf := h.clean f hmem
  have halign := h.aligned hmem
  have hspan := h.spans f hmem hp
  have hgeom : Session.geometry ⟨pre ++ { f with operation := .write }.clearSpan :: post,
      log ++ f.pendingEvents⟩ = Session.geometry ⟨pre ++ f :: post, log⟩ := by
    simp [Session.geometry, TargetFlash.clearSpan]
  have hevent : ∀ e ∈ f.pendingEvents, e.region = f.toFlashGeometry ∧ f.unitLow ≤ e.addr ∧
      UnitOk A (Session.geometry ⟨pre ++ f :: post, log⟩) x e :=
    fun e he => hspan.pendingEvents hf hp halign (List.mem_map_of_mem hmem) haway he
  have hstep : TidyRegion (fun _ => True) f _ _ := .flush hp trivial
  refine ⟨h.clean.replace hstep.clean, by rw [hgeom]; exact h.map, ?_, ?_, ?_, ?_⟩
  · rw [hgeom]
    exact List.forall_mem_append.2 ⟨h.units, fun e he => (hevent e he).2.2⟩
  · refine List.pairwise_append.2 ⟨h.pairwise, ?_, fun e he e' he' hreg => ?_⟩
    · rw [TargetFlash.pendingEvents, List.pairwise_map, TargetFlash.pendingUnits]
      refine (unitsFrom_pairwise _ _ _ _ _).imp ?_
      intro u u' hu _
      exact hu
    · obtain ⟨hreg', hlow, -⟩ := hevent e' he'
      have := hspan.above e he (hreg.trans hreg')
      rw [hreg, hreg']
      omega
  · intro f' hf' hp'
    simp only [List.mem_append, List.mem_cons] at hf'
    have hother : f' ∈ pre ∨ f' ∈ post := by
      rcases hf' with hf' | rfl | hf'
      · exact .inl hf'
      · exact absurd hp' (TargetFlash.not_pending_clearSpan _)
      · exact .inr hf'
    have hmem' : f' ∈ pre ++ f :: post := by
      rcases hother with hf' | hf' <;> simp [hf']
    have hspan' := h.spans f' hmem' hp'
    refine { hspan' with above := List.forall_mem_append.2 ⟨hspan'.above, fun e he hreg => ?_⟩ }
    -- an event of another region
    have hc' := hspan'.contains (h.aligned hmem') le_rfl hp'.2.2.2
    have hc : f.Contains f'.bufAddrLow := by
      rw [← (hevent e he).1, hreg]
      exact hc'
    exact absurd hc (h.map.disjoint.other hother hc')
  · intro a v hv hlt
    rcases h.covered a v hv hlt with ⟨e, he, hcov⟩ | ⟨f', hf', hp', hlow, hhigh⟩
    · exact .inl ⟨e, List.mem_append_left _ he, hcov⟩
    · simp only [List.mem_append, List.mem_cons] at hf'
      rcases hf' with hf' | rfl | hf'
      · exact .inr ⟨f', by simp [hf'], hp', hlow, hhigh⟩
      · obtain ⟨e, he, hcov⟩ := hf.inv.covers hp hlow hhigh
        exact .inl ⟨e, List.mem_append_right _ he, hcov⟩
      · exact .inr ⟨f', by simp [hf'], hp', hlow, hhigh⟩

/-- Replacing a region that has nothing pending by another one keeps the invariant. -/
theorem AscInv.idle {x : Nat} {pre post : List TargetFlash} {f f' : TargetFlash}
    {log : List FlashEvent} (h : AscInv A x ⟨pre ++ f :: post, log⟩) (hp : ¬ f.Pending)
    (hp' : ¬ f'.Pending) (hclean : f'.Clean) (hg : f'.toFlashGeometry = f.toFlashGeometry) :
    AscInv A x ⟨pre ++ f' :: post, log⟩ := by
  have hgeom : Session.geometry ⟨pre ++ f' :: post, log⟩ =
      Session.geometry ⟨pre ++ f :: post, log⟩ := by
    simp [Session.geometry, hg]
  refine ⟨h.clean.replace fun _ => hclean, by rw [hgeom]; exact h.map, by rw [hgeom]; exact h.units,
    h.pairwise, ?_, ?_⟩
  · intro g hmem hpend
    simp only [List.mem_append, List.mem_cons] at hmem
    rcases hmem with hmem | rfl | hmem
    · exact h.spans g (by simp [hmem]) hpend
    · exact absurd hpend hp'
    · exact h.spans g (by simp [hmem]) hpend
  · intro a v hv hlt
    refine (h.covered a v hv hlt).imp_right ?_
    rintro ⟨g, hmem, hpend, hspan⟩
    refine ⟨g, ?_, hpend, hspan⟩
    simp only [List.mem_append, List.mem_cons] at hmem ⊢
    rcases hmem with hmem | rfl | hmem
    · exact .inl hmem
    · exact absurd hpend hp
    · exact .inr (.inr hmem)

/-- When a chunk starts a new span, nothing of the input lies between the start of its unit and
the chunk. -/
theorem AscInv.none_before {x : Nat} {pre post : List TargetFlash} {f : TargetFlash}
    {log : List FlashEvent} (h : AscInv A x ⟨pre ++ f :: post, log⟩) (hp : ¬ f.Pending)
    (hx : f.Contains x) {a : Nat} (h1 : x - x % f.writesize ≤ a) (h2 : a < x) : A a = none := by
  have hmem : f ∈ pre ++ f :: post := by simp
  have halign := h.aligned hmem
  have hca : f.Contains a := by
    have hstart := le_unit_of_dvd halign.start_unit (halign.contains_iff.1 hx).1
    rw [halign.contains_iff] at hx ⊢
    omega
  cases hv : A a with
  | none => rfl
  | some v =>
    exfalso
    rcases h.covered a v hv h2 with ⟨e, he, hlow, hhigh⟩ | ⟨f', hf', hp', hlow, hhigh⟩
    · -- the unit of a callback of the same region is below the unit of `x`
      have hunit := h.units e he
      have hce : e.region.Contains a := by
        rw [(h.map.aligned _ hunit.region_mem).contains_iff]
        have := hunit.start_le
        have := hunit.le_end
        omega
      have hreg : e.region = f.toFlashGeometry :=
        h.map.disjoint.geometry_eq hunit.region_mem (List.mem_map_of_mem hmem) hce hca
      have hbelow := hunit.below x le_rfl (by rw [hreg]; exact hx)
      rw [hreg] at hbelow hhigh
      omega
    · -- a pending region that contains `a` is `f`, which has nothing pending
      have hc' := (h.spans f' hf' hp').contains (h.aligned hf') hlow hhigh
      simp only [List.mem_append, List.mem_cons] at hf'
      rcases hf' with hf' | rfl | hf'
      · exact h.map.disjoint.other (.inl hf') hc' hca
      · exact hp hp'
      · exact h.map.disjoint.other (.inr hf') hc' hca

/-- The span after a chunk of the input was stored at the cursor. -/
theorem AscInv.storeSpan {x : Nat} {chunk : List UInt8} {pre post : List TargetFlash}
    {f f' : TargetFlash} {log : List FlashEvent} (h : AscInv A x ⟨pre ++ f :: post, log⟩)
    (hst : StoreRegion x chunk f f') (hA : ∀ i < chunk.length, A (x + i) = chunk[i]?) :
    SpanOk A log (x + chunk.length) f' ∧ f'.bufAddrLow ≤ x ∧
      x + chunk.length ≤ f'.bufAddrHigh ∧
      (f.Pending → f'.bufAddrLow ≤ f.bufAddrLow ∧ f.bufAddrHigh ≤ f'.bufAddrHigh) := by
  have hmem : f ∈ pre ++ f :: post := by simp
  have hf := h.clean f hmem
  have halign := h.aligned hmem
  have hg := hst.geometry
  have hpos : 0 < chunk.length := List.length_pos_iff.2 hst.nonempty
  have hx := hst.contains 0 hpos
  rw [Nat.add_zero] at hx
  have hxlast := hst.contains (chunk.length - 1) (by omega)
  have hxr := halign.contains_iff.1 hx
  have hxl := halign.contains_iff.1 hxlast
  obtain ⟨hbase, h1, h2, h3, h4, h5, hcases⟩ := hst.span hf
  have hbyte {a : Nat} (hlow : f'.unitLow ≤ a) (htop : a < f'.bufAddrBase + f.writebufsize) :
      (f'.buf.getD [])[a - f'.bufAddrBase]? =
        if x ≤ a ∧ a < x + chunk.length then chunk[a - x]?
        else if f.Pending then (f.buf.getD [])[a - f.bufAddrBase]? else some f.erased := by
    have hunit : f'.bufAddrBase ≤ f'.unitLow := by
      refine le_unit_of_dvd ?_ h1
      rw [hg, hbase]
      exact halign.writesize_dvd.trans (dvd_unit _ _)
    obtain ⟨b', hb', hb⟩ := hst.byte hf (hunit.trans hlow) htop
    rw [hb', Option.getD_some, hb]
  have hin {a : Nat} (hlow : x ≤ a) (hhigh : a < x + chunk.length) :
      chunk[a - x]? = some ((A a).getD f.erased) := by
    have := hA (a - x) (by omega)
    rw [Nat.add_sub_cancel' hlow] at this
    rw [this, List.getElem?_eq_getElem (by omega)]
    rfl
  rcases hcases with ⟨hp, hsame, hlow', hhigh'⟩ | ⟨hp, hlow', hhigh'⟩
  · -- the chunk goes on with the pending span
    have hspan := h.spans f hmem hp
    have hle := hspan.high_le
    have hlt := hp.2.2.2
    have hlow : f'.bufAddrLow = f.bufAddrLow := by omega
    have hunit : f'.unitLow = f.unitLow := by
      unfold TargetFlash.unitLow
      rw [hlow, hg]
    have hend := hspan.le_end
    refine ⟨⟨by omega, ?_, ?_, ?_, fun a ha1 ha2 ha3 => ?_⟩, h2, h3, fun _ => ⟨by omega, by omega⟩⟩
    · rw [hlow, hg]
      exact hspan.start_le
    · rw [hg]
      omega
    · rw [hunit, hg]
      exact hspan.above
    · rw [hg] at ha2 ha3 ⊢
      rw [hbyte ha1 ha3]
      by_cases hch : x ≤ a ∧ a < x + chunk.length
      · rw [if_pos hch, if_pos hch.2]
        exact hin hch.1 hch.2
      · rw [if_neg hch, if_pos hp, hspan.data a (by omega) ha2 (by omega)]
        rcases Nat.lt_or_ge a x with hax | hax
        · rw [if_pos hax, if_pos (by omega)]
        · rw [if_neg (by omega), if_neg (by omega)]
  · -- the chunk starts a span
    have hunit : f'.unitLow = x - x % f.writesize := by
      unfold TargetFlash.unitLow
      rw [hlow', hg]
    refine ⟨⟨by omega, ?_, ?_, fun e he hreg => ?_, fun a ha1 ha2 ha3 => ?_⟩, h2, h3,
      fun hpend => absurd hpend hp⟩
    · rw [hlow', hg]
      exact hxr.1
    · rw [hg]
      omega
    · rw [hunit, hg]
      have hbelow := (h.units e he).below x le_rfl (by rw [hreg, hg]; exact hx)
      rw [hreg, hg] at hbelow
      exact hbelow
    · rw [hg] at ha2 ha3 ⊢
      rw [hbyte ha1 ha3]
      by_cases hch : x ≤ a ∧ a < x + chunk.length
      · rw [if_pos hch, if_pos hch.2]
        exact hin hch.1 hch.2
      · rw [if_neg hch, if_neg hp]
        rcases Nat.lt_or_ge a x with hax | hax
        · rw [if_pos (by omega), h.none_before hp hx (by omega) hax]
          rfl
        · rw [if_neg (by omega)]

/-- Storing a chunk of the input at the cursor keeps the invariant. -/
theorem AscInv.store {x : Nat} {chunk : List UInt8} {pre post : List TargetFlash}
    {f f' : TargetFlash} {log : List FlashEvent} (h : AscInv A x ⟨pre ++ f :: post, log⟩)
    (hst : StoreRegion x chunk f f') (hA : ∀ i < chunk.length, A (x + i) = chunk[i]?) :
    AscInv A (x + chunk.length) ⟨pre ++ f' :: post, log⟩ := by
  have hmem : f ∈ pre ++ f :: post := by simp
  have hf := h.clean f hmem
  have hg := hst.geometry
  obtain ⟨hspan', hlow', hhigh', hwiden⟩ := h.storeSpan hst hA
  have hgeom : Session.geometry ⟨pre ++ f' :: post, log⟩ =
      Session.geometry ⟨pre ++ f :: post, log⟩ := by
    simp [Session.geometry, hg]
  refine ⟨h.clean.replace hst.clean, by rw [hgeom]; exact h.map, ?_, h.pairwise, ?_, ?_⟩
  · rw [hgeom]
    exact fun e he => (h.units e he).mono (Nat.le_add_right _ _)
  · -- the input just stored is not in another region
    have hother : ∀ g, g ∈ pre ∨ g ∈ post → g.Pending → SpanOk A log (x + chunk.length) g := by
      intro g hg hpend
      have hmem' : g ∈ pre ++ f :: post := by
        rcases hg with hg | hg <;> simp [hg]
      have hspan := h.spans g hmem' hpend
      have halign := h.aligned hmem'
      refine { hspan with high_le := hspan.high_le.trans (Nat.le_add_right _ _)
                          data := fun a h1 h2 h3 => ?_ }
      rw [hspan.data a h1 h2 h3]
      rcases Nat.lt_or_ge a x with hax | hax
      · rw [if_pos hax, if_pos (by omega)]
      · rw [if_neg (by omega), if_neg]
        intro hlt
        have hfa := hst.contains (a - x) (by omega)
        rw [Nat.add_sub_cancel' hax] at hfa
        have hga : g.Contains a := by
          rw [halign.contains_iff]
          have hsl := le_unit_of_dvd halign.start_unit hspan.start_le
          exact ⟨hsl.trans h1, h2⟩
        exact h.map.disjoint.other hg hga hfa
    intro g hmem' hpend
    simp only [List.mem_append, List.mem_cons] at hmem'
    rcases hmem' with hg | rfl | hg
    · exact hother g (.inl hg) hpend
    · exact hspan'
    · exact hother g (.inr hg) hpend
  · intro a v hv hlt
    have hself : f' ∈ pre ++ f' :: post := by simp
    rcases Nat.lt_or_ge a x with hax | hax
    · refine (h.covered a v hv hax).imp_right ?_
      rintro ⟨g, hmem', hpend, hl, hh⟩
      simp only [List.mem_append, List.mem_cons] at hmem'
      rcases hmem' with hg | rfl | hg
      · exact ⟨g, by simp [hg], hpend, hl, hh⟩
      · obtain ⟨h1, h2⟩ := hwiden hpend
        exact ⟨f', hself, hst.pending hf, by omega, by omega⟩
      · exact ⟨g, by simp [hg], hpend, hl, hh⟩
    · exact .inr ⟨f', hself, hst.pending hf, by omega, by omega⟩

/-- A trace that takes input in at the cursor keeps the invariant and moves the cursor behind it. -/
theorem Trace.asc {away : Nat → TargetFlash → Prop} {x : Nat} {src : List UInt8}
    {s s' : Session} (h : Trace away x src s s')
    (haway : ∀ y f, x ≤ y → away y f → Away y f ∨ 2 ^ 32 ≤ y) (hs : AscInv A x s)
    (hA : ∀ i < src.length, A (x + i) = src[i]?) : AscInv A (x + src.length) s' := by
  induction h with
  | nil => exact hs
  | @tidy x src pre post f f' log ev s' step rest ih =>
    refine ih haway ?_ hA
    cases step with
    | flush hp hf => exact hs.flush hp (haway _ _ le_rfl hf)
    | done hp =>
      rw [List.append_nil]
      have hstep : TidyRegion (fun _ => True) f _ _ := .done hp
      exact hs.idle hp (fun hp' => by cases hp'.1) (hstep.clean hs.clean.mem) rfl
    | alloc hb =>
      rw [List.append_nil]
      have hstep : TidyRegion (fun _ => True) f _ _ := .alloc hb
      refine hs.idle (fun hp => ?_) (TargetFlash.not_pending_clearSpan _)
        (hstep.clean hs.clean.mem) rfl
      rw [TargetFlash.Pending, hb] at hp
      cases hp.1
  | @store x chunk src pre post f f' log s' step rest ih =>
    have hchunk : ∀ i < chunk.length, A (x + i) = chunk[i]? := by
      intro i hi
      rw [hA i (by rw [List.length_append]; omega), List.getElem?_append_left hi]
    have := ih (fun y f hy => haway y f ((Nat.le_add_right _ _).trans hy)) (hs.store step hchunk)
      fun i hi => by
      rw [Nat.add_assoc, hA (chunk.length + i) (by rw [List.length_append]; omega),
        List.getElem?_append_right (by omega), Nat.add_sub_cancel_left]
    rwa [List.length_append, ← Nat.add_assoc]

end

/-! ## The input -/

/-- The byte that a list of writes has for the address `a`. -/
def inputAt : List (Nat × List UInt8) → Nat → Option UInt8
  | [], _ => none
  | (dest, src) :: ws, a =>
    if dest ≤ a ∧ a < dest + src.length then src[a - dest]? else inputAt ws a

/-- The writes come in ascending order and do not overlap. -/
def Ascending (ws : List (Nat × List UInt8)) : Prop :=
  ws.Pairwise fun w w' => w.1 + w.2.length ≤ w'.1

/-- A byte that was written lies in one of the writes. -/
theorem inputAt_some {a : Nat} {v : UInt8} :
    ∀ {ws : List (Nat × List UInt8)}, inputAt ws a = some v →
      ∃ w ∈ ws, w.1 ≤ a ∧ a < w.1 + w.2.length
  | (dest, src) :: ws, h => by
    unfold inputAt at h
    split at h
    · next hin => exact ⟨(dest, src), List.mem_cons_self, hin⟩
    · obtain ⟨w, hw, hin⟩ := inputAt_some h
      exact ⟨w, List.mem_cons_of_mem _ hw, hin⟩

/-- Behind the first write the input is that of the others. -/
theorem inputAt_cons_of_le {dest : Nat} {src : List UInt8} {ws : List (Nat × List UInt8)} {a : Nat}
    (h : dest + src.length ≤ a) : inputAt ((dest, src) :: ws) a = inputAt ws a := by
  rw [inputAt, if_neg (by omega)]

/-- The last write to an address counts. -/
theorem inputAt_cons_self {dest : Nat} {src : List UInt8} {ws : List (Nat × List UInt8)} {i : Nat}
    (h : i < src.length) : inputAt ((dest, src) :: ws) (dest + i) = src[i]? := by
  rw [inputAt, if_pos (by omega), Nat.add_sub_cancel_left]

/-! ## Runs -/

section
variable {δ : Type}

/-- The writes of a run, as calls. -/
def writeCalls (ws : List (FlashDriver δ × Nat × List UInt8)) :
    List (FlashDriver δ × FlashCall) :=
  ws.map fun w => (w.1, .write w.2.1 w.2.2)

/-- A run of ascending writes keeps the invariant, for an input that is theirs from the cursor
on. -/
theorem flashRun_asc {A : Nat → Option UInt8} :
    ∀ {ws : List (FlashDriver δ × Nat × List UInt8)} {t t' : Target (δ × List FlashEvent)}
      {rs : List Bool} {c : Nat}, AscInv A c t.session →
      (∀ p ∈ writeCalls ws, p.2.InMap t.session.geometry) →
      Ascending (ws.map (·.2)) → (∀ w ∈ ws, c ≤ w.2.1) →
      (∀ a, c ≤ a → A a = inputAt (ws.map (·.2)) a) →
      flashRun t (loggedCalls (writeCalls ws)) = .ok (rs, t') → (∀ r ∈ rs, r = true) →
      ∃ c', AscInv A c' t'.session ∧ ∀ a, c' ≤ a → A a = none
  | [], _, _, _, c, hs, _, _, _, hA, h, _ => by
    cases h
    exact ⟨c, hs, hA⟩
  | (drv, dest, src) :: ws, t, t', rs, c, hs, hin, hasc, hc, hA, h, hrs => by
    obtain ⟨r, t₁, rs', hstep, hrun, rfl⟩ := flashRun_cons.1 h
    obtain ⟨rfl, hrs'⟩ := List.forall_mem_cons.1 hrs
    obtain ⟨hinw, hin'⟩ := List.forall_mem_cons.1 hin
    obtain ⟨hdest, -⟩ := List.forall_mem_cons.1 hc
    obtain ⟨hnext, hasc'⟩ := List.pairwise_cons.1 hasc
    -- the input from the cursor on starts at `dest`
    have hgap : ∀ a, c ≤ a → a < dest → A a = none := by
      intro a h1 h2
      cases hv : A a with
      | none => rfl
      | some v =>
        rw [hA a h1] at hv
        obtain ⟨w, hw, hlow, -⟩ := inputAt_some hv
        rcases List.mem_cons.1 hw with rfl | hw
        · dsimp only at hlow
          omega
        · have := hnext w hw
          dsimp only at this
          omega
    have htrace := targetFlashWrite_trace drv hs.clean hs.map.disjoint hinw.end_lt hstep
    have hs₁ := htrace.asc (fun _ _ _ h => .inl h) (hs.advance hdest hgap) fun i hi => by
      rw [hA _ (hdest.trans (Nat.le_add_right _ _))]
      exact inputAt_cons_self hi
    have hg₁ := (htrace.clean hs.clean).2
    refine flashRun_asc hs₁ (by rw [hg₁]; exact hin') hasc' (fun w hw => ?_) (fun a ha => ?_)
      hrun hrs'
    · exact hnext w.2 (List.mem_map_of_mem hw)
    · rw [hA a (hdest.trans ((Nat.le_add_right _ _).trans ha))]
      exact inputAt_cons_of_le ha

/-- A run of ascending writes inside a flash map, on which no operation is going on, and a
`target_flash_complete`, all of which returned true. -/
structure AscendingRun (t : Target (δ × List FlashEvent))
    (ws : List (FlashDriver δ × Nat × List UInt8)) (drv : FlashDriver δ)
    (t' : Target (δ × List FlashEvent)) : Prop where
  map : MapWf t.session.geometry
  idle : ∀ f ∈ t.flash, f.operation = .none ∧ f.buf = none
  log : t.dev.2 = []
  inMap : ∀ p ∈ writeCalls ws, p.2.InMap t.session.geometry
  ascending : Ascending (ws.map (·.2))
  run : ∃ rs, flashRun t (loggedCalls (writeCalls ws ++ [(drv, .complete)])) = .ok (rs, t') ∧
    ∀ r ∈ rs, r = true

/-- At the end of the run nothing is pending and the whole input is in the log. -/
theorem AscendingRun.final {t t' : Target (δ × List FlashEvent)}
    {ws : List (FlashDriver δ × Nat × List UInt8)} {drv : FlashDriver δ}
    (h : AscendingRun t ws drv t') :
    (∀ f ∈ t'.flash, ¬ f.Pending) ∧ t'.session.geometry = t.session.geometry ∧
      ∃ c, AscInv (inputAt (ws.map (·.2))) c t'.session ∧
        ∀ a, c ≤ a → inputAt (ws.map (·.2)) a = none := by
  obtain ⟨rs, hrun, hrs⟩ := h.run
  have hclean : t.session.Clean := fun f hf =>
    .of_none (h.map.aligned _ (List.mem_map_of_mem hf)).toWf
      (by rw [(h.idle f hf).1]; exact nofun) (h.idle f hf).2
  have hinit : AscInv (inputAt (ws.map (·.2))) 0 t.session := by
    refine ⟨hclean, h.map, ?_, ?_, fun f hf hp => ?_, fun a v _ hlt => by omega⟩
    · change ∀ e ∈ t.dev.2, _
      rw [h.log]
      exact nofun
    · change t.dev.2.Pairwise _
      rw [h.log]
      exact .nil
    · rw [TargetFlash.Pending, (h.idle f hf).2] at hp
      cases hp.1
  have hdone := flashRun_complete hclean h.map h.inMap hrun hrs
  rw [loggedCalls, List.map_append] at hrun
  obtain ⟨rs₁, t₁, rs₂, h₁, h₂, rfl⟩ := flashRun_append.1 hrun
  obtain ⟨hrs₁, hrs₂⟩ := List.forall_mem_append.1 hrs
  obtain ⟨r, t₂, rs₃, hcomplete, hnil, rfl⟩ := flashRun_cons.1 h₂
  cases hnil
  obtain ⟨rfl, -⟩ := List.forall_mem_cons.1 hrs₂
  obtain ⟨c, hs₁, hend⟩ := flashRun_asc hinit h.inMap h.ascending (fun _ _ => Nat.zero_le _)
    (fun _ _ => rfl) h₁ hrs₁
  have hg₁ := (flashRun_clean hclean h.map h.inMap h₁ hrs₁).2.1
  have hs₂ := hs₁.advance (Nat.le_max_left c (2 ^ 32)) (fun a ha _ => hend a ha)
  have htrace := (targetFlashComplete_trace drv (max c (2 ^ 32)) hs₁.clean hcomplete).2
  refine ⟨hdone, (htrace.clean hs₁.clean).2.trans hg₁, max c (2 ^ 32), ?_, fun a ha => ?_⟩
  · exact htrace.asc (fun _ _ hy _ => .inr ((Nat.le_max_right _ _).trans hy)) hs₂ (by simp)
  · exact hend a (by omega)

/-! ## What a run has issued -/

section
variable {A : Nat → Option UInt8} {gs : List FlashGeometry} {c : Nat}

/-- The region of a unit contains the addresses of the unit. -/
theorem UnitOk.contains {e : FlashEvent} (h : UnitOk A gs c e) (hmap : MapWf gs) {a : Nat}
    (h1 : e.addr ≤ a) (h2 : a < e.addr + e.region.writesize) : e.region.Contains a := by
  have := h.start_le
  have := h.le_end
  rw [(hmap.aligned _ h.region_mem).contains_iff]
  omega

/-- The byte of a unit. -/
theorem UnitOk.byteAt {e : FlashEvent} (h : UnitOk A gs c e) {a : Nat} (h1 : e.addr ≤ a)
    (h2 : a < e.addr + e.region.writesize) :
    e.byteAt a = some ((A a).getD e.region.erased) := by
  nth_rewrite 1 [h.data]
  rw [FlashEvent.byteAt, if_pos h1, overlay, List.getElem?_map, List.getElem?_range (by omega),
    Option.map_some, Nat.add_sub_cancel' h1]

/-- A unit writes nothing outside it. -/
theorem UnitOk.byteAt_none {e : FlashEvent} (h : UnitOk A gs c e) {a : Nat}
    (hout : ¬ (e.addr ≤ a ∧ a < e.addr + e.region.writesize)) : e.byteAt a = none := by
  rw [h.data, FlashEvent.byteAt]
  split
  · next hle =>
    refine List.getElem?_eq_none ?_
    rw [overlay, List.length_map, List.length_range]
    omega
  · rfl

/-- The units of a log, pairwise apart. -/
theorem AscInv.apart {s : Session} (h : AscInv A c s) :
    s.log.Pairwise fun e e' => ∀ a, e.addr ≤ a → a < e.addr + e.region.writesize →
      ¬ (e'.addr ≤ a ∧ a < e'.addr + e'.region.writesize) := by
  refine h.pairwise.imp_of_mem fun {e e'} he he' hlt a h1 h2 hin => ?_
  have hc := (h.units e he).contains h.map h1 h2
  have hc' := (h.units e' he').contains h.map hin.1 hin.2
  have := hlt (h.map.disjoint.geometry_eq (h.units e he).region_mem (h.units e' he').region_mem
    hc hc')
  omega

/-- No unit is issued twice. -/
theorem AscInv.nodup {s : Session} (h : AscInv A c s) : (s.log.map FlashEvent.addr).Nodup := by
  rw [List.Nodup, List.pairwise_map]
  refine h.apart.imp_of_mem fun {e e'} he he' hap heq => ?_
  have hpos := (h.map.aligned _ (h.units e he).region_mem).writesize_pos
  have hpos' := (h.map.aligned _ (h.units e' he').region_mem).writesize_pos
  exact hap e.addr le_rfl (by omega) (by omega)

/-- The one byte that a log has passed for an address that one of its units covers. -/
theorem AscInv.passed_eq {s : Session} (h : AscInv A c s) {e : FlashEvent} (he : e ∈ s.log)
    {a : Nat} {v : UInt8} (hv : A a = some v) (h1 : e.addr ≤ a)
    (h2 : a < e.addr + e.region.writesize) : passed s.log a = [v] := by
  have hunits := h.units
  have hapart := h.apart
  obtain ⟨l₁, l₂, hlog⟩ := List.append_of_mem he
  rw [hlog] at hunits hapart
  obtain ⟨-, hright, hleft⟩ := List.pairwise_append.1 hapart
  obtain ⟨hright, -⟩ := List.pairwise_cons.1 hright
  have hnone₁ : l₁.filterMap (·.byteAt a) = [] := by
    refine List.filterMap_eq_nil_iff.2 fun e' he' => ?_
    refine (hunits e' (by simp [he'])).byteAt_none fun hin => ?_
    exact hleft e' he' e List.mem_cons_self a hin.1 hin.2 ⟨h1, h2⟩
  have hnone₂ : l₂.filterMap (·.byteAt a) = [] := by
    refine List.filterMap_eq_nil_iff.2 fun e' he' => ?_
    exact (hunits e' (by simp [he'])).byteAt_none (hright e' he' a h1 h2)
  have hbyte : e.byteAt a = some v := by
    rw [(h.units e he).byteAt h1 h2, hv]
    rfl
  rw [passed, hlog, List.filterMap_append, hnone₁, List.filterMap_cons, hbyte, hnone₂]
  rfl

end

/-- A byte of the input is in exactly one unit of the log, and passed once. -/
theorem AscendingRun.issued {t t' : Target (δ × List FlashEvent)}
    {ws : List (FlashDriver δ × Nat × List UInt8)} {drv : FlashDriver δ}
    (h : AscendingRun t ws drv t') {a : Nat} {v : UInt8}
    (hv : inputAt (ws.map (·.2)) a = some v) :
    (∃ g ∈ t.session.geometry, g.Contains a ∧
      (t'.dev.2.map FlashEvent.addr).count (a - a % g.writesize) = 1) ∧
      passed t'.dev.2 a = [v] := by
  obtain ⟨hidle, hgeom, c, hs, hend⟩ := h.final
  have hlt : a < c := by
    by_contra hge
    rw [hend a (by omega)] at hv
    cases hv
  rcases hs.covered a v hv hlt with ⟨e, he, h1, h2⟩ | ⟨f, hf, hp, -⟩
  · have hunit := hs.units e he
    refine ⟨⟨e.region, hgeom ▸ hunit.region_mem, hunit.contains hs.map h1 h2, ?_⟩,
      hs.passed_eq he hv h1 h2⟩
    rw [unit_eq hunit.dvd h1 h2]
    exact List.count_eq_one_of_mem hs.nodup (List.mem_map_of_mem he)
  · exact absurd hp (hidle f hf)

/-- **Ascending writes.** Every unit that contains a byte of the input is issued exactly once and no
unit twice; a unit lies in the region whose callback is called, and its data is the input laid over
the erased value; and the bytes passed for an address of the input do not depend on how the input
was cut into calls. -/
theorem ascendingRun_issues {t t' : Target (δ × List FlashEvent)}
    {ws : List (FlashDriver δ × Nat × List UInt8)} {drv : FlashDriver δ}
    (h : AscendingRun t ws drv t') :
    (t'.dev.2.map FlashEvent.addr).Nodup ∧
    (∀ e ∈ t'.dev.2, ∃ g ∈ t.session.geometry, ∃ addr, g.writesize ∣ addr ∧
      g.start ≤ addr ∧ addr + g.writesize ≤ g.start + g.length ∧
      e = .write g addr (overlay (inputAt (ws.map (·.2))) g addr)) ∧
    (∀ a v, inputAt (ws.map (·.2)) a = some v →
      (∃ g ∈ t.session.geometry, g.Contains a ∧
        (t'.dev.2.map FlashEvent.addr).count (a - a % g.writesize) = 1) ∧
      passed t'.dev.2 a = [v]) ∧
    (∀ (t₂ t₂' : Target (δ × List FlashEvent)) (ws₂ : List (FlashDriver δ × Nat × List UInt8))
      (drv₂ : FlashDriver δ), AscendingRun t₂ ws₂ drv₂ t₂' →
      t₂.session.geometry = t.session.geometry →
      (∀ a, inputAt (ws₂.map (·.2)) a = inputAt (ws.map (·.2)) a) →
      ∀ a v, inputAt (ws.map (·.2)) a = some v → passed t₂'.dev.2 a = passed t'.dev.2 a) := by
  obtain ⟨-, hgeom, c, hs, -⟩ := h.final
  refine ⟨hs.nodup, fun e he => ?_, fun a v hv => h.issued hv, ?_⟩
  · have hunit := hs.units e he
    exact ⟨e.region, hgeom ▸ hunit.region_mem, e.addr, hunit.dvd, hunit.start_le, hunit.le_end,
      hunit.data⟩
  · intro t₂ t₂' ws₂ drv₂ h₂ _ hsame a v hv
    rw [(h.issued hv).2, (h₂.issued ((hsame a).trans hv)).2]

end

/-- Two calls of two bytes, the second one across a page boundary. -/
theorem ascendingRun_issues_oneRegion : ∃ t',
    AscendingRun (oneRegion 2048 ((), []))
      [(quietDriver, 0x08000000, [1, 2]), (quietDriver, 0x080003ff, [3, 4])] quietDriver t' ∧
    (t'.dev.2.map FlashEvent.addr).Nodup := by
  have hrun : (outcome (flashRun (oneRegion 2048 ((), [])) (loggedCalls (writeCalls
      [(quietDriver, 0x08000000, [1, 2]), (quietDriver, 0x080003ff, [3, 4])] ++
        [(quietDriver, .complete)])))).map Prod.fst = .ok [true, true, true] := by
    decide +kernel
  cases hx : flashRun (oneRegion 2048 ((), [])) (loggedCalls (writeCalls
      [(quietDriver, 0x08000000, [1, 2]), (quietDriver, 0x080003ff, [3, 4])] ++
        [(quietDriver, .complete)])) with
  | error e =>
    rw [hx] at hrun
    cases hrun
  | ok x =>
    obtain ⟨rs, t'⟩ := x
    rw [hx] at hrun
    cases hrun
    have hrun : AscendingRun (oneRegion 2048 ((), []))
        [(quietDriver, 0x08000000, [1, 2]), (quietDriver, 0x080003ff, [3, 4])] quietDriver t' := by
      refine ⟨oneRegion_mapWf _, oneRegion_idle 2048 _, rfl, ?_, ?_, _, hx, by simp⟩
      · simp only [writeCalls, List.map_cons, List.map_nil, List.forall_mem_cons, List.not_mem_nil,
          FlashCall.InMap, List.length_cons, List.length_nil]
        exact ⟨fun k hk => oneRegion_contains _ (by omega) (by omega),
          fun k hk => oneRegion_contains _ (by omega) (by omega), fun _ h => h.elim⟩
      · simp [Ascending]
    exact ⟨t', hrun, (ascendingRun_issues hrun).1⟩

end Blackmagic
