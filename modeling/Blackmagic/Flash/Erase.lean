import Blackmagic.Flash.Ascending
import Blackmagic.Flash.Map

/-!
# `target_flash_erase` erases the blocks of a range

On a map of regions in whole blocks that do not overlap, the walk of `target_flash_erase` goes from
the end of one block to the next. If it returns true, the `erase` callbacks are the blocks that meet
the range, in ascending order, each to its own region, and every region it touched is idle
(`ErasedExactly`).
-/

namespace Blackmagic

open Word

/-- A region of whole blocks, ending inside the address space. -/
structure FlashGeometry.InBlocks (g : FlashGeometry) : Prop where
  blocksize_pow2 : IsPow2 g.blocksize
  start_block : g.blocksize ∣ g.start
  length_block : g.blocksize ∣ g.length
  end_lt : g.start + g.length < 2 ^ 32

/-- A flash map in blocks: such regions, without overlaps. -/
structure BlockMap (gs : List FlashGeometry) : Prop where
  inBlocks : ∀ g ∈ gs, g.InBlocks
  disjoint : MapDisjoint gs

/-- A block of a region. -/
structure FlashGeometry.IsBlock (g : FlashGeometry) (a : Nat) : Prop where
  aligned : g.blocksize ∣ a
  start_le : g.start ≤ a
  le_end : a + g.blocksize ≤ g.start + g.length

/-- Every address of a range is in a region of the map. -/
def MapCovers (gs : List FlashGeometry) (addr len : Nat) : Prop :=
  ∀ x, addr ≤ x → x < addr + len → ∃ g ∈ gs, g.Contains x

/-- The erase of a block that meets a range, at the region of the block. -/
def ErasesBlock (gs : List FlashGeometry) (addr len : Nat) (e : FlashEvent) : Prop :=
  ∃ g ∈ gs, ∃ a, e = .erase g a g.blocksize ∧ g.IsBlock a ∧
    ∃ x, (addr ≤ x ∧ x < addr + len) ∧ a ≤ x ∧ x < a + g.blocksize

/-- A region that a walk over a range touches: it contains an address of the range, or the first
one. -/
def TargetFlash.Touched (f : TargetFlash) (addr len : Nat) : Prop :=
  f.Contains addr ∨ ∃ x, (addr ≤ x ∧ x < addr + len) ∧ f.Contains x

section
variable {δ : Type}

/-! ## Blocks -/

section
variable {gs : List FlashGeometry} {g g' : FlashGeometry} {a a' x : Nat}

/-- The addresses of a region of whole blocks. -/
theorem FlashGeometry.InBlocks.contains_iff (h : g.InBlocks) :
    g.Contains x ↔ g.start ≤ x ∧ x < g.start + g.length := by
  rw [FlashGeometry.Contains, add32_of_lt h.end_lt]

/-- A block lies in its region. -/
theorem FlashGeometry.IsBlock.contains (h : g.InBlocks) (hb : g.IsBlock a) (hle : a ≤ x)
    (hlt : x < a + g.blocksize) : g.Contains x := by
  have h1 := hb.start_le
  have h2 := hb.le_end
  exact h.contains_iff.2 ⟨by omega, by omega⟩

/-- The block that an address of a region lies in, as the walk computes it. -/
theorem FlashGeometry.InBlocks.block (h : g.InBlocks) (hx : g.Contains x) :
    g.IsBlock (alignDown x g.blocksize) ∧ alignDown x g.blocksize ≤ x ∧
      x < alignDown x g.blocksize + g.blocksize ∧
      add32 (alignDown x g.blocksize) g.blocksize = alignDown x g.blocksize + g.blocksize := by
  have hend := h.end_lt
  obtain ⟨hle, hlt⟩ := h.contains_iff.1 hx
  have hmod := Nat.mod_lt x h.blocksize_pow2.pos
  have htop := unit_end_le_of_dvd ((Nat.dvd_add_right h.start_block).2 h.length_block) hlt
  rw [h.blocksize_pow2.alignDown (by omega)]
  exact ⟨⟨dvd_unit _ _, le_unit_of_dvd h.start_block hle, htop⟩, by omega, by omega,
    add32_of_lt (by omega)⟩

/-- Two blocks of a map that share an address are the same. -/
theorem BlockMap.block_unique (hmap : BlockMap gs) (hg : g ∈ gs) (hg' : g' ∈ gs) (hb : g.IsBlock a)
    (hb' : g'.IsBlock a') (hx : a ≤ x ∧ x < a + g.blocksize)
    (hx' : a' ≤ x ∧ x < a' + g'.blocksize) :
    g = g' ∧ a = a' := by
  obtain rfl : g = g' := MapDisjoint.geometry_eq hmap.disjoint hg hg'
    (hb.contains (hmap.inBlocks g hg) hx.1 hx.2) (hb'.contains (hmap.inBlocks g' hg') hx'.1 hx'.2)
  exact ⟨rfl, (unit_eq hb.aligned hx.1 hx.2).symm.trans (unit_eq hb'.aligned hx'.1 hx'.2)⟩

/-- The blocks that meet a range: the one at its first address, and those that meet the rest. -/
theorem BlockMap.erasesBlock_iff (hmap : BlockMap gs) (hg : g ∈ gs) (hb : g.IsBlock a)
    {addr len : Nat} (hle : a ≤ addr) (hlt : addr < a + g.blocksize) (hlen : 0 < len)
    {e : FlashEvent} :
    ErasesBlock gs addr len e ↔ e = .erase g a g.blocksize ∨
      ErasesBlock gs (a + g.blocksize) (len - min (a + g.blocksize - addr) len) e := by
  constructor
  · rintro ⟨g', hg', a', rfl, hb', x, hx, hx'⟩
    rcases Nat.lt_or_ge x (a + g.blocksize) with hin | hout
    · obtain ⟨rfl, rfl⟩ := hmap.block_unique hg hg' hb hb' ⟨hle.trans hx.1, hin⟩ hx'
      exact .inl rfl
    · exact .inr ⟨g', hg', a', rfl, hb', x, ⟨hout, by omega⟩, hx'⟩
  · rintro (rfl | ⟨g', hg', a', rfl, hb', x, hx, hx'⟩)
    · exact ⟨g, hg, a, rfl, hb, addr, ⟨Nat.le_refl _, by omega⟩, hle, hlt⟩
    · exact ⟨g', hg', a', rfl, hb', x, ⟨by omega, by omega⟩, hx'⟩

/-- A block that meets the rest of a range lies behind the first block. -/
theorem BlockMap.lt_of_erasesBlock (hmap : BlockMap gs) (hg : g ∈ gs) (hb : g.IsBlock a) {len : Nat}
    {e : FlashEvent} (he : ErasesBlock gs (a + g.blocksize) len e) : a < e.addr := by
  obtain ⟨g', hg', a', rfl, hb', x, hx, hx'⟩ := he
  by_contra hge
  have hge : a' ≤ a := Nat.le_of_not_lt hge
  have hpos := (hmap.inBlocks g hg).blocksize_pow2.pos
  obtain ⟨rfl, rfl⟩ := hmap.block_unique hg hg' hb hb' ⟨Nat.le_refl a, by omega⟩ ⟨hge, by omega⟩
  omega

end

/-! ## One iteration -/

variable (drv : FlashDriver δ)

/-- One iteration of the loop of `target_flash_erase`: its early end, or the target, the region and
the address to go on with. -/
def eraseStep (t : Target δ) (active addr : Nat) (result : Bool) :
    (Bool × Target δ) ⊕ (Target δ × Nat × Nat) :=
  match targetFlashForAddr t addr with
  | none => .inl (false, t)
  | some i =>
    let (switched, t) := switchErase drv t active i
    match t.flash[i]? with
    | none => .inl (false, t)
    | some f =>
      let localStartAddr := alignDown addr f.blocksize
      let localEndAddr := add32 localStartAddr f.blocksize
      let (prepared, t) := t.onFlash i (fun f d => flashPrepare drv f .erase d)
      if prepared then
        let (ok, t) := t.onFlash i (flashErase drv localStartAddr f.blocksize)
        if result && switched && ok then .inr (t, i, localEndAddr)
        else .inl (false, (t.onFlash i (flashDone drv)).2)
      else .inl (false, t)

/-- One turn of the erase loop. -/
theorem eraseLoop_step (fuel : Nat) (t : Target δ) (active addr len : Nat) (result : Bool) :
    eraseLoop drv (fuel + 1) t active addr (len + 1) result =
      match eraseStep drv t active addr result with
      | .inl x => x
      | .inr (t', i, localEndAddr) =>
        eraseLoop drv fuel t' i localEndAddr (len + 1 - min (sub32 localEndAddr addr) (len + 1))
          true := by
  rw [eraseLoop, eraseStep]
  cases targetFlashForAddr t addr with
  | none => rfl
  | some i =>
    dsimp only
    cases (switchErase drv t active i).2.flash[i]? with
    | none => rfl
    | some f =>
      dsimp only
      generalize Target.onFlash _ i (fun f d => flashPrepare drv f .erase d) = x
      cases x.1 with
      | false => rfl
      | true =>
        simp only [if_true]
        generalize Target.onFlash x.2 i _ = y
        cases result && (switchErase drv t active i).1 && y.1 with
        | false => rfl
        | true => rfl

/-- A call on one region leaves the others. -/
theorem Target.onFlash_getElem?_ne (t : Target δ) {i j : Nat} (h : j ≠ i)
    (op : TargetFlash → δ → Bool × TargetFlash × δ) :
    (t.onFlash i op).2.flash[j]? = t.flash[j]? := by
  unfold Target.onFlash
  split
  · rfl
  · exact List.getElem?_set_ne h.symm

/-- What a call makes of its region. -/
theorem Target.onFlash_getElem?_eq (t : Target δ) {i : Nat} {f' : TargetFlash}
    {op : TargetFlash → δ → Bool × TargetFlash × δ} (h : (t.onFlash i op).2.flash[i]? = some f') :
    ∃ f, t.flash[i]? = some f ∧ f' = (op f t.dev).2.1 := by
  unfold Target.onFlash at h
  split at h
  · next hnone =>
    rw [hnone] at h
    cases h
  · next f hf =>
    refine ⟨f, hf, ?_⟩
    have hi := (List.getElem?_eq_some_iff.1 hf).1
    rw [List.getElem?_set_self hi] at h
    exact (Option.some.inj h).symm

/-- What an iteration that goes on has done: it went from the active region, which is idle now, to
the region at the address, and erased the block there. -/
structure EraseStepped (t t' : Target δ) (active addr i localEndAddr : Nat) (f : TargetFlash) :
    Prop where
  found : targetFlashForAddr t addr = some i
  region : t.flash[i]? = some f
  contains : f.Contains addr
  localEndAddr_eq : localEndAddr = add32 (alignDown addr f.blocksize) f.blocksize
  geometry : t'.geometry = t.geometry
  others : ∀ j, j ≠ i → j ≠ active → t'.flash[j]? = t.flash[j]?
  left : active ≠ i → ∀ f', t'.flash[active]? = some f' → f'.operation = .none

/-- The calls of an iteration that goes on. -/
theorem eraseStep_inr {t t' : Target δ} {active addr i e : Nat} {result : Bool}
    (h : eraseStep drv t active addr result = .inr (t', i, e)) :
    result = true ∧ targetFlashForAddr t addr = some i ∧ ∃ t₁ f t₂,
      switchErase drv t active i = (true, t₁) ∧ t₁.flash[i]? = some f ∧
      t₁.onFlash i (fun f d => flashPrepare drv f .erase d) = (true, t₂) ∧
      t₂.onFlash i (flashErase drv (alignDown addr f.blocksize) f.blocksize) = (true, t') ∧
      e = add32 (alignDown addr f.blocksize) f.blocksize := by
  unfold eraseStep at h
  split at h
  · cases h
  next i' hfound =>
  rcases hsw : switchErase drv t active i' with ⟨switched, t₁⟩
  simp only [hsw] at h
  split at h
  · cases h
  next f hf =>
  rcases hprep : t₁.onFlash i' (fun f d => flashPrepare drv f .erase d) with ⟨prepared, t₂⟩
  simp only [hprep] at h
  split at h
  · next hp =>
    rcases herase : t₂.onFlash i'
      (flashErase drv (alignDown addr f.blocksize) f.blocksize) with ⟨ok, t₃⟩
    simp only [herase] at h
    split at h
    · next hr =>
      rw [Bool.and_eq_true, Bool.and_eq_true] at hr
      obtain ⟨⟨rfl, rfl⟩, rfl⟩ := hr
      cases h
      subst hp
      exact ⟨rfl, hfound, t₁, f, t₂, hsw, hf, hprep, herase, rfl⟩
    · cases h
  · cases h

/-- Regions at one place of maps with one geometry. -/
theorem Target.geometry_getElem? {t t' : Target δ} (h : t'.geometry = t.geometry) {i : Nat}
    {f f' : TargetFlash} (hf : t.flash[i]? = some f) (hf' : t'.flash[i]? = some f') :
    f'.toFlashGeometry = f.toFlashGeometry := by
  have hi := congrArg (·[i]?) h
  simp only [Target.geometry, List.getElem?_map, hf, hf', Option.map_some] at hi
  exact Option.some.inj hi

/-- A region of a later map was there before. -/
theorem Target.exists_of_geometry {t t' : Target δ} (h : t'.geometry = t.geometry) {i : Nat}
    {f' : TargetFlash} (hf' : t'.flash[i]? = some f') :
    ∃ f, t.flash[i]? = some f ∧ f'.toFlashGeometry = f.toFlashGeometry := by
  have hi := congrArg (·[i]?) h
  simp only [Target.geometry, List.getElem?_map, hf', Option.map_some] at hi
  obtain ⟨f, hf, hg⟩ := Option.map_eq_some_iff.1 hi.symm
  exact ⟨f, hf, hg.symm⟩

/-- Leaving the active region. -/
theorem switchErase_spec {t t₁ : Target δ} {active i : Nat} {switched : Bool}
    (h : switchErase drv t active i = (switched, t₁)) :
    t₁.geometry = t.geometry ∧ (∀ j, j ≠ active → t₁.flash[j]? = t.flash[j]?) ∧
      (active ≠ i → ∀ f, t₁.flash[active]? = some f → f.operation = .none) := by
  have hR := drv.respects_true
  unfold switchErase at h
  split at h
  · have ht₁ : t₁ = (t.onFlash active (flashDone drv)).2 := by rw [h]
    subst ht₁
    refine ⟨(Target.onFlash_keeps hR (flashDone_step hR) t active).geometry,
      fun j hj => t.onFlash_getElem?_ne hj _, fun _ f hf => ?_⟩
    obtain ⟨g, -, rfl⟩ := t.onFlash_getElem?_eq hf
    exact (flashDone_spec drv g t.dev).2.1
  · next hi =>
    cases h
    exact ⟨rfl, fun _ _ => rfl, fun hne => absurd (Decidable.not_not.1 hi).symm hne⟩

/-- A turn that goes on has erased a block. -/
theorem eraseStep_stepped {t t' : Target δ} {active addr i e : Nat} {result : Bool}
    (h : eraseStep drv t active addr result = .inr (t', i, e)) :
    result = true ∧ ∃ f, EraseStepped t t' active addr i e f := by
  obtain ⟨hresult, hfound, t₁, f₁, t₂, hswitch, hf₁, hprep, herase, he⟩ := eraseStep_inr drv h
  obtain ⟨f, hf, hcontains⟩ := targetFlashForAddr_some hfound
  obtain ⟨hgeom, hothers, hleft⟩ := switchErase_spec drv hswitch
  have hR := drv.respects_true
  have hgeom₂ :=
    (Target.onFlash_keeps hR (fun f d => flashPrepare_step hR f .erase d) t₁ i).geometry
  have hgeom₃ := (Target.onFlash_keeps hR
    (flashErase_step hR (alignDown addr f₁.blocksize) f₁.blocksize) t₂ i).geometry
  have hothers₃ : ∀ j, j ≠ i → t'.flash[j]? = t₁.flash[j]? := by
    intro j hj
    have h₂ := t₁.onFlash_getElem?_ne hj (fun f d => flashPrepare drv f .erase d)
    have h₃ := t₂.onFlash_getElem?_ne hj (flashErase drv (alignDown addr f₁.blocksize) f₁.blocksize)
    rw [hprep] at h₂
    rw [herase] at h₃
    exact h₃.trans h₂
  rw [hprep] at hgeom₂
  rw [herase] at hgeom₃
  refine ⟨hresult, f, hfound, hf, hcontains, ?_, hgeom₃.trans (hgeom₂.trans hgeom), ?_, ?_⟩
  · rw [he, Target.geometry_getElem? hgeom hf hf₁]
  · intro j hi hactive
    rw [hothers₃ j hi, hothers j hactive]
  · intro hne f' hf'
    rw [hothers₃ active hne] at hf'
    exact hleft hne f' hf'

/-- The callback of an iteration that goes on. -/
theorem eraseStep_log {t t' : Target (δ × List FlashEvent)} {active addr i e : Nat} {result : Bool}
    {f : TargetFlash} (h : eraseStep drv.logged t active addr result = .inr (t', i, e))
    (hf : t.flash[i]? = some f) :
    t'.dev.2 = t.dev.2 ++ [.erase f.toFlashGeometry (alignDown addr f.blocksize) f.blocksize] := by
  obtain ⟨-, -, t₁, f₁, t₂, hswitch, hf₁, hprep, herase, -⟩ := eraseStep_inr drv.logged h
  have hgeom := (switchErase_spec drv.logged hswitch).1
  have hlog₁ : t₁.dev.2 = t.dev.2 := by
    unfold switchErase at hswitch
    split at hswitch
    · unfold Target.onFlash at hswitch
      split at hswitch
      · cases hswitch
      · next g hg =>
        rw [← (Prod.mk.inj hswitch).2]
        exact (flashDone_logged drv g t.dev.1 t.dev.2).1
    · cases hswitch
      rfl
  rw [Target.onFlash_of_getElem? hf₁] at hprep
  obtain ⟨-, rfl⟩ := Prod.mk.inj hprep
  have hi := (List.getElem?_eq_some_iff.1 hf₁).1
  rw [Target.onFlash_of_getElem? (List.getElem?_set_self hi)] at herase
  obtain ⟨-, rfl⟩ := Prod.mk.inj herase
  have hprepared := (flashPrepare_step drv.logged.respects_true f₁ .erase t₁.dev).geometry
  have hcall : ∀ f a n s, (flashErase drv.logged a n f s).2.2.2 =
      s.2 ++ [.erase f.toFlashGeometry a n] :=
    fun _ _ _ _ => rfl
  dsimp only
  rw [hcall, flashPrepare_log, hlog₁, hprepared, Target.geometry_getElem? hgeom hf hf₁]

/-! ## The walk -/

/-- In a map in blocks, an iteration goes on at the end of the block at the address. -/
theorem EraseStepped.block {t t' : Target δ} {active addr i e : Nat} {f : TargetFlash}
    (h : EraseStepped t t' active addr i e f) (hmap : BlockMap t.geometry) :
    f.toFlashGeometry ∈ t.geometry ∧ f.IsBlock (alignDown addr f.blocksize) ∧
      alignDown addr f.blocksize ≤ addr ∧ addr < e ∧ e = alignDown addr f.blocksize + f.blocksize ∧
      sub32 e addr = e - addr := by
  have hmem : f.toFlashGeometry ∈ t.geometry := List.mem_map_of_mem (List.mem_of_getElem? h.region)
  obtain ⟨hblock, hle, hlt, hadd⟩ := (hmap.inBlocks _ hmem).block h.contains
  have hend := (hmap.inBlocks _ hmem).end_lt
  have htop := hblock.le_end
  have he : e = alignDown addr f.blocksize + f.blocksize := h.localEndAddr_eq.trans hadd
  exact ⟨hmem, hblock, hle, by omega, he, sub32_of_le (by omega) (by omega)⟩

/-- The walk ends: in a map in blocks, more than `len` iterations are never made. -/
theorem eraseLoop_fuel :
    ∀ (fuel : Nat) {t : Target δ} {active addr len : Nat} {result : Bool}, BlockMap t.geometry →
      len ≤ fuel →
      eraseLoop drv fuel t active addr len result = eraseLoop drv len t active addr len result := by
  intro fuel
  induction fuel using Nat.strongRecOn with
  | _ fuel ih =>
    intro t active addr len result hmap hle
    cases len with
    | zero =>
      cases fuel with
      | zero => rfl
      | succ fuel => rw [eraseLoop, eraseLoop]
    | succ len =>
      obtain ⟨fuel, rfl⟩ : ∃ n, fuel = n + 1 := ⟨fuel - 1, by omega⟩
      rw [eraseLoop_step, eraseLoop_step]
      split
      · rfl
      · next t' i e hstep =>
        obtain ⟨-, f, hs⟩ := eraseStep_stepped drv hstep
        obtain ⟨-, -, -, hlt, -, hsub⟩ := hs.block hmap
        have hmap' : BlockMap t'.geometry := by rwa [hs.geometry]
        rw [hsub, ih fuel (by omega) hmap' (by omega), ih len (by omega) hmap' (by omega)]

/-- A turn that ends the loop ends it with false. -/
theorem eraseStep_inl {t t' : Target δ} {active addr : Nat} {result : Bool} :
    eraseStep drv t active addr result ≠ .inl (true, t') := by
  intro h
  unfold eraseStep at h
  split at h
  · cases h
  dsimp only at h
  split at h
  · cases h
  split at h
  · split at h
    · cases h
    · cases h
  · cases h

/-- The regions after a walk: the active one and those with an address of the range are idle, the
others are as before. -/
structure WalkedOver (t t' : Target δ) (active addr len : Nat) : Prop where
  idle : ∀ j f, t'.flash[j]? = some f →
    (j = active ∨ ∃ x, (addr ≤ x ∧ x < addr + len) ∧ f.Contains x) → f.operation = .none
  others : ∀ j f, t.flash[j]? = some f → j ≠ active →
    (¬ ∃ x, (addr ≤ x ∧ x < addr + len) ∧ f.Contains x) → t'.flash[j]? = some f

/-- A walk after an iteration. -/
theorem EraseStepped.walkedOver {t t₁ t' : Target δ} {active addr len i e : Nat} {f : TargetFlash}
    (h : EraseStepped t t₁ active addr i e f) (hmap : BlockMap t.geometry)
    (hgeom : t'.geometry = t.geometry) (hlen : 0 < len)
    (hrest : WalkedOver t₁ t' i e (len - min (e - addr) len)) :
    WalkedOver t t' active addr len := by
  obtain ⟨hmem, hblock, hle, hlt, he, -⟩ := h.block hmap
  have hrange : ∀ x, addr ≤ x ∧ x < addr + len → x < e ∨ e ≤ x ∧
      x < e + (len - min (e - addr) len) := by
    intro x hx
    omega
  constructor
  · intro j f' hf' htouch
    by_cases hj : j = i ∨ ∃ x, (e ≤ x ∧ x < e + (len - min (e - addr) len)) ∧ f'.Contains x
    · exact hrest.idle j f' hf' hj
    obtain ⟨hji, hno⟩ := not_or.1 hj
    -- the rest of the walk left the region alone, so it is the one that was active
    have hsame : t₁.flash[j]? = some f' := by
      obtain ⟨f₁, hf₁, hg⟩ := Target.exists_of_geometry (hgeom.trans h.geometry.symm) hf'
      rw [hg] at hno
      rw [hrest.others j f₁ hf₁ hji hno] at hf'
      rw [hf₁, hf']
    rcases htouch with rfl | ⟨x, hx, hcontains⟩
    · exact h.left hji f' hsame
    · have hin := (hrange x hx).resolve_right fun hx' => hno ⟨x, hx', hcontains⟩
      have hfx := hblock.contains (hmap.inBlocks _ hmem) (hle.trans hx.1) (by omega)
      obtain ⟨g, hg, hsame⟩ := Target.exists_of_geometry hgeom hf'
      rw [hsame] at hcontains
      exact absurd (MapDisjoint.eq hmap.disjoint hg h.region hcontains hfx) hji
  · intro j g hg hactive hno
    have hji : j ≠ i := by
      rintro rfl
      rw [h.region] at hg
      cases hg
      exact hno ⟨addr, ⟨Nat.le_refl _, by omega⟩, h.contains⟩
    refine hrest.others j g ?_ hji fun ⟨x, hx, hcontains⟩ =>
      hno ⟨x, ⟨by omega, by omega⟩, hcontains⟩
    rw [h.others j hji hactive, hg]

/-- A walk over nothing ends the operation of the active region. -/
theorem eraseLoop_zero_len {fuel : Nat} {t t' : Target (δ × List FlashEvent)} {active addr : Nat}
    {result : Bool} (h : eraseLoop drv.logged fuel t active addr 0 result = (true, t')) :
    MapCovers t.geometry addr 0 ∧ WalkedOver t t' active addr 0 ∧
      ∃ es, t'.dev.2 = t.dev.2 ++ es ∧ es.Pairwise (fun e e' => e.addr < e'.addr) ∧
        ∀ e, e ∈ es ↔ ErasesBlock t.geometry addr 0 e := by
  have ht' : t' = (t.onFlash active (flashDone drv.logged)).2 := by
    cases fuel <;> exact (congrArg Prod.snd h).symm
  subst ht'
  have hempty : ∀ {P : Nat → Prop}, ¬ ∃ x, (addr ≤ x ∧ x < addr + 0) ∧ P x := by
    rintro P ⟨x, hx, -⟩
    omega
  refine ⟨fun x hle hlt => absurd hlt (Nat.not_lt.2 hle),
    ⟨fun j f hf htouch => ?_, fun j f hf hne _ => ?_⟩,
    [], ?_, .nil, fun e => ⟨(fun he => by cases he), fun he => ?_⟩⟩
  · obtain rfl := htouch.resolve_right hempty
    obtain ⟨g, -, rfl⟩ := t.onFlash_getElem?_eq hf
    exact (flashDone_spec drv.logged g t.dev).2.1
  · rw [t.onFlash_getElem?_ne hne, hf]
  · rw [List.append_nil]
    unfold Target.onFlash
    split
    · rfl
    · next g hg => exact (flashDone_logged drv g t.dev.1 t.dev.2).1
  · obtain ⟨g, -, a, -, -, hx⟩ := he
    exact absurd hx hempty

/-- A walk that returned true: the range is in the map, the callbacks are the blocks that meet it,
in ascending order, and the regions it touched are idle. -/
theorem eraseLoop_true :
    ∀ {fuel : Nat} {t t' : Target (δ × List FlashEvent)} {active addr len : Nat} {result : Bool},
      BlockMap t.geometry → eraseLoop drv.logged fuel t active addr len result = (true, t') →
      MapCovers t.geometry addr len ∧ WalkedOver t t' active addr len ∧
        ∃ es, t'.dev.2 = t.dev.2 ++ es ∧ es.Pairwise (fun e e' => e.addr < e'.addr) ∧
          ∀ e, e ∈ es ↔ ErasesBlock t.geometry addr len e := by
  intro fuel
  induction fuel with
  | zero =>
    intro t t' active addr len result hmap h
    cases len with
    | zero => exact eraseLoop_zero_len drv h
    | succ len => cases h
  | succ fuel ih =>
    intro t t' active addr len result hmap h
    cases len with
    | zero => exact eraseLoop_zero_len drv h
    | succ len =>
      have hgeom : t'.geometry = t.geometry := by
        have hkeeps := @eraseLoop_keeps _ _ _ drv.logged.respects_true (fuel + 1) t active addr
          (len + 1) result
        rw [h] at hkeeps
        exact hkeeps.geometry
      rw [eraseLoop_step] at h
      split at h
      · next x hstep =>
        subst h
        exact absurd hstep (eraseStep_inl drv.logged)
      next t₁ i e hstep =>
      obtain ⟨-, f, hs⟩ := eraseStep_stepped drv.logged hstep
      obtain ⟨hmem, hblock, hle, hlt, he, hsub⟩ := hs.block hmap
      rw [hsub] at h
      obtain ⟨hcovers, hwalk, es, hes, hasc, hiff⟩ := ih (by rwa [hs.geometry]) h
      rw [hs.geometry] at hcovers hiff
      refine ⟨fun x hle' hlt' => ?_, hs.walkedOver hmap hgeom (by omega) hwalk,
        .erase f.toFlashGeometry (alignDown addr f.blocksize) f.blocksize :: es, ?_, ?_,
          fun ev => ?_⟩
      · rcases Nat.lt_or_ge x e with hin | hout
        · exact ⟨_, hmem, hblock.contains (hmap.inBlocks _ hmem) (hle.trans hle') (by omega)⟩
        · exact hcovers x hout (by omega)
      · rw [hes, eraseStep_log drv hstep hs.region, List.append_assoc]
        rfl
      · refine List.pairwise_cons.2 ⟨fun ev hev => ?_, hasc⟩
        rw [hiff, he] at hev
        exact hmap.lt_of_erasesBlock hmem hblock hev
      · rw [List.mem_cons, hiff, hmap.erasesBlock_iff hmem hblock hle (by omega) (by omega), he]

/-! ## Drivers that succeed -/

/-- Every callback of an erase returns true. -/
structure FlashDriver.Succeeds (drv : FlashDriver δ) : Prop where
  enterFlashMode : ∀ k, drv.enterFlashMode = some k → ∀ d, (k d).1 = true
  prepare : ∀ f d, (drv.callPrepare f d).1 = true
  done : ∀ f d, (drv.callDone f d).1 = true
  erase : ∀ f addr len d, (drv.erase f addr len d).1 = true

variable {drv} in
/-- A log does not make a driver fail. -/
theorem FlashDriver.Succeeds.logged (h : drv.Succeeds) : drv.logged.Succeeds where
  enterFlashMode := by
    intro k hk s
    obtain ⟨k', hk', rfl⟩ := Option.map_eq_some_iff.1 hk
    exact h.enterFlashMode k' hk' s.1
  prepare := by
    intro f s
    have := h.prepare f s.1
    unfold FlashDriver.callPrepare at this ⊢
    unfold FlashDriver.logged
    cases hk : drv.prepare with
    | none => rfl
    | some k => simpa [hk, logCall] using this
  done := by
    intro f s
    have := h.done f s.1
    unfold FlashDriver.callDone at this ⊢
    unfold FlashDriver.logged
    cases hk : drv.done with
    | none => rfl
    | some k => simpa [hk, logCall] using this
  erase := fun f addr len s => h.erase f addr len s.1

section
variable {drv} (hs : drv.Succeeds)
include hs

/-- Closing a region succeeds. -/
theorem flashDone_succeeds (f : TargetFlash) (d : δ) : (flashDone drv f d).1 = true := by
  unfold flashDone
  split
  · rfl
  · exact hs.done f d

/-- Opening a region succeeds. -/
theorem flashPrepare_succeeds (f : TargetFlash) (op : FlashOperation) (d : δ) :
    (flashPrepare drv f op d).1 = true := by
  unfold flashPrepare
  split
  · rfl
  have hdone : (if f.operation ≠ .none then flashDone drv f d else (true, f, d)).1 = true := by
    split
    · exact flashDone_succeeds hs f d
    · rfl
  generalize (if f.operation ≠ .none then flashDone drv f d else (true, f, d)) = x at hdone ⊢
  obtain ⟨r, f₁, d₁⟩ := x
  dsimp only at hdone ⊢
  rw [if_pos hdone, if_pos (hs.prepare _ _)]

/-- Going over to another region succeeds. -/
theorem switchErase_succeeds {t : Target δ} {active i : Nat} (ha : active < t.flash.length) :
    (switchErase drv t active i).1 = true := by
  unfold switchErase
  split
  · rw [Target.onFlash_of_getElem? (List.getElem?_eq_getElem ha)]
    exact flashDone_succeeds hs _ _
  · rfl

/-- A turn inside the map goes on. -/
theorem eraseStep_succeeds {t : Target δ} {active addr : Nat} (ha : active < t.flash.length)
    (hcovers : ∃ g ∈ t.geometry, g.Contains addr) :
    ∃ t' i e, eraseStep drv t active addr true = .inr (t', i, e) := by
  obtain ⟨g, hg, hcontains⟩ := hcovers
  obtain ⟨f, hf, rfl⟩ := List.mem_map.1 hg
  unfold eraseStep
  cases hfound : targetFlashForAddr t addr with
  | none =>
    have := List.findIdx?_eq_none_iff.1 hfound f hf
    simp [hcontains] at this
  | some i =>
    obtain ⟨f₀, hf₀, -⟩ := targetFlashForAddr_some hfound
    have hswitch := switchErase_succeeds hs (i := i) ha
    rcases hsw : switchErase drv t active i with ⟨switched, t₁⟩
    rw [hsw] at hswitch
    obtain ⟨f₁, hf₁, -⟩ := Target.exists_of_geometry (switchErase_spec drv hsw).1.symm hf₀
    have hR := drv.respects_true
    have hprep : (t₁.onFlash i (fun f d => flashPrepare drv f .erase d)).1 = true := by
      rw [Target.onFlash_of_getElem? hf₁]
      exact flashPrepare_succeeds hs _ _ _
    have hgeom :=
      (Target.onFlash_keeps hR (fun f d => flashPrepare_step hR f .erase d) t₁ i).geometry
    obtain ⟨f₂, hf₂, -⟩ := Target.exists_of_geometry hgeom.symm hf₁
    simp only [hsw, hf₁]
    generalize t₁.onFlash i (fun f d => flashPrepare drv f .erase d) = x at hprep hf₂ ⊢
    have herase : (x.2.onFlash i (flashErase drv (alignDown addr f₁.blocksize) f₁.blocksize)).1 =
        true := by
      rw [Target.onFlash_of_getElem? hf₂]
      exact hs.erase _ _ _ _
    have hswitched : switched = true := hswitch
    rw [if_pos hprep, if_pos (by rw [hswitched, herase]; rfl)]
    exact ⟨_, _, _, rfl⟩

/-- A walk over a range of the map returns true. -/
theorem eraseLoop_succeeds :
    ∀ {fuel : Nat} {t : Target δ} {active addr len : Nat}, BlockMap t.geometry →
      active < t.flash.length → MapCovers t.geometry addr len → len ≤ fuel →
      (eraseLoop drv fuel t active addr len true).1 = true := by
  intro fuel
  have hzero : ∀ {fuel : Nat} {t : Target δ} {active addr : Nat}, active < t.flash.length →
      (eraseLoop drv fuel t active addr 0 true).1 = true := by
    intro fuel t active addr ha
    rw [eraseLoop, Target.onFlash_of_getElem? (List.getElem?_eq_getElem ha)]
    exact flashDone_succeeds hs _ _
  induction fuel with
  | zero =>
    intro t active addr len hmap ha hcovers hle
    rw [Nat.le_zero.1 hle]
    exact hzero ha
  | succ fuel ih =>
    intro t active addr len hmap ha hcovers hle
    cases len with
    | zero => exact hzero ha
    | succ len =>
      obtain ⟨t', i, e, hstep⟩ :=
        eraseStep_succeeds hs ha (hcovers addr (Nat.le_refl _) (by omega))
      obtain ⟨-, f, hstepped⟩ := eraseStep_stepped drv hstep
      obtain ⟨-, -, -, hlt, -, hsub⟩ := hstepped.block hmap
      rw [eraseLoop_step, hstep]
      dsimp only
      rw [hsub]
      refine ih (by rwa [hstepped.geometry]) ?_ ?_ (by omega)
      · obtain ⟨f', hf', -⟩ := Target.exists_of_geometry hstepped.geometry.symm hstepped.region
        exact (List.getElem?_eq_some_iff.1 hf').1
      · rw [hstepped.geometry]
        exact fun x hx hx' => hcovers x (by omega) (by omega)

end

/-! ## `target_flash_erase` -/

/-- What an erase that returned true has done: its callbacks are the blocks that meet the range, in
ascending order, the regions it touched are idle, and the others are as before. -/
structure ErasedExactly (t t' : Target (δ × List FlashEvent)) (addr len : Nat) : Prop where
  callbacks : ∃ es, t'.dev.2 = t.dev.2 ++ es ∧ es.Pairwise (fun e e' => e.addr < e'.addr) ∧
    ∀ e, e ∈ es ↔ ErasesBlock t.geometry addr len e
  idle : ∀ f ∈ t'.flash, f.Touched addr len → f.operation = .none
  others : ∀ (j : Nat) (f : TargetFlash), t.flash[j]? = some f → ¬ f.Touched addr len →
    t'.flash[j]? = some f

variable {t t' : Target (δ × List FlashEvent)} {addr len : Nat}

/-- An erase that returned true entered the flash mode and walked from the region at the address. -/
theorem targetFlashErase_true (h : targetFlashErase drv.logged t addr len = (true, t')) :
    ∃ t₁ active, t₁.flash = t.flash ∧ t₁.dev.2 = t.dev.2 ∧ targetFlashForAddr t addr = some active ∧
      eraseLoop drv.logged len t₁ active addr len true = (true, t') := by
  have henter := targetEnterFlashMode_logged drv t
  unfold targetFlashErase at h
  rcases hmode : targetEnterFlashMode drv.logged t with ⟨entered, t₁⟩
  rw [hmode] at henter
  simp only [hmode] at henter h
  have hflash : t₁.flash = t.flash := congrArg Session.flash henter
  have hfor : targetFlashForAddr t₁ addr = targetFlashForAddr t addr :=
    targetFlashForAddr_congr (by rw [hflash]) addr
  split at h
  · split at h
    · cases h
    · next active hactive =>
      exact ⟨t₁, active, hflash, congrArg Session.log henter, hfor.symm.trans hactive, h⟩
  · cases h

/-- An erase that succeeds was inside the map and erased exactly its blocks. -/
theorem erasedExactly_of_true (hmap : BlockMap t.geometry)
    (h : targetFlashErase drv.logged t addr len = (true, t')) :
    MapCovers t.geometry addr len ∧ ErasedExactly t t' addr len := by
  obtain ⟨t₁, active, hflash, hlog, hactive, hloop⟩ := targetFlashErase_true drv h
  have hgeom : t₁.geometry = t.geometry := congrArg (List.map _) hflash
  obtain ⟨hcovers, hwalk, hevents⟩ := eraseLoop_true drv (by rwa [hgeom]) hloop
  rw [hgeom] at hcovers hevents
  rw [hlog] at hevents
  have hgeom' : t'.geometry = t.geometry := by
    have hkeeps := @eraseLoop_keeps _ _ _ drv.logged.respects_true len t₁ active addr len true
    rw [hloop] at hkeeps
    exact hkeeps.geometry.trans hgeom
  obtain ⟨f₀, hf₀, hcontains₀⟩ := targetFlashForAddr_some hactive
  refine ⟨hcovers, hevents, fun f hf htouched => ?_, fun j f hf hno => ?_⟩
  · obtain ⟨j, hj⟩ := List.getElem?_of_mem hf
    refine hwalk.idle j f hj (htouched.imp_left fun hcontains => ?_)
    obtain ⟨g, hg, hsame⟩ := Target.exists_of_geometry hgeom' hj
    rw [hsame] at hcontains
    exact MapDisjoint.eq hmap.disjoint hg hf₀ hcontains hcontains₀
  · obtain ⟨hno₁, hno₂⟩ := not_or.1 hno
    refine hwalk.others j f (by rw [hflash]; exact hf) (fun hj => hno₁ ?_) hno₂
    rw [hj, hf₀] at hf
    cases hf
    exact hcontains₀

/-- On a map of regions in whole blocks without overlaps, an erase ends; if it returns true it has
erased the blocks that meet the range, and nothing else; it returns false for a range that is not in
the map; and it returns true for a range in the map if the callbacks do. -/
theorem targetFlashErase_exact (drv : FlashDriver δ) (t : Target (δ × List FlashEvent))
    (hmap : BlockMap t.geometry) (addr len : Nat) :
    (∀ fuel t₁ active, len ≤ fuel → t₁.geometry = t.geometry →
      eraseLoop drv.logged fuel t₁ active addr len true =
        eraseLoop drv.logged len t₁ active addr len true) ∧
    (∀ t', targetFlashErase drv.logged t addr len = (true, t') → ErasedExactly t t' addr len) ∧
    (¬ MapCovers t.geometry addr len → (targetFlashErase drv.logged t addr len).1 = false) ∧
    (drv.Succeeds → 0 < len → MapCovers t.geometry addr len →
      (targetFlashErase drv.logged t addr len).1 = true) := by
  refine ⟨fun fuel t₁ active hle hgeom => ?_, fun t' h => ?_, fun hno => ?_,
    fun hs hpos hcovers => ?_⟩
  · exact eraseLoop_fuel drv.logged fuel (by rwa [hgeom]) hle
  · exact (erasedExactly_of_true drv hmap h).2
  · rcases h : targetFlashErase drv.logged t addr len with ⟨r, t'⟩
    cases r with
    | false => rfl
    | true => exact absurd (erasedExactly_of_true drv hmap h).1 hno
  · have hentered : (targetEnterFlashMode drv.logged t).1 = true := by
      unfold targetEnterFlashMode
      split
      · rfl
      · cases hk : drv.logged.enterFlashMode with
        | none => rfl
        | some k => exact hs.logged.enterFlashMode k hk _
    have hflash := targetEnterFlashMode_flash drv.logged t
    unfold targetFlashErase
    generalize targetEnterFlashMode drv.logged t = x at hentered hflash ⊢
    obtain ⟨entered, t₁⟩ := x
    dsimp only at hentered hflash ⊢
    have hgeom : t₁.geometry = t.geometry := congrArg (List.map _) hflash
    rw [← hgeom] at hcovers hmap
    rw [if_pos hentered]
    obtain ⟨g, hg, hcontains⟩ := hcovers addr (Nat.le_refl _) (by omega)
    obtain ⟨f, hf, rfl⟩ := List.mem_map.1 hg
    obtain ⟨i, hi⟩ := List.getElem?_of_mem hf
    have hfound : targetFlashForAddr t₁ addr = some i :=
      MapDisjoint.forAddr hmap.disjoint hi hcontains
    rw [hfound]
    exact eraseLoop_succeeds hs.logged hmap (List.getElem?_eq_some_iff.1 hi).1 hcovers
      (Nat.le_refl _)

end

/-- The map with one region is one of whole blocks. -/
theorem oneRegion_blockMap : BlockMap (oneRegion 2048 ((), ([] : List FlashEvent))).geometry where
  inBlocks := by
    intro g hg
    rw [List.mem_singleton.1 hg]
    exact ⟨⟨10, by decide, rfl⟩, by decide, by decide, by decide⟩
  disjoint := List.pairwise_singleton _ _

/-- An erase that begins in the first block of a region and ends in the second. -/
theorem targetFlashErase_exact_oneRegion :
    ∃ t', targetFlashErase quietDriver.logged (oneRegion 2048 ((), [])) 0x08000100 0x400 =
      (true, t') ∧
      ErasedExactly (oneRegion 2048 ((), [])) t' 0x08000100 0x400 := by
  obtain ⟨-, hexact, -, hsucceeds⟩ := targetFlashErase_exact quietDriver (oneRegion 2048 ((), []))
    oneRegion_blockMap 0x08000100 0x400
  have hs : quietDriver.Succeeds :=
    ⟨(fun k hk => by cases hk), fun _ _ => rfl, fun _ _ => rfl, fun _ _ _ _ => rfl⟩
  have hcovers : MapCovers (oneRegion 2048 ((), ([] : List FlashEvent))).geometry 0x08000100
      0x400 := by
    intro x hle hlt
    refine ⟨_, List.mem_singleton.2 rfl, ?_, ?_⟩
    · change 0x08000000 ≤ x
      omega
    · change x < 0x08000800
      omega
  refine ⟨_, Prod.ext (hsucceeds hs (by decide) hcovers) rfl, hexact _ ?_⟩
  exact Prod.ext (hsucceeds hs (by decide) hcovers) rfl

end Blackmagic
