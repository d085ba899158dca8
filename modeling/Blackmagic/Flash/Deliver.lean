import Blackmagic.Flash.Trace

/-!
# No acknowledged byte is lost

A byte that `target_flash_write` accepted sits in the write buffer of its region until a flush
passes it to `flash->write`. Followed through a run of calls that all returned true, it is held, or
it has been delivered, or a later erase has covered it, or a later write has replaced it in the
buffer. `target_flash_erase` is the one call that can drop a pending buffer: it goes through
`flash_prepare` and `flash_done` without a flush. `EraseKeeps` says when it drops nothing but what
it erases.
-/

namespace Blackmagic

open Word

/-! ## Flash maps -/

/-- The geometry of one region of a flash map: whole blocks and whole write units, ending inside
the address space. -/
structure FlashGeometry.Aligned (g : FlashGeometry) : Prop extends g.Wf where
  start_block : g.blocksize ∣ g.start
  length_block : g.blocksize ∣ g.length
  start_unit : g.writesize ∣ g.start
  length_unit : g.writesize ∣ g.length
  end_lt : g.start + g.length < 2 ^ 32

/-- A flash map: aligned regions that do not overlap. -/
structure MapWf (gs : List FlashGeometry) : Prop where
  aligned : ∀ g ∈ gs, g.Aligned
  disjoint : MapDisjoint gs

/-- The addresses of an aligned region. -/
theorem FlashGeometry.Aligned.contains_iff {g : FlashGeometry} (h : g.Aligned) {a : Nat} :
    g.Contains a ↔ g.start ≤ a ∧ a < g.start + g.length := by
  rw [FlashGeometry.Contains, add32_of_lt h.end_lt]

/-- The callback erases the byte at `a`. -/
def FlashEvent.Erases : FlashEvent → Nat → Prop
  | .erase _ addr len, a => addr ≤ a ∧ a < addr + len
  | .write _ _ _, _ => False

/-! ## What traces deliver -/

/-- The byte at `a` is pending in some region. -/
def Session.Holds (s : Session) (a : Nat) (v : UInt8) : Prop := ∃ f ∈ s.flash, f.Holds a v

/-- Replacing a region by one that holds the same byte. -/
theorem Session.Holds.replace {pre post : List TargetFlash} {f f' : TargetFlash}
    {log log' : List FlashEvent} {a : Nat} {v : UInt8}
    (h : Session.Holds ⟨pre ++ f :: post, log⟩ a v) (hf : f.Holds a v → f'.Holds a v) :
    Session.Holds ⟨pre ++ f' :: post, log'⟩ a v := by
  obtain ⟨g, hg, hv⟩ := h
  simp only [List.mem_append, List.mem_cons] at hg
  rcases hg with hg | rfl | hg
  · exact ⟨g, by simp [hg], hv⟩
  · exact ⟨f', by simp, hf hv⟩
  · exact ⟨g, by simp [hg], hv⟩

/-- The log of a trace grows. -/
theorem Trace.log {away : Nat → TargetFlash → Prop} {dest : Nat} {src : List UInt8}
    {s s' : Session} (h : Trace away dest src s s') : ∃ ev, s'.log = s.log ++ ev := by
  induction h with
  | nil => exact ⟨[], by simp⟩
  | tidy _ _ ih =>
    obtain ⟨ev, hev⟩ := ih
    exact ⟨_, by rw [hev, List.append_assoc]⟩
  | store _ _ ih => exact ih

/-- A step that tidies up keeps a held byte or delivers it. -/
theorem TidyRegion.holds {away : TargetFlash → Prop} {f f' : TargetFlash} {ev : List FlashEvent}
    (h : TidyRegion away f f' ev) (hf : f.Clean) {a : Nat} {v : UInt8} (hv : f.Holds a v) :
    ∃ e ∈ ev, e.Delivers a v := by
  cases h with
  | flush _ _ => exact hv.delivered hf.inv
  | done idle => exact absurd hv.1 idle
  | alloc hb =>
    have := hv.1.1
    rw [hb] at this
    cases this

/-- `ev` is what the log of `s'` has over the log of `s`, and one of its callbacks satisfies
`P`. -/
def Session.Issued (s s' : Session) (P : FlashEvent → Prop) : Prop :=
  ∃ ev, s'.log = s.log ++ ev ∧ ∃ e ∈ ev, P e

/-- A callback issued in the first part of a run. -/
theorem Session.Issued.then {s s₁ s' : Session} {P : FlashEvent → Prop} (h : s.Issued s₁ P)
    (hlog : ∃ ev, s'.log = s₁.log ++ ev) : s.Issued s' P := by
  obtain ⟨ev, hev, e, he, hP⟩ := h
  obtain ⟨ev', hev'⟩ := hlog
  exact ⟨ev ++ ev', by rw [hev', hev, List.append_assoc], e, by simp [he], hP⟩

/-- A callback issued in the second part of a run. -/
theorem Session.Issued.after {s s₁ s' : Session} {P : FlashEvent → Prop} (h : s₁.Issued s' P)
    (hlog : ∃ ev, s₁.log = s.log ++ ev) : s.Issued s' P := by
  obtain ⟨ev, hev, e, he, hP⟩ := h
  obtain ⟨ev', hev'⟩ := hlog
  exact ⟨ev' ++ ev, by rw [hev, hev', List.append_assoc], e, by simp [he], hP⟩

/-- A held byte that a trace does not store again is still held after it or has been delivered. -/
theorem Trace.holds_old {away : Nat → TargetFlash → Prop} {dest : Nat} {src : List UInt8}
    {s s' : Session} (h : Trace away dest src s s') (hs : s.Clean) {a : Nat} {v : UInt8}
    (hv : s.Holds a v) (hout : ¬ (dest ≤ a ∧ a < dest + src.length)) :
    s'.Holds a v ∨ s.Issued s' (·.Delivers a v) := by
  induction h with
  | nil => exact .inl hv
  | @tidy dest src pre post f f' log ev s' step rest ih =>
    by_cases hf : f.Holds a v
    · obtain ⟨e, he, hd⟩ := step.holds hs.mem hf
      have hnow : Session.Issued ⟨pre ++ f :: post, log⟩ ⟨pre ++ f' :: post, log ++ ev⟩
          (·.Delivers a v) := ⟨ev, rfl, e, he, hd⟩
      exact .inr (hnow.then rest.log)
    · have hlog : ∃ ev', (⟨pre ++ f' :: post, log ++ ev⟩ : Session).log = log ++ ev' := ⟨ev, rfl⟩
      exact (ih (hs.replace step.clean) (hv.replace fun h => absurd h hf) hout).imp_right
        (·.after hlog)
  | store step rest ih =>
    rw [List.length_append] at hout
    refine ih (hs.replace step.clean) (hv.replace fun hf => ?_) (by omega)
    exact step.holds_old hs.mem hf (by omega)

/-- A byte that a trace stores is held after it or has been delivered. -/
theorem Trace.holds_new {away : Nat → TargetFlash → Prop} {dest : Nat} {src : List UInt8}
    {s s' : Session} (h : Trace away dest src s s') (hs : s.Clean) {i : Nat} {v : UInt8}
    (hv : src[i]? = some v) : s'.Holds (dest + i) v ∨ s.Issued s' (·.Delivers (dest + i) v) := by
  induction h generalizing i with
  | nil => cases hv
  | @tidy dest src pre post f f' log ev s' step rest ih =>
    exact (ih (hs.replace step.clean) hv).imp_right (·.after ⟨ev, rfl⟩)
  | @store dest chunk src pre post f f' log s' step rest ih =>
    rcases Nat.lt_or_ge i chunk.length with hi | hi
    · rw [List.getElem?_append_left hi] at hv
      have hheld : Session.Holds ⟨pre ++ f' :: post, log⟩ (dest + i) v :=
        ⟨f', by simp, step.holds_new hs.mem hv⟩
      exact rest.holds_old (hs.replace step.clean) hheld (by omega)
    · rw [List.getElem?_append_right hi] at hv
      have := ih (hs.replace step.clean) hv
      rwa [Nat.add_assoc, Nat.add_sub_cancel' hi] at this

/-! ## `target_flash_erase` -/

section
variable {δ : Type}

/-- The erase of `len` bytes from `addr` ends the operation of the region at `i`: it goes through
it, or it is a call with `len` zero at an address of it. -/
def Touches (t : Target δ) (addr len i : Nat) : Prop :=
  (∃ k < len, targetFlashForAddr t (addr + k) = some i) ∨
    targetFlashForAddr t addr = some i ∧ ∃ f, t.flash[i]? = some f ∧ f.operation ≠ .none

/-- The regions of an erase that is going on, against the ones it started from: the active one may
be in operation `ERASE`, and a region that it went through has no buffer left. -/
structure EraseInv (orig : Target δ) (touched : Nat → Prop) (t : Target δ) (active : Nat) :
    Prop where
  geometry : t.flash.map (·.toFlashGeometry) = orig.flash.map (·.toFlashGeometry)
  regions : ∀ {j : Nat} {f : TargetFlash}, t.flash[j]? = some f → orig.flash[j]? = some f ∨
    touched j ∧ (j = active ∧ f.operation = .erase ∨ f.operation = .none ∧ f.buf = none)

/-- Replacing the region at `i`, when no other region is in operation `ERASE`. -/
theorem EraseInv.set {orig t : Target δ} {touched : Nat → Prop} {active i : Nat}
    {f f' : TargetFlash} (h : EraseInv orig touched t active) (hf : t.flash[i]? = some f)
    (hg : f'.toFlashGeometry = f.toFlashGeometry)
    (hother : ∀ {j g}, j ≠ i → t.flash[j]? = some g → orig.flash[j]? = some g ∨
      touched j ∧ g.operation = .none ∧ g.buf = none)
    (hi : orig.flash[i]? = some f' ∨
      touched i ∧ (f'.operation = .erase ∨ f'.operation = .none ∧ f'.buf = none)) (d : δ) :
    EraseInv orig touched { t with flash := t.flash.set i f', dev := d } i := by
  refine ⟨(map_geometry_set hf hg).trans h.geometry, fun {j g} hj => ?_⟩
  dsimp only at hj
  rw [List.getElem?_set] at hj
  split at hj
  · next hij =>
    subst hij
    split at hj
    · cases hj
      exact hi.imp_right fun ⟨ht, ho⟩ => ⟨ht, ho.imp_left fun he => ⟨rfl, he⟩⟩
    · cases hj
  · next hij => exact (hother (Ne.symm hij) hj).imp_right fun ⟨ht, ho⟩ => ⟨ht, .inr ho⟩

/-- One iteration of `target_flash_erase` in a call that returned true. -/
theorem eraseLoop_succ (drv : FlashDriver δ) {t t' : Target δ} {fuel active addr len : Nat}
    {result : Bool} (h : eraseLoop drv (fuel + 1) t active addr (len + 1) result = (true, t')) :
    ∃ i t₁ f t₂ t₃, targetFlashForAddr t addr = some i ∧ switchErase drv t active i = (true, t₁) ∧
      t₁.flash[i]? = some f ∧ t₁.onFlash i (fun f d => flashPrepare drv f .erase d) = (true, t₂) ∧
      t₂.onFlash i (flashErase drv (alignDown addr f.blocksize) f.blocksize) = (true, t₃) ∧
      result = true ∧
      eraseLoop drv fuel t₃ i (add32 (alignDown addr f.blocksize) f.blocksize)
        (len + 1 - min (sub32 (add32 (alignDown addr f.blocksize) f.blocksize) addr) (len + 1))
        true = (true, t') := by
  simp only [eraseLoop] at h
  split at h
  · cases h
  next i hi =>
  rcases hsw : switchErase drv t active i with ⟨switched, t₁⟩
  simp only [hsw] at h
  split at h
  · cases h
  next f hf =>
  rcases hprep : t₁.onFlash i (fun f d => flashPrepare drv f .erase d) with ⟨prepared, t₂⟩
  simp only [hprep] at h
  split at h
  · next hp =>
    rcases herase : t₂.onFlash i
      (flashErase drv (alignDown addr f.blocksize) f.blocksize) with ⟨ok, t₃⟩
    simp only [herase] at h
    split at h
    · next hr =>
      rw [Bool.and_eq_true, Bool.and_eq_true] at hr
      obtain ⟨⟨rfl, rfl⟩, rfl⟩ := hr
      subst hp
      exact ⟨i, t₁, f, t₂, t₃, hi, hsw, hf, hprep, herase, rfl, h⟩
    · cases h
  · cases h

variable (drv : FlashDriver δ)

/-- `flash_prepare` for an erase, when it returns true. -/
theorem flashPrepare_erase_logged {f f' : TargetFlash} {d d' : δ} {log log' : List FlashEvent}
    (h : flashPrepare drv.logged f .erase (d, log) = (true, f', d', log')) :
    f'.toFlashGeometry = f.toFlashGeometry ∧ f'.operation = .erase ∧ log' = log := by
  unfold flashPrepare at h
  split at h
  · next he =>
    cases h
    exact ⟨rfl, he, rfl⟩
  have hdone := flashDone_logged drv f d log
  have hspec := flashDone_spec drv.logged f (d, log)
  have hprior : ∀ {x : Bool × TargetFlash × δ × List FlashEvent},
      (if f.operation ≠ .none then flashDone drv.logged f (d, log) else (true, f, d, log)) = x →
      x.2.1.toFlashGeometry = f.toFlashGeometry ∧ x.2.2.2 = log := by
    rintro x rfl
    split
    · exact ⟨hspec.1, hdone.1⟩
    · exact ⟨rfl, rfl⟩
  generalize hx : (if f.operation ≠ .none then flashDone drv.logged f (d, log)
    else (true, f, d, log)) = x at h
  obtain ⟨r, f₁, d₁, log₁⟩ := x
  obtain ⟨hg, hlog⟩ := hprior hx
  dsimp only at h hg hlog
  have hp := logged_callPrepare drv { f₁ with operation := .erase } (d₁, log₁)
  rcases hcall : drv.logged.callPrepare { f₁ with operation := .erase } (d₁, log₁) with
    ⟨ok, d₂, log₂⟩
  rw [hcall] at hp
  simp only [hcall] at h hp
  split at h
  · split at h
    · cases h
      exact ⟨hg, rfl, hp.trans hlog⟩
    · cases h
  · cases h

/-- Ending the operation of the active region keeps the state of the erase, and leaves no region
in operation `ERASE`. -/
theorem EraseInv.done {orig t : Target (δ × List FlashEvent)} {touched : Nat → Prop}
    {active : Nat} (h : EraseInv orig touched t active)
    (htouch : ∀ f, t.flash[active]? = some f → f.operation ≠ .none → touched active) :
    EraseInv orig touched (t.onFlash active (flashDone drv.logged)).2 active ∧
      (t.onFlash active (flashDone drv.logged)).2.dev.2 = t.dev.2 ∧
      ∀ {j f}, (t.onFlash active (flashDone drv.logged)).2.flash[j]? = some f →
        orig.flash[j]? = some f ∨ touched j ∧ f.operation = .none ∧ f.buf = none := by
  cases ha : t.flash[active]? with
  | none =>
    have hsame : t.onFlash active (flashDone drv.logged) = (false, t) := by
      simp only [Target.onFlash, ha]
    rw [hsame]
    refine ⟨h, rfl, fun {j f} hj => (h.regions hj).imp_right fun hr => ⟨hr.1, ?_⟩⟩
    rcases hr.2 with ⟨rfl, -⟩ | ho
    · rw [ha] at hj
      cases hj
    · exact ho
  | some f =>
    rw [Target.onFlash_of_getElem? ha]
    obtain ⟨hlog, hdone⟩ := flashDone_logged drv f t.dev.1 t.dev.2
    have hgeom := (flashDone_spec drv.logged f t.dev).1
    rcases hx : flashDone drv.logged f t.dev with ⟨r, f', d', log'⟩
    rw [hx] at hlog hdone hgeom
    dsimp only at hlog hdone hgeom ⊢
    have hother : ∀ {j g}, j ≠ active → t.flash[j]? = some g → orig.flash[j]? = some g ∨
        touched j ∧ g.operation = .none ∧ g.buf = none := by
      intro j g hj hg
      exact (h.regions hg).imp_right fun hr => ⟨hr.1, hr.2.resolve_left fun he => hj he.1⟩
    have hself : orig.flash[active]? = some f' ∨
        touched active ∧ f'.operation = .none ∧ f'.buf = none := by
      rcases hdone with ⟨hn, rfl⟩ | ⟨hn, rfl⟩
      · refine (h.regions ha).imp_right fun hr => ⟨hr.1, hr.2.resolve_left fun he => ?_⟩
        have hne := he.2
        rw [hn] at hne
        cases hne
      · exact .inr ⟨htouch f ha hn, rfl, rfl⟩
    refine ⟨h.set ha hgeom hother (hself.imp_right fun hr => ⟨hr.1, .inr hr.2⟩) _, hlog,
      fun {j g} hj => ?_⟩
    rw [List.getElem?_set] at hj
    split at hj
    · next hij =>
      subst hij
      split at hj
      · cases hj
        exact hself
      · cases hj
    · next hij => exact hother (Ne.symm hij) hj

/-- The block of an address of an aligned region lies in the region. -/
theorem FlashGeometry.Aligned.block {g : FlashGeometry} (h : g.Aligned) {a : Nat}
    (ha : g.Contains a) :
    g.start ≤ a - a % g.blocksize ∧ a < a - a % g.blocksize + g.blocksize ∧
      a - a % g.blocksize + g.blocksize ≤ g.start + g.length := by
  rw [h.contains_iff] at ha
  have hlt := Nat.mod_lt a h.blocksize_pow2.pos
  exact ⟨le_unit_of_dvd h.start_block ha.1, by omega,
    unit_end_le_of_dvd (Nat.dvd_add h.start_block h.length_block) ha.2⟩

/-- In a map without overlaps an address of a region is found there. -/
theorem MapDisjoint.forAddr {t : Target δ} (h : MapDisjoint (t.flash.map (·.toFlashGeometry)))
    {i a : Nat} {f : TargetFlash} (hf : t.flash[i]? = some f) (ha : f.Contains a) :
    targetFlashForAddr t a = some i := by
  cases hi : targetFlashForAddr t a with
  | none =>
    have := List.findIdx?_eq_none_iff.1 hi f (List.mem_of_getElem? hf)
    simp [ha] at this
  | some j =>
    obtain ⟨g, hg, hga⟩ := targetFlashForAddr_some hi
    rw [h.eq hg hf hga ha]

/-- What an erase that returned true has done to the map: a region that it went through has no
buffer left, and the others are as before. -/
def Erased (orig : Target δ) (touched : Nat → Prop) (fs : List TargetFlash) : Prop :=
  fs.map (·.toFlashGeometry) = orig.flash.map (·.toFlashGeometry) ∧
    ∀ {j : Nat} {f : TargetFlash}, fs[j]? = some f → orig.flash[j]? = some f ∨
      touched j ∧ f.operation = .none ∧ f.buf = none

/-- Going to the region of the next block, and preparing it. -/
theorem EraseInv.prepared {orig t t₁ t₂ : Target (δ × List FlashEvent)} {touched : Nat → Prop}
    {active i : Nat} (h : EraseInv orig touched t active)
    (hactive : ∀ f, t.flash[active]? = some f → f.operation ≠ .none → touched active)
    (hi : touched i) (hswitch : switchErase drv.logged t active i = (true, t₁))
    (hprep : t₁.onFlash i (fun f d => flashPrepare drv.logged f .erase d) = (true, t₂)) :
    EraseInv orig touched t₂ i ∧ t₂.dev.2 = t.dev.2 := by
  -- after the switch no region but `i` is in operation `ERASE`
  have hmid : EraseInv orig touched t₁ i ∧ t₁.dev.2 = t.dev.2 := by
    unfold switchErase at hswitch
    split at hswitch
    · obtain ⟨hinv, hlog, hdone⟩ := h.done drv hactive
      rw [hswitch] at hinv hlog hdone
      exact ⟨⟨hinv.geometry, fun hj => (hdone hj).imp_right fun ⟨ht, ho⟩ => ⟨ht, .inr ho⟩⟩, hlog⟩
    · next hne =>
      cases hswitch
      rw [not_not] at hne
      rw [hne]
      exact ⟨h, rfl⟩
  obtain ⟨hinv, hlog⟩ := hmid
  unfold Target.onFlash at hprep
  split at hprep
  · cases hprep
  next f hf =>
  rcases hp : flashPrepare drv.logged f .erase t₁.dev with ⟨r, f', d', log'⟩
  simp only [hp, Prod.mk.injEq] at hprep
  obtain ⟨rfl, rfl⟩ := hprep
  obtain ⟨hg, hop, rfl⟩ := flashPrepare_erase_logged drv hp
  refine ⟨hinv.set hf hg (fun {j g} hj hg => ?_) (.inr ⟨hi, .inl hop⟩) _, hlog⟩
  exact (hinv.regions hg).imp_right fun ⟨ht, ho⟩ => ⟨ht, ho.resolve_left fun ⟨he, _⟩ => hj he⟩

/-- The loop of `target_flash_erase` in a call that returned true: it erases the block of every
address of its range. -/
theorem eraseLoop_logged {orig : Target (δ × List FlashEvent)} {touched : Nat → Prop}
    (hmap : MapWf (orig.flash.map (·.toFlashGeometry))) :
    ∀ {fuel : Nat} {t t' : Target (δ × List FlashEvent)} {active addr len : Nat} {result : Bool},
      EraseInv orig touched t active →
      (∀ f, t.flash[active]? = some f → f.operation ≠ .none → touched active) →
      (∀ k < len, ∀ i, targetFlashForAddr orig (addr + k) = some i → touched i) →
      eraseLoop drv.logged fuel t active addr len result = (true, t') →
      Erased orig touched t'.flash ∧ ∃ ev, t'.dev.2 = t.dev.2 ++ ev ∧
        ∀ k < len, ∀ i f, targetFlashForAddr orig (addr + k) = some i → orig.flash[i]? = some f →
          .erase f.toFlashGeometry (addr + k - (addr + k) % f.blocksize) f.blocksize ∈ ev
  | fuel, t, t', active, addr, 0, result, hinv, hactive, _, h => by
    obtain ⟨hinv', hlog, hdone⟩ := hinv.done drv hactive
    have heq : t' = (t.onFlash active (flashDone drv.logged)).2 := by
      cases fuel <;> exact (congrArg Prod.snd h).symm
    rw [← heq] at hinv' hlog hdone
    exact ⟨⟨hinv'.geometry, hdone⟩, [], by rw [hlog, List.append_nil], fun k hk => by omega⟩
  | 0, _, _, _, _, _ + 1, _, _, _, _, h => by cases h
  | fuel + 1, t, t', active, addr, len + 1, result, hinv, hactive, htouch, h => by
    obtain ⟨i, t₁, f, t₂, t₃, hi, hswitch, hf, hprep, herase, -, hloop⟩ :=
      eraseLoop_succ drv.logged h
    have hi' : targetFlashForAddr orig (addr + 0) = some i := by
      rw [← hi]
      exact (targetFlashForAddr_congr hinv.geometry addr).symm
    have htouch_i := htouch 0 (by omega) i hi'
    obtain ⟨hinv₂, hlog₂⟩ := hinv.prepared drv hactive htouch_i hswitch hprep
    -- the region of the block, with its geometry
    obtain ⟨g, hg, hgc⟩ := targetFlashForAddr_some hi'
    have hgeom {t : Target (δ × List FlashEvent)} {f : TargetFlash}
        (ht : t.flash.map (·.toFlashGeometry) = orig.flash.map (·.toFlashGeometry))
        (hf : t.flash[i]? = some f) : f.toFlashGeometry = g.toFlashGeometry := by
      have := congrArg (·[i]?) ht
      simpa [List.getElem?_map, hf, hg] using this
    have halign := hmap.aligned _ (List.mem_map_of_mem (List.mem_of_getElem? hg))
    have hf₁ : f.toFlashGeometry = g.toFlashGeometry := by
      have hsame : t₁.flash.map (·.toFlashGeometry) = orig.flash.map (·.toFlashGeometry) := by
        have := hinv.geometry
        unfold switchErase at hswitch
        split at hswitch
        · have hdone := (hinv.done drv hactive).1.geometry
          rwa [hswitch] at hdone
        · cases hswitch
          exact this
      exact hgeom hsame hf
    obtain ⟨hb1, hb2, hb3⟩ := halign.block hgc
    have hend := halign.end_lt
    have hpow := halign.blocksize_pow2
    have hlow : alignDown addr f.blocksize = addr - addr % g.blocksize := by
      rw [hf₁]
      exact hpow.alignDown (by omega)
    have hbs : f.blocksize = g.blocksize := by rw [hf₁]
    rw [hlow, hbs] at herase hloop
    rw [Nat.add_zero] at hb1 hb2 hb3
    have hadd : add32 (addr - addr % g.blocksize) g.blocksize =
        addr - addr % g.blocksize + g.blocksize := add32_of_lt (by omega)
    rw [hadd, sub32_of_le (by omega) (by omega)] at hloop
    -- the callback is in the log
    unfold Target.onFlash at herase
    split at herase
    · cases herase
    next f₂ hf₂ =>
    have hf₂' := hgeom hinv₂.geometry hf₂
    simp only [flashErase, FlashDriver.logged, logCall, Prod.mk.injEq] at herase
    obtain ⟨-, rfl⟩ := herase
    have hinv₃ : EraseInv orig touched
        { t₂ with flash := t₂.flash.set i f₂, dev := ((drv.erase f₂ (addr - addr % g.blocksize)
          g.blocksize t₂.dev.1).2, t₂.dev.2 ++ [.erase f₂.toFlashGeometry
            (addr - addr % g.blocksize) g.blocksize]) } i := by
      refine hinv₂.set hf₂ rfl (fun {j g} hj hg => ?_) ?_ _
      · exact (hinv₂.regions hg).imp_right fun h => ⟨h.1, h.2.resolve_left fun he => hj he.1⟩
      · exact (hinv₂.regions hf₂).imp_right fun h => ⟨h.1, h.2.imp_left And.right⟩
    generalize hn : addr - addr % g.blocksize + g.blocksize - addr = n at hloop
    have hnext : addr - addr % g.blocksize + g.blocksize = addr + n := by omega
    rw [hnext] at hloop
    obtain ⟨herased, ev, hev, hcover⟩ := eraseLoop_logged hmap hinv₃ (fun _ _ _ => htouch_i)
      (fun k hk i hi => htouch (n + k) (by omega) i (by rw [← Nat.add_assoc]; exact hi)) hloop
    refine ⟨herased, .erase g.toFlashGeometry (addr - addr % g.blocksize) g.blocksize :: ev, ?_,
      fun k hk j f' hj hf' => ?_⟩
    · rw [hev, hf₂', hlog₂, List.append_assoc]
      rfl
    · rcases Nat.lt_or_ge k n with hkn | hkn
      · -- the address is in the block just erased
        have hcon : g.Contains (addr + k) := by
          rw [halign.contains_iff]
          omega
        have hji : i = j := by
          have := hmap.disjoint.forAddr hg hcon
          rw [hj] at this
          exact (Option.some.inj this).symm
        subst hji
        rw [hg] at hf'
        cases hf'
        rw [unit_eq (dvd_unit _ _) (show addr - addr % g.blocksize ≤ addr + k by omega) (by omega)]
        exact List.mem_cons_self
      · have := hcover (k - n) (by omega) j f' (by rwa [Nat.add_assoc, Nat.add_sub_cancel' hkn]) hf'
        rw [Nat.add_assoc, Nat.add_sub_cancel' hkn] at this
        exact List.mem_cons_of_mem _ this

/-- A `target_flash_erase` that returned true. -/
theorem targetFlashErase_logged {t t' : Target (δ × List FlashEvent)} {addr len : Nat}
    (hmap : MapWf t.session.geometry)
    (h : targetFlashErase drv.logged t addr len = (true, t')) :
    Erased t (Touches t addr len) t'.flash ∧ ∃ ev, t'.dev.2 = t.dev.2 ++ ev ∧
      ∀ k < len, ∀ i f, targetFlashForAddr t (addr + k) = some i → t.flash[i]? = some f →
        .erase f.toFlashGeometry (addr + k - (addr + k) % f.blocksize) f.blocksize ∈ ev := by
  have henter := targetEnterFlashMode_logged drv t
  unfold targetFlashErase at h
  rcases hmode : targetEnterFlashMode drv.logged t with ⟨entered, t₁⟩
  rw [hmode] at henter
  simp only [hmode] at henter h
  have hflash : t₁.flash = t.flash := congrArg Session.flash henter
  have hlog : t₁.dev.2 = t.dev.2 := congrArg Session.log henter
  have hfor (a : Nat) : targetFlashForAddr t₁ a = targetFlashForAddr t a := by
    rw [targetFlashForAddr, hflash]
    rfl
  split at h
  · split at h
    · cases h
    next active hactive =>
    rw [hfor] at hactive
    have hinv : EraseInv t (Touches t addr len) t₁ active :=
      ⟨by rw [hflash], fun hj => .inl (by rwa [hflash] at hj)⟩
    have hloop := eraseLoop_logged drv hmap hinv
      (fun f hf hop => .inr ⟨hactive, f, by rwa [hflash] at hf, hop⟩)
      (fun k hk i hi => .inl ⟨k, hk, hi⟩) h
    rwa [hlog] at hloop
  · cases h

/-! ## Calls -/

/-- The erase of `len` bytes from `addr` drops nothing but what it erases: whatever is pending in a
region that it touches lies in a block that it erases. -/
def EraseKeeps (t : Target δ) (addr len : Nat) : Prop :=
  ∀ i f, t.flash[i]? = some f → Touches t addr len i → f.Pending →
    ∀ a, f.bufAddrLow ≤ a → a < f.bufAddrHigh → ∃ k < len,
      targetFlashForAddr t (addr + k) = some i ∧
        a - a % f.blocksize = addr + k - (addr + k) % f.blocksize

/-- The condition on a call, in the state it is made in. -/
def StepKeeps (t : Target δ) : FlashCall → Prop
  | .erase addr len => EraseKeeps t addr len
  | .write _ _ => True
  | .complete => True

/-- The addresses of a call are inside the flash map. -/
def FlashCall.InMap (gs : List FlashGeometry) : FlashCall → Prop
  | .erase addr len => ∀ k < len, ∃ g ∈ gs, g.Contains (addr + k)
  | .write dest src => ∀ k < src.length, ∃ g ∈ gs, g.Contains (dest + k)
  | .complete => True

/-- The call stores a byte at `a`. -/
def FlashCall.Stores : FlashCall → Nat → Prop
  | .write dest src, a => dest ≤ a ∧ a < dest + src.length
  | .erase _ _, _ => False
  | .complete, _ => False

/-- The end of a write inside the map. -/
theorem FlashCall.InMap.end_lt {gs : List FlashGeometry} {dest : Nat} {src : List UInt8}
    (h : FlashCall.InMap gs (.write dest src)) (hne : src ≠ []) : dest + src.length < 2 ^ 32 := by
  have hpos : 0 < src.length := List.length_pos_iff.2 hne
  obtain ⟨g, -, hg⟩ := h (src.length - 1) (by omega)
  have := hg.succ_lt
  omega

/-- A call that returned true keeps the regions clean, the geometry of the map and the log. -/
theorem flashStep_clean {t t' : Target (δ × List FlashEvent)} {c : FlashCall}
    (hs : t.session.Clean) (hmap : MapWf t.session.geometry) (hc : c.InMap t.session.geometry)
    (h : flashStep drv.logged t c = .ok (true, t')) :
    t'.session.Clean ∧ t'.session.geometry = t.session.geometry ∧
      ∃ ev, t'.session.log = t.session.log ++ ev := by
  cases c with
  | erase addr len =>
    obtain ⟨⟨hg, herased⟩, ev, hev, -⟩ := targetFlashErase_logged drv hmap (Except.ok.inj h)
    refine ⟨fun f hf => ?_, hg, ev, hev⟩
    obtain ⟨j, hj⟩ := List.mem_iff_getElem?.1 hf
    rcases herased hj with horig | ⟨-, hop, hb⟩
    · exact hs f (List.mem_of_getElem? horig)
    · have hmem : f.toFlashGeometry ∈ t.session.geometry := by
        rw [Session.geometry, Target.session, ← hg]
        exact List.mem_map_of_mem hf
      exact .of_none (hmap.aligned _ hmem).toWf (by rw [hop]; rintro ⟨⟩) hb
  | write dest src =>
    have htrace := targetFlashWrite_trace drv hs hmap.disjoint hc.end_lt h
    obtain ⟨hclean, hg⟩ := htrace.clean hs
    exact ⟨hclean, hg, htrace.log⟩
  | complete =>
    have htrace := (targetFlashComplete_trace drv 0 hs h).2
    obtain ⟨hclean, hg⟩ := htrace.clean hs
    exact ⟨hclean, hg, htrace.log⟩

/-- A held byte through one call that returned true: the call stores another one in its place, or it
is still held, or it has been delivered, or erased. -/
theorem flashStep_holds {t t' : Target (δ × List FlashEvent)} {c : FlashCall}
    (hs : t.session.Clean) (hmap : MapWf t.session.geometry) (hc : c.InMap t.session.geometry)
    (hkeep : StepKeeps t c) (h : flashStep drv.logged t c = .ok (true, t')) {a : Nat} {v : UInt8}
    (hv : t.session.Holds a v) :
    c.Stores a ∨ t'.session.Holds a v ∨
      t.session.Issued t'.session (fun e => e.Delivers a v ∨ e.Erases a) := by
  have himp {s s' : Session} (h : s.Issued s' (·.Delivers a v)) :
      s.Issued s' (fun e => e.Delivers a v ∨ e.Erases a) := by
    obtain ⟨ev, hev, e, he, hd⟩ := h
    exact ⟨ev, hev, e, he, .inl hd⟩
  cases c with
  | erase addr len =>
    obtain ⟨⟨hg, herased⟩, ev, hev, hcover⟩ := targetFlashErase_logged drv hmap (Except.ok.inj h)
    obtain ⟨f, hf, hvf⟩ := hv
    change f ∈ t.flash at hf
    obtain ⟨j, hj⟩ := List.mem_iff_getElem?.1 hf
    by_cases htouch : Touches t addr len j
    · -- the region lost its buffer, and `a` is in an erased block
      obtain ⟨k, hk, hfor, hblock⟩ := hkeep j f hj htouch hvf.1 a hvf.2.1 hvf.2.2.1
      have hmem := hcover k hk j f hfor hj
      have hpos := (hs f hf).inv.wf.blocksize_pow2.pos
      have hlt := Nat.mod_lt a hpos
      refine .inr (.inr ⟨ev, hev, _, hmem, .inr ?_⟩)
      rw [← hblock]
      exact ⟨Nat.sub_le _ _, by omega⟩
    · refine .inr (.inl ⟨f, ?_, hvf⟩)
      have hlen : j < t'.flash.length := by
        have h1 := (List.getElem?_eq_some_iff.1 hj).1
        have h2 := congrArg List.length hg
        rw [List.length_map, List.length_map] at h2
        omega
      have hget := List.getElem?_eq_getElem hlen
      rcases herased hget with horig | ⟨ht, -⟩
      · rw [hj] at horig
        cases horig
        exact List.mem_of_getElem? hget
      · exact absurd ht htouch
  | write dest src =>
    have htrace := targetFlashWrite_trace drv hs hmap.disjoint hc.end_lt h
    by_cases hin : dest ≤ a ∧ a < dest + src.length
    · exact .inl hin
    · exact .inr ((htrace.holds_old hs hv hin).imp_right himp)
  | complete =>
    have htrace := (targetFlashComplete_trace drv 0 hs h).2
    exact .inr ((htrace.holds_old hs hv (by simp)).imp_right himp)

end

/-! ## Runs -/

section
variable {δ : Type}

/-- The calls of a run, with a log of their callbacks. -/
def loggedCalls (cs : List (FlashDriver δ × FlashCall)) :
    List (FlashDriver (δ × List FlashEvent) × FlashCall) :=
  cs.map fun p => (p.1.logged, p.2)

/-- The first call of a run. -/
theorem flashRun_cons {t t' : Target δ} {drv : FlashDriver δ} {c : FlashCall}
    {cs : List (FlashDriver δ × FlashCall)} {rs : List Bool} :
    flashRun t ((drv, c) :: cs) = .ok (rs, t') ↔ ∃ r t₁ rs', flashStep drv t c = .ok (r, t₁) ∧
      flashRun t₁ cs = .ok (rs', t') ∧ rs = r :: rs' := by
  rw [flashRun, Run.bind_eq_ok]
  constructor
  · rintro ⟨⟨r, t₁⟩, hstep, h⟩
    obtain ⟨⟨rs', t₂⟩, hrun, h⟩ := Run.bind_eq_ok.1 h
    cases h
    exact ⟨r, t₁, rs', hstep, hrun, rfl⟩
  · rintro ⟨r, t₁, rs', hstep, hrun, rfl⟩
    exact ⟨(r, t₁), hstep, by simp only [hrun, bind, Except.bind]⟩

/-- A run cut in two. -/
theorem flashRun_append {t' : Target δ} {cs₂ : List (FlashDriver δ × FlashCall)} :
    ∀ {cs₁ : List (FlashDriver δ × FlashCall)} {t : Target δ} {rs : List Bool},
      flashRun t (cs₁ ++ cs₂) = .ok (rs, t') ↔ ∃ rs₁ t₁ rs₂, flashRun t cs₁ = .ok (rs₁, t₁) ∧
        flashRun t₁ cs₂ = .ok (rs₂, t') ∧ rs = rs₁ ++ rs₂
  | [], t, rs => by simp [flashRun]
  | (drv, c) :: cs₁, t, rs => by
    rw [List.cons_append, flashRun_cons]
    constructor
    · rintro ⟨r, t₁, rs', hstep, hrun, rfl⟩
      obtain ⟨rs₁, t₂, rs₂, h₁, h₂, rfl⟩ := flashRun_append.1 hrun
      exact ⟨r :: rs₁, t₂, rs₂, flashRun_cons.2 ⟨r, t₁, rs₁, hstep, h₁, rfl⟩, h₂, rfl⟩
    · rintro ⟨rs₁, t₂, rs₂, h₁, h₂, rfl⟩
      obtain ⟨r, t₁, rs', hstep, hrun, rfl⟩ := flashRun_cons.1 h₁
      exact ⟨r, t₁, rs' ++ rs₂, hstep, flashRun_append.2 ⟨rs', t₂, rs₂, hrun, h₂, rfl⟩, rfl⟩

/-- Every call returns true. -/
def RunsTo (drv : FlashDriver δ) (t : Target δ) (cs : List FlashCall) (t' : Target δ) : Prop :=
  flashRun t (cs.map (drv, ·)) = .ok (List.replicate cs.length true, t')

/-- The first call of a run with success. -/
theorem runsTo_cons {drv : FlashDriver δ} {t t' : Target δ} {c : FlashCall} {cs : List FlashCall} :
    RunsTo drv t (c :: cs) t' ↔
      ∃ t₁, flashStep drv t c = .ok (true, t₁) ∧ RunsTo drv t₁ cs t' := by
  unfold RunsTo
  rw [List.map_cons, flashRun_cons, List.length_cons, List.replicate_succ]
  constructor
  · rintro ⟨r, t₁, rs', hstep, hrun, heq⟩
    obtain ⟨rfl, rfl⟩ := List.cons.inj heq
    exact ⟨t₁, hstep, hrun⟩
  · rintro ⟨t₁, hstep, hrun⟩
    exact ⟨true, t₁, _, hstep, hrun, rfl⟩

/-- A run whose first call succeeds. -/
theorem RunsTo.cons {drv : FlashDriver δ} {t t₁ t' : Target δ} {c : FlashCall} {cs : List FlashCall}
    (hstep : flashStep drv t c = .ok (true, t₁)) (hrun : RunsTo drv t₁ cs t') :
    RunsTo drv t (c :: cs) t' :=
  runsTo_cons.2 ⟨t₁, hstep, hrun⟩

/-- Runs with success, one after the other. -/
theorem runsTo_append {drv : FlashDriver δ} {cs cs' : List FlashCall} {t t' : Target δ} :
    RunsTo drv t (cs ++ cs') t' ↔ ∃ t₁, RunsTo drv t cs t₁ ∧ RunsTo drv t₁ cs' t' := by
  induction cs generalizing t with
  | nil =>
    constructor
    · exact fun h => ⟨t, rfl, h⟩
    · rintro ⟨t₁, h, h'⟩
      cases h
      exact h'
  | cons c cs ih =>
    simp only [List.cons_append, runsTo_cons, ih]
    constructor
    · rintro ⟨t₁, hstep, t₂, hrun, hrun'⟩
      exact ⟨t₂, ⟨t₁, hstep, hrun⟩, hrun'⟩
    · rintro ⟨t₂, ⟨t₁, hstep, hrun⟩, hrun'⟩
      exact ⟨t₁, hstep, t₂, hrun, hrun'⟩

/-- A run in two parts. -/
theorem RunsTo.append {drv : FlashDriver δ} {t t₁ t' : Target δ} {cs cs' : List FlashCall}
    (h : RunsTo drv t cs t₁) (h' : RunsTo drv t₁ cs' t') : RunsTo drv t (cs ++ cs') t' :=
  runsTo_append.2 ⟨t₁, h, h'⟩

/-- A run with success ends in one state. -/
theorem RunsTo.unique {drv : FlashDriver δ} {t t₁ t₂ : Target δ} {cs : List FlashCall}
    (h₁ : RunsTo drv t cs t₁) (h₂ : RunsTo drv t cs t₂) : t₁ = t₂ :=
  (Prod.mk.inj (Except.ok.inj (h₁.symm.trans h₂))).2

/-- Every call of a run meets `StepKeeps` in the state it is made in. -/
def RunKeeps (t : Target δ) : List (FlashDriver δ × FlashCall) → Prop
  | [] => True
  | (drv, c) :: cs => StepKeeps t c ∧ ∀ r t', flashStep drv t c = .ok (r, t') → RunKeeps t' cs

/-- The rest of a run that keeps its data. -/
theorem RunKeeps.drop {cs₂ : List (FlashDriver δ × FlashCall)} {t' : Target δ} :
    ∀ {cs₁ : List (FlashDriver δ × FlashCall)} {t : Target δ} {rs : List Bool},
      RunKeeps t (cs₁ ++ cs₂) → flashRun t cs₁ = .ok (rs, t') → RunKeeps t' cs₂
  | [], t, _, h, hrun => by
    cases hrun
    exact h
  | (drv, c) :: cs₁, t, _, h, hrun => by
    obtain ⟨r, t₁, rs', hstep, hrun, -⟩ := flashRun_cons.1 hrun
    exact RunKeeps.drop (h.2 r t₁ hstep) hrun

/-- A call of the run stores a byte at `a` while `v` is held there. -/
def ReplacedIn (t : Target (δ × List FlashEvent)) (cs : List (FlashDriver δ × FlashCall))
    (a : Nat) (v : UInt8) : Prop :=
  ∃ cs₁ drv c cs₂ rs t₁, cs = cs₁ ++ (drv, c) :: cs₂ ∧
    flashRun t (loggedCalls cs₁) = .ok (rs, t₁) ∧ t₁.session.Holds a v ∧ c.Stores a

/-- A run of calls that returned true keeps the regions clean, the geometry of the map and the
log. -/
theorem flashRun_clean :
    ∀ {cs : List (FlashDriver δ × FlashCall)} {t t' : Target (δ × List FlashEvent)}
      {rs : List Bool}, t.session.Clean → MapWf t.session.geometry →
      (∀ p ∈ cs, p.2.InMap t.session.geometry) →
      flashRun t (loggedCalls cs) = .ok (rs, t') → (∀ r ∈ rs, r = true) →
      t'.session.Clean ∧ t'.session.geometry = t.session.geometry ∧
        ∃ ev, t'.session.log = t.session.log ++ ev
  | [], t, _, _, hs, _, _, h, _ => by
    cases h
    exact ⟨hs, rfl, [], by simp⟩
  | (drv, c) :: cs, t, t', rs, hs, hmap, hin, h, hrs => by
    obtain ⟨r, t₁, rs', hstep, hrun, rfl⟩ := flashRun_cons.1 h
    obtain ⟨rfl, hrs'⟩ := List.forall_mem_cons.1 hrs
    obtain ⟨hc, hcs⟩ := List.forall_mem_cons.1 hin
    obtain ⟨hs₁, hg₁, ev₁, hev₁⟩ := flashStep_clean drv hs hmap hc hstep
    rw [← hg₁] at hmap hcs
    obtain ⟨hs', hg', ev, hev⟩ := flashRun_clean hs₁ hmap hcs hrun hrs'
    exact ⟨hs', hg'.trans hg₁, ev₁ ++ ev, by rw [hev, hev₁, List.append_assoc]⟩

/-- A held byte through a run of calls that returned true. -/
theorem flashRun_holds {a : Nat} {v : UInt8} :
    ∀ {cs : List (FlashDriver δ × FlashCall)} {t t' : Target (δ × List FlashEvent)}
      {rs : List Bool}, t.session.Clean → MapWf t.session.geometry →
      (∀ p ∈ cs, p.2.InMap t.session.geometry) → RunKeeps t (loggedCalls cs) →
      flashRun t (loggedCalls cs) = .ok (rs, t') → (∀ r ∈ rs, r = true) → t.session.Holds a v →
      ReplacedIn t cs a v ∨ t'.session.Holds a v ∨
        t.session.Issued t'.session (fun e => e.Delivers a v ∨ e.Erases a)
  | [], t, _, _, _, _, _, _, h, _, hv => by
    cases h
    exact .inr (.inl hv)
  | (drv, c) :: cs, t, t', rs, hs, hmap, hin, hkeep, h, hrs, hv => by
    obtain ⟨r, t₁, rs', hstep, hrun, rfl⟩ := flashRun_cons.1 h
    obtain ⟨rfl, hrs'⟩ := List.forall_mem_cons.1 hrs
    obtain ⟨hc, hcs⟩ := List.forall_mem_cons.1 hin
    obtain ⟨hs₁, hg₁, hlog₁⟩ := flashStep_clean drv hs hmap hc hstep
    have hmap₁ := hmap
    rw [← hg₁] at hmap₁ hcs
    have hkeep₁ := hkeep.2 true t₁ hstep
    rcases flashStep_holds drv hs hmap hc hkeep.1 hstep hv with hst | hheld | hiss
    · exact .inl ⟨[], drv, c, cs, [], t, rfl, rfl, hv, hst⟩
    · rcases flashRun_holds hs₁ hmap₁ hcs hkeep₁ hrun hrs' hheld with hrep | hend | hiss
      · obtain ⟨cs₁, drv', c', cs₂, rs₁, t₂, rfl, hrun₁, hv₂, hst⟩ := hrep
        exact .inl ⟨(drv, c) :: cs₁, drv', c', cs₂, true :: rs₁, t₂, rfl,
          flashRun_cons.2 ⟨true, t₁, rs₁, hstep, hrun₁, rfl⟩, hv₂, hst⟩
      · exact .inr (.inl hend)
      · exact .inr (.inr (hiss.after hlog₁))
    · exact .inr (.inr (hiss.then (flashRun_clean hs₁ hmap₁ hcs hrun hrs').2.2))

/-- A run that ends with a `target_flash_complete` leaves nothing pending. -/
theorem flashRun_complete {cs : List (FlashDriver δ × FlashCall)} {drv : FlashDriver δ}
    {t t' : Target (δ × List FlashEvent)} {rs : List Bool} (hs : t.session.Clean)
    (hmap : MapWf t.session.geometry) (hin : ∀ p ∈ cs, p.2.InMap t.session.geometry)
    (h : flashRun t (loggedCalls (cs ++ [(drv, .complete)])) = .ok (rs, t'))
    (hrs : ∀ r ∈ rs, r = true) : ∀ f ∈ t'.flash, ¬ f.Pending := by
  rw [loggedCalls, List.map_append] at h
  obtain ⟨rs₁, t₁, rs₂, h₁, h₂, rfl⟩ := flashRun_append.1 h
  obtain ⟨hrs₁, hrs₂⟩ := List.forall_mem_append.1 hrs
  obtain ⟨r, t₂, rs₃, hcomplete, hnil, rfl⟩ := flashRun_cons.1 h₂
  cases hnil
  obtain ⟨rfl, -⟩ := List.forall_mem_cons.1 hrs₂
  obtain ⟨hs₁, -⟩ := flashRun_clean hs hmap hin h₁ hrs₁
  exact (targetFlashComplete_trace drv 0 hs₁ hcomplete).1

/-- No byte that a write of the run accepted is lost: a later write of the run replaces it while
it is held, or one of the callbacks issued from that write on passes it to `flash->write` or erases
it. -/
def NothingLost (t : Target (δ × List FlashEvent)) (cs : List (FlashDriver δ × FlashCall)) : Prop :=
  ∀ cs₁ drv dest src cs₂ rs₁ t₁ rs t', cs = cs₁ ++ (drv, .write dest src) :: cs₂ →
    flashRun t (loggedCalls cs₁) = .ok (rs₁, t₁) → flashRun t (loggedCalls cs) = .ok (rs, t') →
    ∀ i v, src[i]? = some v →
      (∃ r t₂, flashStep drv.logged t₁ (.write dest src) = .ok (r, t₂) ∧
        ReplacedIn t₂ cs₂ (dest + i) v) ∨
      t₁.session.Issued t'.session (fun e => e.Delivers (dest + i) v ∨ e.Erases (dest + i))

/-- **No acknowledged byte is lost**, in every run of erases and writes inside the map followed by
a `target_flash_complete`, all returning true, whose erases meet `EraseKeeps`. -/
theorem flashRun_nothingLost (t : Target (δ × List FlashEvent))
    (cs : List (FlashDriver δ × FlashCall)) (drv : FlashDriver δ)
    (hmap : MapWf t.session.geometry) (hidle : ∀ f ∈ t.flash, f.operation = .none ∧ f.buf = none)
    (hin : ∀ p ∈ cs, p.2.InMap t.session.geometry)
    (hkeep : RunKeeps t (loggedCalls (cs ++ [(drv, .complete)])))
    (htrue : ∀ rs t', flashRun t (loggedCalls (cs ++ [(drv, .complete)])) = .ok (rs, t') →
      ∀ r ∈ rs, r = true) : NothingLost t (cs ++ [(drv, .complete)]) := by
  intro cs₁ drv' dest src cs₂ rs₁ t₁ rs t' hcs hrun₁ hrun i v hv
  have hclean : t.session.Clean := fun f hf =>
    .of_none (hmap.aligned _ (List.mem_map_of_mem hf)).toWf (by rw [(hidle f hf).1]; exact nofun)
      (hidle f hf).2
  have hall := htrue rs t' hrun
  have hin' : ∀ p ∈ cs ++ [(drv, FlashCall.complete)], p.2.InMap t.session.geometry :=
    List.forall_mem_append.2 ⟨hin, by simp [FlashCall.InMap]⟩
  have hdone := flashRun_complete hclean hmap hin hrun hall
  -- the run up to the write, the write, and the rest
  rw [hcs] at hkeep hrun hin'
  obtain ⟨hin₁, hin₂⟩ := List.forall_mem_append.1 hin'
  obtain ⟨hinw, hin₂⟩ := List.forall_mem_cons.1 hin₂
  rw [loggedCalls, List.map_append] at hkeep hrun
  obtain ⟨rs₁', t₁', rs₂, hr₁, hr₂, rfl⟩ := flashRun_append.1 hrun
  have hsame := hrun₁.symm.trans hr₁
  cases hsame
  obtain ⟨hall₁, hall₂⟩ := List.forall_mem_append.1 hall
  obtain ⟨r, t₂, rs₃, hstep, hr₃, rfl⟩ := flashRun_cons.1 hr₂
  obtain ⟨rfl, hall₃⟩ := List.forall_mem_cons.1 hall₂
  have hkeep₂ := (hkeep.drop hrun₁).2 true t₂ hstep
  obtain ⟨hs₁, hg₁, -⟩ := flashRun_clean hclean hmap hin₁ hrun₁ hall₁
  rw [← hg₁] at hmap hinw hin₂
  obtain ⟨hs₂, hg₂, hlog₂⟩ := flashStep_clean drv' hs₁ hmap hinw hstep
  have htrace := targetFlashWrite_trace drv' hs₁ hmap.disjoint hinw.end_lt hstep
  rw [← hg₂] at hmap hin₂
  rcases htrace.holds_new hs₁ hv with hheld | hiss
  · rcases flashRun_holds hs₂ hmap hin₂ hkeep₂ hr₃ hall₃ hheld with hrep | hend | hiss
    · exact .inl ⟨true, t₂, hstep, hrep⟩
    · obtain ⟨f, hf, hvf⟩ := hend
      exact absurd hvf.1 (hdone f hf)
    · exact .inr (hiss.after hlog₂)
  · obtain ⟨ev, hev, e, he, hd⟩ := hiss
    have hnow : t₁.session.Issued t₂.session
        (fun e => e.Delivers (dest + i) v ∨ e.Erases (dest + i)) := ⟨ev, hev, e, he, .inl hd⟩
    exact .inr (hnow.then (flashRun_clean hs₂ hmap hin₂ hr₃ hall₃).2.2)

end

/-! ## A one-region map -/

/-- What a run returned and the callbacks it issued. -/
def outcome {δ : Type} (x : Except BufFault (List Bool × Target (δ × List FlashEvent))) :
    Except BufFault (List Bool × List FlashEvent) :=
  x.map fun y => (y.1, y.2.dev.2)

/-- A run with this outcome has this log. -/
theorem outcome_eq_ok {δ : Type} {x : Except BufFault (List Bool × Target (δ × List FlashEvent))}
    {rs : List Bool} {log : List FlashEvent} (h : outcome x = .ok (rs, log)) :
    ∃ t', x = .ok (rs, t') ∧ t'.dev.2 = log := by
  cases x with
  | error e => cases h
  | ok y =>
    cases h
    exact ⟨y.2, rfl, rfl⟩

/-- The map with one region is well formed. -/
theorem oneRegion_mapWf {δ : Type} (d : δ × List FlashEvent) :
    MapWf (oneRegion 2048 d).session.geometry := by
  refine ⟨fun g hg => ?_, List.pairwise_singleton _ _⟩
  rw [Session.geometry, Target.session, oneRegion, targetAddFlash, List.map_singleton,
    List.mem_singleton] at hg
  subst hg
  exact ⟨⟨⟨10, by decide, rfl⟩, ⟨10, by decide, rfl⟩, rfl⟩, by decide, by decide, by decide,
    by decide, by decide⟩

/-- Its region is idle at first. -/
theorem oneRegion_idle {δ : Type} (length : Nat) (d : δ) :
    ∀ f ∈ (oneRegion length d).flash, f.operation = .none ∧ f.buf = none :=
  fun f hf => (oneRegion_fresh length d f hf).2

/-- An address of the one-region map. -/
theorem oneRegion_contains {δ : Type} (d : δ × List FlashEvent) {a : Nat} (h1 : 0x08000000 ≤ a)
    (h2 : a < 0x08000800) : ∃ g ∈ (oneRegion 2048 d).session.geometry, g.Contains a :=
  ⟨_, List.mem_singleton_self _, h1, h2⟩

/-- The order that the flash commands of GDB come in: erase, write, complete. -/
theorem flashRun_nothingLost_erase_write :
    NothingLost (oneRegion 2048 ((), []))
      ([(quietDriver, .erase 0x08000000 1024), (quietDriver, .write 0x08000000 [1, 2])] ++
        [(quietDriver, .complete)]) := by
  refine flashRun_nothingLost _ _ _ (oneRegion_mapWf _) (oneRegion_idle 2048 _) ?_ ?_ ?_
  · simp only [List.forall_mem_cons, List.not_mem_nil, FlashCall.InMap, List.length_cons,
      List.length_nil]
    exact ⟨fun k hk => oneRegion_contains _ (by omega) (by omega),
      fun k hk => oneRegion_contains _ (by omega) (by omega), fun _ h => h.elim⟩
  · refine ⟨fun i f hf _ hp => ?_,
      fun _ _ _ => ⟨trivial, fun _ _ _ => ⟨trivial, fun _ _ _ => trivial⟩⟩⟩
    rw [TargetFlash.Pending, (oneRegion_idle 2048 _ f (List.mem_of_getElem? hf)).2] at hp
    exact absurd hp.1 (by rintro ⟨⟩)
  · intro rs t' hrun r hr
    have hrs : (outcome (flashRun (oneRegion 2048 ((), ([] : List FlashEvent))) (loggedCalls
        ([(quietDriver, .erase 0x08000000 1024), (quietDriver, .write 0x08000000 [1, 2])] ++
          [(quietDriver, .complete)])))).map Prod.fst = .ok [true, true, true] := by
      decide +kernel
    rw [hrun] at hrs
    cases hrs
    simpa using hr

/-- A run in which an acknowledged byte is lost: the erase of the second block frees the buffer
that holds the byte written to the first one. -/
theorem flashRun_loses :
    MapWf (oneRegion 2048 ((), [])).session.geometry ∧
    (∃ t', flashRun (oneRegion 2048 ((), ([] : List FlashEvent)))
      (loggedCalls [(quietDriver, .write 0x08000000 [1]), (quietDriver, .erase 0x08000400 1024),
        (quietDriver, .complete)]) = .ok ([true, true, true], t')) ∧
    ¬ NothingLost (oneRegion 2048 ((), []))
      [(quietDriver, .write 0x08000000 [1]), (quietDriver, .erase 0x08000400 1024),
        (quietDriver, .complete)] := by
  have hrun : outcome (flashRun (oneRegion 2048 ((), ([] : List FlashEvent)))
      (loggedCalls [(quietDriver, .write 0x08000000 [1]), (quietDriver, .erase 0x08000400 1024),
        (quietDriver, .complete)])) = .ok ([true, true, true],
      [.erase (oneRegion 2048 ()).flash[0].toFlashGeometry 0x08000400 1024]) := by
    decide +kernel
  obtain ⟨t', hrun, hlog⟩ := outcome_eq_ok hrun
  refine ⟨oneRegion_mapWf _, ⟨t', hrun⟩, fun h => ?_⟩
  rcases h [] quietDriver 0x08000000 [1] [(quietDriver, .erase 0x08000400 1024),
    (quietDriver, .complete)] [] _ _ t' rfl rfl hrun 0 1 rfl with
    ⟨r, t₂, -, cs₁, drv, c, cs₂, rs, t₃, hcs, -, -, hst⟩ | ⟨ev, hev, e, he, hd⟩
  · -- no later call stores anything
    have hmem : (drv, c) ∈ [(quietDriver, FlashCall.erase 0x08000400 1024),
        (quietDriver, FlashCall.complete)] := by
      rw [hcs]
      simp
    simp only [List.mem_cons, Prod.mk.injEq, List.not_mem_nil, or_false] at hmem
    rcases hmem with ⟨-, rfl⟩ | ⟨-, rfl⟩ <;> exact hst
  · -- the only callback is the erase of the other block
    have hev' : ev = [.erase (oneRegion 2048 ()).flash[0].toFlashGeometry 0x08000400 1024] :=
      hev.symm.trans hlog
    rw [hev', List.mem_singleton] at he
    subst he
    rcases hd with hd | ⟨hd, -⟩
    · exact hd
    · revert hd
      decide

end Blackmagic
