import Blackmagic.Flash.Deliver
import Blackmagic.Flash.Map

/-!
# The live region of a session

A write closes every region but the one it ends in, so behind an erase from idle regions and writes
that all returned true at most one region has an operation or something pending (`RunsTo.oneLive`).
Such a session is over with `target_flash_complete` exactly when each buffer can be flushed
(`targetFlashComplete_idle`): a region in no operation keeps its buffer when its `prepare` fails.
-/

namespace Blackmagic

open Word

section
variable {δ : Type}

/-- No flash session: out of flash mode, every region idle and without a buffer. -/
structure Target.Idle (t : Target δ) : Prop where
  flashMode : t.flashMode = false
  regions : ∀ f ∈ t.flash, f.operation = .none ∧ f.buf = none

end

/-- No operation, and nothing to flush. -/
def TargetFlash.Quiet (f : TargetFlash) : Prop := f.operation = .none ∧ ¬ f.Pending

/-- Every region but the one at `k` is quiet, and the one at `k` has an operation with a buffer
only. -/
structure OneLive (fs : List TargetFlash) (k : Nat) : Prop where
  quiet : ∀ (j : Nat) (f : TargetFlash), fs[j]? = some f → j ≠ k → f.Quiet
  live : ∀ f : TargetFlash, fs[k]? = some f → f.buf = none → f.operation = .none

/-- A region without an operation and a buffer is quiet. -/
theorem TargetFlash.Quiet.of_none {f : TargetFlash} (hop : f.operation = .none)
    (hb : f.buf = none) :
    f.Quiet := by
  refine ⟨hop, fun hp => ?_⟩
  rw [TargetFlash.Pending, hb] at hp
  exact absurd hp.1 (by simp)

/-- Closing the live region, or any other one but the one at `i`, leaves only the one at `i`
live. -/
theorem OneLive.close {fs : List TargetFlash} {k i active : Nat} {f' : TargetFlash}
    (h : OneLive fs k) (hk : k = active ∨ k = i) (hne : i ≠ active) (hf' : f'.Quiet) :
    OneLive (fs.set active f') i := by
  constructor
  · intro j f hf hj
    rw [List.getElem?_set] at hf
    split at hf
    · split at hf
      · cases hf
        exact hf'
      · cases hf
    · next hja =>
      refine h.quiet j f hf ?_
      rintro rfl
      rcases hk with rfl | rfl
      · exact hja rfl
      · exact hj rfl
  · intro f hf hb
    rw [List.getElem?_set_ne (Ne.symm hne)] at hf
    rcases hk with rfl | rfl
    · exact (h.quiet i f hf hne).1
    · exact h.live f hf hb

/-- The live region can change as long as it keeps a buffer. -/
theorem OneLive.set {fs : List TargetFlash} {k : Nat} {f' : TargetFlash} (h : OneLive fs k)
    (hb : f'.buf.isSome) : OneLive (fs.set k f') k := by
  constructor
  · intro j f hf hj
    rw [List.getElem?_set_ne (Ne.symm hj)] at hf
    exact h.quiet j f hf hj
  · intro f hf hnone
    rw [List.getElem?_set] at hf
    simp only [if_true] at hf
    split at hf
    · cases hf
      rw [hnone] at hb
      cases hb
    · cases hf

section
variable {δ : Type} {drv : FlashDriver δ}

/-! ## Closing a region -/

/-- A flush that returned true leaves nothing pending. -/
theorem flashBufferedFlush_not_pending {f f' : TargetFlash} {d d' : δ}
    (h : flashBufferedFlush drv f d = .ok (true, f', d')) : ¬ f'.Pending := by
  unfold flashBufferedFlush at h
  split at h
  · generalize flashPrepare drv f .write d = x at h
    obtain ⟨prepared, f₁, d₁⟩ := x
    dsimp only at h
    split at h
    · obtain ⟨⟨r, d₂⟩, -, h⟩ := Run.bind_eq_ok.1 h
      cases h
      exact TargetFlash.not_pending_clearSpan f₁
    · cases h
  · next hp =>
    cases h
    exact hp

/-- A region that was closed with success is quiet. -/
theorem flashFlushDone_quiet {f f' : TargetFlash} {d d' : δ}
    (h : flashFlushDone drv f d = .ok (true, f', d')) : f'.Quiet := by
  obtain ⟨⟨r₁, f₁, d₁⟩, hflush, -⟩ := Run.bind_eq_ok.1 h
  rw [flashFlushDone_of_flush drv hflush] at h
  simp only [Except.ok.injEq, Prod.mk.injEq, Bool.and_eq_true] at h
  obtain ⟨⟨rfl, -⟩, rfl, -⟩ := h
  obtain ⟨-, hop, hb | ⟨hnone, heq⟩⟩ := flashDone_spec drv f₁ d₁
  · exact .of_none hop hb
  · rw [heq]
    exact ⟨hnone, flashBufferedFlush_not_pending hflush⟩

/-- Closing a region that is quiet does nothing. -/
theorem flashFlushDone_of_quiet {f : TargetFlash} (h : f.Quiet) (d : δ) :
    flashFlushDone drv f d = .ok (true, f, d) := by
  have hflush : flashBufferedFlush drv f d = .ok (true, f, d) := by
    unfold flashBufferedFlush
    rw [if_neg h.2]
  have hdone : flashDone drv f d = (true, f, d) := by
    unfold flashDone
    rw [if_pos h.1]
  rw [flashFlushDone_of_flush drv hflush, hdone]
  rfl

/-! ## Writing -/

/-- The regions behind the first loop of a write that goes on: closed, or as they were, and then
they contain the address or have no buffer. -/
theorem settleLoop_closes {dest : Nat} :
    ∀ {fs fs' : List TargetFlash} {i : Nat} {active active' : Option Nat} {result : Bool} {d
      d' : δ},
      settleLoop drv dest fs i active result d = .ok (true, active', fs', d') →
        result = true ∧ ∀ (j : Nat) (f' : TargetFlash), fs'[j]? = some f' →
          f'.Quiet ∨ fs[j]? = some f' ∧ (f'.Contains dest ∨ f'.buf = none) := by
  intro fs
  induction fs with
  | nil =>
    intro fs' i active active' result d d' h
    cases h
    exact ⟨rfl, fun j f' hf => absurd hf (by simp)⟩
  | cons f fs ih =>
    intro fs' i active active' result d d' h
    rw [settleLoop] at h
    split at h
    · next hc =>
      obtain ⟨⟨r₁, a₁, fs₁, d₁⟩, hrest, h⟩ := Run.bind_eq_ok.1 h
      cases h
      obtain ⟨hr, hall⟩ := ih hrest
      refine ⟨hr, fun j f' hf => ?_⟩
      cases j with
      | zero =>
        cases hf
        exact .inr ⟨rfl, .inl hc⟩
      | succ j => exact hall j f' hf
    · split at h
      · obtain ⟨⟨ok, f₁, d₁⟩, hclose, h⟩ := Run.bind_eq_ok.1 h
        obtain ⟨⟨r₂, a₂, fs₂, d₂⟩, hrest, h⟩ := Run.bind_eq_ok.1 h
        cases h
        obtain ⟨hr, hall⟩ := ih hrest
        obtain ⟨hres, rfl⟩ := Bool.and_eq_true_iff.1 hr
        refine ⟨hres, fun j f' hf => ?_⟩
        cases j with
        | zero =>
          cases hf
          exact .inl (flashFlushDone_quiet hclose)
        | succ j => exact hall j f' hf
      · next hb =>
        obtain ⟨⟨r₁, a₁, fs₁, d₁⟩, hrest, h⟩ := Run.bind_eq_ok.1 h
        cases h
        obtain ⟨hr, hall⟩ := ih hrest
        refine ⟨hr, fun j f' hf => ?_⟩
        cases j with
        | zero =>
          cases hf
          exact .inr ⟨rfl, .inr (by simpa using hb)⟩
        | succ j => exact hall j f' hf

/-- Going over to another region leaves that one in use alone. -/
theorem switchWrite_oneLive {t t' : Target δ} {k active i : Nat} (h : OneLive t.flash k)
    (hk : k = active ∨ k = i) (hrun : switchWrite drv t active i = .ok (true, t')) :
    OneLive t'.flash i := by
  unfold switchWrite at hrun
  split at hrun
  · next hne =>
    unfold Target.onFlashBuf at hrun
    split at hrun
    · cases hrun
    · obtain ⟨⟨r, f', d⟩, hclose, hrun⟩ := Run.bind_eq_ok.1 hrun
      cases hrun
      exact h.close hk hne (flashFlushDone_quiet hclose)
  · next heq =>
    cases hrun
    rw [not_not.1 heq]
    rcases hk with rfl | rfl
    · exact h
    · exact not_not.1 heq ▸ h

/-- A buffered write keeps its buffer. -/
theorem bufferedWriteLoop_buf :
    ∀ {fuel : Nat} {f f' : TargetFlash} {dest : Nat} {src : List UInt8} {result r : Bool} {d
      d' : δ},
      f.buf.isSome → bufferedWriteLoop drv fuel f dest src result d = .ok (r, f', d') →
        f'.buf.isSome
  | fuel, _, _, _, [], _, _, _, _, hb, h => by
    cases fuel <;> cases h <;> exact hb
  | 0, _, _, _, _ :: _, _, _, _, _, _, h => by cases h
  | _ + 1, _, _, _, c :: cs, _, _, _, _, _, h => by
    obtain ⟨ok, f₁, d₁, f₂, -, hchunk, h⟩ := bufferedWriteLoop_succ drv (List.cons_ne_nil c cs) h
    refine bufferedWriteLoop_buf ?_ h
    obtain ⟨f₃, hcopy, hchunk⟩ := Run.bind_eq_ok.1 hchunk
    cases hchunk
    unfold TargetFlash.bufCopy at hcopy
    split at hcopy
    · cases hcopy
    · split at hcopy
      · cases hcopy
        rfl
      · cases hcopy

/-- A region function that leaves a buffer, run on the live region. -/
theorem OneLive.onFlash {t t' : Target δ} {i : Nat} (h : OneLive t.flash i)
    {op : TargetFlash → δ → Bool × TargetFlash × δ}
    (hop : ∀ f d, (op f d).1 = true → (op f d).2.1.buf.isSome)
    (hrun : t.onFlash i op = (true, t')) :
    OneLive t'.flash i ∧ ∀ f, t'.flash[i]? = some f → f.buf.isSome := by
  cases hf : t.flash[i]? with
  | none =>
    unfold Target.onFlash at hrun
    rw [hf] at hrun
    cases hrun
  | some f =>
    rw [Target.onFlash_of_getElem? hf] at hrun
    obtain ⟨hr, rfl⟩ := Prod.mk.inj hrun
    have hb := hop f t.dev hr
    refine ⟨h.set hb, fun g hg => ?_⟩
    rw [List.getElem?_set_self (List.getElem?_eq_some_iff.1 hf).1] at hg
    cases hg
    exact hb

/-- After a buffer was asked for with success there is one. -/
theorem flashBufferEnsure_buf (f : TargetFlash) (d : δ) (h : (flashBufferEnsure drv f d).1 = true) :
    (flashBufferEnsure drv f d).2.1.buf.isSome := by
  unfold flashBufferEnsure flashBufferAlloc at h ⊢
  split
  · next hb => exact hb
  · next hb =>
    rw [if_neg hb] at h
    dsimp only at h ⊢
    split
    · rfl
    · next hno =>
      rw [if_neg hno] at h
      cases h

/-- The write loop leaves one region in use. -/
theorem writeLoop_oneLive :
    ∀ {fuel : Nat} {t t' : Target δ} {k active dest : Nat} {src : List UInt8},
      OneLive t.flash k → (k = active ∨ targetFlashForAddr t dest = some k) →
      writeLoop drv fuel t active dest src = .ok (true, t') → ∃ k', OneLive t'.flash k' := by
  intro fuel
  induction fuel with
  | zero =>
    intro t t' k active dest src h _ hrun
    cases src with
    | nil =>
      cases hrun
      exact ⟨k, h⟩
    | cons c cs => cases hrun
  | succ fuel ih =>
    intro t t' k active dest src h hk hrun
    rcases eq_or_ne src [] with rfl | hne
    · cases hrun
      exact ⟨k, h⟩
    obtain ⟨i, t₁, t₂, f, t₃, hi, hclose, hens, hf, hbuf, hrest⟩ := writeLoop_succ drv hne hrun
    have hki : k = active ∨ k = i := hk.imp_right fun hk => by
      rw [hi] at hk
      exact (Option.some.inj hk).symm
    have h₁ := switchWrite_oneLive h hki hclose
    obtain ⟨h₂, hb⟩ := h₁.onFlash flashBufferEnsure_buf hens
    unfold Target.onFlashBuf at hbuf
    rw [hf] at hbuf
    obtain ⟨⟨r, f', d⟩, hwrite, hbuf⟩ := Run.bind_eq_ok.1 hbuf
    cases hbuf
    exact ih (h₂.set (bufferedWriteLoop_buf (hb f hf) hwrite)) (.inl rfl) hrest

/-- Behind a write that returned true at most one region is live. -/
theorem targetFlashWrite_oneLive {t t' : Target δ} {k dest : Nat} {src : List UInt8}
    (hdis : MapDisjoint t.geometry) (h : OneLive t.flash k)
    (hrun : targetFlashWrite drv t dest src = .ok (true, t')) : ∃ k', OneLive t'.flash k' := by
  have hflash := targetEnterFlashMode_flash drv t
  unfold targetFlashWrite at hrun
  generalize targetEnterFlashMode drv t = x at hflash hrun
  obtain ⟨entered, t₁⟩ := x
  dsimp only at hflash hrun
  split at hrun
  · obtain ⟨⟨r, active, fs, d⟩, hsettle, hrun⟩ := Run.bind_eq_ok.1 hrun
    rw [hflash] at hsettle
    cases active with
    | none => cases hrun
    | some active =>
      cases r with
      | false => cases hrun
      | true =>
        have hgeom : fs.map (·.toFlashGeometry) = t.geometry :=
          (settleLoop_step drv.respects_true hsettle).1
        obtain ⟨-, hall⟩ := settleLoop_closes hsettle
        -- a region that does not contain the address is quiet
        have hout : ∀ (j : Nat) (f : TargetFlash), fs[j]? = some f → ¬ f.Contains dest →
            f.Quiet := by
          intro j f hf hc
          rcases hall j f hf with hq | ⟨hsame, hc' | hb⟩
          · exact hq
          · exact absurd hc' hc
          · rcases eq_or_ne j k with rfl | hj
            · exact .of_none (h.live f hsame hb) hb
            · exact h.quiet j f hsame hj
        simp only [if_true] at hrun
        cases hfor : targetFlashForAddr { t₁ with flash := fs, dev := d } dest with
        | none =>
          cases src with
          | nil =>
            cases hrun
            refine ⟨active, fun j f hf _ => ?_, fun f hf _ => ?_⟩
            all_goals
              have hno : ¬ f.Contains dest := by
                intro hc
                have := List.findIdx?_eq_none_iff.1 hfor f (List.mem_of_getElem? hf)
                simp [hc] at this
            · exact hout j f hf hno
            · exact (hout active f hf hno).1
          | cons c cs =>
            rw [List.length_cons, writeLoop, hfor] at hrun
            cases hrun
        | some i =>
          obtain ⟨g, hg, hgc⟩ := targetFlashForAddr_some hfor
          have hdis' : MapDisjoint (fs.map (·.toFlashGeometry)) := by rwa [hgeom]
          have hlive : OneLive fs i := by
            constructor
            · intro j f hf hj
              exact hout j f hf fun hc => hj (hdis'.eq hf hg hc hgc)
            · intro f hf hb
              rcases hall i f hf with hq | ⟨hsame, -⟩
              · exact hq.1
              · rcases eq_or_ne i k with rfl | hik
                · exact h.live f hsame hb
                · exact (h.quiet i f hsame hik).1
          exact writeLoop_oneLive (t := { t₁ with flash := fs, dev := d }) hlive (.inr hfor) hrun
  · cases hrun

/-! ## Erasing from idle regions -/

/-- No buffer anywhere, and no operation but in the active region. -/
structure EraseLive (fs : List TargetFlash) (active : Nat) : Prop where
  buf : ∀ f ∈ fs, f.buf = none
  operation : ∀ (j : Nat) (f : TargetFlash), fs[j]? = some f → j ≠ active → f.operation = .none

/-- Run a region function that leaves no buffer on a region, when the other ones have no
operation. -/
theorem EraseLive.onFlash {t : Target δ} {i : Nat} (hbuf : ∀ f ∈ t.flash, f.buf = none)
    (hother : ∀ (j : Nat) (f : TargetFlash), t.flash[j]? = some f → j ≠ i → f.operation = .none)
    {op : TargetFlash → δ → Bool × TargetFlash × δ}
    (hop : ∀ f d, f.buf = none → (op f d).2.1.buf = none) :
    EraseLive (t.onFlash i op).2.flash i := by
  cases hf : t.flash[i]? with
  | none =>
    unfold Target.onFlash
    rw [hf]
    exact ⟨hbuf, hother⟩
  | some f =>
    rw [Target.onFlash_of_getElem? hf]
    refine ⟨fun g hg => ?_, fun j g hg hj => ?_⟩
    · rcases List.mem_or_eq_of_mem_set hg with hg | rfl
      · exact hbuf g hg
      · exact hop f t.dev (hbuf f (List.mem_of_getElem? hf))
    · rw [List.getElem?_set_ne (Ne.symm hj)] at hg
      exact hother j g hg hj

/-- Closing a region does not make a buffer. -/
theorem flashDone_buf {f : TargetFlash} (d : δ) (h : f.buf = none) :
    (flashDone drv f d).2.1.buf = none := by
  obtain ⟨-, -, hb | ⟨-, heq⟩⟩ := flashDone_spec drv f d
  · exact hb
  · rw [heq]
    exact h

/-- Neither does opening one. -/
theorem flashPrepare_buf {f : TargetFlash} (op : FlashOperation) (d : δ) (h : f.buf = none) :
    (flashPrepare drv f op d).2.1.buf = none := by
  unfold flashPrepare
  split
  · exact h
  have hdone : (if f.operation ≠ .none then flashDone drv f d else (true, f, d)).2.1.buf =
      none := by
    split
    · exact flashDone_buf d h
    · exact h
  generalize (if f.operation ≠ .none then flashDone drv f d else (true, f, d)) = x at hdone ⊢
  obtain ⟨r, f₁, d₁⟩ := x
  dsimp only at hdone ⊢
  split
  · split
    · exact hdone
    · exact hdone
  · exact hdone

/-- The end of an operation in the active region leaves every region idle. -/
theorem EraseLive.done {t : Target δ} {active : Nat} (h : EraseLive t.flash active) :
    ∀ f ∈ (t.onFlash active (flashDone drv)).2.flash, f.operation = .none ∧ f.buf = none := by
  have hlive : EraseLive (t.onFlash active (flashDone drv)).2.flash active :=
    EraseLive.onFlash h.buf h.operation fun f d => flashDone_buf d
  intro f hmem
  refine ⟨?_, hlive.buf f hmem⟩
  obtain ⟨j, hj⟩ := List.mem_iff_getElem?.1 hmem
  rcases eq_or_ne j active with rfl | hne
  · cases hg : t.flash[j]? with
    | none =>
      unfold Target.onFlash at hj
      rw [hg] at hj
      dsimp only at hj
      rw [hg] at hj
      cases hj
    | some g =>
      rw [Target.onFlash_of_getElem? hg,
        List.getElem?_set_self (List.getElem?_eq_some_iff.1 hg).1] at hj
      cases hj
      exact (flashDone_spec drv g t.dev).2.1
  · exact hlive.operation j f hj hne

/-- After an erase that succeeds all regions are idle. -/
theorem eraseLoop_idle :
    ∀ {fuel : Nat} {t t' : Target δ} {active addr len : Nat} {result : Bool},
      EraseLive t.flash active → eraseLoop drv fuel t active addr len result = (true, t') →
        ∀ f ∈ t'.flash, f.operation = .none ∧ f.buf = none := by
  intro fuel
  induction fuel with
  | zero =>
    intro t t' active addr len result h hrun
    cases len with
    | zero =>
      rw [eraseLoop] at hrun
      obtain ⟨-, rfl⟩ := Prod.mk.inj hrun
      exact h.done
    | succ len => cases hrun
  | succ fuel ih =>
    intro t t' active addr len result h hrun
    cases len with
    | zero =>
      rw [eraseLoop] at hrun
      obtain ⟨-, rfl⟩ := Prod.mk.inj hrun
      exact h.done
    | succ len =>
      obtain ⟨i, t₁, f, t₂, t₃, -, hswitch, -, hprep, herase, -, hrest⟩ := eraseLoop_succ drv hrun
      -- the region that the erase has left is closed
      have h₁ : (∀ f ∈ t₁.flash, f.buf = none) ∧ ∀ (j : Nat) (f : TargetFlash),
          t₁.flash[j]? = some f → j ≠ i → f.operation = .none := by
        unfold switchErase at hswitch
        split at hswitch
        · have hdone : ∀ f ∈ (t.onFlash active (flashDone drv)).2.flash,
              f.operation = .none ∧ f.buf = none := h.done
          rw [hswitch] at hdone
          exact ⟨fun f hf => (hdone f hf).2, fun j f hf _ => (hdone f (List.mem_of_getElem? hf)).1⟩
        · next heq =>
          cases hswitch
          rw [not_not.1 heq]
          exact ⟨h.buf, h.operation⟩
      have h₂ : EraseLive (t₁.onFlash i fun f => flashPrepare drv f .erase).2.flash i :=
        EraseLive.onFlash h₁.1 h₁.2 fun f d => flashPrepare_buf .erase d
      rw [hprep] at h₂
      have h₃ : EraseLive (t₂.onFlash i
          (flashErase drv (alignDown addr f.blocksize) f.blocksize)).2.flash i :=
        EraseLive.onFlash h₂.buf h₂.operation fun _ _ hb => hb
      rw [herase] at h₃
      exact ih h₃ hrest

/-- An erase from idle regions that returned true leaves them idle. -/
theorem targetFlashErase_idle {t t' : Target δ} {addr len : Nat}
    (hidle : ∀ f ∈ t.flash, f.operation = .none ∧ f.buf = none)
    (h : targetFlashErase drv t addr len = (true, t')) :
    ∀ f ∈ t'.flash, f.operation = .none ∧ f.buf = none := by
  have hflash := targetEnterFlashMode_flash drv t
  unfold targetFlashErase at h
  generalize targetEnterFlashMode drv t = x at hflash h
  obtain ⟨entered, t₁⟩ := x
  dsimp only at hflash h
  split at h
  · split at h
    · cases h
    next active _ =>
    rw [← hflash] at hidle
    exact eraseLoop_idle ⟨fun f hf => (hidle f hf).2,
      fun j f hf _ => (hidle f (List.mem_of_getElem? hf)).1⟩ h
  · cases h

/-! ## Sessions -/

/-- Writes with success keep at most one region live. -/
theorem OneLive.writes :
    ∀ {ws : List (Nat × List UInt8)} {t t' : Target δ} {k : Nat}, MapDisjoint t.geometry →
      OneLive t.flash k → RunsTo drv t (ws.map fun w => .write w.1 w.2) t' →
      ∃ k', OneLive t'.flash k' := by
  intro ws
  induction ws with
  | nil =>
    intro t t' k _ h hrun
    cases hrun
    exact ⟨k, h⟩
  | cons w ws ih =>
    intro t t' k hdis h hrun
    obtain ⟨t₁, hwrite, hrun⟩ := runsTo_cons.1 hrun
    have hgeom := (targetFlashWrite_moves drv.respects_true hwrite).geometry
    obtain ⟨k₁, h₁⟩ := targetFlashWrite_oneLive hdis h hwrite
    exact ih (by rw [hgeom]; exact hdis) h₁ hrun

/-- Behind an erase from idle regions and writes, all with success, at most one region is live. -/
theorem RunsTo.oneLive {t t' : Target δ} {addr len : Nat} {ws : List (Nat × List UInt8)}
    (hdis : MapDisjoint t.geometry) (hidle : ∀ f ∈ t.flash, f.operation = .none ∧ f.buf = none)
    (h : RunsTo drv t (.erase addr len :: ws.map fun w => .write w.1 w.2) t') :
    ∃ k, OneLive t'.flash k := by
  obtain ⟨t₁, herase, h⟩ := runsTo_cons.1 h
  replace herase := Except.ok.inj herase
  have hgeom := (targetFlashErase_moves drv.respects_true t addr len).geometry
  rw [herase] at hgeom
  have hidle₁ := targetFlashErase_idle hidle herase
  have hone : OneLive t₁.flash 0 :=
    ⟨fun j f hf _ => .of_none (hidle₁ f (List.mem_of_getElem? hf)).1
      (hidle₁ f (List.mem_of_getElem? hf)).2, fun f hf _ => (hidle₁ f (List.mem_of_getElem? hf)).1⟩
  exact hone.writes (by rw [hgeom]; exact hdis) h

variable (drv)

/-! ## Modes -/

/-- Flash mode is what `target_enter_flash_mode` answers. -/
theorem targetEnterFlashMode_flashMode (t : Target δ) :
    (targetEnterFlashMode drv t).2.flashMode = (targetEnterFlashMode drv t).1 := by
  unfold targetEnterFlashMode
  split
  · next h => exact h
  · rfl

/-- In flash mode there is nothing to enter. -/
theorem targetEnterFlashMode_of_flashMode {t : Target δ} (h : t.flashMode = true) :
    targetEnterFlashMode drv t = (true, t) := by
  unfold targetEnterFlashMode
  rw [if_pos h]

/-- Flash mode is over, whatever the driver answers. -/
theorem targetExitFlashMode_flashMode (t : Target δ) :
    (targetExitFlashMode drv t).2.flashMode = false := by
  unfold targetExitFlashMode
  split
  · next h => simpa using h
  · rfl

/-- A target that entered flash mode for an erase stays in it. -/
theorem targetFlashErase_flashMode (t : Target δ) (addr len : Nat) :
    (targetFlashErase drv t addr len).2.flashMode = (targetEnterFlashMode drv t).1 := by
  have hmode := targetEnterFlashMode_flashMode drv t
  unfold targetFlashErase
  generalize targetEnterFlashMode drv t = x at hmode ⊢
  obtain ⟨entered, t₁⟩ := x
  dsimp only at hmode ⊢
  split
  · split
    · exact hmode
    · exact (eraseLoop_keeps drv.respects_true).flashMode.trans hmode
  · exact hmode

/-- A write does not leave flash mode. -/
theorem targetFlashWrite_flashMode {t t' : Target δ} {dest : Nat} {src : List UInt8} {r : Bool}
    (hmode : t.flashMode = true) (h : targetFlashWrite drv t dest src = .ok (r, t')) :
    t'.flashMode = true := by
  unfold targetFlashWrite at h
  rw [targetEnterFlashMode_of_flashMode drv hmode] at h
  simp only [if_true] at h
  obtain ⟨⟨r₁, active, fs, d⟩, -, h⟩ := Run.bind_eq_ok.1 h
  cases active with
  | none =>
    cases h
    exact hmode
  | some active =>
    dsimp only at h
    split at h
    · exact (writeLoop_keeps drv.respects_true h).flashMode.trans hmode
    · cases h
      exact hmode

/-! ## The last flush -/

/-- Everything the preparation of a pending region for writing can do. -/
theorem flashPrepare_write_buf {f f₁ : TargetFlash} {d d₁ : δ} {r : Bool}
    (h : flashPrepare drv f .write d = (r, f₁, d₁)) :
    (r = true ∧ f₁.operation = .write ∨ r = false ∧ f₁.operation = .none) ∧
      (f.operation = .none → f₁.buf = f.buf ∧
        r = (drv.callPrepare { f with operation := .write } d).1) ∧
      (f.operation = .erase → f₁.buf = none) := by
  unfold flashPrepare at h
  split at h
  · next hop =>
    cases h
    rw [hop]
    exact ⟨.inl ⟨rfl, rfl⟩, nofun, nofun⟩
  next hop =>
  cases hf : f.operation with
  | write => exact absurd hf hop
  | none =>
    simp only [hf, ne_eq, not_true_eq_false, if_false, if_true] at h
    rcases hcall : drv.callPrepare { f with operation := .write } d with ⟨ok, d₂⟩
    rw [hcall] at h
    cases ok with
    | true =>
      cases h
      exact ⟨.inl ⟨rfl, rfl⟩, fun _ => ⟨rfl, rfl⟩, nofun⟩
    | false =>
      cases h
      exact ⟨.inr ⟨rfl, rfl⟩, fun _ => ⟨rfl, rfl⟩, nofun⟩
  | erase =>
    have hdone : flashDone drv f d =
        ((drv.callDone f d).1, { f with buf := none, operation := .none },
          (drv.callDone f d).2) := by
      unfold flashDone
      rw [if_neg (by rw [hf]; exact nofun)]
    simp only [hf, ne_eq, reduceCtorEq, not_false_eq_true, if_true, hdone] at h
    refine ⟨?_, nofun, fun _ => ?_⟩
    · split at h
      · split at h
        · cases h
          exact .inl ⟨rfl, rfl⟩
        · cases h
          exact .inr ⟨rfl, rfl⟩
      · cases h
        exact .inr ⟨rfl, rfl⟩
    · split at h
      · split at h
        · cases h
          rfl
        · cases h
          rfl
      · cases h
        rfl

/-- A region that was closed is idle, and keeps its buffer only when it was idle with one that is
not pending or could not be prepared. -/
theorem flashFlushDone_idle {f f' : TargetFlash} {d d' : δ} {r : Bool}
    (h : flashFlushDone drv f d = .ok (r, f', d')) :
    f'.operation = .none ∧ (f'.buf = none ↔ (f.operation = .none → f.buf.isSome →
      f.Pending ∧ (drv.callPrepare { f with operation := .write } d).1 = true)) := by
  obtain ⟨⟨r₁, f₁, d₁⟩, hflush, -⟩ := Run.bind_eq_ok.1 h
  rw [flashFlushDone_of_flush drv hflush] at h
  simp only [Except.ok.injEq, Prod.mk.injEq] at h
  obtain ⟨-, rfl, -⟩ := h
  obtain ⟨-, hidle, -⟩ := flashDone_spec drv f₁ d₁
  refine ⟨hidle, ?_⟩
  have hbuf : (flashDone drv f₁ d₁).2.1.buf = none ↔ (f₁.operation = .none → f₁.buf = none) := by
    unfold flashDone
    split
    · next hn => simp [hn]
    · next hn => simp [hn]
  rw [hbuf]
  unfold flashBufferedFlush at hflush
  split at hflush
  · next hp =>
    rcases hprep : flashPrepare drv f .write d with ⟨prepared, f₂, d₂⟩
    obtain ⟨hop, hnone, herase⟩ := flashPrepare_write_buf drv hprep
    simp only [hprep] at hflush
    split at hflush
    · next ht =>
      obtain ⟨⟨r', d₃⟩, -, hflush⟩ := Run.bind_eq_ok.1 hflush
      cases hflush
      refine iff_of_true (fun hn => ?_) fun hn _ => ⟨hp, (hnone hn).2 ▸ ht⟩
      rcases hop with ⟨-, hw⟩ | ⟨hf, -⟩
      · have hn : f₂.operation = .none := hn
        rw [hw] at hn
        cases hn
      · rw [ht] at hf
        cases hf
    · next hfail =>
      cases hflush
      rcases hop with ⟨ht, -⟩ | ⟨-, hn⟩
      · exact absurd ht hfail
      cases hf : f.operation with
      | none =>
        refine iff_of_false (fun hb => ?_) fun hall => ?_
        · have := hb hn
          rw [(hnone hf).1] at this
          rw [TargetFlash.Pending, this] at hp
          exact absurd hp.1 (by simp)
        · exact hfail ((hnone hf).2 ▸ (hall rfl hp.1).2)
      | erase => exact iff_of_true (fun _ => herase hf) fun h => by cases h
      | write =>
        -- a region in operation `WRITE` needs no preparation
        rw [flashPrepare, if_pos hf] at hprep
        cases hprep
        exact absurd rfl hfail
  · next hp =>
    cases hflush
    constructor
    · intro hb hn hsome
      rw [hb hn] at hsome
      cases hsome
    · intro hall hn
      by_contra hb
      exact hp (hall hn (Option.isSome_iff_ne_none.2 hb)).1

/-- The next flush empties the buffer of the region: if the region is in no operation and has a
buffer, something is pending and the region can be prepared for writing. -/
def TargetFlash.Closes (f : TargetFlash) (d : δ) : Prop :=
  f.operation = .none → f.buf.isSome →
    f.Pending ∧ (drv.callPrepare { f with operation := .write } d).1 = true

/-- With one live region, the last flush empties the buffers exactly when each buffer can be
flushed. -/
theorem completeLoop_idle :
    ∀ {fs fs' : List TargetFlash} {k : Nat} {result r : Bool} {d d' : δ}, OneLive fs k →
      completeLoop drv fs result d = .ok (r, fs', d') →
        ((∀ f ∈ fs', f.operation = .none ∧ f.buf = none) ↔ ∀ f ∈ fs, f.Closes drv d) := by
  intro fs
  induction fs with
  | nil =>
    intro fs' k result r d d' _ h
    cases h
    simp
  | cons f fs ih =>
    intro fs' k result r d d' hone h
    obtain ⟨⟨ok, f₁, d₁⟩, hclose, h⟩ := Run.bind_eq_ok.1 h
    obtain ⟨⟨r₂, fs₂, d₂⟩, hrest, h⟩ := Run.bind_eq_ok.1 h
    cases h
    obtain ⟨hop, hbuf⟩ := flashFlushDone_idle drv hclose
    rw [List.forall_mem_cons, List.forall_mem_cons]
    have hhead : (f₁.operation = .none ∧ f₁.buf = none) ↔ f.Closes drv d :=
      ⟨fun h => hbuf.1 h.2, fun h => ⟨hop, hbuf.2 h⟩⟩
    rw [hhead]
    refine and_congr_right fun _ => ?_
    cases k with
    | zero =>
      -- the live region is the first one, and the others are quiet
      have hquiet : ∀ g ∈ fs, g.Quiet := by
        intro g hg
        obtain ⟨j, hj⟩ := List.mem_iff_getElem?.1 hg
        exact hone.quiet (j + 1) g hj (Nat.succ_ne_zero j)
      have hall : OneLive fs 0 :=
        ⟨fun j g hg _ => hquiet g (List.mem_of_getElem? hg),
          fun g hg _ => (hquiet g (List.mem_of_getElem? hg)).1⟩
      rw [ih hall hrest]
      refine forall₂_congr fun g hg => ?_
      unfold TargetFlash.Closes
      simp only [(hquiet g hg).2, false_and]
    | succ k =>
      have hq : f.Quiet := hone.quiet 0 f rfl (Nat.succ_ne_zero k).symm
      rw [flashFlushDone_of_quiet hq] at hclose
      cases hclose
      exact ih ⟨fun j g hg hj => hone.quiet (j + 1) g hg (by omega), fun g hg => hone.live g hg⟩
        hrest

/-- A `target_flash_complete` in flash mode leaves no session exactly when each buffer can be
flushed. -/
theorem targetFlashComplete_idle {t t' : Target δ} {k : Nat} {r : Bool} (hmode : t.flashMode = true)
    (hone : OneLive t.flash k) (h : targetFlashComplete drv t = .ok (r, t')) :
    t'.Idle ↔ ∀ f ∈ t.flash, f.Closes drv t.dev := by
  unfold targetFlashComplete at h
  rw [if_pos hmode] at h
  obtain ⟨⟨r₁, fs, d⟩, hloop, h⟩ := Run.bind_eq_ok.1 h
  have hflash := targetExitFlashMode_flash drv { t with flash := fs, dev := d }
  have hexit := targetExitFlashMode_flashMode drv { t with flash := fs, dev := d }
  rcases hx : targetExitFlashMode drv { t with flash := fs, dev := d } with ⟨left, t₁⟩
  simp only [hx, Except.ok.injEq, Prod.mk.injEq] at hflash hexit h
  obtain ⟨-, rfl⟩ := h
  rw [← completeLoop_idle drv hone hloop, ← hflash]
  exact ⟨fun hidle => hidle.regions, fun hall => ⟨hexit, hall⟩⟩

end

end Blackmagic
