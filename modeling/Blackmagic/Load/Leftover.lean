import Blackmagic.Flash.Live
import Blackmagic.Flash.Origin
import Blackmagic.Load.Image
import Blackmagic.Load.Calls

/-!
# What a failed load leaves behind

The flash session of a target lives in `target_flash.c`: flash mode, the operation of each region
and its write buffer. The loader ends it with `target_flash_complete`, which it calls after the last
write only: a load that fails between the erase and there leaves the session open. The other two
ends are clean, up to one case: a load that fails before it enters flash mode has not begun a
session, and one that fails at `target_flash_complete` or behind it has ended it, but a region whose
`prepare` fails in the last flush keeps its buffer. Whether a load gets to `target_flash_complete`
is a matter of the file, which has to deliver every segment, and of the target, which has to take
every call (`load_leavesNothing_iff`). Once no buffer is left, no later call programs a byte that it
was not given (`Target.Idle.leavesNothing`).
-/

namespace Blackmagic

open Word Effect

section
variable {δ : Type}

/-- Nothing is left of a session: the target is idle, and what calls program from here on is the
erased value, or was handed over for its address by one of them. -/
structure LeavesNothing (t : Target (δ × List FlashEvent)) : Prop where
  idle : t.Idle
  later : ∀ (cs : List (FlashDriver δ × FlashCall)) (rs : List Bool)
    (t' : Target (δ × List FlashEvent)), flashRun t (loggedCalls cs) = .ok (rs, t') →
      ∃ evs, t'.dev.2 = t.dev.2 ++ evs ∧
        ∀ ev ∈ evs, ev.Programs fun a v => ∃ c ∈ cs, c.2.Sends a v

/-- An idle target has nothing that later calls could program. -/
theorem Target.Idle.leavesNothing {t : Target (δ × List FlashEvent)} (h : t.Idle)
    (hwf : ∀ g ∈ t.geometry, g.Wf) : LeavesNothing t :=
  ⟨h, fun _ _ _ hrun => flashRun_programs
    (fun f hf => ⟨hwf _ (List.mem_map_of_mem hf), (h.regions f hf).2⟩) hrun⟩

/-! ## What a load asks of the file and of the target -/

/-- The file delivers every chunk of the segments. -/
def File.Whole (f : File) (segs : List Elf32Phdr) : Prop :=
  ∀ ph ∈ segs, f.deliveredChunks ph = Bytes.chunks chunkSize ph.filesz

/-- The chunks of segments, each with its address. -/
def File.segmentPieces (f : File) (segs : List Elf32Phdr) : List (Nat × List UInt8) :=
  segs.flatMap fun ph => f.piecesOf (ph, Bytes.chunks chunkSize ph.filesz)

/-- The calls of a session up to the last write. -/
def sessionCalls (addr len : Nat) (ws : List (Nat × List UInt8)) : List FlashCall :=
  .erase addr len :: ws.map fun w => .write w.1 w.2

/-- A raw image as a segment. -/
def File.rawSegment (f : File) (base : Nat) : Elf32Phdr := ⟨1, 0, base, f.contents.length⟩

variable (drv : FlashDriver δ)

/-- A load of segments behind the erase of a span ends its session, if it begins one: flash mode is
refused, or the file delivers the segments, the target takes the erase and every chunk, and each
buffer that is left can be flushed. -/
def EndsSession (f : File) (segs : List Elf32Phdr) (addr len : Nat) (t : Target δ) : Prop :=
  (targetEnterFlashMode drv t).1 = false ∨
    f.Whole segs ∧ ∃ t₁, RunsTo drv t (sessionCalls addr len (f.segmentPieces segs)) t₁ ∧
      ∀ g ∈ t₁.flash, g.Closes drv t₁.dev

/-! ## The loops as runs -/

variable {drv} {memRead : (addr len : Nat) → δ → Option (List UInt8) × δ} {f : File} {α : Type}

/-- The programming loop returns exactly when the file delivers the chunks and the target takes
them. -/
theorem ends_programLoop_runs {short : String} :
    ∀ {ns : List Nat} {pos addr : Nat} {t : Target δ},
      Ends (programLoop (uiSink memRead drv) f short ns pos addr) t
        (fun _ t' => f.delivered ns pos = ns ∧
          RunsTo drv t ((pieces f.contents ns pos addr).map fun w => .write w.1 w.2) t')
        fun _ _ => ¬ (f.delivered ns pos = ns ∧
          ∃ t', RunsTo drv t ((pieces f.contents ns pos addr).map fun w => .write w.1 w.2) t') := by
  intro ns
  induction ns with
  | nil => exact fun {_ _ _} => ⟨rfl, rfl⟩
  | cons n ns ih =>
    intro pos addr t
    rw [programLoop]
    simp only [ends_bind, ends_getOrFail]
    refine ⟨fun data hdata => ?_, fun hnone => ?_⟩
    · have hread : (f.fread pos n).isSome := by rw [hdata]; rfl
      obtain rfl := (File.length_fread hdata).2
      have hdel : f.delivered (n :: ns) pos = n :: ns ↔ f.delivered ns (pos + n) = ns := by
        rw [File.delivered, if_pos hread, List.cons.injEq]
        exact and_iff_right rfl
      rw [hdel]
      simp only [pieces, List.map_cons, runsTo_cons]
      refine ends_callSink (fun ok t₁ hwrite => ?_) fun e hfault => ?_
      · change flashStep drv t (.write addr (Bytes.slice f.contents pos n)) = .ok (ok, t₁) at hwrite
        rw [ends_failUnless]
        refine ⟨?_, ?_⟩
        · rintro rfl
          refine ih.imp (fun _ t' h => ⟨h.1, t₁, hwrite, h.2⟩) fun _ _ h => ?_
          rintro ⟨hall, t', t₂, hstep, hrun⟩
          rw [hwrite] at hstep
          cases hstep
          exact h ⟨hall, t', hrun⟩
        · rintro rfl ⟨-, t', t₂, hstep, -⟩
          rw [hwrite] at hstep
          cases hstep
      · rintro ⟨-, t', t₂, hstep, -⟩
        change flashStep drv t (.write addr (Bytes.slice f.contents pos n)) = .error e at hfault
        rw [hfault] at hstep
        cases hstep
    · rintro ⟨hdel, -⟩
      rw [File.delivered, hnone] at hdel
      cases hdel

/-- So does the programming of one segment. -/
theorem ends_segment_runs {short seek : String} {ph : Elf32Phdr} (hne : ph.filesz ≠ 0)
    {t : Target δ} :
    Ends (do
        failUnless (f.fseek ph.offset) seek
        programLoop (uiSink memRead drv) f short (Bytes.chunks chunkSize ph.filesz) ph.offset
          ph.paddr) t
      (fun _ t' => f.deliveredChunks ph = Bytes.chunks chunkSize ph.filesz ∧
        RunsTo drv t ((f.piecesOf (ph, Bytes.chunks chunkSize ph.filesz)).map
          fun w => .write w.1 w.2) t')
      fun _ _ => ¬ (f.deliveredChunks ph = Bytes.chunks chunkSize ph.filesz ∧
        ∃ t', RunsTo drv t ((f.piecesOf (ph, Bytes.chunks chunkSize ph.filesz)).map
          fun w => .write w.1 w.2) t') := by
  unfold File.deliveredChunks
  rw [ends_bind, ends_failUnless]
  refine ⟨fun hseek => ?_, fun hseek => ?_⟩
  · rw [if_pos hseek]
    exact ends_programLoop_runs
  · rw [if_neg (by simp [hseek])]
    rintro ⟨hnil, -⟩
    have hsum := Bytes.sum_chunks chunkSize ph.filesz
    rw [← hnil] at hsum
    exact hne hsum.symm

/-- Pass 2 returns exactly when the file delivers every segment to load and the target takes every
chunk. -/
theorem ends_segmentLoop_runs {eh : Elf32Ehdr} :
    ∀ {is : List Nat} {phs : List Elf32Phdr} {done total : Nat} {t : Target δ},
      is.mapM (f.phdr eh) = some phs →
      Ends (segmentLoop (uiSink memRead drv) f eh is done total) t
        (fun _ t' => f.Whole (loading phs) ∧
          RunsTo drv t ((f.segmentPieces (loading phs)).map fun w => .write w.1 w.2) t')
        fun _ _ => ¬ (f.Whole (loading phs) ∧
          ∃ t', RunsTo drv t ((f.segmentPieces (loading phs)).map fun w => .write w.1 w.2) t') := by
  intro is
  induction is with
  | nil =>
    intro phs done total t h
    cases h
    exact ⟨fun ph hph => absurd hph List.not_mem_nil, rfl⟩
  | cons i is ih =>
    intro phs done total t h
    rw [List.mapM_cons] at h
    obtain ⟨ph, hph, h⟩ := Option.bind_eq_some_iff.1 h
    obtain ⟨phs', hphs', h⟩ := Option.bind_eq_some_iff.1 h
    cases h
    rw [segmentLoop]
    simp only [ends_bind, ends_readPhdr, ends_get, segFlashable_eq (uiSink_inFlash memRead drv),
      hph]
    refine ⟨?_, fun hnone => by cases hnone⟩
    rintro _ ⟨⟩
    by_cases hloads : ph.Loads
    · have hcons : loading (ph :: phs') = ph :: loading phs' := by simp [loading, hloads]
      have hpieces : f.segmentPieces (ph :: loading phs') =
          f.piecesOf (ph, Bytes.chunks chunkSize ph.filesz) ++ f.segmentPieces (loading phs') :=
        List.flatMap_cons
      simp only [hloads, decide_true, if_true, hcons, hpieces, List.map_append, runsTo_append,
        File.Whole, List.forall_mem_cons]
      rw [ends_bind]
      refine (ends_segment_runs hloads.2 : Ends (programSegment (uiSink memRead drv) f ph) t _
        _).imp
        (fun _ t₁ hone => ?_) fun _ _ hno => ?_
      · refine (ih hphs').imp (fun _ t' hrest => ?_) fun _ _ hno => ?_
        · exact ⟨⟨hone.1, hrest.1⟩, t₁, hone.2, hrest.2⟩
        · rintro ⟨⟨-, hall⟩, t', t₂, hfirst, hrest⟩
          obtain rfl := hone.2.unique hfirst
          exact hno ⟨hall, t', hrest⟩
      · rintro ⟨⟨hhead, -⟩, t', t₂, hfirst, -⟩
        exact hno ⟨hhead, t₂, hfirst⟩
    · have hcons : loading (ph :: phs') = loading phs' := by simp [loading, hloads]
      simp only [hloads, decide_false, Bool.false_eq_true, if_false, hcons]
      exact ih hphs'

/-! ## Sessions -/

/-- In flash mode before, in flash mode after; and with the same map. -/
structure StaysInMode (t t' : Target δ) : Prop where
  flashMode : t.flashMode = true → t'.flashMode = true
  geometry : t'.geometry = t.geometry

/-- The flash session is the same. -/
structure SameSession (t t' : Target δ) : Prop where
  flash : t'.flash = t.flash
  flashMode : t'.flashMode = t.flashMode

/-- Being idle depends on the session only. -/
theorem SameSession.idle {t t' : Target δ} (h : SameSession t t') : t'.Idle ↔ t.Idle := by
  constructor
  · rintro ⟨h1, h2⟩
    exact ⟨h.flashMode ▸ h1, h.flash ▸ h2⟩
  · rintro ⟨h1, h2⟩
    exact ⟨h.flashMode ▸ h1, h.flash ▸ h2⟩

/-- A target stays in its mode. -/
theorem StaysInMode.refl (t : Target δ) : StaysInMode t t := ⟨id, rfl⟩

/-- Two steps that stay in the mode. -/
theorem StaysInMode.trans (t₁ t₂ t₃ : Target δ) (h : StaysInMode t₁ t₂) (h' : StaysInMode t₂ t₃) :
    StaysInMode t₁ t₃ := ⟨h'.flashMode ∘ h.flashMode, h'.geometry.trans h.geometry⟩

/-- A target is in its own session. -/
theorem SameSession.refl (t : Target δ) : SameSession t t := ⟨rfl, rfl⟩

/-- Two steps in one session. -/
theorem SameSession.trans (t₁ t₂ t₃ : Target δ) (h : SameSession t₁ t₂) (h' : SameSession t₂ t₃) :
    SameSession t₁ t₃ := ⟨h'.flash.trans h.flash, h'.flashMode.trans h.flashMode⟩

/-- Reading memory keeps the session. -/
theorem targetMemRead_sameSession (addr len : Nat) (t : Target δ) :
    SameSession t (targetMemRead memRead t addr len).2 := ⟨rfl, rfl⟩

/-- A write of the sink stays in flash mode. -/
theorem uiSink_write_staysInMode (addr : Nat) (data : List UInt8) (t : Target δ) (ok : Bool)
    (t' : Target δ) (h : (uiSink memRead drv).write addr data t = .ok (ok, t')) :
    StaysInMode t t' :=
  ⟨fun hmode => targetFlashWrite_flashMode drv hmode h,
    (targetFlashWrite_moves drv.respects_true h).geometry⟩

/-- What the erase of a load leaves: flash mode, or no session at all. -/
structure Entered (drv : FlashDriver δ) (t t' : Target δ) : Prop where
  geometry : t'.geometry = t.geometry
  session : (targetEnterFlashMode drv t).1 = true ∧ t'.flashMode = true ∨
    (targetEnterFlashMode drv t).1 = false ∧ t'.flashMode = false ∧ t'.flash = t.flash

/-- An erase and what programs behind it: the target is in flash mode whatever fails, unless flash
mode is refused; and it returns exactly when the file delivers the segments and the target takes the
erase and every chunk. -/
theorem ends_body (drv : FlashDriver δ)
    (memRead : (addr len : Nat) → δ → Option (List UInt8) × δ) {rest : LoadM (Target δ) α}
    {whole : Prop} {ws : List (Nat × List UInt8)} (hkeeps : Keeps StaysInMode rest)
    (hruns : ∀ t, Ends rest t
      (fun _ t' => whole ∧ RunsTo drv t (ws.map fun w => .write w.1 w.2) t')
      fun _ _ => ¬ (whole ∧ ∃ t', RunsTo drv t (ws.map fun w => .write w.1 w.2) t'))
    (addr len : Nat) (t : Target δ) :
    Ends (do
        let erased ← callSink ((uiSink memRead drv).erase addr len)
        failUnless erased "erase failed"
        rest) t
      (fun _ t' => Entered drv t t' ∧ (targetEnterFlashMode drv t).1 = true ∧ whole ∧
        RunsTo drv t (sessionCalls addr len ws) t')
      fun _ t' => Entered drv t t' ∧
        ¬ (whole ∧ ∃ t', RunsTo drv t (sessionCalls addr len ws) t') := by
  have hmode := targetFlashErase_flashMode drv t addr len
  have hgeom := (targetFlashErase_moves drv.respects_true t addr len).geometry
  unfold sessionCalls
  simp only [runsTo_cons]
  rw [ends_bind]
  refine ends_callSink (fun erased t₁ herase => ?_) fun e herr => by cases herr
  have hstep : flashStep drv t (.erase addr len) = .ok (erased, t₁) := herase
  have herase : targetFlashErase drv t addr len = (erased, t₁) := Except.ok.inj herase
  rw [herase] at hmode hgeom
  rw [ends_bind, ends_failUnless]
  cases hentered : (targetEnterFlashMode drv t).1 with
  | false =>
    have hrefused : targetFlashErase drv t addr len = (false, (targetEnterFlashMode drv t).2) := by
      unfold targetFlashErase
      generalize targetEnterFlashMode drv t = x at hentered ⊢
      obtain ⟨entered, t₂⟩ := x
      cases hentered
      rfl
    rw [herase] at hrefused
    obtain ⟨rfl, rfl⟩ := Prod.mk.inj hrefused
    have hleft : Entered drv t (targetEnterFlashMode drv t).2 :=
      ⟨hgeom, .inr ⟨hentered, hmode.trans hentered, targetEnterFlashMode_flash drv t⟩⟩
    refine ⟨(by rintro ⟨⟩), fun _ => ⟨hleft, ?_⟩⟩
    rintro ⟨-, t', t₂, hok, -⟩
    rw [hstep] at hok
    cases hok
  | true =>
    rw [hentered] at hmode
    refine ⟨?_, ?_⟩
    · rintro rfl
      refine ((hkeeps t₁).and (hruns t₁)).imp (fun _ t' h => ?_) fun _ t' h => ?_
      · exact ⟨⟨h.1.geometry.trans hgeom, .inl ⟨hentered, h.1.flashMode hmode⟩⟩, rfl, h.2.1,
          t₁, hstep, h.2.2⟩
      · refine ⟨⟨h.1.geometry.trans hgeom, .inl ⟨hentered, h.1.flashMode hmode⟩⟩, ?_⟩
        rintro ⟨hall, t'', t₂, hok, hrun⟩
        rw [hstep] at hok
        cases hok
        exact h.2 ⟨hall, t'', hrun⟩
    · rintro rfl
      refine ⟨⟨hgeom, .inl ⟨hentered, hmode⟩⟩, ?_⟩
      rintro ⟨-, t', t₂, hok, -⟩
      rw [hstep] at hok
      cases hok

/-- A load that returns false has kept the map, and leaves the target idle exactly when it ends the
session that it begins. -/
theorem ends_session {segs : List Elf32Phdr} {addr len : Nat} {body : LoadM (Target δ) α}
    {verify : LoadM (Target δ) Unit} (result : α → LoadResult) {t : Target δ} (hidle : t.Idle)
    (hdis : MapDisjoint t.geometry)
    (hbody : Ends body t
      (fun _ t' => Entered drv t t' ∧ (targetEnterFlashMode drv t).1 = true ∧ f.Whole segs ∧
        RunsTo drv t (sessionCalls addr len (f.segmentPieces segs)) t')
      fun _ t' => Entered drv t t' ∧
        ¬ (f.Whole segs ∧ ∃ t', RunsTo drv t (sessionCalls addr len (f.segmentPieces segs)) t'))
    (hverify : Keeps SameSession verify) :
    Ends (do
        let x ← body
        let completed ← callSink (targetFlashComplete drv)
        failUnless completed "flash complete failed"
        verify
        pure (result x)) t (fun _ _ => True)
      fun e t' => ∀ err, e = .fail err →
        t'.geometry = t.geometry ∧ (t'.Idle ↔ EndsSession drv f segs addr len t) := by
  cases hrun : body t with
  | error e t' =>
    rw [ends_bind_of_error hrun]
    intro err _
    obtain ⟨⟨hgeom, hsession⟩, hno⟩ := hbody.error hrun
    refine ⟨hgeom, ?_⟩
    rcases hsession with ⟨hentered, hmode⟩ | ⟨hentered, hmode, hflash⟩
    · refine iff_of_false (fun h => ?_) ?_
      · rw [h.flashMode] at hmode
        cases hmode
      · rintro (hrefused | ⟨hwhole, t₁, hruns, -⟩)
        · rw [hentered] at hrefused
          cases hrefused
        · exact hno ⟨hwhole, t₁, hruns⟩
    · exact iff_of_true ⟨hmode, hflash ▸ hidle.regions⟩ (.inl hentered)
  | ok x t₂ =>
    obtain ⟨⟨hgeom, hsession⟩, hentered, hwhole, hruns⟩ := hbody.ok hrun
    have hmode : t₂.flashMode = true := by
      rcases hsession with ⟨-, hmode⟩ | ⟨hrefused, -⟩
      · exact hmode
      · rw [hentered] at hrefused
        cases hrefused
    have hends : EndsSession drv f segs addr len t ↔ ∀ g ∈ t₂.flash, g.Closes drv t₂.dev := by
      constructor
      · rintro (hrefused | ⟨-, t₁, hruns', hall⟩)
        · rw [hentered] at hrefused
          cases hrefused
        · rwa [hruns.unique hruns']
      · exact fun h => .inr ⟨hwhole, t₂, hruns, h⟩
    obtain ⟨k, hone⟩ := hruns.oneLive hdis hidle.regions
    rw [ends_bind_of_ok hrun, hends, ends_bind]
    refine ends_callSink (fun completed t₃ hcomplete => ?_) fun _ _ _ h => by cases h
    have hgeom₃ : t₃.geometry = t.geometry :=
      (targetFlashComplete_moves drv.respects_true hcomplete).geometry.trans hgeom
    have hthree := targetFlashComplete_idle drv hmode hone hcomplete
    rw [ends_bind, ends_failUnless]
    refine ⟨fun _ => ?_, fun _ _ _ => ⟨hgeom₃, hthree⟩⟩
    rw [ends_bind]
    refine (hverify t₃).imp (fun _ _ _ => trivial) fun _ t' h _ _ => ⟨?_, h.idle.trans hthree⟩
    rw [Target.geometry, h.flash]
    exact hgeom₃

/-! ## Loads -/

/-- A failing ELF load leaves the target idle when what it programs ends the session. -/
theorem ends_bmpLoadElf_idle {t : Target δ} (hidle : t.Idle) (hdis : MapDisjoint t.geometry) :
    Ends (bmpLoadElf (uiSink memRead drv) f) t (fun _ _ => True) fun e t' => ∀ err, e = .fail err →
      t'.geometry = t.geometry ∧ (t'.Idle ↔ ∀ eh phs, f.ehdr = some eh → f.phdrs eh = some phs →
        (loadSpan phs).nLoad ≠ 0 → EndsSession drv f (loading phs) (loadSpan phs).lo
          (sub32 (loadSpan phs).hi (loadSpan phs).lo) t) := by
  refine ends_bmpLoadElf rfl (fun eh phs heh hphs hload => ?_) fun hnone _ _ _ => ?_
  · have hall : (∀ eh' phs', f.ehdr = some eh' → f.phdrs eh' = some phs' →
        (loadSpan phs').nLoad ≠ 0 → EndsSession drv f (loading phs') (loadSpan phs').lo
          (sub32 (loadSpan phs').hi (loadSpan phs').lo) t) ↔
        EndsSession drv f (loading phs) (loadSpan phs).lo
          (sub32 (loadSpan phs).hi (loadSpan phs).lo) t := by
      refine ⟨fun h => h eh phs heh hphs hload, fun h eh' phs' heh' hphs' _ => ?_⟩
      rw [heh] at heh'
      cases heh'
      rw [hphs] at hphs'
      cases hphs'
      exact h
    simp only [hall]
    have hkeeps : Keeps StaysInMode
        (segmentLoop (uiSink memRead drv) f eh (List.range eh.phnum) 0 0) :=
      keeps_segmentLoop StaysInMode.refl StaysInMode.trans uiSink_write_staysInMode _ _ _ _
    have hverify : Keeps SameSession (verifySegments (uiSink memRead drv) f eh
        (fun addr len t => targetMemRead memRead t addr len) (List.range eh.phnum)) :=
      keeps_verifySegments SameSession.refl SameSession.trans targetMemRead_sameSession _ _
    have hbody := ends_body drv memRead hkeeps (fun _ => ends_segmentLoop_runs hphs)
      (loadSpan phs).lo
      (sub32 (loadSpan phs).hi (loadSpan phs).lo) t
    have hrun := ends_session (fun x => ⟨x.1, x.2, eh.entry⟩) hidle hdis hbody hverify
    simpa only [loadSegments, ends_bind, uiSink_complete, uiSink_read] using hrun
  · exact ⟨rfl, iff_of_true hidle fun eh phs heh hphs hload => absurd (hnone eh phs heh hphs) hload⟩

/-- A failing raw load likewise. -/
theorem ends_bmpLoadBin_idle {base : Nat} {t : Target δ} (hidle : t.Idle)
    (hdis : MapDisjoint t.geometry) :
    Ends (bmpLoadBin (uiSink memRead drv) f base) t (fun _ _ => True) fun e t' => ∀ err,
      e = .fail err → t'.geometry = t.geometry ∧ (t'.Idle ↔ (f.seeks f.contents.length →
        0 < f.contents.length → f.contents.length < 2 ^ 31 →
          EndsSession drv f [f.rawSegment base] base f.contents.length t)) := by
  have hkeeps : Keeps StaysInMode (failUnless (f.fseek 0) "seek (data)" >>= fun _ =>
      programLoop (uiSink memRead drv) f "short read (data)"
        (Bytes.chunks chunkSize f.contents.length) 0 base) :=
    (keeps_failUnless StaysInMode.refl _ _).bind StaysInMode.trans fun _ =>
      keeps_programLoop StaysInMode.refl StaysInMode.trans uiSink_write_staysInMode _ _ _ _
  have hverify : Keeps SameSession (verifyRange f
      (fun addr len (t : Target δ) => targetMemRead memRead t addr len) 0 base f.contents.length) :=
    keeps_verifyRange SameSession.refl SameSession.trans targetMemRead_sameSession _ _ _
  unfold bmpLoadBin
  rw [ends_bind, ends_failUnless]
  refine ⟨fun hseek => ?_, fun hseek _ _ => ⟨rfl, iff_of_true hidle fun h => ?_⟩⟩
  · rw [ends_bind, ends_failUnless, decide_eq_true_eq, decide_eq_false_iff_not]
    refine ⟨fun hsize => ?_, fun hsize _ _ =>
      ⟨rfl, iff_of_true hidle fun _ h1 h2 => absurd ⟨h1, h2⟩ hsize⟩⟩
    have hwhole : (∀ ph ∈ [f.rawSegment base],
        f.deliveredChunks ph = Bytes.chunks chunkSize ph.filesz) ↔
        f.deliveredChunks (f.rawSegment base) = Bytes.chunks chunkSize (f.rawSegment base).filesz :=
      List.forall_mem_singleton
    have hpieces : f.segmentPieces [f.rawSegment base] = f.piecesOf
        (f.rawSegment base, Bytes.chunks chunkSize (f.rawSegment base).filesz) := by
      simp [File.segmentPieces]
    have hne : (f.rawSegment base).filesz ≠ 0 := Nat.ne_of_gt hsize.1
    have hbody := ends_body drv memRead hkeeps (fun t => ends_segment_runs hne) base
      f.contents.length t
    rw [← hwhole, ← hpieces] at hbody
    have hrun := ends_session (fun _ => ⟨1, f.contents.length, base⟩) hidle hdis hbody hverify
    simp only [hseek, hsize, true_implies]
    simpa only [ends_bind, uiSink_complete, uiSink_read, uiSink_inFlash] using hrun
  · rw [hseek] at h
    cases h

/-- A failed load of an ELF file or of a raw image into an idle target leaves nothing of its session
exactly when it fails on the file before it begins one, or ends the one it begins. -/
theorem load_leavesNothing_iff {drv : FlashDriver δ}
    {memRead : (addr len : Nat) → δ → Option (List UInt8) × δ} {f : File}
    {t : Target (δ × List FlashEvent)} (hidle : t.Idle) (hmap : MapWf t.geometry) :
    (∀ err t', bmpLoadElf (uiSink (loggedRead memRead) drv.logged) f t = .error (.fail err) t' →
      (LeavesNothing t' ↔ ∀ eh phs, f.ehdr = some eh → f.phdrs eh = some phs →
        (loadSpan phs).nLoad ≠ 0 → EndsSession drv.logged f (loading phs) (loadSpan phs).lo
          (sub32 (loadSpan phs).hi (loadSpan phs).lo) t)) ∧
    (∀ base err t',
      bmpLoadBin (uiSink (loggedRead memRead) drv.logged) f base t = .error (.fail err) t' →
      (LeavesNothing t' ↔ (f.seeks f.contents.length → 0 < f.contents.length →
        f.contents.length < 2 ^ 31 →
          EndsSession drv.logged f [f.rawSegment base] base f.contents.length t))) := by
  have hnothing : ∀ t' : Target (δ × List FlashEvent), t'.geometry = t.geometry →
      (LeavesNothing t' ↔ t'.Idle) := by
    intro t' hgeom
    refine ⟨fun h => h.idle, fun h => h.leavesNothing fun g hg => ?_⟩
    rw [hgeom] at hg
    exact (hmap.aligned g hg).toWf
  constructor
  · intro err t' hrun
    obtain ⟨hgeom, hiff⟩ := (ends_bmpLoadElf_idle hidle hmap.disjoint).error hrun err rfl
    rw [hnothing t' hgeom, hiff]
  · intro base err t' hrun
    obtain ⟨hgeom, hiff⟩ := (ends_bmpLoadBin_idle hidle hmap.disjoint).error hrun err rfl
    rw [hnothing t' hgeom, hiff]

end

/-! ## A load that stops in the middle -/

/-- The target after a load that returned false. -/
def afterFailure {δ : Type} (x : EStateM.Result LoadStop (Target δ) LoadResult) :
    Option (Target δ) :=
  match x with
  | .error (.fail _) t => some t
  | _ => none

/-- The target after a failure is that of an error result. -/
theorem afterFailure_eq_some {δ : Type} {x : EStateM.Result LoadStop (Target δ) LoadResult}
    {t : Target δ} (h : afterFailure x = some t) : ∃ err, x = .error (.fail err) t := by
  unfold afterFailure at h
  split at h
  · cases h
    exact ⟨_, rfl⟩
  · cases h

/-- The small chip starts idle. -/
theorem smallChip_idle : smallChip.Idle := by
  refine ⟨rfl, fun f hf => ?_⟩
  rw [List.mem_singleton.1 hf]
  exact ⟨rfl, rfl⟩

/-- A load on a driver that does nothing, with a log. -/
def quietLoad (f : File) : EStateM.Result LoadStop (Target (Unit × List FlashEvent)) LoadResult :=
  bmpLoadElf (uiSink (loggedRead fun _ _ d => (none, d)) quietDriver.logged) f smallChip

/-- Its map is well formed. -/
theorem smallChip_map : MapWf smallChip.geometry where
  aligned := by
    intro g hg
    rw [Target.geometry, smallChip, oneRegion, targetAddFlash, List.map_singleton,
      List.mem_singleton] at hg
    subst hg
    exact ⟨⟨⟨10, by decide, rfl⟩, ⟨10, by decide, rfl⟩, rfl⟩, by decide, by decide, by decide,
      by decide, by decide⟩
  disjoint := List.pairwise_singleton _ _

/-- The load of a file for a larger chip fails in the erase, and leaves the session open. -/
theorem load_leavesNothing_iff_twoPages :
    ∃ err t', quietLoad twoPages = .error (.fail err) t' ∧
      (LeavesNothing t' ↔ ∀ eh phs, twoPages.ehdr = some eh → twoPages.phdrs eh = some phs →
        (loadSpan phs).nLoad ≠ 0 → EndsSession quietDriver.logged twoPages (loading phs)
          (loadSpan phs).lo (sub32 (loadSpan phs).hi (loadSpan phs).lo) smallChip) := by
  have hrun : (afterFailure (quietLoad twoPages)).isSome = true := by decide +kernel
  obtain ⟨t', ht'⟩ := Option.isSome_iff_exists.1 hrun
  obtain ⟨err, herr⟩ := afterFailure_eq_some ht'
  exact ⟨err, t', herr, (load_leavesNothing_iff smallChip_idle smallChip_map).1 err t' herr⟩

/-- An image of four bytes at the bottom of the flash, and a second segment that is not in the
file. -/
def cutShort : File :=
  plainFile (armEhdr 2 ++ loadPhdr 116 0x08000000 4 ++ loadPhdr 4096 0x08000010 4 ++ [1, 2, 3, 4])

/-- The load fails in the second segment and leaves the target in flash mode with a buffer; the next
`target_flash_complete` programs the first segment. -/
theorem load_leaves_session :
    smallChip.Idle ∧ ∃ err t', quietLoad cutShort = .error (.fail err) t' ∧ ¬ LeavesNothing t' ∧
      ∃ ok t'' g data, targetFlashComplete quietDriver.logged t' = .ok (ok, t'') ∧
        FlashEvent.write g 0x08000000 ([1, 2, 3, 4] ++ data) ∉ t'.dev.2 ∧
        FlashEvent.write g 0x08000000 ([1, 2, 3, 4] ++ data) ∈ t''.dev.2 := by
  refine ⟨smallChip_idle, ?_⟩
  have hrun : (afterFailure (quietLoad cutShort)).map (fun t' => (t'.flashMode, t'.dev.2,
      (targetFlashComplete quietDriver.logged t').toOption.map fun x => x.2.dev.2)) =
      some (true, [.erase ⟨0x08000000, 1024, 1024, 1024, 1024, 0xff⟩ 0x08000000 1024],
        some [.erase ⟨0x08000000, 1024, 1024, 1024, 1024, 0xff⟩ 0x08000000 1024,
          .write ⟨0x08000000, 1024, 1024, 1024, 1024, 0xff⟩ 0x08000000
            ([1, 2, 3, 4] ++ List.replicate 1020 0xff)]) := by
    decide +kernel
  obtain ⟨t', ht', heq⟩ := Option.map_eq_some_iff.1 hrun
  obtain ⟨err, herr⟩ := afterFailure_eq_some ht'
  simp only [Prod.mk.injEq] at heq
  obtain ⟨hmode, hlog, hlater⟩ := heq
  refine ⟨err, t', herr, fun hnothing => ?_, ?_⟩
  · rw [hnothing.idle.flashMode] at hmode
    cases hmode
  · cases hcomplete : targetFlashComplete quietDriver.logged t' with
    | error e =>
      rw [hcomplete] at hlater
      cases hlater
    | ok x =>
      rw [hcomplete] at hlater
      have hlater : x.2.dev.2 = _ := Option.some.inj hlater
      refine ⟨x.1, x.2, ⟨0x08000000, 1024, 1024, 1024, 1024, 0xff⟩, List.replicate 1020 0xff, rfl,
        ?_, ?_⟩
      · rw [hlog, List.mem_singleton]
        exact nofun
      · rw [hlater]
        exact List.mem_cons_of_mem _ List.mem_cons_self

end Blackmagic
