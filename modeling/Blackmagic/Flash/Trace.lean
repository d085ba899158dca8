import Blackmagic.Lib.Run
import Blackmagic.Flash.Safety

/-!
# What the flash layer tells the driver

`FlashDriver.logged` is a driver that also records its `erase` and `write` callbacks, so that a
run ends with the list of callbacks it issued. A `target_flash_write` or `target_flash_complete`
that returned true is a `Trace`: a sequence of small steps on single regions that either tidy up
(flush a page, end an operation, allocate a buffer) or store a chunk of the input in a buffer.
The invariants about what reaches the flash are proved over traces, one step at a time.
-/

namespace Blackmagic

open Word

/-! ## The log -/

/-- A callback that changes the flash. -/
inductive FlashEvent
  | erase (region : FlashGeometry) (addr len : Nat)
  | write (region : FlashGeometry) (addr : Nat) (data : List UInt8)
  deriving DecidableEq, Repr

section
variable {δ : Type}

/-- A callback that also appends to a log. -/
def logCall (k : δ → Bool × δ) (es : List FlashEvent) (s : δ × List FlashEvent) :
    Bool × δ × List FlashEvent :=
  ((k s.1).1, (k s.1).2, s.2 ++ es)

/-- The driver with a log of its `erase` and `write` callbacks. -/
def FlashDriver.logged (drv : FlashDriver δ) : FlashDriver (δ × List FlashEvent) where
  enterFlashMode := drv.enterFlashMode.map fun k => logCall k []
  exitFlashMode := drv.exitFlashMode.map fun k => logCall k []
  reset := fun s => (drv.reset s.1, s.2)
  prepare := drv.prepare.map fun k f => logCall (k f) []
  done := drv.done.map fun k f => logCall (k f) []
  erase := fun f addr len =>
    logCall (drv.erase f addr len) [.erase f.toFlashGeometry addr len]
  write := fun f dest src => logCall (drv.write f dest src) [.write f.toFlashGeometry dest src]
  malloc := fun size => logCall (drv.malloc size) []

variable (drv : FlashDriver δ)

/-- A prepare callback is not logged. -/
theorem logged_callPrepare (f : TargetFlash) (s : δ × List FlashEvent) :
    (drv.logged.callPrepare f s).2.2 = s.2 := by
  unfold FlashDriver.callPrepare FlashDriver.logged
  cases drv.prepare with
  | none => rfl
  | some k => simp [logCall]

/-- A done callback is not logged. -/
theorem logged_callDone (f : TargetFlash) (s : δ × List FlashEvent) :
    (drv.logged.callDone f s).2.2 = s.2 := by
  unfold FlashDriver.callDone FlashDriver.logged
  cases drv.done with
  | none => rfl
  | some k => simp [logCall]

/-- The callbacks that flush a region. -/
def TargetFlash.pendingEvents (f : TargetFlash) : List FlashEvent :=
  f.pendingUnits.map fun u => .write f.toFlashGeometry u.1 u.2

/-- Each unit is logged. -/
theorem logged_writeUnits (f : TargetFlash) :
    ∀ (us : List (Nat × List UInt8)) (result : Bool) (s : δ × List FlashEvent),
      (writeUnits drv.logged f us result s).2.2 =
        s.2 ++ us.map fun u => .write f.toFlashGeometry u.1 u.2
  | [], _, s => by simp [writeUnits]
  | (addr, data) :: us, result, s => by
    rw [writeUnits, logged_writeUnits f us]
    simp [FlashDriver.logged, logCall]

end

/-! ## Regions between calls -/

/-- A region between calls that returned true: the representation invariant, no erase going on,
and an empty span as `flash_buffer_alloc` leaves it when nothing is pending. -/
structure TargetFlash.Clean (f : TargetFlash) : Prop where
  inv : f.BufInv
  operation : f.operation ≠ .erase
  empty : f.buf.isSome → ¬ f.Pending →
    f.bufAddrBase = maxU32 ∧ f.bufAddrLow = maxU32 ∧ f.bufAddrHigh = 0

/-- A region without a buffer is clean. -/
theorem TargetFlash.Clean.of_none {f : TargetFlash} (wf : f.toFlashGeometry.Wf)
    (hop : f.operation ≠ .erase) (h : f.buf = none) : f.Clean :=
  ⟨.of_none wf h, hop, by simp [h]⟩

/-- A step that tidies up one region, and the callbacks it issues. `away` says of which regions a
page may be flushed. -/
inductive TidyRegion (away : TargetFlash → Prop) :
    TargetFlash → TargetFlash → List FlashEvent → Prop
  | flush {f : TargetFlash} (pending : f.Pending) (h : away f) :
      TidyRegion away f { f with operation := .write }.clearSpan f.pendingEvents
  | done {f : TargetFlash} (idle : ¬ f.Pending) :
      TidyRegion away f { f with buf := none, operation := .none } []
  | alloc {f : TargetFlash} (h : f.buf = none) :
      TidyRegion away f { f with buf := some (List.replicate f.writebufsize 0) }.clearSpan []

/-- Storing a chunk that stays in one page: into the page the buffer holds, or into a page started
with the erased value. -/
structure StoreRegion (dest : Nat) (chunk : List UInt8) (f f' : TargetFlash) : Prop where
  contains : ∀ k < chunk.length, f.Contains (dest + k)
  nonempty : chunk ≠ []
  page : dest % f.writebufsize + chunk.length ≤ f.writebufsize
  stored : ∃ b, (f.buf = some b ∧ f.bufAddrBase = dest - dest % f.writebufsize ∨
      f.buf.isSome ∧ ¬ f.Pending ∧ b = List.replicate f.writebufsize f.erased) ∧
    f' = { f with
      buf := some (Bytes.overwrite b (dest % f.writebufsize) chunk)
      bufAddrBase := dest - dest % f.writebufsize
      bufAddrLow := min f.bufAddrLow dest
      bufAddrHigh := max f.bufAddrHigh (dest + chunk.length) }

/-- Tidying up leaves the geometry. -/
theorem TidyRegion.geometry {away : TargetFlash → Prop} {f f' : TargetFlash} {ev : List FlashEvent}
    (h : TidyRegion away f f' ev) : f'.toFlashGeometry = f.toFlashGeometry := by
  cases h <;> rfl

/-- So does a store. -/
theorem StoreRegion.geometry {dest : Nat} {chunk : List UInt8} {f f' : TargetFlash}
    (h : StoreRegion dest chunk f f') : f'.toFlashGeometry = f.toFlashGeometry := by
  obtain ⟨b, -, rfl⟩ := h.stored
  rfl

/-- An emptied span is not pending. -/
theorem TargetFlash.not_pending_clearSpan (f : TargetFlash) : ¬ f.clearSpan.Pending := by
  simp [TargetFlash.Pending, TargetFlash.clearSpan]

/-- Tidying up leaves a clean region. -/
theorem TidyRegion.clean {away : TargetFlash → Prop} {f f' : TargetFlash} {ev : List FlashEvent}
    (h : TidyRegion away f f' ev) (hf : f.Clean) : f'.Clean := by
  cases h with
  | flush _ _ => exact ⟨(hf.inv.setOperation .write).clearSpan, nofun, fun _ _ => ⟨rfl, rfl, rfl⟩⟩
  | done _ => exact .of_none hf.inv.wf nofun rfl
  | alloc _ =>
    refine ⟨?_, hf.operation, fun _ _ => ⟨rfl, rfl, rfl⟩⟩
    refine ⟨hf.inv.wf, ?_, fun _ => .empty rfl ?_ (by change maxU32 < _; decide)⟩
    · rintro b ⟨⟩
      exact List.length_replicate
    · have := hf.inv.wf.writebufsize_pos
      change 2 ^ 32 ≤ maxU32 + f.writebufsize
      unfold maxU32
      omega

/-- An address of a region is not the last one of the address space. -/
theorem FlashGeometry.Contains.succ_lt {g : FlashGeometry} {a : Nat} (h : g.Contains a) :
    a + 1 < 2 ^ 32 := by
  have := h.2
  have := add32_lt g.start g.length
  omega

/-- The end of a non-empty chunk inside a region. -/
theorem StoreRegion.end_lt {dest : Nat} {chunk : List UInt8} {f f' : TargetFlash}
    (h : StoreRegion dest chunk f f') : dest + chunk.length < 2 ^ 32 := by
  have hpos : 0 < chunk.length := List.length_pos_iff.2 h.nonempty
  have := (h.contains (chunk.length - 1) (by omega)).succ_lt
  omega

/-- What a chunk is copied into: the pending page, or a fresh one. -/
theorem StoreRegion.source {dest : Nat} {chunk b : List UInt8} {f f' : TargetFlash} (hf : f.Clean)
    (h : StoreRegion dest chunk f f')
    (hb : f.buf = some b ∧ f.bufAddrBase = dest - dest % f.writebufsize ∨
      f.buf.isSome ∧ ¬ f.Pending ∧ b = List.replicate f.writebufsize f.erased) :
    b.length = f.writebufsize ∧
      (f.Pending ∧ f.buf = some b ∧ f.bufAddrBase = dest - dest % f.writebufsize ∨
        ¬ f.Pending ∧ f.bufAddrLow = maxU32 ∧ f.bufAddrHigh = 0 ∧
          b = List.replicate f.writebufsize f.erased) := by
  rcases hb with ⟨hb, hbase⟩ | ⟨hb, hp, rfl⟩
  · refine ⟨hf.inv.size b hb, ?_⟩
    by_cases hp : f.Pending
    · exact .inl ⟨hp, hb, hbase⟩
    · -- no page starts at `UINT32_MAX`
      have hmax := (hf.empty (by rw [hb]; rfl) hp).1
      have htop := hf.inv.wf.writebufsize_pow2.block_le
        (show dest < 2 ^ 32 by have := h.end_lt; omega)
      have hge := hf.inv.wf.writebufsize_ge
      rw [← hbase, hmax] at htop
      unfold maxU32 at htop
      omega
  · exact ⟨List.length_replicate, .inr ⟨hp, (hf.empty hb hp).2.1, (hf.empty hb hp).2.2, rfl⟩⟩

/-- The span after a chunk was stored: it is pending, in the page of the chunk, and it starts where
it started before or at the chunk. -/
theorem StoreRegion.span {dest : Nat} {chunk : List UInt8} {f f' : TargetFlash} (hf : f.Clean)
    (h : StoreRegion dest chunk f f') :
    f'.bufAddrBase = dest - dest % f.writebufsize ∧
      f'.bufAddrBase ≤ f'.bufAddrLow ∧ f'.bufAddrLow ≤ dest ∧
      dest + chunk.length ≤ f'.bufAddrHigh ∧
      f'.bufAddrHigh ≤ f'.bufAddrBase + f.writebufsize ∧ f'.bufAddrHigh < 2 ^ 32 ∧
      (f.Pending ∧ f.bufAddrBase = f'.bufAddrBase ∧ f'.bufAddrLow = min f.bufAddrLow dest ∧
          f'.bufAddrHigh = max f.bufAddrHigh (dest + chunk.length) ∨
        ¬ f.Pending ∧ f'.bufAddrLow = dest ∧ f'.bufAddrHigh = dest + chunk.length) := by
  have hend := h.end_lt
  have hpage := h.page
  have hmod := Nat.mod_le dest f.writebufsize
  obtain ⟨b, hb, rfl⟩ := h.stored
  rcases (h.source hf hb).2 with ⟨hp, -, hbase⟩ | ⟨hp, hlow, hhigh, -⟩
  · obtain ⟨-, htop, hlow, hhigh, hlt⟩ := hf.inv.pending hp
    refine ⟨rfl, ?_, ?_, ?_, ?_, ?_, .inl ⟨hp, hbase, rfl, rfl⟩⟩ <;> dsimp only <;> omega
  · have hmin : min f.bufAddrLow dest = dest := by
      rw [hlow]
      unfold maxU32
      omega
    have hmax : max f.bufAddrHigh (dest + chunk.length) = dest + chunk.length := by omega
    refine ⟨rfl, ?_, ?_, ?_, ?_, ?_, .inr ⟨hp, hmin, hmax⟩⟩ <;> dsimp only <;> omega

/-- After a store something is pending. -/
theorem StoreRegion.pending {dest : Nat} {chunk : List UInt8} {f f' : TargetFlash} (hf : f.Clean)
    (h : StoreRegion dest chunk f f') : f'.Pending := by
  have hpos : 0 < chunk.length := List.length_pos_iff.2 h.nonempty
  have hge := hf.inv.wf.writebufsize_ge
  have htop := hf.inv.wf.writebufsize_pow2.block_le
    (show dest < 2 ^ 32 by have := h.end_lt; omega)
  obtain ⟨hbase, h1, h2, h3, h4, h5, -⟩ := h.span hf
  refine ⟨?_, ?_, ?_, by omega⟩
  · obtain ⟨b, -, rfl⟩ := h.stored
    rfl
  · unfold maxU32
    omega
  · unfold maxU32
    omega

/-- A store leaves a clean region. -/
theorem StoreRegion.clean {dest : Nat} {chunk : List UInt8} {f f' : TargetFlash} (hf : f.Clean)
    (h : StoreRegion dest chunk f f') : f'.Clean := by
  have hpos : 0 < chunk.length := List.length_pos_iff.2 h.nonempty
  have hp := h.pending hf
  have htop := hf.inv.wf.writebufsize_pow2.block_le
    (show dest < 2 ^ 32 by have := h.end_lt; omega)
  obtain ⟨hbase, h1, h2, h3, h4, h5, -⟩ := h.span hf
  have hg := h.geometry
  have hspan : f'.Span := by
    refine .page ?_ ?_ h1 (by omega) ?_ h5 <;> rw [hg]
    · rw [hbase]
      exact dvd_unit _ _
    · omega
    · exact h4
  obtain ⟨b, hb, rfl⟩ := h.stored
  refine ⟨⟨hf.inv.wf, ?_, fun _ => hspan⟩, hf.operation, fun _ hn => absurd hp hn⟩
  have hsize := (h.source hf hb).1
  rintro b' ⟨⟩
  rw [Bytes.length_overwrite (by rw [hsize]; exact h.page)]
  exact hsize

/-! ## What a region holds -/

/-- The byte at `a` of what a region has pending. -/
def TargetFlash.Holds (f : TargetFlash) (a : Nat) (v : UInt8) : Prop :=
  f.Pending ∧ f.bufAddrLow ≤ a ∧ a < f.bufAddrHigh ∧
    ∃ b, f.buf = some b ∧ b[a - f.bufAddrBase]? = some v

/-- The buffer after a chunk was stored, byte by byte: the chunk, and around it what was pending or
the erased value. -/
theorem StoreRegion.byte {dest : Nat} {chunk : List UInt8} {f f' : TargetFlash} (hf : f.Clean)
    (h : StoreRegion dest chunk f f') {a : Nat} (hlow : f'.bufAddrBase ≤ a)
    (hhigh : a < f'.bufAddrBase + f.writebufsize) :
    ∃ b', f'.buf = some b' ∧ b'[a - f'.bufAddrBase]? =
      if dest ≤ a ∧ a < dest + chunk.length then chunk[a - dest]?
      else if f.Pending then (f.buf.getD [])[a - f.bufAddrBase]? else some f.erased := by
  have hpage := h.page
  have hmod := Nat.mod_le dest f.writebufsize
  obtain ⟨b, hb, rfl⟩ := h.stored
  obtain ⟨hsize, hsrc⟩ := h.source hf hb
  refine ⟨_, rfl, ?_⟩
  dsimp only at hlow hhigh ⊢
  rw [Bytes.getElem?_overwrite (by rw [hsize]; exact hpage)]
  by_cases hin : dest ≤ a ∧ a < dest + chunk.length
  · rw [if_pos (by omega), if_pos hin]
    congr 1
    omega
  · rw [if_neg (by omega), if_neg hin]
    rcases hsrc with ⟨hp, hbuf, hbase⟩ | ⟨hp, -, -, rfl⟩
    · rw [if_pos hp, hbuf, hbase]
      rfl
    · rw [if_neg hp, List.getElem?_replicate, if_pos (by omega)]

/-- A stored chunk is held. -/
theorem StoreRegion.holds_new {dest : Nat} {chunk : List UInt8} {f f' : TargetFlash}
    (hf : f.Clean) (h : StoreRegion dest chunk f f') {i : Nat} {v : UInt8}
    (hv : chunk[i]? = some v) : f'.Holds (dest + i) v := by
  have hi : i < chunk.length := (List.getElem?_eq_some_iff.1 hv).1
  obtain ⟨hbase, h1, h2, h3, h4, h5, -⟩ := h.span hf
  obtain ⟨b', hb', hbyte⟩ := h.byte hf (a := dest + i) (by omega) (by omega)
  refine ⟨h.pending hf, by omega, by omega, b', hb', ?_⟩
  rw [hbyte, if_pos (by omega), Nat.add_sub_cancel_left]
  exact hv

/-- What was held stays held when a chunk is stored elsewhere. -/
theorem StoreRegion.holds_old {dest : Nat} {chunk : List UInt8} {f f' : TargetFlash}
    (hf : f.Clean) (h : StoreRegion dest chunk f f') {a : Nat} {v : UInt8} (hv : f.Holds a v)
    (hout : ¬ (dest ≤ a ∧ a < dest + chunk.length)) : f'.Holds a v := by
  obtain ⟨hp, hlow, hhigh, b, hb, hbyte⟩ := hv
  obtain ⟨hbase, h1, h2, h3, h4, h5, ⟨-, hsame, hlow', hhigh'⟩ | ⟨hn, -⟩⟩ := h.span hf
  · obtain ⟨-, -, hlow'', -⟩ := hf.inv.pending hp
    obtain ⟨b', hb', hbyte'⟩ := h.byte hf (a := a) (by omega) (by omega)
    refine ⟨h.pending hf, by omega, by omega, b', hb', ?_⟩
    rw [hbyte', if_neg hout, if_pos hp, hb]
    exact hbyte
  · exact absurd hp hn

/-- The callback writes `v` at `a`. -/
def FlashEvent.Delivers : FlashEvent → Nat → UInt8 → Prop
  | .erase _ _ _, _, _ => False
  | .write _ addr data, a, v => addr ≤ a ∧ data[a - addr]? = some v

/-- A flush delivers everything that is held. -/
theorem TargetFlash.Holds.delivered {f : TargetFlash} {a : Nat} {v : UInt8} (h : f.Holds a v)
    (hf : f.BufInv) : ∃ e ∈ f.pendingEvents, e.Delivers a v := by
  obtain ⟨hp, hlow, hhigh, b, hb, hbyte⟩ := h
  obtain ⟨h1, h2, h3, h4⟩ := hf.units_span hp
  have hws := hf.wf.writesize_pos
  have hdm := Nat.div_add_mod (a - f.unitLow) f.writesize
  have hlt := Nat.mod_lt (a - f.unitLow) hws
  rw [Nat.mul_comm] at hdm
  have hcount : (a - f.unitLow) / f.writesize < f.unitCount := by
    rw [Nat.div_lt_iff_lt_mul hws]
    omega
  refine ⟨_, List.mem_map_of_mem (mem_unitsFrom.2 ⟨_, hcount, rfl⟩), by omega, ?_⟩
  rw [hb, Option.getD_some, List.getElem?_take_of_lt (by omega), List.getElem?_drop]
  rw [← hbyte]
  congr 1
  omega

/-! ## Traces -/

/-- The regions and the log of a target whose driver is `logged`. -/
structure Session where
  flash : List TargetFlash
  log : List FlashEvent

/-- A sequence of small steps that takes the bytes `src` at `dest` in, chunk by chunk. `away x`
says of which regions a page may be flushed when the next byte to be stored is at `x`. -/
inductive Trace (away : Nat → TargetFlash → Prop) :
    (dest : Nat) → (src : List UInt8) → Session → Session → Prop
  | nil {dest : Nat} {s : Session} : Trace away dest [] s s
  | tidy {dest : Nat} {src : List UInt8} {pre post : List TargetFlash} {f f' : TargetFlash}
      {log ev : List FlashEvent} {s : Session} (step : TidyRegion (away dest) f f' ev)
      (rest : Trace away dest src ⟨pre ++ f' :: post, log ++ ev⟩ s) :
      Trace away dest src ⟨pre ++ f :: post, log⟩ s
  | store {dest : Nat} {chunk src : List UInt8} {pre post : List TargetFlash} {f f' : TargetFlash}
      {log : List FlashEvent} {s : Session} (step : StoreRegion dest chunk f f')
      (rest : Trace away (dest + chunk.length) src ⟨pre ++ f' :: post, log⟩ s) :
      Trace away dest (chunk ++ src) ⟨pre ++ f :: post, log⟩ s

/-- Traces compose. -/
theorem Trace.trans {away : Nat → TargetFlash → Prop} {dest : Nat} {src src' : List UInt8}
    {s s₁ s₂ : Session} (h : Trace away dest src s s₁)
    (h' : Trace away (dest + src.length) src' s₁ s₂) : Trace away dest (src ++ src') s s₂ := by
  induction h with
  | nil => exact h'
  | tidy step _ ih => exact .tidy step (ih h')
  | store step _ ih =>
    rw [List.append_assoc]
    refine .store step (ih ?_)
    rwa [List.length_append, ← Nat.add_assoc] at h'

/-- Every region is clean. -/
def Session.Clean (s : Session) : Prop := ∀ f ∈ s.flash, f.Clean

/-- The geometry of the map of a session. -/
def Session.geometry (s : Session) : List FlashGeometry := s.flash.map (·.toFlashGeometry)

/-- Replacing one region of a clean session. -/
theorem Session.Clean.replace {pre post : List TargetFlash} {f f' : TargetFlash}
    {log log' : List FlashEvent} (h : Session.Clean ⟨pre ++ f :: post, log⟩)
    (hf : f.Clean → f'.Clean) : Session.Clean ⟨pre ++ f' :: post, log'⟩ := by
  simp only [Session.Clean, List.forall_mem_append, List.forall_mem_cons] at h ⊢
  exact ⟨h.1, hf h.2.1, h.2.2⟩

/-- The regions of a clean session are clean. -/
theorem Session.Clean.mem {pre post : List TargetFlash} {f : TargetFlash} {log : List FlashEvent}
    (h : Session.Clean ⟨pre ++ f :: post, log⟩) : f.Clean :=
  h f (by simp)

/-- A trace keeps the regions clean and the geometry of the map. -/
theorem Trace.clean {away : Nat → TargetFlash → Prop} {dest : Nat} {src : List UInt8}
    {s s' : Session} (h : Trace away dest src s s') (hs : s.Clean) :
    s'.Clean ∧ s'.geometry = s.geometry := by
  induction h with
  | nil => exact ⟨hs, rfl⟩
  | tidy step _ ih =>
    obtain ⟨hc, hg⟩ := ih (hs.replace step.clean)
    refine ⟨hc, hg.trans ?_⟩
    simp [Session.geometry, step.geometry]
  | store step _ ih =>
    obtain ⟨hc, hg⟩ := ih (hs.replace step.clean)
    refine ⟨hc, hg.trans ?_⟩
    simp [Session.geometry, step.geometry]

/-! ## Calls that return true are traces -/

section
variable {δ : Type} (drv : FlashDriver δ)

/-- A flush that returned true. -/
theorem flashBufferedFlush_logged {f f' : TargetFlash} {d d' : δ} {log log' : List FlashEvent}
    (hf : f.Clean) (h : flashBufferedFlush drv.logged f (d, log) = .ok (true, f', d', log')) :
    ¬ f.Pending ∧ f' = f ∧ log' = log ∨
      f.Pending ∧ f' = { f with operation := .write }.clearSpan ∧
        log' = log ++ f.pendingEvents := by
  rcases flashBufferedFlush_cases drv.logged hf.inv hf.operation (d, log) with
    ⟨hp, heq⟩ | ⟨hp, -, d₁, -, heq⟩ | ⟨hp, ⟨d₁, log₁⟩, r, ⟨d₂, log₂⟩, hprep, hunits, heq⟩
  · rw [h] at heq
    cases heq
    exact .inl ⟨hp, rfl, rfl⟩
  · rw [h] at heq
    cases heq
  · rw [h] at heq
    cases heq
    refine .inr ⟨hp, rfl, ?_⟩
    have hlog := logged_writeUnits drv { f with operation := .write } f.pendingUnits true (d₁, log₁)
    rw [hunits] at hlog
    have hlog₁ : log₁ = log := by
      rcases hprep with ⟨-, hd⟩ | ⟨-, hd⟩
      · cases hd
        rfl
      · have := logged_callPrepare drv { f with operation := .write } (d, log)
        rw [hd] at this
        exact this
    rw [← hlog₁]
    exact hlog

/-- Closing a region logs nothing, and frees the buffer where there was an operation. -/
theorem flashDone_logged (f : TargetFlash) (d : δ) (log : List FlashEvent) :
    (flashDone drv.logged f (d, log)).2.2.2 = log ∧
      (f.operation = .none ∧ (flashDone drv.logged f (d, log)).2.1 = f ∨
        f.operation ≠ .none ∧ (flashDone drv.logged f (d, log)).2.1 =
          { f with buf := none, operation := .none }) := by
  unfold flashDone
  split
  · next h => exact ⟨rfl, .inl ⟨h, rfl⟩⟩
  · next h => exact ⟨logged_callDone drv f (d, log), .inr ⟨h, rfl⟩⟩

/-- Opening a region logs nothing. -/
theorem flashPrepare_log (g : TargetFlash) (op : FlashOperation) (s : δ × List FlashEvent) :
    (flashPrepare drv.logged g op s).2.2.2 = s.2 := by
  unfold flashPrepare
  split
  · rfl
  have hdone : (if g.operation ≠ .none then flashDone drv.logged g s else (true, g, s)).2.2.2 =
      s.2 := by
    split
    · exact (flashDone_logged drv g s.1 s.2).1
    · rfl
  generalize (if g.operation ≠ .none then flashDone drv.logged g s else (true, g, s)) = x at hdone ⊢
  obtain ⟨r, g₁, s₁⟩ := x
  dsimp only at hdone ⊢
  split
  · have hprep := logged_callPrepare drv { g₁ with operation := op } s₁
    split
    · exact hprep.trans hdone
    · exact hprep.trans hdone
  · exact hdone

/-- Closing a region is a trace. -/
theorem flashFlushDone_trace (away : Nat → TargetFlash → Prop) (dest : Nat) {f f' : TargetFlash}
    {d d' : δ} {log log' : List FlashEvent} (hf : f.Clean) (haway : away dest f)
    (h : flashFlushDone drv.logged f (d, log) = .ok (true, f', d', log'))
    (pre post : List TargetFlash) :
    Trace away dest [] ⟨pre ++ f :: post, log⟩ ⟨pre ++ f' :: post, log'⟩ := by
  unfold flashFlushDone at h
  obtain ⟨⟨r, f₁, d₁, log₁⟩, hflush, h⟩ := Run.bind_eq_ok.1 h
  obtain ⟨hlog, hdone⟩ := flashDone_logged drv f₁ d₁ log₁
  rcases hd : flashDone drv.logged f₁ (d₁, log₁) with ⟨r₂, f₂, d₂, log₂⟩
  rw [hd] at hlog hdone
  simp only [hd, Except.ok.injEq, Prod.mk.injEq, Bool.and_eq_true] at h
  obtain ⟨⟨rfl, rfl⟩, rfl, rfl, rfl⟩ := h
  dsimp only at hlog hdone
  subst hlog
  -- `flash_done` after a flush, or on a region with nothing to flush
  have hclose : ∀ {g : TargetFlash}, ¬ g.Pending → (g.operation = .none ∧ f₂ = g ∨
      g.operation ≠ .none ∧ f₂ = { g with buf := none, operation := .none }) →
      ∀ log : List FlashEvent,
      Trace away dest [] ⟨pre ++ g :: post, log⟩ ⟨pre ++ f₂ :: post, log⟩ := by
    rintro g hp (⟨-, rfl⟩ | ⟨-, rfl⟩) log
    · exact .nil
    · refine .tidy (.done hp) ?_
      rw [List.append_nil]
      exact .nil
  rcases flashBufferedFlush_logged drv hf hflush with ⟨hp, rfl, rfl⟩ | ⟨hp, rfl, rfl⟩
  · exact hclose hp hdone _
  · exact .tidy (.flush hp haway) (hclose (TargetFlash.not_pending_clearSpan _) hdone _)

/-- A page is flushed for `x` only if `x` is not in it. -/
def Away (x : Nat) (f : TargetFlash) : Prop :=
  ¬ f.Contains x ∨ f.bufAddrBase ≠ x - x % f.writebufsize

/-- The first loop of `target_flash_write` is a trace; the region it finds contains `dest`. -/
theorem settleLoop_trace {dest : Nat} :
    ∀ {fs fs' : List TargetFlash} {i : Nat} {active active' : Option Nat} {result : Bool}
      {d d' : δ} {log log' : List FlashEvent} (pre : List TargetFlash), (∀ f ∈ fs, f.Clean) →
      settleLoop drv.logged dest fs i active result (d, log) =
        .ok (true, active', fs', d', log') →
      result = true ∧ Trace Away dest [] ⟨pre ++ fs, log⟩ ⟨pre ++ fs', log'⟩ ∧
        (active' = active ∨ ∃ j f, active' = some (i + j) ∧ fs[j]? = some f ∧ f.Contains dest)
  | [], _, _, _, _, _, _, _, _, _, pre, _, h => by
    cases h
    exact ⟨rfl, .nil, .inl rfl⟩
  | f :: fs, fs', i, active, active', result, d, d', log, log', pre, hclean, h => by
    obtain ⟨hf, hfs⟩ := List.forall_mem_cons.1 hclean
    -- the region found among the rest is at the same place of the whole list
    have hshift : ∀ {c : Option Nat}, (active' = c ∨ ∃ j g, active' = some (i + 1 + j) ∧
        fs[j]? = some g ∧ g.Contains dest) → active' = c ∨ ∃ j g, active' = some (i + j) ∧
          (f :: fs)[j]? = some g ∧ g.Contains dest := by
      rintro c (hc | ⟨j, g, hj, hg⟩)
      · exact .inl hc
      · exact .inr ⟨j + 1, g, by rw [hj, Nat.add_right_comm, Nat.add_assoc], hg⟩
    unfold settleLoop at h
    split at h
    · next hc =>
      obtain ⟨⟨r, a, rest, d₁, log₁⟩, hloop, h⟩ := Run.bind_eq_ok.1 h
      cases h
      obtain ⟨hr, htrace, hactive⟩ := settleLoop_trace (pre ++ [f]) hfs hloop
      refine ⟨hr, by simpa using htrace, ?_⟩
      rcases hshift hactive with ha | ha
      · exact .inr ⟨0, f, ha, rfl, hc⟩
      · exact .inr ha
    next hc =>
    split at h
    · obtain ⟨⟨ok, f₁, d₁, log₁⟩, hclose, h⟩ := Run.bind_eq_ok.1 h
      obtain ⟨⟨r, a, rest, d₂, log₂⟩, hloop, h⟩ := Run.bind_eq_ok.1 h
      cases h
      obtain ⟨hr, htrace, hactive⟩ := settleLoop_trace (pre ++ [f₁]) hfs hloop
      rw [Bool.and_eq_true] at hr
      obtain ⟨hr, rfl⟩ := hr
      have hhead := flashFlushDone_trace drv Away dest hf (.inl hc) hclose pre fs
      exact ⟨hr, hhead.trans (by simpa using htrace), hshift hactive⟩
    · obtain ⟨⟨r, a, rest, d₁, log₁⟩, hloop, h⟩ := Run.bind_eq_ok.1 h
      cases h
      obtain ⟨hr, htrace, hactive⟩ := settleLoop_trace (pre ++ [f]) hfs hloop
      exact ⟨hr, by simpa using htrace, hshift hactive⟩

/-- The loop of `target_flash_complete` is a trace. -/
theorem completeLoop_trace (dest : Nat) :
    ∀ {fs fs' : List TargetFlash} {result : Bool} {d d' : δ} {log log' : List FlashEvent}
      (pre : List TargetFlash), (∀ f ∈ fs, f.Clean) →
      completeLoop drv.logged fs result (d, log) = .ok (true, fs', d', log') →
      result = true ∧ (∀ f ∈ fs', ¬ f.Pending) ∧
        Trace (fun _ _ => True) dest [] ⟨pre ++ fs, log⟩ ⟨pre ++ fs', log'⟩
  | [], _, _, _, _, _, _, pre, _, h => by
    cases h
    exact ⟨rfl, nofun, .nil⟩
  | f :: fs, fs', result, d, d', log, log', pre, hclean, h => by
    obtain ⟨hf, hfs⟩ := List.forall_mem_cons.1 hclean
    unfold completeLoop at h
    obtain ⟨⟨ok, f₁, d₁, log₁⟩, hclose, h⟩ := Run.bind_eq_ok.1 h
    obtain ⟨⟨r, rest, d₂, log₂⟩, hloop, h⟩ := Run.bind_eq_ok.1 h
    cases h
    obtain ⟨hr, hidle, htrace⟩ := completeLoop_trace dest (pre ++ [f₁]) hfs hloop
    rw [Bool.and_eq_true] at hr
    obtain ⟨hr, rfl⟩ := hr
    have hhead := flashFlushDone_trace drv (fun _ _ => True) dest hf trivial hclose pre fs
    obtain ⟨r, f', d', heq, -, -, -, hp⟩ :=
      flashFlushDone_safe drv.logged hf.inv (fun he => absurd he hf.operation) (d, log)
    rw [hclose] at heq
    cases heq
    exact ⟨hr, List.forall_mem_cons.2 ⟨hp rfl, hidle⟩, hhead.trans (by simpa using htrace)⟩

/-- One iteration of `flash_buffered_write` that answered. -/
theorem bufferedWriteLoop_succ {f : TargetFlash} {dest fuel : Nat} {src : List UInt8}
    {result : Bool} {d : δ} {x : Bool × TargetFlash × δ} (drv : FlashDriver δ) (hne : src ≠ [])
    (h : bufferedWriteLoop drv (fuel + 1) f dest src result d = .ok x) :
    ∃ ok f₁ d₁ f₂, flashBufferRebase drv f (alignDown dest f.writebufsize) d = .ok (ok, f₁, d₁) ∧
      flashBufferChunk f₁ dest (src.take (f₁.localLen dest src.length)) = .ok f₂ ∧
      bufferedWriteLoop drv fuel f₂ (add32 dest (f₁.localLen dest src.length))
        (src.drop (f₁.localLen dest src.length)) (result && ok) d₁ = .ok x := by
  cases src with
  | nil => exact absurd rfl hne
  | cons c cs =>
    simp only [bufferedWriteLoop] at h
    split at h
    · cases h
    · obtain ⟨⟨ok, f₁, d₁⟩, hrebase, h⟩ := Run.bind_eq_ok.1 h
      obtain ⟨f₂, hchunk, h⟩ := Run.bind_eq_ok.1 h
      exact ⟨ok, f₁, d₁, f₂, hrebase, hchunk, h⟩

/-- A failure in `flash_buffered_write` is not forgotten. -/
theorem bufferedWriteLoop_result (drv : FlashDriver δ) :
    ∀ {fuel : Nat} {f f' : TargetFlash} {dest : Nat} {src : List UInt8} {result : Bool} {d d' : δ},
      bufferedWriteLoop drv fuel f dest src result d = .ok (true, f', d') → result = true
  | fuel, _, _, _, [], _, _, _, h => by
    cases fuel <;> cases h <;> rfl
  | 0, _, _, _, _ :: _, _, _, _, h => by cases h
  | _ + 1, _, _, _, c :: cs, _, _, _, h => by
    obtain ⟨ok, f₁, d₁, f₂, -, -, h⟩ := bufferedWriteLoop_succ drv (List.cons_ne_nil c cs) h
    exact (Bool.and_eq_true_iff.1 (bufferedWriteLoop_result drv h)).1

/-- Starting a page is a trace, and leaves a buffer that the chunk of `dest` can be stored in. -/
theorem flashBufferRebase_trace {f f₁ : TargetFlash} {dest : Nat} {d d₁ : δ}
    {log log₁ : List FlashEvent} (hf : f.Clean) (hb : f.buf.isSome) (hdest : dest < 2 ^ 32)
    (h : flashBufferRebase drv.logged f (alignDown dest f.writebufsize) (d, log) =
      .ok (true, f₁, d₁, log₁)) (pre post : List TargetFlash) :
    ∃ g, Trace Away dest [] ⟨pre ++ f :: post, log⟩ ⟨pre ++ g :: post, log₁⟩ ∧ g.Clean ∧
      g.toFlashGeometry = f.toFlashGeometry ∧
      (f₁ = g ∧ g.buf.isSome ∧ g.bufAddrBase = dest - dest % g.writebufsize ∨
        g.buf.isSome ∧ ¬ g.Pending ∧ f₁ = { g with
          bufAddrBase := dest - dest % g.writebufsize
          buf := some (List.replicate g.writebufsize g.erased) }) := by
  unfold flashBufferRebase at h
  rw [hf.inv.wf.writebufsize_pow2.alignDown hdest] at h
  by_cases hbase : dest - dest % f.writebufsize = f.bufAddrBase
  · rw [if_neg (by simpa using hbase)] at h
    cases h
    exact ⟨f, .nil, hf, rfl, .inl ⟨rfl, hb, hbase.symm⟩⟩
  rw [if_pos hbase] at h
  obtain ⟨⟨ok, g, d₂, log₂⟩, hflush, h⟩ := Run.bind_eq_ok.1 h
  obtain ⟨g', hfill, h⟩ := Run.bind_eq_ok.1 h
  cases h
  rcases flashBufferedFlush_logged drv hf hflush with ⟨hp, rfl, rfl⟩ | ⟨hp, rfl, rfl⟩
  · obtain ⟨b, hb'⟩ := Option.isSome_iff_exists.1 hb
    simp only [TargetFlash.bufFill, hb', Except.ok.injEq] at hfill
    subst hfill
    exact ⟨g, .nil, hf, rfl, .inr ⟨hb, hp, rfl⟩⟩
  · have hstep : TidyRegion (Away dest) f { f with operation := .write }.clearSpan _ :=
      .flush hp (.inr fun he => hbase he.symm)
    obtain ⟨b, hb'⟩ := Option.isSome_iff_exists.1 hb
    simp only [TargetFlash.bufFill, TargetFlash.clearSpan, hb', Except.ok.injEq] at hfill
    subst hfill
    exact ⟨_, .tidy hstep .nil, hstep.clean hf, rfl,
      .inr ⟨hb, TargetFlash.not_pending_clearSpan _, rfl⟩⟩

/-- `flash_buffered_write` is a trace. -/
theorem bufferedWriteLoop_trace :
    ∀ {fuel : Nat} {f f' : TargetFlash} {dest : Nat} {src : List UInt8} {result : Bool} {d d' : δ}
      {log log' : List FlashEvent} (pre post : List TargetFlash), f.Clean → f.buf.isSome →
      (∀ k < src.length, f.Contains (dest + k)) →
      bufferedWriteLoop drv.logged fuel f dest src result (d, log) = .ok (true, f', d', log') →
      Trace Away dest src ⟨pre ++ f :: post, log⟩ ⟨pre ++ f' :: post, log'⟩
  | fuel, _, _, _, [], _, _, _, _, _, _, _, _, _, _, h => by
    cases fuel <;> cases h <;> exact .nil
  | 0, _, _, _, _ :: _, _, _, _, _, _, _, _, _, _, _, h => by cases h
  | fuel + 1, f, f', dest, c :: cs, result, d, d', log, log', pre, post, hf, hb, hc, h => by
    generalize hsrc : c :: cs = src at hc h ⊢
    have hne : src ≠ [] := by rw [← hsrc]; exact nofun
    have hpos : 0 < src.length := List.length_pos_iff.2 hne
    obtain ⟨ok, f₁, ⟨d₁, log₁⟩, f₂, hrebase, hchunk, hloop⟩ :=
      bufferedWriteLoop_succ drv.logged hne h
    have hok := (Bool.and_eq_true_iff.1 (bufferedWriteLoop_result drv.logged hloop)).2
    subst hok
    have hdest : dest < 2 ^ 32 := by
      have := (hc 0 hpos).succ_lt
      omega
    obtain ⟨g, htrace, hg, hgeom, hfrom⟩ :=
      flashBufferRebase_trace drv hf hb hdest hrebase pre post
    have hg₁ : f₁.toFlashGeometry = g.toFlashGeometry := by
      rcases hfrom with ⟨rfl, -⟩ | ⟨-, -, rfl⟩ <;> rfl
    have hsize : f₁.writebufsize = g.writebufsize := by rw [hg₁]
    generalize hn : f₁.localLen dest src.length = n at hchunk hloop
    have hlocal : n = min (g.writebufsize - dest % g.writebufsize) src.length := by
      rw [← hn, ← hsize]
      rfl
    have hwbs := hg.inv.wf.writebufsize_pos
    have hmod := Nat.mod_lt dest hwbs
    have htake : (src.take n).length = n := by
      rw [List.length_take]
      omega
    have hend : dest + n < 2 ^ 32 := by
      have := (hc (n - 1) (by omega)).succ_lt
      omega
    have hstore : StoreRegion dest (src.take n) g f₂ := by
      refine ⟨fun k hk => ?_, ?_, by omega, ?_⟩
      · rw [hgeom]
        exact hc k (by omega)
      · rw [← List.length_pos_iff]
        omega
      · unfold flashBufferChunk at hchunk
        obtain ⟨f₃, hcopy, hchunk⟩ := Run.bind_eq_ok.1 hchunk
        cases hchunk
        rw [htake, add32_of_lt hend]
        rcases hfrom with ⟨rfl, hb, hbase⟩ | ⟨hb, hp, rfl⟩
        · obtain ⟨b, hb'⟩ := Option.isSome_iff_exists.1 hb
          refine ⟨b, .inl ⟨hb', hbase⟩, ?_⟩
          rw [TargetFlash.bufCopy, hb', htake] at hcopy
          dsimp only at hcopy
          rw [if_pos (by omega)] at hcopy
          cases hcopy
          rw [← hbase]
        · refine ⟨_, .inr ⟨hb, hp, rfl⟩, ?_⟩
          rw [TargetFlash.bufCopy, htake] at hcopy
          dsimp only at hcopy
          rw [if_pos (by omega)] at hcopy
          cases hcopy
          rfl
    have hrest := bufferedWriteLoop_trace pre post (hstore.clean hg)
      (hstore.pending hg).1 (fun k hk => ?_) hloop
    · have hcut := List.take_append_drop n src
      rw [← hcut]
      refine htrace.trans (.store hstore ?_)
      rw [htake]
      rwa [add32_of_lt hend] at hrest
    · rw [List.length_drop] at hk
      rw [hstore.geometry, hgeom, add32_of_lt hend, Nat.add_assoc]
      exact hc (n + k) (by omega)

/-! ## `target_flash_write` -/

/-- The regions and the log of a target. -/
def Target.session (t : Target (δ × List FlashEvent)) : Session := ⟨t.flash, t.dev.2⟩

/-- No address is in two regions. -/
def MapDisjoint (gs : List FlashGeometry) : Prop :=
  gs.Pairwise fun g h => ∀ a, g.Contains a → ¬ h.Contains a

/-- In a map without overlaps only one region contains an address. -/
theorem MapDisjoint.eq {fs : List TargetFlash} (h : MapDisjoint (fs.map (·.toFlashGeometry)))
    {i j a : Nat} {f g : TargetFlash} (hf : fs[i]? = some f) (hg : fs[j]? = some g)
    (hfa : f.Contains a) (hga : g.Contains a) : i = j := by
  have key : ∀ {i j : Nat} {f g : TargetFlash}, fs[i]? = some f → fs[j]? = some g →
      f.Contains a → g.Contains a → ¬ i < j := by
    intro i j f g hf hg hfa hga hlt
    obtain ⟨hi, rfl⟩ := List.getElem?_eq_some_iff.1 hf
    obtain ⟨hj, rfl⟩ := List.getElem?_eq_some_iff.1 hg
    have := List.pairwise_iff_getElem.1 h i j (by simpa using hi) (by simpa using hj) hlt a
    simp only [List.getElem_map] at this
    exact this hfa hga
  have h1 := key hf hg hfa hga
  have h2 := key hg hf hga hfa
  omega

/-- A list around the element at `i`. -/
theorem exists_split {fs : List TargetFlash} {i : Nat} {f : TargetFlash} (h : fs[i]? = some f) :
    ∃ pre post, fs = pre ++ f :: post ∧ ∀ f', fs.set i f' = pre ++ f' :: post := by
  obtain ⟨hi, rfl⟩ := List.getElem?_eq_some_iff.1 h
  refine ⟨fs.take i, fs.drop (i + 1), ?_, fun f' => ?_⟩
  · rw [List.getElem_cons_drop, List.take_append_drop]
  · rw [List.set_eq_take_append_cons_drop, if_pos hi]

/-- One iteration of the second loop of `target_flash_write` in a call that returned true. -/
theorem writeLoop_succ {t t' : Target δ} {active dest fuel : Nat} {src : List UInt8}
    (drv : FlashDriver δ) (hne : src ≠ [])
    (h : writeLoop drv (fuel + 1) t active dest src = .ok (true, t')) :
    ∃ i t₁ t₂ f t₃, targetFlashForAddr t dest = some i ∧
      switchWrite drv t active i = .ok (true, t₁) ∧
      t₁.onFlash i (flashBufferEnsure drv) = (true, t₂) ∧ t₂.flash[i]? = some f ∧
      t₂.onFlashBuf i (fun f' d => flashBufferedWrite drv f' dest
        (src.take (f.localLength dest src.length)) d) = .ok (true, t₃) ∧
      writeLoop drv fuel t₃ i (f.localEndAddr dest src.length)
        (src.drop (f.localLength dest src.length)) = .ok (true, t') := by
  cases src with
  | nil => exact absurd rfl hne
  | cons c cs =>
    simp only [writeLoop] at h
    split at h
    · cases h
    next i hi =>
    obtain ⟨⟨closed, t₁⟩, hclose, h⟩ := Run.bind_eq_ok.1 h
    rcases hens : t₁.onFlash i (flashBufferEnsure drv) with ⟨ready, t₂⟩
    simp only [hens] at h
    split at h
    · next hr =>
      rw [Bool.and_eq_true] at hr
      obtain ⟨rfl, rfl⟩ := hr
      split at h
      · cases h
      next f hf =>
      obtain ⟨⟨ok, t₃⟩, hbuf, h⟩ := Run.bind_eq_ok.1 h
      cases ok with
      | false => cases h
      | true => exact ⟨i, t₁, t₂, f, t₃, hi, hclose, hens, hf, hbuf, h⟩
    · cases h

/-- Closing the region that a write has left is a trace. -/
theorem switchWrite_trace {t t₁ : Target (δ × List FlashEvent)} {active i dest : Nat}
    (hs : t.session.Clean) (hdis : MapDisjoint t.session.geometry)
    (hi : targetFlashForAddr t dest = some i)
    (h : switchWrite drv.logged t active i = .ok (true, t₁)) :
    Trace Away dest [] t.session t₁.session ∧ t₁.flash[i]? = t.flash[i]? := by
  unfold switchWrite at h
  split at h
  · next hne =>
    unfold Target.onFlashBuf at h
    split at h
    · cases h
    next f hf =>
    obtain ⟨⟨ok, f', d', log'⟩, hclose, h⟩ := Run.bind_eq_ok.1 h
    cases h
    obtain ⟨pre, post, hsplit, hset⟩ := exists_split hf
    obtain ⟨g, hg, hgc⟩ := targetFlashForAddr_some hi
    have hout : ¬ f.Contains dest := fun hc => hne (hdis.eq hg hf hgc hc)
    have htrace := flashFlushDone_trace drv Away dest (hs f (List.mem_of_getElem? hf)) (.inl hout)
      hclose pre post
    rw [← hsplit, ← hset] at htrace
    exact ⟨htrace, List.getElem?_set_ne (Ne.symm hne)⟩
  · cases h
    exact ⟨.nil, rfl⟩

/-- Making sure that a region has a buffer is a trace. -/
theorem flashBufferEnsure_trace (dest : Nat) {t t₂ : Target (δ × List FlashEvent)} {i : Nat}
    {f : TargetFlash} (hf : t.flash[i]? = some f)
    (h : t.onFlash i (flashBufferEnsure drv.logged) = (true, t₂)) :
    ∃ f', t₂.flash[i]? = some f' ∧ f'.buf.isSome ∧ f'.toFlashGeometry = f.toFlashGeometry ∧
      Trace Away dest [] t.session t₂.session := by
  have hi : i < t.flash.length := (List.getElem?_eq_some_iff.1 hf).1
  rw [Target.onFlash_of_getElem? hf] at h
  simp only [Prod.mk.injEq] at h
  obtain ⟨hr, rfl⟩ := h
  unfold flashBufferEnsure flashBufferAlloc at *
  by_cases hb : f.buf.isSome
  · simp only [hb, if_true]
    refine ⟨f, List.getElem?_set_self hi, hb, rfl, ?_⟩
    have hsame : t.flash.set i f = t.flash := by
      obtain ⟨-, rfl⟩ := List.getElem?_eq_some_iff.1 hf
      exact List.set_getElem_self hi
    rw [hsame]
    exact .nil
  · rcases hm : drv.logged.malloc f.writebufsize t.dev with ⟨got, d', log'⟩
    have hlog : log' = t.dev.2 := by
      have := congrArg (fun x => x.2.2) hm
      simpa [FlashDriver.logged, logCall] using this.symm
    simp only [hb, hm, Bool.false_eq_true, if_false] at hr ⊢
    cases got with
    | false => cases hr
    | true =>
      subst hlog
      obtain ⟨pre, post, hsplit, hset⟩ := exists_split hf
      refine ⟨_, List.getElem?_set_self hi, rfl, rfl, ?_⟩
      have hstep : TidyRegion (Away dest) f _ _ := .alloc (by simpa using hb)
      have htrace : Trace Away dest [] ⟨pre ++ f :: post, t.dev.2⟩ _ := .tidy hstep .nil
      rw [List.append_nil, ← hsplit, ← hset] at htrace
      exact htrace

/-- The second loop of `target_flash_write` is a trace. -/
theorem writeLoop_trace :
    ∀ {fuel : Nat} {t t' : Target (δ × List FlashEvent)} {active dest : Nat} {src : List UInt8},
      t.session.Clean → MapDisjoint t.session.geometry →
      (src ≠ [] → dest + src.length < 2 ^ 32) →
      writeLoop drv.logged fuel t active dest src = .ok (true, t') →
      Trace Away dest src t.session t'.session
  | fuel, _, _, _, _, [], _, _, _, h => by
    cases fuel <;> cases h <;> exact .nil
  | 0, _, _, _, _, _ :: _, _, _, _, h => by cases h
  | fuel + 1, t, t', active, dest, c :: cs, hs, hdis, hlen, h => by
    have hpos : 0 < (c :: cs).length := Nat.succ_pos _
    generalize hsrc : c :: cs = src at hpos hlen h ⊢
    have hne : src ≠ [] := List.length_pos_iff.1 hpos
    replace hlen := hlen hne
    obtain ⟨i, t₁, t₂, f, t₃, hi, hclose, hens, hf, hbuf, hrest⟩ := writeLoop_succ drv.logged hne h
    obtain ⟨g, hg, hgc⟩ := targetFlashForAddr_some hi
    obtain ⟨htrace₁, hsame⟩ := switchWrite_trace drv hs hdis hi hclose
    obtain ⟨f', hf', hbuf', hgeom, htrace₂⟩ :=
      flashBufferEnsure_trace drv dest (hsame.trans hg) hens
    rw [hf] at hf'
    cases hf'
    have htrace₁₂ : Trace Away dest [] t.session t₂.session := htrace₁.trans htrace₂
    obtain ⟨hs₂, hg₂⟩ := htrace₁₂.clean hs
    -- what the region at `dest` takes
    have hc : f.Contains dest := by rw [hgeom]; exact hgc
    have hlocal : f.localEndAddr dest src.length = dest + f.localLength dest src.length ∧
        f.localLength dest src.length ≤ src.length ∧
        ∀ k < f.localLength dest src.length, f.Contains (dest + k) := by
      have hend := add32_lt f.start f.length
      have h1 := hc.1
      have h2 := hc.2
      unfold FlashGeometry.Contains FlashGeometry.localLength FlashGeometry.localEndAddr
      rw [add32_of_lt hlen]
      generalize add32 f.start f.length = e at *
      rw [sub32_of_le (by omega) (by omega)]
      exact ⟨by omega, by omega, fun k hk => by omega⟩
    generalize f.localLength dest src.length = n at hlocal hbuf hrest
    obtain ⟨hend, hn, hall⟩ := hlocal
    have htake : (src.take n).length = n := by
      rw [List.length_take]
      omega
    unfold Target.onFlashBuf at hbuf
    rw [hf] at hbuf
    obtain ⟨⟨ok, f₃, d₃, log₃⟩, hwrite, hbuf⟩ := Run.bind_eq_ok.1 hbuf
    cases hbuf
    obtain ⟨pre, post, hsplit, hset⟩ := exists_split hf
    have htrace₃ := bufferedWriteLoop_trace drv pre post (hs₂ f (List.mem_of_getElem? hf)) hbuf'
      (by rw [htake]; exact hall) hwrite
    rw [← hsplit, ← hset] at htrace₃
    change Trace Away dest (src.take n) t₂.session
      (Target.session { t₂ with flash := t₂.flash.set i f₃, dev := (d₃, log₃) }) at htrace₃
    obtain ⟨hs₃, hg₃⟩ := htrace₃.clean hs₂
    rw [hend] at hrest
    have htrace₄ := writeLoop_trace hs₃ (by rw [hg₃, hg₂]; exact hdis)
      (fun _ => by rw [List.length_drop]; omega) hrest
    have htrace : Trace Away dest (src.take n ++ src.drop n) t₂.session t'.session :=
      htrace₃.trans (by rw [htake]; exact htrace₄)
    rw [List.take_append_drop] at htrace
    exact htrace₁₂.trans htrace

/-- Entering flash mode is not part of the session. -/
theorem targetEnterFlashMode_logged (t : Target (δ × List FlashEvent)) :
    (targetEnterFlashMode drv.logged t).2.session = t.session := by
  unfold targetEnterFlashMode
  split
  · rfl
  · unfold FlashDriver.logged
    cases drv.enterFlashMode with
    | none => rfl
    | some k => simp [Target.session, logCall]

/-- Neither is leaving it. -/
theorem targetExitFlashMode_logged (t : Target (δ × List FlashEvent)) :
    (targetExitFlashMode drv.logged t).2.session = t.session := by
  unfold targetExitFlashMode
  split
  · rfl
  · unfold FlashDriver.logged
    cases drv.exitFlashMode with
    | none => rfl
    | some k => simp [Target.session, logCall]

/-- A `target_flash_write` that returned true is a trace. -/
theorem targetFlashWrite_trace {t t' : Target (δ × List FlashEvent)} {dest : Nat}
    {src : List UInt8} (hs : t.session.Clean) (hdis : MapDisjoint t.session.geometry)
    (hlen : src ≠ [] → dest + src.length < 2 ^ 32)
    (h : targetFlashWrite drv.logged t dest src = .ok (true, t')) :
    Trace Away dest src t.session t'.session := by
  have henter := targetEnterFlashMode_logged drv t
  unfold targetFlashWrite at h
  rcases hmode : targetEnterFlashMode drv.logged t with ⟨entered, t₁⟩
  rw [hmode] at henter
  simp only [hmode] at henter h
  split at h
  · obtain ⟨⟨r, active, fs, d, log⟩, hsettle, h⟩ := Run.bind_eq_ok.1 h
    cases active with
    | none => cases h
    | some active =>
      cases r with
      | false => cases h
      | true =>
        rw [← henter] at hs hdis ⊢
        obtain ⟨-, htrace, -⟩ := settleLoop_trace drv [] hs hsettle
        change Trace Away dest [] t₁.session
          (Target.session { t₁ with flash := fs, dev := (d, log) }) at htrace
        obtain ⟨hs₂, hg₂⟩ := htrace.clean hs
        exact htrace.trans (writeLoop_trace drv hs₂ (by rw [hg₂]; exact hdis) hlen h)
  · cases h

/-- A `target_flash_complete` that returned true is a trace, and leaves nothing pending. -/
theorem targetFlashComplete_trace (dest : Nat) {t t' : Target (δ × List FlashEvent)}
    (hs : t.session.Clean) (h : targetFlashComplete drv.logged t = .ok (true, t')) :
    (∀ f ∈ t'.flash, ¬ f.Pending) ∧ Trace (fun _ _ => True) dest [] t.session t'.session := by
  unfold targetFlashComplete at h
  split at h
  · obtain ⟨⟨r, fs, d, log⟩, hloop, h⟩ := Run.bind_eq_ok.1 h
    have hexit := targetExitFlashMode_logged drv { t with flash := fs, dev := (d, log) }
    rcases hmode : targetExitFlashMode drv.logged { t with flash := fs, dev := (d, log) } with
      ⟨left, t₁⟩
    rw [hmode] at hexit
    simp only [hmode, Except.ok.injEq, Prod.mk.injEq] at h hexit
    obtain ⟨rfl, rfl⟩ := h
    obtain ⟨-, hidle, htrace⟩ := completeLoop_trace drv dest [] hs hloop
    have hflash : t₁.flash = fs := congrArg Session.flash hexit
    rw [hflash, hexit]
    exact ⟨hidle, htrace⟩
  · cases h

end

end Blackmagic
