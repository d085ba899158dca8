import Blackmagic.Flash.Target

/-!
# The write buffer of a region

`BufInv` is the representation invariant of `target_flash_s`: the allocation has `writebufsize`
bytes, and the span `[bufAddrLow, bufAddrHigh)` lies in the page that starts at `bufAddrBase`.
The span can also be empty with a low end in the last page of the address space; a write that runs
past `0xffffffff` leaves it so, since its high end wraps to `0`.

Under the invariant, and when the region is not in operation `ERASE`, `flashBufferedFlush_cases`
says everything a flush can do. The two excluded situations are the ones in which the source goes
wrong: a flush in operation `ERASE` frees the buffer it is about to read, and a flush whose
`prepare` fails leaves its span behind for the next page.
-/

namespace Blackmagic

open Word

/-! ## Geometry -/

/-- The geometry every driver registers: power-of-two sizes, and the buffer size of
`target_add_flash`. -/
structure FlashGeometry.Wf (g : FlashGeometry) : Prop where
  writesize_pow2 : IsPow2 g.writesize
  blocksize_pow2 : IsPow2 g.blocksize
  writebufsize_eq : g.writebufsize = writeBufSize g.writesize

/-- A power-of-two write size gives a power-of-two buffer of whole units. -/
theorem writeBufSize_pow2 {w : Nat} (h : IsPow2 w) :
    IsPow2 (writeBufSize w) ∧ w ∣ writeBufSize w := by
  unfold writeBufSize flashWriteBufferCeiling
  split
  · next hle =>
    have hw : w ∣ 1024 := by
      obtain ⟨k, -, rfl⟩ := h
      have hk : k ≤ 9 := by
        rw [show 1024 / 2 = 2 ^ 9 by decide] at hle
        exact (Nat.pow_le_pow_iff_right (by decide)).1 hle
      exact Nat.pow_dvd_pow 2 (show k ≤ 10 by omega)
    rw [Nat.mul_div_cancel' hw]
    exact ⟨⟨10, by decide, rfl⟩, hw⟩
  · exact ⟨h, Nat.dvd_refl w⟩

namespace FlashGeometry.Wf
variable {g : FlashGeometry} (h : g.Wf)
include h

/-- The size of the buffer is a power of two. -/
theorem writebufsize_pow2 : IsPow2 g.writebufsize := by
  rw [h.writebufsize_eq]
  exact (writeBufSize_pow2 h.writesize_pow2).1

/-- The buffer holds whole units. -/
theorem writesize_dvd : g.writesize ∣ g.writebufsize := by
  rw [h.writebufsize_eq]
  exact (writeBufSize_pow2 h.writesize_pow2).2

/-- A unit has a byte. -/
theorem writesize_pos : 0 < g.writesize := h.writesize_pow2.pos

/-- The buffer has a byte. -/
theorem writebufsize_pos : 0 < g.writebufsize := h.writebufsize_pow2.pos

end FlashGeometry.Wf

/-! ## The invariant -/

/-- The span the buffer holds: empty, its low end in the last page of the address space, or a
non-empty part of the page at `bufAddrBase`. -/
inductive TargetFlash.Span (f : TargetFlash) : Prop
  | empty (high : f.bufAddrHigh = 0) (low : 2 ^ 32 ≤ f.bufAddrLow + f.writebufsize)
      (low_lt : f.bufAddrLow < 2 ^ 32)
  | page (base : f.writebufsize ∣ f.bufAddrBase) (top : f.bufAddrBase + f.writebufsize ≤ 2 ^ 32)
      (low : f.bufAddrBase ≤ f.bufAddrLow) (lt : f.bufAddrLow < f.bufAddrHigh)
      (high : f.bufAddrHigh ≤ f.bufAddrBase + f.writebufsize) (high_lt : f.bufAddrHigh < 2 ^ 32)

/-- The representation invariant of a region. -/
structure TargetFlash.BufInv (f : TargetFlash) : Prop where
  wf : f.toFlashGeometry.Wf
  size : ∀ b, f.buf = some b → b.length = f.writebufsize
  span : f.buf.isSome → f.Span

/-- A region without a buffer satisfies the invariant. -/
theorem TargetFlash.BufInv.of_none {f : TargetFlash} (wf : f.toFlashGeometry.Wf)
    (h : f.buf = none) : f.BufInv :=
  ⟨wf, by simp [h], by simp [h]⟩

/-- The invariant does not speak about the operation. -/
theorem TargetFlash.BufInv.setOperation {f : TargetFlash} (h : f.BufInv)
    (op : FlashOperation) : { f with operation := op }.BufInv := by
  refine ⟨h.wf, h.size, fun hb => ?_⟩
  rcases h.span hb with ⟨h1, h2, h3⟩ | ⟨h1, h2, h3, h4, h5, h6⟩
  · exact .empty h1 h2 h3
  · exact .page h1 h2 h3 h4 h5 h6

/-- An emptied span satisfies the invariant. -/
theorem TargetFlash.BufInv.clearSpan {f : TargetFlash} (h : f.BufInv) : f.clearSpan.BufInv := by
  refine ⟨h.wf, h.size, fun _ => .empty rfl ?_ (by change maxU32 < _; decide)⟩
  have := h.wf.writebufsize_pos
  change 2 ^ 32 ≤ maxU32 + f.writebufsize
  unfold maxU32
  omega

/-- What is pending is a non-empty part of one page. -/
theorem TargetFlash.BufInv.pending {f : TargetFlash} (h : f.BufInv) (hp : f.Pending) :
    f.writebufsize ∣ f.bufAddrBase ∧ f.bufAddrBase + f.writebufsize ≤ 2 ^ 32 ∧
      f.bufAddrBase ≤ f.bufAddrLow ∧ f.bufAddrHigh ≤ f.bufAddrBase + f.writebufsize ∧
      f.bufAddrHigh < 2 ^ 32 := by
  rcases h.span hp.1 with ⟨h1, h2, h3⟩ | ⟨h1, h2, h3, h4, h5, h6⟩
  · have := hp.2.2.2
    omega
  · exact ⟨h1, h2, h3, h5, h6⟩

/-! ## The units of a flush -/

/-- `count` consecutive write units of a buffer: the address and the data of each. -/
def unitsFrom (b : List UInt8) (writesize : Nat) :
    (addr index count : Nat) → List (Nat × List UInt8)
  | _, _, 0 => []
  | addr, index, count + 1 =>
    (addr, (b.drop index).take writesize) ::
      unitsFrom b writesize (addr + writesize) (index + writesize) count

/-- The units of a flush. -/
theorem mem_unitsFrom {b : List UInt8} {ws : Nat} :
    ∀ {count addr index : Nat} {u : Nat × List UInt8}, u ∈ unitsFrom b ws addr index count ↔
      ∃ k < count, u = (addr + k * ws, (b.drop (index + k * ws)).take ws)
  | 0, _, _, _ => by simp [unitsFrom]
  | count + 1, addr, index, u => by
    rw [unitsFrom, List.mem_cons, mem_unitsFrom]
    constructor
    · rintro (rfl | ⟨k, hk, rfl⟩)
      · exact ⟨0, by omega, by simp⟩
      · refine ⟨k + 1, by omega, ?_⟩
        rw [Nat.succ_mul, Nat.add_comm (k * ws), ← Nat.add_assoc, ← Nat.add_assoc]
    · rintro ⟨k, hk, rfl⟩
      cases k with
      | zero => exact .inl (by simp)
      | succ k =>
        refine .inr ⟨k, by omega, ?_⟩
        rw [Nat.succ_mul, Nat.add_comm (k * ws), ← Nat.add_assoc, ← Nat.add_assoc]

/-- The address of the first unit a flush writes: `buf_addr_low & ~(writesize - 1)`. -/
def TargetFlash.unitLow (f : TargetFlash) : Nat := f.bufAddrLow - f.bufAddrLow % f.writesize

/-- The number of units a flush writes. -/
def TargetFlash.unitCount (f : TargetFlash) : Nat :=
  (f.bufAddrHigh - f.unitLow + f.writesize - 1) / f.writesize

/-- The units a flush writes, with their data. -/
def TargetFlash.pendingUnits (f : TargetFlash) : List (Nat × List UInt8) :=
  unitsFrom (f.buf.getD []) f.writesize f.unitLow (f.unitLow - f.bufAddrBase) f.unitCount

section
variable {δ : Type} (drv : FlashDriver δ)

/-- Call `flash->write` for each unit; all are called, whatever the results. -/
def writeUnits (f : TargetFlash) : List (Nat × List UInt8) → Bool → δ → Bool × δ
  | [], result, d => (result, d)
  | (addr, data) :: us, result, d =>
    let (ok, d) := drv.write f addr data d
    writeUnits f us (result && ok) d

/-- The flush loop stays inside the buffer and writes consecutive units, when the last of them
ends inside it. -/
theorem flushLoop_eq {f : TargetFlash} {b : List UInt8} (hb : f.buf = some b)
    (hws : 0 < f.writesize) (alignedAddr index : Nat) :
    ∀ (count offset : Nat) (result : Bool) (d : δ),
      index + offset + count * f.writesize ≤ f.writebufsize →
      alignedAddr + offset + count * f.writesize ≤ 2 ^ 32 →
      flushLoop drv f alignedAddr index count offset result d =
        .ok (writeUnits drv f
          (unitsFrom b f.writesize (alignedAddr + offset) (index + offset) count) result d)
  | 0, _, _, _, _, _ => rfl
  | count + 1, offset, result, d, h1, h2 => by
    rw [Nat.succ_mul] at h1 h2
    have hread : f.bufRead (index + offset) f.writesize =
        .ok ((b.drop (index + offset)).take f.writesize) := by
      rw [TargetFlash.bufRead, hb]
      exact if_pos (by omega)
    have hadd : add32 alignedAddr offset = alignedAddr + offset := add32_of_lt (by omega)
    have ih := flushLoop_eq hb hws alignedAddr index count (offset + f.writesize)
    rw [flushLoop, hread, unitsFrom, writeUnits, hadd, Nat.add_assoc alignedAddr,
      Nat.add_assoc index]
    exact ih _ _ (by omega) (by omega)

/-- The units a flush writes start and end in the page and cover what is pending. -/
theorem TargetFlash.BufInv.units_span {f : TargetFlash} (h : f.BufInv) (hp : f.Pending) :
    f.bufAddrBase ≤ f.unitLow ∧ f.unitLow ≤ f.bufAddrLow ∧
      f.unitLow + f.unitCount * f.writesize ≤ f.bufAddrBase + f.writebufsize ∧
      f.bufAddrHigh ≤ f.unitLow + f.unitCount * f.writesize := by
  obtain ⟨hbase, -, hlow, hhigh, -⟩ := h.pending hp
  have hdvd := h.wf.writesize_dvd
  have hb : f.writesize ∣ f.bufAddrBase := hdvd.trans hbase
  have h1 : f.bufAddrBase ≤ f.unitLow := le_unit_of_dvd hb hlow
  have h2 : f.unitLow ≤ f.bufAddrLow := Nat.sub_le _ _
  have hroom : f.writesize ∣ f.bufAddrBase + f.writebufsize - f.unitLow :=
    Nat.dvd_sub (Nat.dvd_add hb hdvd) (dvd_unit _ _)
  have hlen : f.bufAddrHigh - f.unitLow ≤ f.bufAddrBase + f.writebufsize - f.unitLow := by omega
  have := ceil_units h.wf.writesize_pos hroom hlen
  have hlt := hp.2.2.2
  unfold TargetFlash.unitCount
  omega

/-! ## What a flush can do -/

/-- A flush of a pending region, once prepared: every unit is written and the span emptied. -/
theorem flashBufferedFlush_prepared {f f' : TargetFlash} {d d' : δ} (h : f'.BufInv)
    (hp : f.Pending) (hp' : f'.Pending) (hprep : flashPrepare drv f .write d = (true, f', d')) :
    flashBufferedFlush drv f d =
      .ok ((writeUnits drv f' f'.pendingUnits true d').1, f'.clearSpan,
        (writeUnits drv f' f'.pendingUnits true d').2) := by
  obtain ⟨b, hb⟩ := Option.isSome_iff_exists.1 hp'.1
  obtain ⟨-, htop, hlow, hhigh, hhigh'⟩ := h.pending hp'
  obtain ⟨h1, h2, h3, h4⟩ := h.units_span hp'
  have hlt := hp'.2.2.2
  have halign : alignDown f'.bufAddrLow f'.writesize = f'.unitLow :=
    h.wf.writesize_pow2.alignDown (by omega)
  have hindex : sub32 f'.unitLow f'.bufAddrBase = f'.unitLow - f'.bufAddrBase :=
    sub32_of_le h1 (by omega)
  have hlength : (sub32 f'.bufAddrHigh f'.unitLow + f'.writesize - 1) / f'.writesize =
      f'.unitCount := by
    rw [sub32_of_le (by omega) hhigh']
    rfl
  have hloop := flushLoop_eq drv hb h.wf.writesize_pos f'.unitLow (f'.unitLow - f'.bufAddrBase)
    f'.unitCount 0 true d' (by omega) (by omega)
  have hunits : f'.pendingUnits = unitsFrom b f'.writesize (f'.unitLow + 0)
      (f'.unitLow - f'.bufAddrBase + 0) f'.unitCount := by
    rw [TargetFlash.pendingUnits, hb]
    rfl
  rw [← hunits] at hloop
  simp only [flashBufferedFlush, hp, hprep, halign, hindex, hlength, hloop, if_true]
  rfl

/-- Preparing to write, from any operation but `ERASE`: nothing to do, or one call of
`prepare`. -/
theorem flashPrepare_write {f : TargetFlash} (hop : f.operation ≠ .erase) (d : δ) :
    (f.operation = .write ∧ flashPrepare drv f .write d = (true, f, d)) ∨
    (f.operation = .none ∧ ∃ d', drv.callPrepare { f with operation := .write } d = (true, d') ∧
      flashPrepare drv f .write d = (true, { f with operation := .write }, d')) ∨
    (f.operation = .none ∧ ∃ d', drv.callPrepare { f with operation := .write } d = (false, d') ∧
      flashPrepare drv f .write d = (false, f, d')) := by
  cases hf : f.operation with
  | erase => exact absurd hf hop
  | write => exact .inl ⟨rfl, by simp [flashPrepare, hf]⟩
  | none =>
    refine .inr ?_
    rcases hc : drv.callPrepare { f with operation := .write } d with ⟨r, d'⟩
    cases r with
    | true => exact .inl ⟨rfl, d', rfl, by simp [flashPrepare, hf, hc]⟩
    | false =>
      refine .inr ⟨rfl, d', rfl, ?_⟩
      have hsame : { f with operation := FlashOperation.none } = f := by rw [← hf]
      simp [flashPrepare, hf, hc, hsame]

/-- Everything a flush can do to a region that satisfies the invariant and is not in operation
`ERASE`: nothing is pending; or `prepare` fails and the region is as before; or the units are
written and the span is empty. -/
theorem flashBufferedFlush_cases {f : TargetFlash} (h : f.BufInv) (hop : f.operation ≠ .erase)
    (d : δ) :
    (¬ f.Pending ∧ flashBufferedFlush drv f d = .ok (true, f, d)) ∨
    (f.Pending ∧ f.operation = .none ∧
      ∃ d', drv.callPrepare { f with operation := .write } d = (false, d') ∧
        flashBufferedFlush drv f d = .ok (false, f, d')) ∨
    (f.Pending ∧ ∃ d' result d'', (f.operation = .write ∧ d' = d ∨
        f.operation = .none ∧ drv.callPrepare { f with operation := .write } d = (true, d')) ∧
      writeUnits drv { f with operation := .write } f.pendingUnits true d' = (result, d'') ∧
      flashBufferedFlush drv f d =
        .ok (result, { f with operation := .write }.clearSpan, d'')) := by
  by_cases hp : f.Pending
  · refine .inr ?_
    have hw : { f with operation := FlashOperation.write }.Pending := hp
    rcases flashPrepare_write drv hop d with ⟨hf, hprep⟩ | ⟨hf, d', hc, hprep⟩ | ⟨hf, d', hc, hprep⟩
    · refine .inr ⟨hp, d, _, _, .inl ⟨hf, rfl⟩, rfl, ?_⟩
      have hsame : { f with operation := FlashOperation.write } = f := by rw [← hf]
      rw [flashBufferedFlush_prepared drv h hp hp hprep, hsame]
    · exact .inr ⟨hp, d', _, _, .inr ⟨hf, hc⟩, rfl,
        flashBufferedFlush_prepared drv (h.setOperation .write) hp hw hprep⟩
    · refine .inl ⟨hp, hf, d', hc, ?_⟩
      simp [flashBufferedFlush, hp, hprep]
  · exact .inl ⟨hp, by simp [flashBufferedFlush, hp]⟩

/-! ## One iteration of a buffered write -/

/-- The buffer is at least a kilobyte, so no page starts at `UINT32_MAX`. -/
theorem FlashGeometry.Wf.writebufsize_ge {g : FlashGeometry} (h : g.Wf) : 513 ≤ g.writebufsize := by
  have hpos := h.writebufsize_pos
  have hdvd := h.writesize_dvd
  rw [h.writebufsize_eq] at *
  unfold writeBufSize flashWriteBufferCeiling at *
  split at hdvd
  · next hle =>
    rw [if_pos hle]
    have hw := h.writesize_pos
    have hdm := Nat.div_add_mod 1024 g.writesize
    have hlt := Nat.mod_lt 1024 hw
    omega
  · next hlt =>
    rw [if_neg hlt]
    omega

/-- A region with a buffer and nothing pending holds an empty span. -/
theorem TargetFlash.BufInv.empty_of_not_pending {f : TargetFlash} (h : f.BufInv)
    (hb : f.buf.isSome) (hp : ¬ f.Pending) :
    f.bufAddrHigh = 0 ∧ 2 ^ 32 ≤ f.bufAddrLow + f.writebufsize ∧ f.bufAddrLow < 2 ^ 32 := by
  rcases h.span hb with ⟨h1, h2, h3⟩ | ⟨h1, h2, h3, h4, h5, h6⟩
  · exact ⟨h1, h2, h3⟩
  · have hge := h.wf.writebufsize_ge
    refine absurd ⟨hb, ?_, ?_, h4⟩ hp
    · unfold maxU32
      omega
    · unfold maxU32
      omega

/-- Starting a page on a region with an empty span keeps the invariant. -/
theorem TargetFlash.BufInv.fill {f : TargetFlash} (h : f.BufInv) (hb : f.buf.isSome)
    (hp : ¬ f.Pending) (baseAddr : Nat) :
    { f with
      bufAddrBase := baseAddr
      buf := some (List.replicate f.writebufsize f.erased) }.BufInv := by
  obtain ⟨h1, h2, h3⟩ := h.empty_of_not_pending hb hp
  refine ⟨h.wf, ?_, fun _ => .empty h1 h2 h3⟩
  rintro b ⟨⟩
  exact List.length_replicate

/-- Copying a chunk that stays in the page of `dest` into a buffer based at that page succeeds and
keeps the invariant. -/
theorem flashBufferChunk_spec {f : TargetFlash} {b : List UInt8} (h : f.BufInv)
    (hb : f.buf = some b) (dest : Nat) (chunk : List UInt8) (hdest : dest < 2 ^ 32)
    (hbase : f.bufAddrBase = dest - dest % f.writebufsize)
    (hlen : dest % f.writebufsize + chunk.length ≤ f.writebufsize) (hne : chunk ≠ []) :
    ∃ f', flashBufferChunk f dest chunk = .ok f' ∧ f'.BufInv ∧
      f' = { f with
        buf := some (Bytes.overwrite b (dest % f.writebufsize) chunk)
        bufAddrLow := min f.bufAddrLow dest
        bufAddrHigh := max f.bufAddrHigh (add32 dest chunk.length) } := by
  refine ⟨_, ?_, ?_, rfl⟩
  · simp [flashBufferChunk, TargetFlash.bufCopy, hb, hlen, bind, Except.bind]
  have hpos : 0 < chunk.length := List.length_pos_iff.2 hne
  have hmod := Nat.mod_le dest f.writebufsize
  have htop := h.wf.writebufsize_pow2.block_le hdest
  refine ⟨h.wf, ?_, fun _ => ?_⟩
  · rintro b' ⟨⟩
    rw [Bytes.length_overwrite (by rw [h.size b hb]; exact hlen)]
    exact h.size b hb
  have hdvd : f.writebufsize ∣ f.bufAddrBase := hbase ▸ dvd_unit _ _
  rcases h.span (by rw [hb]; rfl) with ⟨h1, h2, h3⟩ | ⟨h1, h2, h3, h4, h5, h6⟩
  · rcases Nat.lt_or_ge (dest + chunk.length) (2 ^ 32) with hlt | hge
    · refine .page hdvd ?_ ?_ ?_ ?_ ?_ <;> simp only [add32_of_lt hlt, h1] <;> omega
    · -- the chunk ends at the top of the address space and its high end wraps to zero
      have hwrap : add32 dest chunk.length = 0 := by
        unfold add32
        omega
      refine .empty ?_ ?_ ?_ <;> simp only [hwrap, h1] <;> omega
  · have := add32_lt dest chunk.length
    have hend : add32 dest chunk.length ≤ dest + chunk.length := Nat.mod_le _ _
    refine .page hdvd ?_ ?_ ?_ ?_ ?_ <;> simp only <;> omega

/-- The number of bytes one iteration of `flash_buffered_write` consumes. -/
def TargetFlash.localLen (f : TargetFlash) (dest len : Nat) : Nat :=
  min (f.writebufsize - dest % f.writebufsize) len

/-- One iteration of `flash_buffered_write`, from what its two parts return. -/
theorem bufferedWriteLoop_step {f f₁ f₂ : TargetFlash} {dest fuel : Nat} {src : List UInt8}
    {result ok : Bool} {d d₁ : δ} (hwbs : 0 < f.writebufsize) (hne : src ≠ [])
    (hgeom : f₁.toFlashGeometry = f.toFlashGeometry)
    (h₁ : flashBufferRebase drv f (alignDown dest f.writebufsize) d = .ok (ok, f₁, d₁))
    (h₂ : flashBufferChunk f₁ dest (src.take (f.localLen dest src.length)) = .ok f₂) :
    bufferedWriteLoop drv (fuel + 1) f dest src result d =
      bufferedWriteLoop drv fuel f₂ (add32 dest (f.localLen dest src.length))
        (src.drop (f.localLen dest src.length)) (result && ok) d₁ := by
  have hsize : f₁.writebufsize = f.writebufsize := by rw [hgeom]
  cases src with
  | nil => exact absurd rfl hne
  | cons c cs =>
    unfold TargetFlash.localLen at *
    simp only [bufferedWriteLoop, hwbs.ne', if_false, h₁, bind, Except.bind, hsize, h₂]

end

end Blackmagic
