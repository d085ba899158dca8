import Blackmagic.Flash.Region

/-!
# The flash map of a target: `target_flash_erase`, `target_flash_write`, `target_flash_complete`

The part of `target_s` that `target_flash.c` and `target_add_flash` read and write. A
`target_flash_s *` of the source is an index into the list `flash`, so that comparing two pointers
is comparing two indices. `FlashCall` is one call of the three public functions and
`flashStep` runs it; a run is a list of calls, each with the driver it meets.
-/

namespace Blackmagic

open Word

/-- `target_ram_s`. -/
structure TargetRam where
  start : Nat
  length : Nat
  deriving DecidableEq, Repr

/-- The flash session of a target: `flash_mode`, the memory map, and the state `dev` that the
driver callbacks work on. -/
structure Target (δ : Type) where
  flashMode : Bool
  flash : List TargetFlash
  ram : List TargetRam
  dev : δ

section
variable {δ : Type} (drv : FlashDriver δ)

/-! ## The map -/

/-- `FLASH_WRITE_BUFFER_CEILING`. -/
def flashWriteBufferCeiling : Nat := 1024

/-- The buffer size `target_add_flash` computes from the write size. -/
def writeBufSize (writesize : Nat) : Nat :=
  if writesize ≤ flashWriteBufferCeiling / 2 then
    writesize * (flashWriteBufferCeiling / writesize)
  else writesize

/-- `target_add_flash`: default the write size, size the buffer, prepend the region. -/
def targetAddFlash (t : Target δ) (f : TargetFlash) : Target δ :=
  let writesize := if f.writesize = 0 then f.blocksize else f.writesize
  { t with flash := { f with
      writesize := writesize
      writebufsize := writeBufSize writesize } :: t.flash }

/-- `target_flash_for_addr`: the first region of the list that contains the address. -/
def targetFlashForAddr (t : Target δ) (addr : Nat) : Option Nat :=
  t.flash.findIdx? (fun f => decide (f.Contains addr))

/-- Run a region function on the region at `i`. -/
def Target.onFlash (t : Target δ) (i : Nat) (op : TargetFlash → δ → Bool × TargetFlash × δ) :
    Bool × Target δ :=
  match t.flash[i]? with
  | none => (false, t)
  | some f =>
    let (result, f, d) := op f t.dev
    (result, { t with flash := t.flash.set i f, dev := d })

/-- `Target.onFlash` for a region function that accesses the buffer. -/
def Target.onFlashBuf (t : Target δ) (i : Nat)
    (op : TargetFlash → δ → Except BufFault (Bool × TargetFlash × δ)) :
    Except BufFault (Bool × Target δ) :=
  match t.flash[i]? with
  | none => .ok (false, t)
  | some f => do
    let (result, f, d) ← op f t.dev
    .ok (result, { t with flash := t.flash.set i f, dev := d })

/-! ## Flash mode -/

/-- `target_enter_flash_mode`. -/
def targetEnterFlashMode (t : Target δ) : Bool × Target δ :=
  if t.flashMode then (true, t)
  else
    let (result, d) := match drv.enterFlashMode with
      | some k => k t.dev
      | none => (true, drv.reset t.dev)
    (result, { t with flashMode := result, dev := d })

/-- `target_exit_flash_mode`. -/
def targetExitFlashMode (t : Target δ) : Bool × Target δ :=
  if !t.flashMode then (true, t)
  else
    let (result, d) := match drv.exitFlashMode with
      | some k => k t.dev
      | none => (true, drv.reset t.dev)
    (result, { t with flashMode := false, dev := d })

/-! ## `target_flash_erase` -/

/-- `flash->erase(flash, addr, len)` on the region at `i`. -/
def flashErase (addr len : Nat) (f : TargetFlash) (d : δ) : Bool × TargetFlash × δ :=
  let (result, d) := drv.erase f addr len d
  (result, f, d)

/-- "Terminate flash operations if we're not in the same target flash" (erase). -/
def switchErase (t : Target δ) (active i : Nat) : Bool × Target δ :=
  if i ≠ active then t.onFlash active (flashDone drv) else (true, t)

/-- The loop of `target_flash_erase`. With a power-of-two block size an iteration consumes at least
one byte of `len`, so `len` iterations are enough. -/
def eraseLoop : (fuel : Nat) → Target δ → (active addr len : Nat) → Bool → Bool × Target δ
  | _, t, active, _, 0, result =>
    let (ok, t) := t.onFlash active (flashDone drv)
    (result && ok, t)
  | 0, t, _, _, _ + 1, _ => (false, t)
  | fuel + 1, t, active, addr, len@(_ + 1), result =>
    match targetFlashForAddr t addr with
    | none => (false, t)
    | some i =>
      let (switched, t) := switchErase drv t active i
      match t.flash[i]? with
      | none => (false, t)
      | some f =>
        let localStartAddr := alignDown addr f.blocksize
        let localEndAddr := add32 localStartAddr f.blocksize
        let (prepared, t) := t.onFlash i (fun f d => flashPrepare drv f .erase d)
        if prepared then
          let (ok, t) := t.onFlash i (flashErase drv localStartAddr f.blocksize)
          if result && switched && ok then
            eraseLoop fuel t i localEndAddr (len - min (sub32 localEndAddr addr) len) true
          else
            let (_, t) := t.onFlash i (flashDone drv)
            (false, t)
        else (false, t)

/-- `target_flash_erase`. -/
def targetFlashErase (t : Target δ) (addr len : Nat) : Bool × Target δ :=
  let (entered, t) := targetEnterFlashMode drv t
  if entered then
    match targetFlashForAddr t addr with
    | none => (false, t)
    | some active => eraseLoop drv len t active addr len true
  else (false, t)

/-! ## `target_flash_write` -/

/-- `flash_buffered_flush` followed by `flash_done`, both results conjoined. -/
def flashFlushDone (f : TargetFlash) (d : δ) : Except BufFault (Bool × TargetFlash × δ) := do
  let (flushed, f, d) ← flashBufferedFlush drv f d
  let (done, f, d) := flashDone drv f d
  .ok (flushed && done, f, d)

/-- The first loop of `target_flash_write`, over the regions from index `i` on: find the region
that contains `dest` (the last one of the list that does) and close every other one that holds a
buffer. -/
def settleLoop (dest : Nat) :
    List TargetFlash → (i : Nat) → (active : Option Nat) → Bool → δ →
      Except BufFault (Bool × Option Nat × List TargetFlash × δ)
  | [], _, active, result, d => .ok (result, active, [], d)
  | f :: rest, i, active, result, d => do
    if f.Contains dest then
      let (result, active, rest, d) ← settleLoop dest rest (i + 1) (some i) result d
      .ok (result, active, f :: rest, d)
    else if f.buf.isSome then
      let (ok, f, d) ← flashFlushDone drv f d
      let (result, active, rest, d) ← settleLoop dest rest (i + 1) active (result && ok) d
      .ok (result, active, f :: rest, d)
    else
      let (result, active, rest, d) ← settleLoop dest rest (i + 1) active result d
      .ok (result, active, f :: rest, d)

/-- `if (!flash->buf) flash_buffer_alloc(flash)`. -/
def flashBufferEnsure (f : TargetFlash) (d : δ) : Bool × TargetFlash × δ :=
  if f.buf.isSome then (true, f, d) else flashBufferAlloc drv f d

/-- "Terminate flash operations if we're not in the same target flash" (write). -/
def switchWrite (t : Target δ) (active i : Nat) : Except BufFault (Bool × Target δ) :=
  if i ≠ active then t.onFlashBuf active (flashFlushDone drv) else .ok (true, t)

/-- `MIN(dest + len, flash->start + flash->length)`, with 32-bit sums. -/
def FlashGeometry.localEndAddr (g : FlashGeometry) (dest len : Nat) : Nat :=
  min (add32 dest len) (add32 g.start g.length)

/-- The second loop of `target_flash_write`. An iteration consumes at least one byte. -/
def writeLoop : (fuel : Nat) → Target δ → (active dest : Nat) → (src : List UInt8) →
    Except BufFault (Bool × Target δ)
  | _, t, _, _, [] => .ok (true, t)
  | 0, t, _, _, _ :: _ => .ok (false, t)
  | fuel + 1, t, active, dest, src@(_ :: _) =>
    match targetFlashForAddr t dest with
    | none => .ok (false, t)
    | some i => do
      let (closed, t) ← switchWrite drv t active i
      let (ready, t) := t.onFlash i (flashBufferEnsure drv)
      if closed && ready then
        match t.flash[i]? with
        | none => .ok (false, t)
        | some f =>
          let localEndAddr := f.localEndAddr dest src.length
          let localLength := sub32 localEndAddr dest
          let (ok, t) ← t.onFlashBuf i
            (fun f d => flashBufferedWrite drv f dest (src.take localLength) d)
          if ok then writeLoop fuel t i localEndAddr (src.drop localLength)
          else .ok (false, t)
      else .ok (false, t)

/-- `target_flash_write`; `len` is the length of `src`. -/
def targetFlashWrite (t : Target δ) (dest : Nat) (src : List UInt8) :
    Except BufFault (Bool × Target δ) :=
  let (entered, t) := targetEnterFlashMode drv t
  if entered then do
    let (result, active, flash, d) ← settleLoop drv dest t.flash 0 none true t.dev
    let t := { t with flash := flash, dev := d }
    match active with
    | none => .ok (false, t)
    | some active => if result then writeLoop drv src.length t active dest src else .ok (false, t)
  else .ok (false, t)

/-! ## `target_flash_complete` -/

/-- The loop of `target_flash_complete`. -/
def completeLoop : List TargetFlash → Bool → δ → Except BufFault (Bool × List TargetFlash × δ)
  | [], result, d => .ok (result, [], d)
  | f :: rest, result, d => do
    let (ok, f, d) ← flashFlushDone drv f d
    let (result, rest, d) ← completeLoop rest (result && ok) d
    .ok (result, f :: rest, d)

/-- `target_flash_complete`; the result of `target_exit_flash_mode` is not looked at. -/
def targetFlashComplete (t : Target δ) : Except BufFault (Bool × Target δ) :=
  if t.flashMode then do
    let (result, flash, d) ← completeLoop drv t.flash true t.dev
    let (_, t) := targetExitFlashMode drv { t with flash := flash, dev := d }
    .ok (result, t)
  else .ok (false, t)

/-! ## Calls and runs -/

/-- A call of one of the three public functions. -/
inductive FlashCall
  | erase (addr len : Nat)
  | write (dest : Nat) (src : List UInt8)
  | complete

/-- Run one call. -/
def flashStep (t : Target δ) : FlashCall → Except BufFault (Bool × Target δ)
  | .erase addr len => .ok (targetFlashErase drv t addr len)
  | .write dest src => targetFlashWrite drv t dest src
  | .complete => targetFlashComplete drv t

/-- Run a list of calls, each against its own driver, collecting what each returned. -/
def flashRun (t : Target δ) :
    List (FlashDriver δ × FlashCall) → Except BufFault (List Bool × Target δ)
  | [] => .ok ([], t)
  | (drv, c) :: cs => do
    let (ok, t) ← flashStep drv t c
    let (oks, t) ← flashRun t cs
    .ok (ok :: oks, t)

end

end Blackmagic
