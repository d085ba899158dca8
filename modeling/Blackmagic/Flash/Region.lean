import Blackmagic.Lib.Word
import Blackmagic.Lib.Bytes

/-!
# One flash region: `target_flash_s` and its buffered operations

The functions of `target_flash.c` that work on a single `target_flash_s`. A function takes the
region and the state `δ` of everything the driver callbacks can touch (the probe, the target, the
heap) and returns both. `flash->buf` is an `Option`: `none` is `NULL`. Every access to it goes
through `TargetFlash.bufRead`, `bufFill` or `bufCopy`, which answer a `BufFault` where the C code
would dereference `NULL` or leave the allocation; all other functions are total.
-/

namespace Blackmagic

open Word

/-- `flash_operation_e`. -/
inductive FlashOperation
  | none
  | erase
  | write
  deriving DecidableEq, Repr

/-- The fields of `target_flash_s` that a driver's probe fixes; `writebufsize` is computed by
`target_add_flash`. -/
structure FlashGeometry where
  start : Nat
  length : Nat
  blocksize : Nat
  writesize : Nat
  writebufsize : Nat
  erased : UInt8
  deriving DecidableEq, Repr

/-- `target_flash_s`: the geometry and the session state of one region. -/
structure TargetFlash extends FlashGeometry where
  operation : FlashOperation
  buf : Option (List UInt8)
  bufAddrBase : Nat
  bufAddrLow : Nat
  bufAddrHigh : Nat
  deriving DecidableEq, Repr

/-- `flash->start <= addr && addr < flash->start + flash->length`, with the 32-bit sum. -/
def FlashGeometry.Contains (g : FlashGeometry) (addr : Nat) : Prop :=
  g.start ≤ addr ∧ addr < add32 g.start g.length

instance (g : FlashGeometry) (addr : Nat) : Decidable (g.Contains addr) :=
  inferInstanceAs (Decidable (_ ∧ _))

/-- What the flash layer calls out to. A `NULL` callback is `none`; `reset` is `target_reset` and
`malloc` answers whether the heap had room. Each callback returns its result and the state it
leaves behind. -/
structure FlashDriver (δ : Type) where
  enterFlashMode : Option (δ → Bool × δ)
  exitFlashMode : Option (δ → Bool × δ)
  reset : δ → δ
  prepare : Option (TargetFlash → δ → Bool × δ)
  done : Option (TargetFlash → δ → Bool × δ)
  erase : TargetFlash → (addr len : Nat) → δ → Bool × δ
  write : TargetFlash → (dest : Nat) → (src : List UInt8) → δ → Bool × δ
  malloc : (size : Nat) → δ → Bool × δ

/-- The two ways an access to `flash->buf` is undefined, and a division by a zero
`writebufsize`. -/
inductive BufFault
  | null
  | outOfRange
  | zeroSize
  deriving DecidableEq, Repr

/-! ## The write buffer -/

/-- `size` bytes of the buffer from `index`, as `flash->write` reads them. -/
def TargetFlash.bufRead (f : TargetFlash) (index size : Nat) : Except BufFault (List UInt8) :=
  match f.buf with
  | none => .error .null
  | some b =>
    if index + size ≤ f.writebufsize then .ok ((b.drop index).take size) else .error .outOfRange

/-- `memset(flash->buf, flash->erased, flash->writebufsize)`. -/
def TargetFlash.bufFill (f : TargetFlash) : Except BufFault TargetFlash :=
  match f.buf with
  | none => .error .null
  | some _ => .ok { f with buf := some (List.replicate f.writebufsize f.erased) }

/-- `memcpy(flash->buf + index, data, |data|)`. -/
def TargetFlash.bufCopy (f : TargetFlash) (index : Nat) (data : List UInt8) :
    Except BufFault TargetFlash :=
  match f.buf with
  | none => .error .null
  | some b =>
    if index + data.length ≤ f.writebufsize then
      .ok { f with buf := some (Bytes.overwrite b index data) }
    else .error .outOfRange

/-- The guard of `flash_buffered_flush`: there is something to write out. -/
def TargetFlash.Pending (f : TargetFlash) : Prop :=
  f.buf.isSome ∧ f.bufAddrBase ≠ maxU32 ∧ f.bufAddrLow ≠ maxU32 ∧ f.bufAddrLow < f.bufAddrHigh

instance (f : TargetFlash) : Decidable f.Pending :=
  inferInstanceAs (Decidable (_ ∧ _ ∧ _ ∧ _))

/-- The empty span that `flash_buffer_alloc` and `flash_buffered_flush` leave. -/
def TargetFlash.clearSpan (f : TargetFlash) : TargetFlash :=
  { f with bufAddrBase := maxU32, bufAddrLow := maxU32, bufAddrHigh := 0 }

section
variable {δ : Type} (drv : FlashDriver δ)

/-- `flash->prepare(flash)`, where there is one. -/
def FlashDriver.callPrepare (f : TargetFlash) (d : δ) : Bool × δ :=
  match drv.prepare with
  | none => (true, d)
  | some k => k f d

/-- `flash->done(flash)`, where there is one. -/
def FlashDriver.callDone (f : TargetFlash) (d : δ) : Bool × δ :=
  match drv.done with
  | none => (true, d)
  | some k => k f d

/-! ## `flash_done`, `flash_prepare` and `flash_buffer_alloc` -/

/-- `flash_done`: terminate the operation, free the buffer, mark the region idle. -/
def flashDone (f : TargetFlash) (d : δ) : Bool × TargetFlash × δ :=
  if f.operation = .none then (true, f, d)
  else
    let (result, d) := drv.callDone f d
    (result, { f with buf := none, operation := .none }, d)

/-- `flash_prepare`. -/
def flashPrepare (f : TargetFlash) (operation : FlashOperation) (d : δ) :
    Bool × TargetFlash × δ :=
  if f.operation = operation then (true, f, d)
  else
    let (result, f, d) := if f.operation ≠ .none then flashDone drv f d else (true, f, d)
    if result then
      let (result, d) := drv.callPrepare { f with operation := operation } d
      if result then (true, { f with operation := operation }, d)
      else (false, { f with operation := .none }, d)
    else (false, f, d)

/-- `flash_buffer_alloc`. The contents `malloc` leaves are indeterminate; nothing reads them before
the `memset` that the `UINT32_MAX` base forces. A failed `malloc` leaves `buf` at `NULL`. -/
def flashBufferAlloc (f : TargetFlash) (d : δ) : Bool × TargetFlash × δ :=
  let (got, d) := drv.malloc f.writebufsize d
  if got then
    (true, { f with buf := some (List.replicate f.writebufsize 0) }.clearSpan, d)
  else (false, { f with buf := none }, d)

/-! ## `flash_buffered_flush` -/

/-- The loop of `flash_buffered_flush`, `count` iterations from `offset`: `flash->write` is called
for every unit, whatever the earlier calls returned. -/
def flushLoop (f : TargetFlash) (alignedAddr index : Nat) :
    (count offset : Nat) → Bool → δ → Except BufFault (Bool × δ)
  | 0, _, result, d => .ok (result, d)
  | count + 1, offset, result, d => do
    let data ← f.bufRead (index + offset) f.writesize
    let (ok, d) := drv.write f (add32 alignedAddr offset) data d
    flushLoop f alignedAddr index count (offset + f.writesize) (result && ok) d

/-- `flash_buffered_flush`. -/
def flashBufferedFlush (f : TargetFlash) (d : δ) : Except BufFault (Bool × TargetFlash × δ) :=
  if f.Pending then
    let (prepared, f, d) := flashPrepare drv f .write d
    if prepared then do
      let alignedAddr := alignDown f.bufAddrLow f.writesize
      let index := sub32 alignedAddr f.bufAddrBase
      let length := sub32 f.bufAddrHigh alignedAddr
      -- `for (offset = 0; offset < length; offset += writesize)`
      let count := (length + f.writesize - 1) / f.writesize
      let (result, d) ← flushLoop drv f alignedAddr index count 0 true d
      .ok (result, f.clearSpan, d)
    else .ok (false, f, d)
  else .ok (true, f, d)

/-! ## `flash_buffered_write` -/

/-- The base address change of `flash_buffered_write`: flush what is held and start a page. -/
def flashBufferRebase (f : TargetFlash) (baseAddr : Nat) (d : δ) :
    Except BufFault (Bool × TargetFlash × δ) :=
  if baseAddr ≠ f.bufAddrBase then do
    let (ok, f, d) ← flashBufferedFlush drv f d
    let f ← { f with bufAddrBase := baseAddr }.bufFill
    .ok (ok, f, d)
  else .ok (true, f, d)

/-- Copy one chunk into the buffer and widen the span it holds. -/
def flashBufferChunk (f : TargetFlash) (dest : Nat) (chunk : List UInt8) :
    Except BufFault TargetFlash := do
  let f ← f.bufCopy (dest % f.writebufsize) chunk
  .ok { f with
    bufAddrLow := min f.bufAddrLow dest
    bufAddrHigh := max f.bufAddrHigh (add32 dest chunk.length) }

/-- The loop of `flash_buffered_write`. An iteration consumes at least one byte, so `|src|`
iterations are enough (`flashBufferedWrite`). -/
def bufferedWriteLoop :
    (fuel : Nat) → TargetFlash → (dest : Nat) → (src : List UInt8) → Bool → δ →
      Except BufFault (Bool × TargetFlash × δ)
  | _, f, _, [], result, d => .ok (result, f, d)
  | 0, _, _, _ :: _, _, _ => .error .zeroSize
  | fuel + 1, f, dest, src@(_ :: _), result, d => do
    if f.writebufsize = 0 then .error .zeroSize
    let (ok, f, d) ← flashBufferRebase drv f (alignDown dest f.writebufsize) d
    let localLen := min (f.writebufsize - dest % f.writebufsize) src.length
    let f ← flashBufferChunk f dest (src.take localLen)
    bufferedWriteLoop fuel f (add32 dest localLen) (src.drop localLen) (result && ok) d

/-- `flash_buffered_write`. -/
def flashBufferedWrite (f : TargetFlash) (dest : Nat) (src : List UInt8) (d : δ) :
    Except BufFault (Bool × TargetFlash × δ) :=
  bufferedWriteLoop drv src.length f dest src true d

end

end Blackmagic
