import Blackmagic.Lib.Effect
import Blackmagic.Flash.Target

/-!
# The firmware loader: `bmp_load_elf` and `bmp_load_bin`

The loader of `bmp_standalone_load.c` walks a file and drives the callbacks of a `flash_sink_s`. A
`FILE *` is a `File`: its contents, and what the medium answers. The sink works on a state `σ`; a
callback can run into a fault of the flash layer, which ends everything. The loader ends with a
result or with the text it leaves in `*err`. A `long` has 32 bits, so an offset from `2 ^ 31` on is
negative.
-/

namespace Blackmagic

open Word

/-- A file that is open for reading; `seeks` and `reads` say whether the medium does its part. -/
structure File where
  contents : List UInt8
  seeks : (off : Nat) → Bool
  reads : (off len : Nat) → Bool

/-- A file on a medium that does not fail. -/
def plainFile (contents : List UInt8) : File where
  contents := contents
  seeks := fun _ => true
  reads := fun _ _ => true

/-- `fseek(f, off, SEEK_SET) == 0`. -/
def File.fseek (f : File) (off : Nat) : Bool := decide (off < 2 ^ 31) && f.seeks off

/-- `fread(dst, 1, len, f)` at a position, when it is not short. -/
def File.fread (f : File) (off len : Nat) : Option (List UInt8) :=
  if off + len ≤ f.contents.length ∧ f.reads off len then some (Bytes.slice f.contents off len)
  else none

/-- `read_at`. -/
def readAt (f : File) (off len : Nat) : Option (List UInt8) :=
  if f.fseek off then f.fread off len else none

/-- `flash_sink_s`, without its log. `read` and `inFlash` can be `NULL`; a `read` that fails answers
`none`. -/
structure FlashSink (σ : Type) where
  erase : (addr len : Nat) → σ → Except BufFault (Bool × σ)
  write : (addr : Nat) → (data : List UInt8) → σ → Except BufFault (Bool × σ)
  complete : σ → Except BufFault (Bool × σ)
  read : Option ((addr len : Nat) → σ → Option (List UInt8) × σ)
  inFlash : Option ((addr len : Nat) → σ → Bool)

/-- `load_result_s`. -/
structure LoadResult where
  segments : Nat
  bytes : Nat
  entry : Nat
  deriving DecidableEq, Repr

/-- Why a load ends early: it returns false with a text, or a callback has a fault. -/
inductive LoadStop
  | fail (err : String)
  | fault (e : BufFault)
  deriving DecidableEq, Repr

/-- A load over the state of the sink. -/
abbrev LoadM (σ : Type) := EStateM LoadStop σ

section
variable {σ α : Type}

/-- `FAIL(m)`. -/
def failWith (err : String) : LoadM σ α := throw (.fail err)

/-- `if (!ok) FAIL(m)`. -/
def failUnless (ok : Bool) (err : String) : LoadM σ Unit := if ok then pure () else failWith err

/-- What is there, or `FAIL(m)`. -/
def getOrFail (x : Option α) (err : String) : LoadM σ α :=
  match x with
  | some a => pure a
  | none => failWith err

/-- Call back into the sink. -/
def callSink (k : σ → Except BufFault (α × σ)) : LoadM σ α := fun s =>
  match k s with
  | .ok (a, s) => .ok a s
  | .error e => .error (.fault e) s

variable (sink : FlashSink σ) (f : File)

/-! ## Chunks -/

/-- `CHUNK`. -/
def chunkSize : Nat := 2048

/-- The programming loop over the chunks that are left, from a position of the file to an
address. -/
def programLoop (short : String) : List Nat → (pos addr : Nat) → LoadM σ Unit
  | [], _, _ => pure ()
  | want :: rest, pos, addr => do
    let data ← getOrFail (f.fread pos want) short
    let ok ← callSink (sink.write addr data)
    failUnless ok "write failed"
    programLoop short rest (pos + want) (add32 addr want)

/-- The loop of `verify_range`. -/
def verifyLoop (read : (addr len : Nat) → σ → Option (List UInt8) × σ) :
    List Nat → (pos addr : Nat) → LoadM σ Unit
  | [], _, _ => pure ()
  | n :: rest, pos, addr => do
    let want ← getOrFail (f.fread pos n) "short read (verify)"
    let got ← callSink fun s => .ok (read addr n s)
    let got ← getOrFail got "readback failed"
    failUnless (want = got) "verify mismatch"
    verifyLoop read rest (pos + n) (add32 addr n)

/-- `verify_range`. -/
def verifyRange (read : (addr len : Nat) → σ → Option (List UInt8) × σ) (fileOff addr len : Nat) :
    LoadM σ Unit := do
  failUnless (f.fseek fileOff) "seek (verify)"
  verifyLoop f read (Bytes.chunks 256 len) fileOff addr

/-! ## Raw images -/

/-- `bmp_load_bin`. -/
def bmpLoadBin (base : Nat) : LoadM σ LoadResult := do
  let sz := f.contents.length
  failUnless (f.seeks sz) "seek (size)"
  failUnless (decide (0 < sz ∧ sz < 2 ^ 31)) "empty/bad file"
  if let some inFlash := sink.inFlash then
    failUnless (inFlash base sz (← get)) "target range not flash"
  let erased ← callSink (sink.erase base sz)
  failUnless erased "erase failed"
  failUnless (f.fseek 0) "seek (data)"
  programLoop sink f "short read (data)" (Bytes.chunks chunkSize sz) 0 base
  let completed ← callSink sink.complete
  failUnless completed "flash complete failed"
  if let some read := sink.read then
    verifyRange f read 0 base sz
  pure ⟨1, sz, base⟩

/-! ## ELF images -/

/-- The fields of `elf32_ehdr_s` that the loader reads. -/
structure Elf32Ehdr where
  ident : List UInt8
  machine : Nat
  entry : Nat
  phoff : Nat
  phentsize : Nat
  phnum : Nat
  deriving DecidableEq, Repr

/-- The fields of `elf32_phdr_s` that the loader reads. -/
structure Elf32Phdr where
  type : Nat
  offset : Nat
  paddr : Nat
  filesz : Nat
  deriving DecidableEq, Repr

/-- The layout of `elf32_ehdr_s`, 52 bytes. -/
def Elf32Ehdr.ofBytes (b : List UInt8) : Elf32Ehdr where
  ident := b.take 16
  machine := Bytes.leNat (Bytes.slice b 18 2)
  entry := Bytes.leNat (Bytes.slice b 24 4)
  phoff := Bytes.leNat (Bytes.slice b 28 4)
  phentsize := Bytes.leNat (Bytes.slice b 42 2)
  phnum := Bytes.leNat (Bytes.slice b 44 2)

/-- The layout of `elf32_phdr_s`, 32 bytes. -/
def Elf32Phdr.ofBytes (b : List UInt8) : Elf32Phdr where
  type := Bytes.leNat (Bytes.slice b 0 4)
  offset := Bytes.leNat (Bytes.slice b 4 4)
  paddr := Bytes.leNat (Bytes.slice b 12 4)
  filesz := Bytes.leNat (Bytes.slice b 16 4)

/-- The four characters an ELF file begins with. -/
def elfMagic : List UInt8 := [0x7f, 0x45, 0x4c, 0x46]

/-- `seg_flashable`: a `PT_LOAD` header with something in the file, where the sink takes it. -/
def segFlashable (ph : Elf32Phdr) (s : σ) : Bool :=
  if ph.type ≠ 1 ∨ ph.filesz = 0 then false
  else
    match sink.inFlash with
    | none => true
    | some inFlash => inFlash ph.paddr ph.filesz s

/-- Read the program header at an index. -/
def readPhdr (eh : Elf32Ehdr) (i : Nat) (short : String) : LoadM σ Elf32Phdr := do
  let b ← getOrFail (readAt f (add32 eh.phoff (i * eh.phentsize)) 32) short
  pure (.ofBytes b)

/-- What pass 1 accumulates: the union span of the flashable segments, and their number. -/
structure LoadSpan where
  lo : Nat
  hi : Nat
  nLoad : Nat
  deriving DecidableEq, Repr

/-- Widen the span by a segment. -/
def LoadSpan.add (sp : LoadSpan) (ph : Elf32Phdr) : LoadSpan where
  lo := min sp.lo ph.paddr
  hi := max sp.hi (add32 ph.paddr ph.filesz)
  nLoad := sp.nLoad + 1

/-- Pass 1 over the headers that are left. -/
def spanLoop (eh : Elf32Ehdr) : List Nat → LoadSpan → LoadM σ LoadSpan
  | [], sp => pure sp
  | i :: is, sp => do
    let ph ← readPhdr f eh i "short read (phdr)"
    let flashable := segFlashable sink ph (← get)
    spanLoop eh is (if flashable then sp.add ph else sp)

/-- Program one segment from its file offset to its load address. -/
def programSegment (ph : Elf32Phdr) : LoadM σ Unit := do
  failUnless (f.fseek ph.offset) "seek (segment)"
  programLoop sink f "short read (segment)" (Bytes.chunks chunkSize ph.filesz) ph.offset ph.paddr

/-- Pass 2 over the headers that are left, with the segments and bytes that are done. -/
def segmentLoop (eh : Elf32Ehdr) : List Nat → (done total : Nat) → LoadM σ (Nat × Nat)
  | [], done, total => pure (done, total)
  | i :: is, done, total => do
    let ph ← readPhdr f eh i "short read (phdr)"
    let flashable := segFlashable sink ph (← get)
    if flashable then
      programSegment sink f ph
      segmentLoop eh is (done + 1) (add32 total ph.filesz)
    else segmentLoop eh is done total

/-- The verification of the segments that are left. -/
def verifySegments (eh : Elf32Ehdr) (read : (addr len : Nat) → σ → Option (List UInt8) × σ) :
    List Nat → LoadM σ Unit
  | [] => pure ()
  | i :: is => do
    let ph ← readPhdr f eh i "short read (phdr/verify)"
    let flashable := segFlashable sink ph (← get)
    if flashable then
      verifyRange f read ph.offset ph.paddr ph.filesz
      verifySegments eh read is
    else verifySegments eh read is

/-- The checks on the file header. -/
def readEhdr : LoadM σ Elf32Ehdr := do
  let b ← getOrFail (readAt f 0 52) "short read (ehdr)"
  let eh := Elf32Ehdr.ofBytes b
  failUnless (eh.ident.take 4 = elfMagic) "not an ELF"
  failUnless (eh.ident.getD 4 0 = 1) "not ELF32"
  failUnless (eh.ident.getD 5 0 = 1) "not little-endian"
  failUnless (eh.machine = 40) "not EM_ARM"
  failUnless (decide (eh.phnum ≠ 0 ∧ 32 ≤ eh.phentsize)) "no/bad program headers"
  pure eh

/-- `bmp_load_elf`. -/
def bmpLoadElf : LoadM σ LoadResult := do
  let eh ← readEhdr f
  let sp ← spanLoop sink f eh (List.range eh.phnum) ⟨maxU32, 0, 0⟩
  failUnless (decide (sp.nLoad ≠ 0)) "no flashable PT_LOAD"
  let erased ← callSink (sink.erase sp.lo (sub32 sp.hi sp.lo))
  failUnless erased "erase failed"
  let (done, total) ← segmentLoop sink f eh (List.range eh.phnum) 0 0
  let completed ← callSink sink.complete
  failUnless completed "flash complete failed"
  if let some read := sink.read then
    verifySegments sink f eh read (List.range eh.phnum)
  pure ⟨done, total, eh.entry⟩

end

end Blackmagic
