import Blackmagic.Lib.Word
import Blackmagic.Lib.Bytes

/-!
# USB mass storage on the internal flash: `msc_disk.c` and `storage.c`

The write-back cache between the SCSI callbacks and the wear-levelling partition, and the flag that
passes the partition between the USB host and the on-device filesystem. Only the path without a
microSD card is modelled (`on_sd()` is false); the card is served without a cache.

The wear-levelling layer is a library: `WearLevelling ω` has its three operations over a state `ω`
of the partition, each of which can fail. `MscEnv` has what `storage_init` fixes.
-/

namespace Blackmagic

open Word

/-! ## The wear-levelling layer -/

/-- `wl_read`, `wl_erase_range` and `wl_write`; a failed read answers `none`. -/
structure WearLevelling (ω : Type) where
  read : (addr size : Nat) → ω → Option (List UInt8) × ω
  eraseRange : (addr size : Nat) → ω → Bool × ω
  write : (addr : Nat) → (src : List UInt8) → ω → Bool × ω

/-- What the callbacks find in place: the mounted partition, its geometry, and whether the heap has
room for the cache. -/
structure MscEnv (ω : Type) where
  wl : WearLevelling ω
  mounted : Bool
  sectorSize : Nat
  sectorCount : Nat
  malloc : Bool

/-! ## The cache -/

/-- `MSC_MAX_SECTOR`. -/
def mscMaxSector : Nat := 4096

/-- `MSC_CACHE_SECTORS`. -/
def mscCacheSectors : Nat := 64

/-- `(int32_t)x`. -/
def toInt32 (x : Nat) : Int := if x < 2 ^ 31 then x else (x : Int) - 2 ^ 32

/-- One slot: `s_lba[i]`, `s_dirty[i]`, `s_used[i]` and the sector at `slot_ptr(i)`. -/
structure Slot where
  lba : Int
  dirty : Bool
  used : Nat
  data : List UInt8
  deriving DecidableEq, Repr

/-- The static variables of `msc_disk.c`, and the state of the partition. `slots` has `s_nslots`
entries, none until the cache is initialised. -/
structure Msc (ω : Type) where
  slots : List Slot
  bs : Nat
  clock : Nat
  media : ω

/-- The state at boot. -/
def Msc.boot {ω : Type} (media : ω) : Msc ω := { slots := [], bs := 0, clock := 0, media := media }

section
variable {ω : Type} (env : MscEnv ω)

/-- `cache_ready`: allocate the slots on first use, or fall back to a single one. -/
def cacheReady (s : Msc ω) : Bool × Msc ω :=
  if s.slots ≠ [] then (true, s)
  else
    let bs := env.sectorSize
    if bs = 0 ∨ mscMaxSector < bs then (false, s)
    else
      let nslots := if env.malloc then mscCacheSectors else 1
      let slot := { lba := -1, dirty := false, used := 0, data := List.replicate bs 0 }
      (true, { s with slots := List.replicate nslots slot, bs := bs })

/-- `slot_find`. -/
def slotFind (s : Msc ω) (lba : Nat) : Option Nat :=
  s.slots.findIdx? (fun sl => sl.lba = toInt32 lba)

/-- Replace the slot at `i`. -/
def Msc.setSlot (s : Msc ω) (i : Nat) (sl : Slot) : Msc ω := { s with slots := s.slots.set i sl }

/-- `(size_t)s_lba[i] * s_bs`, in 32 bits. -/
def slotAddr (sl : Slot) (bs : Nat) : Nat := (sl.lba % 2 ^ 32).toNat * bs % 2 ^ 32

/-- `flush_slot`. -/
def flushSlot (i : Nat) (s : Msc ω) : Bool × Msc ω :=
  match s.slots[i]? with
  | none => (true, s)
  | some sl =>
    if !sl.dirty then (true, s)
    else if !env.mounted then (false, s)
    else
      let (erased, media) := env.wl.eraseRange (slotAddr sl s.bs) s.bs s.media
      let s := { s with media := media }
      if !erased then (false, s)
      else
        let (written, media) := env.wl.write (slotAddr sl s.bs) sl.data s.media
        let s := { s with media := media }
        if !written then (false, s)
        else (true, s.setSlot i { sl with dirty := false })

/-- The loop of `flush_all`, `count` slots from `i` on; what `flush_slot` returns is not looked
at. -/
def flushLoopFrom : (count i : Nat) → Msc ω → Msc ω
  | 0, _, s => s
  | count + 1, i, s => flushLoopFrom count (i + 1) (flushSlot env i s).2

/-- `flush_all`. -/
def flushAll (s : Msc ω) : Msc ω := flushLoopFrom env s.slots.length 0 s

/-- The loop of `slot_bind` that picks a victim: the first free slot, or the least recently used
one. -/
def victimFrom : List Slot → (i victim best : Nat) → Nat
  | [], _, victim, _ => victim
  | sl :: rest, i, victim, best =>
    if sl.lba < 0 then i
    else if sl.used < best then victimFrom rest (i + 1) i sl.used
    else victimFrom rest (i + 1) victim best

/-- `slot_bind`; what `flush_slot` returns is not looked at. -/
def slotBind (lba : Nat) (s : Msc ω) : Nat × Msc ω :=
  match slotFind s lba with
  | some hit => (hit, s)
  | none =>
    let victim := victimFrom s.slots 0 0 maxU32
    let s := (flushSlot env victim s).2
    match s.slots[victim]? with
    | none => (victim, s)
    | some sl => (victim, s.setSlot victim { sl with lba := toInt32 lba, dirty := false })

/-! ## The SCSI callbacks -/

/-- `tud_msc_read10_cb`: the bytes, or `none` for `-1`. -/
def read10 (lba offset bufsize : Nat) (s : Msc ω) : Option (List UInt8) × Msc ω :=
  let (ready, s) := cacheReady env s
  if !ready then (none, s)
  else if env.sectorCount ≤ lba ∨ s.bs < add32 offset bufsize then (none, s)
  else
    match slotFind s lba with
    | some i =>
      match s.slots[i]? with
      | none => (none, s)
      | some sl => (some ((sl.data.drop offset).take bufsize), s)
    | none =>
      if !env.mounted then (none, s)
      else
        let (data, media) := env.wl.read (add32 (lba * s.bs) offset) bufsize s.media
        (data, { s with media := media })

/-- The end of `tud_msc_write10_cb`: copy the data into the slot, mark it dirty and used. -/
def storeSlot (i offset : Nat) (buffer : List UInt8) (s : Msc ω) : Bool × Msc ω :=
  match s.slots[i]? with
  | none => (false, s)
  | some sl =>
    let clock := add32 s.clock 1
    (true, { s.setSlot i { sl with
      data := Bytes.overwrite sl.data offset buffer, dirty := true, used := clock } with
        clock := clock })

/-- The fill of a slot that a write covers only in part; a failed read unbinds the slot. -/
def fillSlot (lba i : Nat) (s : Msc ω) : Bool × Msc ω :=
  match s.slots[i]? with
  | none => (false, s)
  | some sl =>
    if !env.mounted then (false, s.setSlot i { sl with lba := -1 })
    else
      let (data, media) := env.wl.read (lba * s.bs % 2 ^ 32) s.bs s.media
      let s := { s with media := media }
      match data with
      | none => (false, s.setSlot i { sl with lba := -1 })
      | some data => (true, s.setSlot i { sl with data := data })

/-- `tud_msc_write10_cb`: `true` for `bufsize`, `false` for `-1`. -/
def write10 (lba offset : Nat) (buffer : List UInt8) (s : Msc ω) : Bool × Msc ω :=
  let (ready, s) := cacheReady env s
  if !ready then (false, s)
  else if env.sectorCount ≤ lba ∨ s.bs < add32 offset buffer.length then (false, s)
  else
    match slotFind s lba with
    | some i => storeSlot i offset buffer s
    | none =>
      let (i, s) := slotBind env lba s
      if offset = 0 ∧ buffer.length = s.bs then storeSlot i offset buffer s
      else
        let (filled, s) := fillSlot env lba i s
        if filled then storeSlot i offset buffer s else (false, s)

/-- The commands of the host that reach the partition: `read10`, `write10`, SYNCHRONIZE CACHE
(`tud_msc_scsi_cb`) and eject (`tud_msc_start_stop_cb` with `load_eject` and without `start`). -/
inductive MscCmd
  | read10 (lba offset bufsize : Nat)
  | write10 (lba offset : Nat) (buffer : List UInt8)
  | sync
  | eject

/-- What a callback answers: an error, the bytes of a read, or success. -/
inductive MscReply
  | error
  | data (bytes : List UInt8)
  | done
  deriving DecidableEq, Repr

/-- Run one callback. SYNCHRONIZE CACHE returns 0 and eject returns true, whatever `flush_all`
did. -/
def mscStep (s : Msc ω) : MscCmd → MscReply × Msc ω
  | .read10 lba offset bufsize =>
    let (data, s) := read10 env lba offset bufsize s
    (match data with
      | none => .error
      | some bytes => .data bytes, s)
  | .write10 lba offset buffer =>
    let (ok, s) := write10 env lba offset buffer s
    (if ok then .done else .error, s)
  | .sync => (.done, flushAll env s)
  | .eject => (.done, flushAll env s)

/-- Run a list of callbacks, collecting the replies. -/
def mscRun (s : Msc ω) : List MscCmd → List MscReply × Msc ω
  | [] => ([], s)
  | c :: cs =>
    let (r, s) := mscStep env s c
    let (rs, s) := mscRun s cs
    (r :: rs, s)

end

end Blackmagic
