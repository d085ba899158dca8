import Blackmagic.Msc.Faults

/-!
# The partition between the host and the app: `storage.c`

`storage_acquire` mounts the on-device filesystem on the wear-levelling handle that the SCSI
callbacks use, and `s_app_owns` tells the host to keep away: only `tud_msc_test_unit_ready_cb` looks
at it. The filesystem reads and writes sectors past the cache of `msc_disk.c`.

Runs interleave the callbacks with the calls of the app, one call or callback at a time. The
specification is one flat disk for both sides.
-/

namespace Blackmagic

open Word

/-! ## The calls of the app -/

/-- The static variables of `storage.c` that change: `s_app_owns`, `s_pdrv` (`none` for `0xFF`) and
whether `s_fs` is set. -/
structure Storage where
  appOwns : Bool
  pdrv : Option Nat
  fs : Bool
  deriving DecidableEq, Repr

/-- The state at boot. -/
def Storage.boot : Storage := { appOwns := false, pdrv := none, fs := false }

/-- `storage_acquire` up to `f_mount`: `drive` is the answer of `ff_diskio_get_drive` and
`registered` that of `esp_vfs_fat_register`. The result is what it returned, `none` when it goes on
to `f_mount`. -/
def storageAcquire (mounted : Bool) (drive : Option Nat) (registered : Bool) (st : Storage) :
    Option Bool × Storage :=
  if !mounted then (some false, st)
  else if st.appOwns then (some true, st)
  else
    match drive with
    | none => (some false, { st with appOwns := false, pdrv := none })
    | some pdrv =>
      if !registered then (some false, { st with appOwns := false, pdrv := none })
      else (none, { appOwns := true, pdrv := some pdrv, fs := true })

/-- The end of `storage_acquire`, with the answer of `f_mount`. -/
def storageMount (ok : Bool) (st : Storage) : Bool × Storage :=
  if !ok then (false, { appOwns := false, pdrv := none, fs := false }) else (true, st)

/-- `storage_release`. -/
def storageRelease (st : Storage) : Storage :=
  if !st.appOwns then st else { appOwns := false, pdrv := none, fs := false }

/-- One event of a run: a callback of the host, the readiness test, a part of `storage_acquire`,
`storage_release`, and a sector read or written by FatFS. -/
inductive SharedCmd
  | host (c : MscCmd)
  | testUnitReady
  | acquire (drive : Option Nat) (registered : Bool)
  | mount (ok : Bool)
  | release
  | appRead (lba : Nat)
  | appWrite (lba : Nat) (sector : List UInt8)

/-- What an event answers. -/
inductive SharedReply
  | host (r : MscReply)
  | app (ok : Bool)
  | sector (bytes : List UInt8)
  | none
  deriving DecidableEq, Repr

/-- The events that only concern `storage.c`. -/
def storageStep (mounted : Bool) (st : Storage) : SharedCmd → SharedReply × Storage
  | .testUnitReady => (.host (if !mounted || st.appOwns then .error else .done), st)
  | .acquire drive registered =>
    let (r, st) := storageAcquire mounted drive registered st
    (match r with
      | some ok => .app ok
      | none => .none, st)
  | .mount ok =>
    let (ok, st) := storageMount ok st
    (.app ok, st)
  | .release => (.none, storageRelease st)
  | _ => (.none, st)

/-- The cache with the partition, and the state of `storage.c`. -/
structure Shared (ω : Type) where
  msc : Msc ω
  storage : Storage

/-- The state at boot. -/
def Shared.boot {ω : Type} (media : ω) : Shared ω := ⟨Msc.boot media, Storage.boot⟩

section
variable {ω : Type} (env : MscEnv ω)

/-- A sector read of FatFS through the drive of the partition. -/
def appRead (lba : Nat) (s : Msc ω) : SharedReply × Msc ω :=
  let (data, media) := env.wl.read (lba * env.sectorSize) env.sectorSize s.media
  (match data with
    | none => .app false
    | some bytes => .sector bytes, { s with media := media })

/-- A sector write of FatFS through the drive of the partition: an erase and a write. -/
def appWrite (lba : Nat) (sector : List UInt8) (s : Msc ω) : SharedReply × Msc ω :=
  let (erased, media) := env.wl.eraseRange (lba * env.sectorSize) env.sectorSize s.media
  if !erased then (.app false, { s with media := media })
  else
    let (written, media) := env.wl.write (lba * env.sectorSize) sector media
    (.app written, { s with media := media })

/-- One event. Without a drive FatFS does not reach the partition. -/
def sharedStep (s : Shared ω) : SharedCmd → SharedReply × Shared ω
  | .host c =>
    let (r, msc) := mscStep env s.msc c
    (.host r, { s with msc := msc })
  | .appRead lba =>
    if s.storage.pdrv = none then (.app false, s)
    else
      let (r, msc) := appRead env lba s.msc
      (r, { s with msc := msc })
  | .appWrite lba sector =>
    if s.storage.pdrv = none then (.app false, s)
    else
      let (r, msc) := appWrite env lba sector s.msc
      (r, { s with msc := msc })
  | c =>
    let (r, storage) := storageStep env.mounted s.storage c
    (r, { s with storage := storage })

/-- Run a list of events, collecting the replies. -/
def sharedRun (s : Shared ω) : List SharedCmd → List SharedReply × Shared ω
  | [] => ([], s)
  | c :: cs =>
    let (r, s) := sharedStep env s c
    let (rs, s) := sharedRun s cs
    (r :: rs, s)

end

/-! ## One disk for both sides -/

/-- A flat disk and the state of `storage.c`. -/
structure FlatShared where
  disk : FlatDisk
  storage : Storage

/-- One event on the flat disk: both sides read and write the same sectors. -/
def FlatShared.step (mounted : Bool) (bs : Nat) (f : FlatShared) :
    SharedCmd → SharedReply × FlatShared
  | .host c => (.host (f.disk.step bs c).1, { f with disk := (f.disk.step bs c).2 })
  | .appRead lba =>
    if f.storage.pdrv = none then (.app false, f) else (.sector (f.disk.bytes (lba * bs) bs), f)
  | .appWrite lba sector =>
    if f.storage.pdrv = none then (.app false, f)
    else (.app true, { f with disk := f.disk.write (lba * bs) sector })
  | c =>
      ((storageStep mounted f.storage c).1,
      { f with storage := (storageStep mounted f.storage c).2 })

/-- Events on the flat disk. -/
def FlatShared.run (mounted : Bool) (bs : Nat) (f : FlatShared) :
    List SharedCmd → List SharedReply × FlatShared
  | [] => ([], f)
  | c :: cs =>
    let (r, f) := f.step mounted bs c
    let (rs, f) := f.run mounted bs cs
    (r :: rs, f)

section
variable {ω : Type} {env : MscEnv ω} {content : ω → FlatDisk}

/-- An event inside the partition. -/
def SharedCmd.Valid (env : MscEnv ω) : SharedCmd → Prop
  | .host c => c.Valid env
  | .appRead lba => lba < env.sectorCount
  | .appWrite lba sector => lba < env.sectorCount ∧ sector.length = env.sectorSize
  | _ => True

/-- The app does not meet the cache: it reads a sector that no dirty slot is bound to, and writes a
sector that no slot is bound to. -/
def AppClear (s : Msc ω) : SharedCmd → Prop
  | .appRead lba => ∀ sl ∈ s.slots, sl.lba = (lba : Int) → sl.dirty = false
  | .appWrite lba _ => ∀ sl ∈ s.slots, sl.lba ≠ (lba : Int)
  | _ => True

/-- The relation between the two systems. -/
structure SharedInv (env : MscEnv ω) (content : ω → FlatDisk) (f : FlatShared) (s : Shared ω) :
    Prop where
  cache : CacheInv env content f.disk s.msc
  storage : s.storage = f.storage

/-- A sector read of the app that meets no dirty slot answers the bytes of the disk. -/
theorem appRead_inv {d : FlatDisk} {s : Msc ω} (hlaws : MediaLaws env.wl content)
    (hrel : env.Reliable) (h : CacheInv env content d s) {lba : Nat} (hlba : lba < env.sectorCount)
    (hclear : AppClear s (.appRead lba)) :
    (appRead env lba s).1 = .sector (d.bytes (lba * env.sectorSize) env.sectorSize) ∧
      CacheInv env content d (appRead env lba s).2 := by
  have hsome := hrel.read (lba * env.sectorSize) env.sectorSize s.media (sector_le env hlba)
  have hcontent := hlaws.read_content (lba * env.sectorSize) env.sectorSize s.media
  have heq := hlaws.read_eq (lba * env.sectorSize) env.sectorSize s.media
  have hbytes : (content s.media).bytes (lba * env.sectorSize + 0) env.sectorSize =
      d.bytes (lba * env.sectorSize + 0) env.sectorSize := h.clean_bytes hlba hclear (by omega)
  rw [Nat.add_zero] at hbytes
  refine ⟨?_, h.setMedia hcontent⟩
  cases hread : (env.wl.read (lba * env.sectorSize) env.sectorSize s.media).1 with
  | none => exact absurd hread hsome
  | some bytes =>
    simp only [appRead, hread]
    rw [heq bytes hread, hbytes]

/-- A disk with a whole sector written. -/
theorem FlatDisk.write_whole (d : FlatDisk) {bs lba : Nat} {sector : List UInt8}
    (hlen : sector.length = bs) (l : Nat) {j : Nat} (hj : j < bs) :
    d.write (lba * bs) sector (l * bs + j) =
      if l = lba then sector.getD j 0 else d (l * bs + j) := by
  have hsec : d.write (lba * bs + 0) sector (l * bs + j) = _ :=
    FlatDisk.write_sector d lba 0 l (by omega) hj
  rw [Nat.add_zero] at hsec
  rw [hsec]
  by_cases hl : l = lba
  · rw [if_pos hl, if_pos ⟨hl, by omega, by omega⟩, Nat.sub_zero]
  · rw [if_neg hl, if_neg fun hc => hl hc.1]

/-- A sector write of the app that meets no slot writes the disk. -/
theorem appWrite_inv {d : FlatDisk} {s : Msc ω} (hlaws : MediaLaws env.wl content)
    (hrel : env.Reliable) (h : CacheInv env content d s) {lba : Nat} {sector : List UInt8}
    (hlba : lba < env.sectorCount) (hlen : sector.length = env.sectorSize)
    (hclear : AppClear s (.appWrite lba sector)) :
    (appWrite env lba sector s).1 = .app true ∧
      CacheInv env content (d.write (lba * env.sectorSize) sector)
        (appWrite env lba sector s).2 := by
  have hsector := sector_le env hlba
  have herase := hrel.erase (lba * env.sectorSize) env.sectorSize s.media hsector
  have herased := hlaws.erase_eq (lba * env.sectorSize) env.sectorSize s.media herase
  cases hx : env.wl.eraseRange (lba * env.sectorSize) env.sectorSize s.media with
  | mk erased media =>
  rw [hx] at herase herased
  dsimp only at herase herased
  subst herase
  have hwrite := hrel.write (lba * env.sectorSize) sector media (by rw [hlen]; exact hsector)
  have hwritten := hlaws.write_eq (lba * env.sectorSize) sector media (fun x hx hx' => by
    rw [herased, if_pos ⟨hx, by omega⟩]) hwrite
  have hmedia : ∀ l, ∀ j < env.sectorSize,
      content (env.wl.write (lba * env.sectorSize) sector media).2 (l * env.sectorSize + j) =
        if l = lba then sector.getD j 0 else content s.media (l * env.sectorSize + j) := by
    intro l j hj
    rw [hwritten, FlatDisk.write_whole _ hlen l hj]
    by_cases hl : l = lba
    · rw [if_pos hl, if_pos hl]
    · rw [if_neg hl, if_neg hl, herased, if_neg]
      rintro ⟨hge, hlt⟩
      have hinside : l * env.sectorSize + j - lba * env.sectorSize < env.sectorSize := by omega
      refine hl (sector_eq hj hinside ?_).1
      omega
  have hstep : appWrite env lba sector s =
      (.app true, { s with media := (env.wl.write (lba * env.sectorSize) sector media).2 }) := by
    unfold appWrite
    rw [hx]
    simp [hwrite]
  rw [hstep]
  refine ⟨rfl,
    { h with cached := fun sl hsl l hl j hj => ?_, stored := fun l hl hclean j hj => ?_ }⟩
  · have hne : l ≠ lba := fun heq => hclear sl hsl (by rw [hl, heq])
    rw [FlatDisk.write_whole _ hlen l hj, if_neg hne]
    exact h.cached sl hsl l hl j hj
  · rw [FlatDisk.write_whole _ hlen l hj]
    refine (hmedia l j hj).trans ?_
    by_cases hne : l = lba
    · rw [if_pos hne, if_pos hne]
    · rw [if_neg hne, if_neg hne]
      exact h.stored l hl hclean j hj

/-- One event in which the app does not meet the cache does what the flat disk does. -/
theorem sharedStep_inv {f : FlatShared} {s : Shared ω} (hlaws : MediaLaws env.wl content)
    (hrel : env.Reliable) (henv : env.Wf) (h : SharedInv env content f s) {c : SharedCmd}
    (hvalid : c.Valid env) (hclear : AppClear s.msc c) :
    (sharedStep env s c).1 = (f.step env.mounted env.sectorSize c).1 ∧
      SharedInv env content (f.step env.mounted env.sectorSize c).2 (sharedStep env s c).2 := by
  obtain ⟨hcache, hst⟩ := h
  have hstorage : ∀ c, (storageStep env.mounted s.storage c).1 =
      (storageStep env.mounted f.storage c).1 ∧
      SharedInv env content { f with storage := (storageStep env.mounted f.storage c).2 }
        { s with storage := (storageStep env.mounted s.storage c).2 } := by
    intro c
    rw [hst]
    exact ⟨rfl, hcache, rfl⟩
  cases c with
  | host c =>
    rcases mscStep_inv hlaws henv hcache hvalid (flushOk_reliable hlaws hrel henv hcache c) with
      ⟨hreply, hinv⟩ | ⟨-, -, a, n, w, ha, hnone⟩
    · exact ⟨congrArg SharedReply.host hreply, hinv, hst⟩
    · exact absurd hnone (hrel.read a n w ha)
  | appRead lba =>
    simp only [sharedStep, FlatShared.step, hst]
    by_cases hp : f.storage.pdrv = none
    · rw [if_pos hp, if_pos hp]
      exact ⟨rfl, hcache, hst⟩
    · rw [if_neg hp, if_neg hp]
      obtain ⟨hreply, hinv⟩ := appRead_inv hlaws hrel hcache hvalid hclear
      exact ⟨hreply, hinv, rfl⟩
  | appWrite lba sector =>
    simp only [sharedStep, FlatShared.step, hst]
    by_cases hp : f.storage.pdrv = none
    · rw [if_pos hp, if_pos hp]
      exact ⟨rfl, hcache, hst⟩
    · rw [if_neg hp, if_neg hp]
      obtain ⟨hreply, hinv⟩ := appWrite_inv hlaws hrel hcache hvalid.1 hvalid.2 hclear
      exact ⟨hreply, hinv, rfl⟩
  | testUnitReady => exact hstorage .testUnitReady
  | acquire drive registered => exact hstorage (.acquire drive registered)
  | mount ok => exact hstorage (.mount ok)
  | release => exact hstorage .release

/-- Every event of the run of `cs` from `s` meets `P` in the state before it. -/
def Along (env : MscEnv ω) (P : Shared ω → SharedCmd → Prop) (s : Shared ω) (cs : List SharedCmd) :
    Prop :=
  ∀ cs₁ c cs₂, cs = cs₁ ++ c :: cs₂ → P (sharedRun env s cs₁).2 c

/-- The first command meets what every command of a run meets. -/
theorem Along.head {P : Shared ω → SharedCmd → Prop} {s : Shared ω} {c : SharedCmd}
    {cs : List SharedCmd} (h : Along env P s (c :: cs)) : P s c :=
  h [] c cs rfl

/-- So do those behind it, from the state it leaves. -/
theorem Along.tail {P : Shared ω → SharedCmd → Prop} {s : Shared ω} {c : SharedCmd}
    {cs : List SharedCmd} (h : Along env P s (c :: cs)) :
    Along env P (sharedStep env s c).2 cs := by
  intro cs₁ c' cs₂ hcs
  exact h (c :: cs₁) c' cs₂ (by rw [hcs]; rfl)

/-- The front of a run meets what the run meets. -/
theorem Along.left {P : Shared ω → SharedCmd → Prop} {s : Shared ω} {cs cs' : List SharedCmd}
    (h : Along env P s (cs ++ cs')) : Along env P s cs := by
  intro cs₁ c cs₂ hcs
  exact h cs₁ c (cs₂ ++ cs') (by rw [hcs, List.append_assoc]; rfl)

/-- A run in which the app never meets the cache answers what the flat disk answers. -/
theorem sharedRun_inv (hlaws : MediaLaws env.wl content) (hrel : env.Reliable) (henv : env.Wf) :
    ∀ {cs : List SharedCmd} {s : Shared ω} {f : FlatShared}, SharedInv env content f s →
      (∀ c ∈ cs, c.Valid env) → Along env (fun s c => AppClear s.msc c) s cs →
      (sharedRun env s cs).1 = (f.run env.mounted env.sectorSize cs).1 ∧
        SharedInv env content (f.run env.mounted env.sectorSize cs).2 (sharedRun env s cs).2 := by
  intro cs
  induction cs with
  | nil =>
    intro s f h _ _
    exact ⟨rfl, h⟩
  | cons c cs ih =>
    intro s f h hvalid hclear
    obtain ⟨hc, hcs⟩ := List.forall_mem_cons.1 hvalid
    obtain ⟨hreply, hinv⟩ := sharedStep_inv hlaws hrel henv h hc hclear.head
    obtain ⟨hrs, hinv'⟩ := ih hinv hcs hclear.tail
    refine ⟨?_, hinv'⟩
    rw [sharedRun, FlatShared.run]
    exact List.cons_eq_cons.2 ⟨hreply, hrs⟩

end

/-- The two sides are coherent in the run of `cs` from boot: they read what one flat disk gives
them, and at every point a slot holds the bytes that the disk has, so that no write-back changes
what either side wrote later. -/
structure Coherent {ω : Type} (env : MscEnv ω) (content : ω → FlatDisk) (media : ω)
    (cs : List SharedCmd) : Prop where
  replies : (sharedRun env (Shared.boot media) cs).1 =
    (FlatShared.run env.mounted env.sectorSize ⟨content media, Storage.boot⟩ cs).1
  slots : ∀ cs₁ cs₂, cs = cs₁ ++ cs₂ → ∀ sl ∈ (sharedRun env (Shared.boot media) cs₁).2.msc.slots,
    ∀ l : Nat, sl.lba = (l : Int) → ∀ j < env.sectorSize,
      sl.data[j]? = some ((FlatShared.run env.mounted env.sectorSize ⟨content media, Storage.boot⟩
        cs₁).2.disk (l * env.sectorSize + j))

/-- **Coherence.** In every interleaving in which the app reads only sectors that no dirty slot is
bound to and writes only sectors that no slot is bound to, both sides read what was written last by
either. -/
theorem sharedRun_coherent {ω : Type} (env : MscEnv ω) (content : ω → FlatDisk) (media : ω)
    (cs : List SharedCmd) (hlaws : MediaLaws env.wl content) (hrel : env.Reliable) (henv : env.Wf)
    (hvalid : ∀ c ∈ cs, c.Valid env)
    (hclear : Along env (fun s c => AppClear s.msc c) (Shared.boot media) cs) :
    Coherent env content media cs := by
  have hboot : SharedInv env content ⟨content media, Storage.boot⟩ (Shared.boot media) :=
    ⟨CacheInv.boot media, rfl⟩
  constructor
  · exact (sharedRun_inv hlaws hrel henv hboot hvalid hclear).1
  · rintro cs₁ cs₂ rfl sl hsl l hl j hj
    have hvalid₁ := fun c hc => hvalid c (List.mem_append_left cs₂ hc)
    have hinv := (sharedRun_inv hlaws hrel henv hboot hvalid₁ hclear.left).2
    exact hinv.cache.cached sl hsl l hl j hj

/-- A host that ejects before the app takes the partition. -/
theorem sharedRun_coherent_eject :
    (sharedRun (flatEnv false) (Shared.boot fun _ => 0) [.host (.write10 0 0 [1, 2]), .host .eject,
      .acquire (some 0) true, .mount true, .appRead 0]).1[4]? =
      some (.sector ([1, 2] ++ List.replicate 510 0)) := by
  have hclear : Along (flatEnv false) (fun s c => AppClear s.msc c) (Shared.boot fun _ => 0)
      [.host (.write10 0 0 [1, 2]), .host .eject, .acquire (some 0) true, .mount true,
        .appRead 0] := by
    intro cs₁ c cs₂ hcs
    match cs₁, hcs with
    | [], hcs => cases hcs; trivial
    | [_], hcs => cases hcs; trivial
    | [_, _], hcs => cases hcs; trivial
    | [_, _, _], hcs => cases hcs; trivial
    | [_, _, _, _], hcs =>
      cases hcs
      have hslots : ((sharedRun (flatEnv false) (Shared.boot fun _ => 0)
          [.host (.write10 0 0 [1, 2]), .host .eject, .acquire (some 0) true,
            .mount true]).2.msc.slots.map Slot.dirty) = [false] := by decide +kernel
      intro sl hsl _
      have := List.mem_map_of_mem (f := Slot.dirty) hsl
      rw [hslots] at this
      exact List.mem_singleton.1 this
    | _ :: _ :: _ :: _ :: _ :: _, hcs => simp at hcs
  have h := (sharedRun_coherent (flatEnv false) id (fun _ => 0)
    [.host (.write10 0 0 [1, 2]), .host .eject, .acquire (some 0) true, .mount true, .appRead 0]
    flatMedia_laws (flatEnv_reliable false) (flatEnv_wf false) (by
      simp only [List.forall_mem_cons, SharedCmd.Valid, MscCmd.Valid, List.not_mem_nil]
      exact ⟨by decide, trivial, trivial, trivial, by decide, fun _ h => h.elim⟩) hclear).replies
  rw [h]
  decide +kernel

/-- Without an eject the app reads a sector that the host has overwritten; and a slot that was
written before the app took the partition is flushed over what the app wrote. -/
theorem sharedRun_stale :
    ¬ Coherent (flatEnv false) id (fun _ => 0) [.host (.write10 0 0 [1, 2]),
      .acquire (some 0) true, .mount true, .appRead 0] ∧
    ¬ Coherent (flatEnv false) id (fun _ => 0) [.host (.write10 0 0 [1, 2]),
      .acquire (some 0) true, .mount true, .appWrite 0 (List.replicate 512 7), .release,
      .host .sync, .acquire (some 0) true, .mount true, .appRead 0] := by
  constructor
  · intro h
    have hreplies := h.replies
    revert hreplies
    decide +kernel
  · intro h
    have hreplies := h.replies
    revert hreplies
    decide +kernel

/-! ## Exclusive ownership -/

section
variable {ω : Type} (env : MscEnv ω)

/-- No operation on the partition is made for the host while `storage_app_owns()`: the log does not
grow in a callback. -/
def Exclusive (media : ω) (cs : List SharedCmd) : Prop :=
  ∀ cs₁ c cs₂ ev, cs = cs₁ ++ .host c :: cs₂ →
    (sharedRun env.logged (Shared.boot (media, [])) cs₁).2.storage.appOwns = true →
    (sharedRun env.logged (Shared.boot (media, [])) cs₁).2.msc.Logs
      (sharedStep env.logged (sharedRun env.logged (Shared.boot (media, [])) cs₁).2 (.host c)).2.msc
      ev →
    ev = []

/-- A command of the host that comes while the app owns the partition is served by the slots. -/
def ServedFromSlots (s : Shared ω) : SharedCmd → Prop
  | .host c => s.storage.appOwns = true → ¬ TouchesMedia env s.msc c
  | _ => True

/-- **Exclusive ownership.** An interleaving keeps the host off the partition while the app owns it
exactly when every command that the host issues in that time is served by the slots. -/
theorem exclusive_iff (henv : env.Wf) (media : ω) (cs : List SharedCmd) :
    Exclusive env media cs ↔
      Along env.logged (ServedFromSlots env.logged) (Shared.boot (media, [])) cs := by
  constructor
  · intro hex cs₁ c cs₂ hcs
    cases c with
    | host c =>
      intro howns
      obtain ⟨ev, hlog, -, hiff⟩ :=
        mscStep_logs env henv (sharedRun env.logged (Shared.boot (media, [])) cs₁).2.msc c
      exact hiff.1 (hex cs₁ c cs₂ ev hcs howns hlog)
    | _ => trivial
  · intro hserved cs₁ c cs₂ ev hcs howns hlog
    obtain ⟨ev', hlog', -, hiff⟩ :=
      mscStep_logs env henv (sharedRun env.logged (Shared.boot (media, [])) cs₁).2.msc c
    have hev : ev = ev' := List.append_cancel_left (hlog.symm.trans hlog')
    rw [hev, hiff]
    exact hserved cs₁ (.host c) cs₂ hcs howns

end

/-- A host that reads while the app owns the partition hits the slot that it wrote before. -/
theorem exclusive_iff_hit : Exclusive (flatEnv false) (fun _ => 0)
    [.host (.write10 0 0 [1]), .acquire (some 0) true, .mount true, .host (.read10 0 0 1)] := by
  refine (exclusive_iff (flatEnv false) (flatEnv_wf false) (fun _ => 0) _).2 ?_
  intro cs₁ c cs₂ hcs
  match cs₁, hcs with
  | [], hcs =>
    cases hcs
    intro howns
    cases howns
  | [_], hcs => cases hcs; trivial
  | [_, _], hcs => cases hcs; trivial
  | [_, _, _], hcs =>
    cases hcs
    rintro - ⟨-, -, -, hmiss⟩
    revert hmiss
    decide +kernel
  | _ :: _ :: _ :: _ :: _, hcs => simp at hcs

/-- A host that found the unit ready reads and syncs while the app owns the partition. -/
theorem sharedRun_intrudes : ¬ Exclusive (flatEnv false) (fun _ => 0)
    [.testUnitReady, .acquire (some 0) true, .mount true, .host (.read10 0 0 512)] := by
  intro h
  have hev := h [.testUnitReady, .acquire (some 0) true, .mount true] (.read10 0 0 512) []
    [.read 0 512 true] rfl (by decide +kernel) (by unfold Msc.Logs; decide +kernel)
  cases hev

end Blackmagic
