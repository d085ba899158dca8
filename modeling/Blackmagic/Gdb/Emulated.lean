import Blackmagic.Gdb.Stored
import Blackmagic.Load.Emulated

/-!
# A debugger on the emulated target

A client reads and writes the memory of the emulated target through the server, and loads programs
to its flash. Between the sessions of the flash the target has a memory (`EmuTarget.memory`), and
every run of a client is answered from that memory and changes it as it says (`clientRun_emulated`).
-/

namespace Blackmagic

open Bytes Effect Scanf Word

/-! ## The target behind the server -/

/-- A call that answers true or false. -/
def flashAnswer {τ : Type} (r : Bool × τ) : Option (List UInt8) × τ :=
  (if r.1 then some [] else none, r.2)

/-- The functions of the emulated target; `fuel` bounds the polls. -/
def emuStored (ap : Adiv5AccessPort) (fuel : Nat) : StoredTarget (Target EmuShim)
  | .memRead addr len, t => .ok (targetMemRead (emuTargetMemRead ap) t addr.toNat len.toNat)
  | .memWrite addr data, t =>
    match adiv5MemWrite true ap addr data t.dev with
    | .ok _ d => .ok (some [], { t with dev := d })
    | .error _ d => .ok (none, { t with dev := d })
  | .flashErase addr len, t =>
      (flashStep (emuDriver ap fuel) t (.erase addr.toNat len.toNat)).map flashAnswer
  | .flashWrite addr data, t =>
      (flashStep (emuDriver ap fuel) t (.write addr.toNat data)).map flashAnswer
  | .flashComplete, t => (flashStep (emuDriver ap fuel) t .complete).map flashAnswer

/-- What the emulated target has in its flash and in SRAM, by address. -/
def EmuTarget.memory (m : EmuTarget) : FlashImage := fun x =>
  if 0x20000000 ≤ x ∧ x < 0x20005000 then m.sram[x - 0x20000000]?.getD 0xff else m.flash x

/-! ## What a client does -/

/-- A read, a write, or a load of a program. -/
inductive ClientAct
  | read (addr len : Nat)
  | write (addr : Nat) (data : List UInt8)
  | writeBinary (addr : Nat) (data : List UInt8)
  | load (session : FlashSession)

/-- The requests for it. -/
def ClientAct.ops : ClientAct → List ClientOp
  | .read addr len => [.read addr len]
  | .write addr data => [.write addr data]
  | .writeBinary addr data => [.writeBinary addr data]
  | .load session => (session.erases.map fun e => .erase e.1 e.2) ++
      (session.writes.map fun w => .program w.1 w.2) ++
      [.done]

/-- The replies to them. -/
def ClientAct.replies (image : FlashImage) : ClientAct → List (List UInt8)
  | .read addr len => [hexify ((List.range len).map fun i => image (addr + i))]
  | .write _ _ | .writeBinary _ _ => [ascii "OK"]
  | .load session => List.replicate (ClientAct.load session).ops.length (ascii "OK")

/-- What it makes of a memory. -/
def ClientAct.apply (image : FlashImage) : ClientAct → FlashImage
  | .read _ _ => image
  | .write addr data | .writeBinary addr data => image.store addr data
  | .load session => session.apply 0x400 image

/-- Reads inside of the flash or of SRAM, writes inside of SRAM, and sessions of the flash that
write to what is blank then, in packets that the server takes. -/
def ClientAct.Fits (image : FlashImage) (act : ClientAct) : Prop :=
  (∀ op ∈ act.ops, op.Fits) ∧
    match act with
    | .read addr len => 0x08000000 ≤ addr ∧ addr + len ≤ 0x08020000 ∨ 0x20000000 ≤ addr ∧
        addr + len ≤ 0x20005000
    | .write addr data | .writeBinary addr data =>
        0x20000000 ≤ addr ∧ addr + data.length ≤ 0x20005000
    | .load session => session.erases ≠ [] ∧ ErasesFit emuRegion.toFlashGeometry session.erases ∧
        WritesFit emuRegion.toFlashGeometry (image.eraseAll 0x400 session.erases) session.writes

/-- Acts, one after the other. -/
def ActsFit : FlashImage → List ClientAct → Prop
  | _, [] => True
  | image, act :: acts => act.Fits image ∧ ActsFit (act.apply image) acts

/-- The replies to acts. -/
def actReplies : FlashImage → List ClientAct → List (List UInt8)
  | _, [] => []
  | image, act :: acts => act.replies image ++ actReplies (act.apply image) acts

/-- The emulated target between the sessions of its flash, with a memory. -/
structure EmuServed (image : FlashImage) (t : Target EmuShim) : Prop where
  idle : NorIdle emuRegion.toFlashGeometry (fun s : EmuShim => s.target.Keeps t.dev.target.sram) t
  memory : t.dev.target.memory = image

/-! ## Memory -/

section
variable {m m' : EmuTarget} {ap : Adiv5AccessPort} {t : Target EmuShim} {image : FlashImage}
  {addr len : Nat}
  {data : List UInt8}

/-- The memory of SRAM. -/
theorem memory_sram {x : Nat} (hlow : 0x20000000 ≤ x) (hlt : x < 0x20005000) :
    m.sram[x - 0x20000000]? = some (m.memory x) := by
  have hin : x - 0x20000000 < emuSramSize := by
    unfold emuSramSize
    omega
  rw [EmuTarget.memory, if_pos ⟨hlow, hlt⟩, Vector.getElem?_eq_getElem hin]
  rfl

/-- The bytes of the windows are those of the memory. -/
theorem byte_eq_memory {x : Nat}
    (h : 0x08000000 ≤ x ∧ x < 0x08020000 ∨ 0x20000000 ≤ x ∧ x < 0x20005000) :
    m.byte (UInt32.ofNat x) = m.memory x := by
  rcases h with ⟨hlow, hlt⟩ | ⟨hlow, hlt⟩
  · rw [byte_eq_flash hlow hlt, EmuTarget.memory, if_neg (by omega)]
  · have hnat : (UInt32.ofNat x).toNat = x := by
      rw [UInt32.toNat_ofNat', Nat.mod_eq_of_lt (by omega)]
    have hindex : (UInt32.ofNat x - emuSramBase).toNat = x - 0x20000000 := by
      rw [UInt32.toNat_sub, hnat, show emuSramBase.toNat = 0x20000000 from rfl]
      omega
    have hnot : ¬ inFlash (UInt32.ofNat x) := fun h => by
      rw [inFlash_iff, hnat] at h
      omega
    rw [EmuTarget.byte, if_neg hnot, hindex, memory_sram hlow hlt]
    rfl

/-- A read inside of the flash or of SRAM is answered from the memory. -/
theorem emuStored_read (hap : MemAp ap) (fuel : Nat)
    (h : 0x08000000 ≤ addr ∧ addr + len ≤ 0x08020000 ∨ 0x20000000 ≤ addr ∧
      addr + len ≤ 0x20005000) :
    ∃ d', emuStored ap fuel (.memRead (UInt32.ofNat addr) (UInt32.ofNat len)) t =
        .ok (some ((List.range len).map fun i => t.dev.target.memory (addr + i)),
          { t with dev := d' }) ∧
      d'.target = t.dev.target := by
  have haddr : (UInt32.ofNat addr).toNat = addr := by
    rw [UInt32.toNat_ofNat', Nat.mod_eq_of_lt (by omega)]
  have hlen : (UInt32.ofNat len).toNat = len := by
    rw [UInt32.toNat_ofNat', Nat.mod_eq_of_lt (by omega)]
  have hread : ∃ s', advi5MemReadBytes true ap (UInt32.ofNat addr) len t.dev =
      .ok ((List.range len).map fun i => t.dev.target.memory (addr + i)) s' ∧
        s'.target = t.dev.target := by
    rcases Nat.eq_zero_or_pos len with rfl | hpos
    · exact ⟨t.dev, rfl, rfl⟩
    · obtain ⟨s', hread, htarget⟩ :=
        @advi5MemReadBytes_window true ap t.dev (UInt32.ofNat addr) hap len (by omega)
        (inWindow_iff.2 (by rwa [haddr]))
      have hbytes : t.dev.target.bytes (UInt32.ofNat addr) len =
          (List.range len).map fun i => t.dev.target.memory (addr + i) := by
        refine List.map_congr_left fun i hi => ?_
        have hi := List.mem_range.1 hi
        rw [← UInt32.ofNat_add, byte_eq_memory (by omega)]
      rw [hbytes] at hread
      exact ⟨s', hread, htarget⟩
  obtain ⟨s', hread, htarget⟩ := hread
  refine ⟨s', ?_, htarget⟩
  simp only [emuStored, targetMemRead, emuTargetMemRead, haddr, hlen, hread]

/-- A write inside of SRAM is stored in the memory. -/
theorem emuStored_write (hap : MemAp ap) (fuel : Nat) (hlow : 0x20000000 ≤ addr)
    (hend : addr + data.length ≤ 0x20005000) :
    ∃ d', emuStored ap fuel (.memWrite (UInt32.ofNat addr) data) t =
      .ok (some [], { t with dev := d' }) ∧
      d'.target = { t.dev.target with sram := d'.target.sram } ∧
      d'.target.memory = t.dev.target.memory.store addr data := by
  have haddr : (UInt32.ofNat addr).toNat = addr := by
    rw [UInt32.toNat_ofNat', Nat.mod_eq_of_lt (by omega)]
  obtain ⟨s', sram', hwrite, htarget, hsram⟩ :=
    @adiv5MemWrite_sram true ap (UInt32.ofNat addr) data hap t.dev
    (by rwa [haddr]) (by rwa [haddr])
  rw [haddr] at hsram
  have hsram' : s'.target.sram = sram' := by rw [htarget]
  refine ⟨s', ?_, by rw [hsram', htarget], ?_⟩
  · simp only [emuStored, hwrite]
  · have hsize : t.dev.target.sram.toList.length = 0x5000 := Vector.length_toList
    have hflash : s'.target.flash = t.dev.target.flash := by rw [htarget]; rfl
    funext x
    by_cases hx : 0x20000000 ≤ x ∧ x < 0x20005000
    · have hold := @memory_sram t.dev.target x hx.1 hx.2
      have hnew := @memory_sram s'.target x hx.1 hx.2
      rw [hsram', ← Vector.getElem?_toList, hsram, getElem?_overwrite (by omega),
        Vector.getElem?_toList] at hnew
      by_cases hin : addr ≤ x ∧ x < addr + data.length
      · rw [if_pos (by omega), show x - 0x20000000 - (addr - 0x20000000) = x - addr by omega]
          at hnew
        rw [FlashImage.store_eq hin.1 hnew]
      · rw [if_neg (by omega), hold] at hnew
        rw [FlashImage.store_of_out hin, Option.some.inj hnew]
    · rw [FlashImage.store_of_out (by omega), EmuTarget.memory, EmuTarget.memory, if_neg hx,
        if_neg hx, hflash]

/-! ## Sessions of the flash -/

/-- A call of the flash layer, with arguments of 32 bits. -/
def FlashCall.toStore : FlashCall → StoreCall
  | .erase addr len => .flashErase (UInt32.ofNat addr) (UInt32.ofNat len)
  | .write dest src => .flashWrite (UInt32.ofNat dest) src
  | .complete => .flashComplete

/-- The arguments of a call are of 32 bits. -/
def FlashCall.Words : FlashCall → Prop
  | .erase addr len => addr < 2 ^ 32 ∧ len < 2 ^ 32
  | .write dest _ => dest < 2 ^ 32
  | .complete => True

/-- A flash call of the server is one of the flash layer. -/
theorem emuStored_flash {fuel : Nat} {c : FlashCall} (h : c.Words) :
    emuStored ap fuel c.toStore t = (flashStep (emuDriver ap fuel) t c).map flashAnswer := by
  cases c with
  | erase addr len =>
      rw [FlashCall.toStore, emuStored, UInt32.toNat_ofNat_of_lt' h.1,
      UInt32.toNat_ofNat_of_lt' h.2]
  | write dest src => rw [FlashCall.toStore, emuStored, UInt32.toNat_ofNat_of_lt' h]
  | complete => rfl

/-- Calls of the flash layer that return true do not fail. -/
theorem run_flashCalls {fuel : Nat} {t' : Target EmuShim} :
    ∀ {cs : List FlashCall} {t : Target EmuShim},
    (∀ c ∈ cs, c.Words) → RunsTo (emuDriver ap fuel) t cs t' →
    (emuStored ap fuel).run (cs.map FlashCall.toStore) t =
      .ok (List.replicate cs.length (some []), t') := by
  intro cs
  induction cs with
  | nil =>
    intro t _ hrun
    obtain ⟨-, rfl⟩ := Prod.mk.inj (Except.ok.inj hrun)
    rfl
  | cons c cs ih =>
    intro t hwords hrun
    obtain ⟨hword, hwords⟩ := List.forall_mem_cons.1 hwords
    obtain ⟨ok, t₁, oks, hstep, hrest, heq⟩ := flashRun_cons.1 hrun
    rw [List.length_cons, List.replicate_succ] at heq
    obtain ⟨rfl, rfl⟩ := List.cons.inj heq
    refine StoredTarget.run_cons ?_ (ih hwords hrest)
    rw [emuStored_flash hword, hstep]
    rfl

/-- What a session of the flash makes of the memory. -/
theorem session_memory {session : FlashSession} {image : FlashImage} (hserved : EmuServed image t)
    {t' : Target EmuShim} (hkeeps : t'.dev.target.Keeps t.dev.target.sram)
    (hflash : t'.dev.target.flash = session.apply 0x400 t.dev.target.flash)
    (herases : ErasesFit emuRegion.toFlashGeometry session.erases)
    (hwrites : WritesFit emuRegion.toFlashGeometry (image.eraseAll 0x400 session.erases)
      session.writes) :
    t'.dev.target.memory = session.apply 0x400 image := by
  funext x
  by_cases hx : 0x08000000 ≤ x ∧ x < 0x08020000
  · have hold : t.dev.target.flash x = image x := by
      rw [← hserved.memory, EmuTarget.memory, if_neg (by omega)]
    rw [EmuTarget.memory, if_neg (by omega), hflash]
    exact session.apply_congr 0x400 hold
  · have hout : session.apply 0x400 image x = image x :=
      FlashSession.apply_of_out emuRegion_nor hx herases hwrites
    rw [hout, ← hserved.memory, EmuTarget.memory, EmuTarget.memory, hkeeps.sram]
    split
    · rfl
    · rw [EmuTarget.flash, EmuTarget.flash, if_neg hx, if_neg hx]

/-- The target after an access that leaves its flash and its controller alone. -/
theorem EmuServed.of_dev (hserved : EmuServed image t) {d' : EmuShim} {image' : FlashImage}
    (htarget : d'.target = { t.dev.target with sram := d'.target.sram })
    (hmemory : d'.target.memory = image') :
    EmuServed image' { t with dev := d' } where
  idle := by
    refine ⟨hserved.idle.region, ?_, rfl⟩
    have hsound := hserved.idle.usable.sound
    unfold EmuTarget.Sound at hsound ⊢
    rw [htarget]
    exact hsound
  memory := hmemory

/-- A read is answered from the memory. -/
theorem run_read (hap : MemAp ap) (fuel : Nat) (hserved : EmuServed image t) (hlen : len < 2 ^ 32)
    (h : 0x08000000 ≤ addr ∧ addr + len ≤ 0x08020000 ∨ 0x20000000 ≤ addr ∧
      addr + len ≤ 0x20005000) :
    ∃ mem t', (emuStored ap fuel).run [.memRead (UInt32.ofNat addr) (UInt32.ofNat len)] t =
      .ok ([some mem], t') ∧
      EmuServed image t' ∧
      StoreCall.reply (.memRead (UInt32.ofNat addr) (UInt32.ofNat len)) (some mem) =
        hexify ((List.range len).map fun i => image (addr + i)) := by
  obtain ⟨d', hread, htarget⟩ := @emuStored_read ap t addr len hap fuel h
  refine ⟨_, _, StoredTarget.run_cons hread rfl, hserved.of_dev (by rw [htarget]) ?_, ?_⟩
  · rw [htarget]
    exact hserved.memory
  · rw [StoreCall.reply, UInt32.toNat_ofNat_of_lt' hlen, hserved.memory,
      List.take_of_length_le (by simp)]

/-- A write to SRAM is stored. -/
theorem run_write (hap : MemAp ap) (fuel : Nat) (hserved : EmuServed image t)
    (hlow : 0x20000000 ≤ addr) (hend : addr + data.length ≤ 0x20005000) :
    ∃ t', (emuStored ap fuel).run [.memWrite (UInt32.ofNat addr) data] t = .ok ([some []], t') ∧
      EmuServed (image.store addr data) t' := by
  obtain ⟨d', hwrite, htarget, hmemory⟩ := @emuStored_write ap t addr data hap fuel hlow hend
  exact ⟨_, StoredTarget.run_cons hwrite rfl,
    hserved.of_dev htarget (by rw [hmemory, hserved.memory])⟩

/-- A load is a session of the flash. -/
theorem run_load (hap : MemAp ap) (fuel : Nat) (hserved : EmuServed image t)
    {session : FlashSession} (hne : session.erases ≠ [])
    (herases : ErasesFit emuRegion.toFlashGeometry session.erases)
    (hwrites : WritesFit emuRegion.toFlashGeometry (image.eraseAll 0x400 session.erases)
    session.writes)
    (hwords : ∀ c ∈ session.calls, c.Words) :
    ∃ t', (emuStored ap (fuel + 1)).run (session.calls.map FlashCall.toStore) t =
        .ok (List.replicate session.calls.length (some []), t') ∧
          EmuServed (session.apply 0x400 image) t' := by
  have hagree : ∀ x, 0x08000000 ≤ x → x < 0x08000000 + 0x20000 →
      image x = t.dev.target.flash x := by
    intro x hlow hlt
    rw [← hserved.memory, EmuTarget.memory, if_neg (by omega)]
  obtain ⟨t', hrun, hidle, hflash⟩ :=
    session_nor (emuDriver_nor hap t.dev.target.sram fuel) emuRegion_nor
    hserved.idle hne herases (hwrites.congr fun x hlow hlt =>
      FlashImage.eraseAll_congr 0x400 _ (hagree x hlow hlt))
  refine ⟨t', run_flashCalls hwords hrun, ?_,
    session_memory hserved hidle.usable hflash herases hwrites⟩
  rw [hidle.usable.sram]
  exact hidle

/-- Calls that answer true are replied to with `OK`. -/
theorem replies_of_true : ∀ {cs : List StoreCall}, (∀ c ∈ cs, c.reply (some []) = ascii "OK") →
    ((cs.zip (List.replicate cs.length (some []))).map fun p => p.1.reply p.2) =
      List.replicate cs.length (ascii "OK") := by
  intro cs
  induction cs with
  | nil => exact fun _ => rfl
  | cons c cs ih =>
    intro hcs
    obtain ⟨hc, hcs⟩ := List.forall_mem_cons.1 hcs
    exact congrArg₂ List.cons hc (ih hcs)

/-- A flash call that succeeds is answered by `OK`. -/
theorem FlashCall.reply_toStore (c : FlashCall) : c.toStore.reply (some []) = ascii "OK" := by
  cases c <;> rfl

/-- The calls of a session that fits have arguments of 32 bits. -/
theorem session_words {session : FlashSession}
    (herases : ErasesFit emuRegion.toFlashGeometry session.erases) {image : FlashImage}
    (hwrites : WritesFit emuRegion.toFlashGeometry image session.writes) :
    ∀ c ∈ session.calls, c.Words := by
  have hstart : emuRegion.toFlashGeometry.start = 0x08000000 := rfl
  have hlength : emuRegion.toFlashGeometry.length = 0x20000 := rfl
  intro c hc
  rw [FlashSession.calls, List.mem_append, List.mem_append] at hc
  rcases hc with (hc | hc) | hc
  · obtain ⟨e, he, rfl⟩ := List.mem_map.1 hc
    have := herases e he
    rw [hstart, hlength] at this
    exact ⟨by omega, by omega⟩
  · obtain ⟨w, hw, rfl⟩ := List.mem_map.1 hc
    have := hwrites.inside w hw
    rw [hstart, hlength] at this
    exact show w.1 < 2 ^ 32 by omega
  · rw [List.mem_singleton.1 hc]
    trivial

/-- An act of a client is a run of calls, which answer as the memory says. -/
theorem run_act {act : ClientAct} (hap : MemAp ap) (fuel : Nat) (hserved : EmuServed image t)
    (hfit : act.Fits image) :
    ∃ answers t', (emuStored ap (fuel + 1)).run (act.ops.map ClientOp.call) t = .ok (answers, t') ∧
      EmuServed (act.apply image) t' ∧
      (∀ p ∈ (act.ops.map ClientOp.call).zip answers, p.1.ofSession → p.2.isSome) ∧
      (((act.ops.map ClientOp.call).zip answers).map fun p => p.1.reply p.2) =
        act.replies image := by
  obtain ⟨hops, hfit⟩ := hfit
  cases act with
  | read addr len =>
    have hlen : len ≤ gdbPacketBufferSize / 2 := (hops _ (List.mem_singleton_self _)).2.2
    obtain ⟨mem, t', hrun, hserved', hreply⟩ := run_read hap (fuel + 1) hserved (by
      unfold gdbPacketBufferSize at hlen
      omega) hfit
    refine ⟨[some mem], t', hrun, hserved', fun p hp => ?_, congrArg (fun r => [r]) hreply⟩
    rw [List.mem_singleton.1 hp]
    exact fun _ => rfl
  | write addr data =>
    obtain ⟨t', hrun, hserved'⟩ := run_write hap (fuel + 1) hserved hfit.1 hfit.2
    refine ⟨[some []], t', hrun, hserved', fun p hp => ?_, rfl⟩
    rw [List.mem_singleton.1 hp]
    exact fun _ => rfl
  | writeBinary addr data =>
    obtain ⟨t', hrun, hserved'⟩ := run_write hap (fuel + 1) hserved hfit.1 hfit.2
    refine ⟨[some []], t', hrun, hserved', fun p hp => ?_, rfl⟩
    rw [List.mem_singleton.1 hp]
    exact fun _ => rfl
  | load session =>
    obtain ⟨hne, herases, hwrites⟩ := hfit
    have hcalls : (ClientAct.load session).ops.map ClientOp.call =
        session.calls.map FlashCall.toStore := by
      simp [ClientAct.ops, FlashSession.calls, Function.comp_def, ClientOp.call, FlashCall.toStore]
    have hlen : session.calls.length = (session.calls.map FlashCall.toStore).length :=
      (List.length_map _).symm
    obtain ⟨t', hrun, hserved'⟩ :=
      run_load hap fuel hserved hne herases hwrites (session_words herases hwrites)
    refine ⟨_, t', by rw [hcalls]; exact hrun, hserved', fun p hp _ => ?_, ?_⟩
    · have hp := (List.of_mem_zip hp).2
      rw [List.eq_of_mem_replicate hp]
      rfl
    · have hops : (ClientAct.load session).ops.length = session.calls.length := by
        rw [hlen, ← hcalls, List.length_map]
      rw [hcalls, ClientAct.replies, hops, hlen]
      refine replies_of_true fun c hc => ?_
      obtain ⟨c, -, rfl⟩ := List.mem_map.1 hc
      exact c.reply_toStore

/-- The calls of acts, one act after the other. -/
theorem run_acts (hap : MemAp ap) (fuel : Nat) :
    ∀ {acts : List ClientAct} {t : Target EmuShim} {image : FlashImage},
    EmuServed image t → ActsFit image acts →
    ∃ answers t', (emuStored ap (fuel + 1)).run ((acts.flatMap ClientAct.ops).map ClientOp.call) t =
      .ok (answers, t') ∧
      EmuServed (acts.foldl ClientAct.apply image) t' ∧
      (∀ p ∈ ((acts.flatMap ClientAct.ops).map ClientOp.call).zip answers, p.1.ofSession →
        p.2.isSome) ∧
      ((((acts.flatMap ClientAct.ops).map ClientOp.call).zip answers).map fun p => p.1.reply p.2) =
        actReplies image acts := by
  intro acts
  induction acts with
  | nil => exact fun hserved _ => ⟨[], _, rfl, hserved, fun _ h => absurd h List.not_mem_nil, rfl⟩
  | cons act acts ih =>
    intro t image hserved hfit
    obtain ⟨hact, hacts⟩ := hfit
    obtain ⟨answers, t₁, hrun, hserved₁, hok, hreplies⟩ := run_act hap fuel hserved hact
    obtain ⟨answers', t', hrun', hserved', hok', hreplies'⟩ := ih hserved₁ hacts
    have hlen := StoredTarget.length_run hrun
    have hzip : (((act :: acts).flatMap ClientAct.ops).map ClientOp.call).zip
        (answers ++ answers') =
        (act.ops.map ClientOp.call).zip answers ++
          ((acts.flatMap ClientAct.ops).map ClientOp.call).zip answers' := by
      rw [List.flatMap_cons, List.map_append, List.zip_append hlen.symm]
    refine ⟨answers ++ answers', t', ?_, hserved', ?_, ?_⟩
    · rw [List.flatMap_cons, List.map_append]
      exact StoredTarget.run_append hrun' hrun
    · rw [hzip]
      exact fun p hp => (List.mem_append.1 hp).elim (hok p) (hok' p)
    · rw [hzip, List.map_append, hreplies, hreplies']
      rfl

end

/-! ## The server -/

/-- The acts of a client that a packet each stands for, with what is in the buffer then. -/
def ClientAct.packets (acts : List ClientAct) (stale : Nat → List UInt8) :
    List (ClientOp × List UInt8) :=
  (acts.flatMap ClientAct.ops).zipIdx.map fun p => (p.1, stale p.2)

/-- The calls that the packets of a client make. -/
theorem packets_call (acts : List ClientAct) (stale : Nat → List UInt8) :
    (ClientAct.packets acts stale).map (fun op => op.1.call) =
      (acts.flatMap ClientAct.ops).map ClientOp.call := by
  have hfst : (acts.flatMap ClientAct.ops).zipIdx.map (fun p => p.1.call) =
      ((acts.flatMap ClientAct.ops).zipIdx.map Prod.fst).map ClientOp.call := by
        rw [List.map_map]; rfl
  rw [ClientAct.packets, List.map_map]
  exact hfst.trans (by rw [List.zipIdx_map_fst])

/-- The operations of acts that fit do. -/
theorem ActsFit.ops : ∀ {acts : List ClientAct} {image : FlashImage}, ActsFit image acts →
    ∀ op ∈ acts.flatMap ClientAct.ops, op.Fits := by
  intro acts
  induction acts with
  | nil => exact fun _ _ h => absurd h List.not_mem_nil
  | cons act acts ih =>
    intro image hfit op hop
    rw [List.flatMap_cons, List.mem_append] at hop
    exact hop.elim (hfit.1.1 op) (ih hfit.2 op)

/-- After the scan the server has the memory of the target. -/
theorem emuScanned_served {s : EmuShim} (h : s.target.Sound) :
    EmuServed s.target.memory (emuScanned s) :=
  ⟨emuScanned_idle h, rfl⟩

/-- A client that writes over the end of a word, loads four bytes at the bottom of the flash, and
reads back. -/
def loadAndRead : List ClientAct :=
  [.write 0x20000003 [1, 2], .load ⟨[(0x08000000, 4)], [(0x08000000, [3, 4, 5, 6])]⟩,
    .read 0x08000002 3, .read 0x20000002 3]

/-- These acts fit. -/
theorem loadAndRead_fit (image : FlashImage) : ActsFit image loadAndRead := by
  refine ⟨⟨?_, by decide, by decide⟩,
    ⟨?_, List.cons_ne_nil _ _, ?_, ⟨List.cons_ne_nil _ _, by decide, by decide, ?_⟩,
    trivial⟩, ⟨?_, .inl (by decide)⟩, ⟨?_, .inr (by decide)⟩, trivial⟩
  · exact List.forall_mem_singleton.2 ⟨by decide +kernel, by decide⟩
  · refine List.forall_mem_cons.2 ⟨⟨by decide +kernel, by decide, by decide⟩, List.forall_mem_cons.2
      ⟨⟨by decide +kernel, by decide⟩, List.forall_mem_singleton.2 ⟨by decide +kernel, trivial⟩⟩⟩
  · exact List.forall_mem_singleton.2 ⟨by decide, by decide, by decide⟩
  · exact FlashImage.blank_eraseBlocks _ 0x08000000 4
  · exact List.forall_mem_singleton.2 ⟨by decide +kernel, by decide, by decide⟩
  · exact List.forall_mem_singleton.2 ⟨by decide +kernel, by decide, by decide⟩

end Blackmagic
