import Blackmagic.Lib.Descent
import Blackmagic.Lib.Effect
import Blackmagic.Lib.Word

/-!
# The ROM tables of a target: `adiv5_component_probe`

The entries of a ROM table are offsets to other tables and to components, and the probe follows each
of them. Nothing keeps an entry from leading back to its own table or to one above it: the recursion
ends exactly when no table that it meets is reachable from itself.
-/

namespace Blackmagic

open Effect

namespace Components

/-! ## The debug memory -/

/-- The debug memory of an AP: the word at an address, and whether a read of it fails. -/
structure DebugMem where
  word : UInt32 → UInt32
  fails : UInt32 → Bool

/-- The AP: `fault` of the DP, and what the first table says. -/
structure Ap where
  fault : Bool
  designerCode : UInt16
  partno : UInt16

/-- There are more calls inside of each other than the run allows for. -/
inductive Exit
  | tooDeep

abbrev ProbeM := EStateM Exit Ap

section
variable (mem : DebugMem)

/-- `adiv5_mem_read32`. There are no accesses while a fault is pending. -/
def adiv5MemRead32 (addr : UInt32) : ProbeM UInt32 := fun s =>
  if s.fault then .ok 0 s
  else if mem.fails addr then .ok 0 { s with fault := true }
  else .ok (mem.word addr) s

/-- `adiv5_dp_error`. -/
def adiv5DpError : ProbeM Bool := fun s => .ok s.fault { s with fault := false }

/-- `ap->dp->fault`. -/
def dpFault : ProbeM Bool := fun s => .ok s.fault s

/-- The bytes of an identification register are the low bytes of four words. -/
def idWord (w₀ w₁ w₂ w₃ : UInt32) : UInt32 :=
  w₀.toUInt8.toUInt32 ||| (w₁.toUInt8.toUInt32 <<< 8) ||| (w₂.toUInt8.toUInt32 <<< 16) |||
    (w₃.toUInt8.toUInt32 <<< 24)

/-- `adiv5_ap_read_id`. -/
def adiv5ApReadId (addr : UInt32) : ProbeM UInt32 := do
  let w₀ ← adiv5MemRead32 mem addr
  let w₁ ← adiv5MemRead32 mem (addr + 4)
  let w₂ ← adiv5MemRead32 mem (addr + 8)
  let w₃ ← adiv5MemRead32 mem (addr + 12)
  return idWord w₀ w₁ w₂ w₃

/-- `adiv5_ap_read_pidr`. -/
def adiv5ApReadPidr (addr : UInt32) : ProbeM UInt64 := do
  let high ← adiv5ApReadId mem (addr + 0xfd0)
  let low ← adiv5ApReadId mem (addr + 0xfe0)
  return (high.toUInt64 <<< 32) ||| low.toUInt64

/-! ## The probe -/

/-- `CID_PREAMBLE`. -/
def cidPreamble : UInt32 := 0xb105000d

/-- `CID_CLASS_MASK`. -/
def cidClassMask : UInt32 := 0xf000

/-- `cidc_romtab`. -/
def cidcRomtab : UInt32 := 1

/-- `JEP106_MANUFACTURER_STM`. -/
def jep106Stm : UInt16 := 0x020

/-- `JEP106_MANUFACTURER_ATMEL`. -/
def jep106Atmel : UInt16 := 0x01f

/-- `PIDR_JEP106_USED`. -/
def pidrJep106Used : UInt64 := 0x80000

/-- `PIDR_JEP106_CONT_MASK`. -/
def pidrJep106ContMask : UInt64 := 0xf00000000

/-- `PIDR_JEP106_CODE_MASK`. -/
def pidrJep106CodeMask : UInt64 := 0x7f000

/-- The designer that a PIDR names: a JEP-106 code with two corrections, or a legacy ASCII code. -/
def designerOf (pidr : UInt64) : UInt16 :=
  if pidr &&& pidrJep106Used ≠ 0 then
    let code :=
      (((pidr &&& pidrJep106ContMask) >>> 24) ||| ((pidr &&& pidrJep106CodeMask) >>> 12)).toUInt16
    if code = 0x420 ∨ code = 0x555 then jep106Stm else code
  else ((pidr &&& pidrJep106CodeMask) >>> 12).toUInt16 ||| 0x8000

/-- The part number of a PIDR. -/
def partOf (pidr : UInt64) : UInt16 := (pidr &&& 0xfff).toUInt16

/-- `SAMX5X_DSU_CTRLSTAT`. -/
def samx5xDsuCtrlstat : UInt32 := 0x41002100

/-- `SAMX5X_STATUSB_PROT`. -/
def samx5xStatusbProt : UInt32 := 0x10000

/-- The first table names the part. A protected SAMx5x is probed at once. -/
def firstTable (recursion : Nat) (designer part : UInt16) : ProbeM Bool :=
  if recursion = 0 then do
    modify fun s => { s with designerCode := designer, partno := part }
    if designer = jep106Atmel ∧ part = 0xcd0 then do
      let ctrlstat ← adiv5MemRead32 mem samx5xDsuCtrlstat
      return ctrlstat &&& samx5xStatusbProt != 0
    else return false
  else return false

/-- The loop over the entries of a table, from entry `i`, for `n` entries at most. -/
def probeEntries (probe : UInt32 → ProbeM Unit) (addr : UInt32) : Nat → Nat → ProbeM Unit
  | 0, _ => return ()
  | n + 1, i => do
    let _ ← adiv5DpError
    let entry ← adiv5MemRead32 mem (addr + UInt32.ofNat (i * 4))
    let failed ← adiv5DpError
    if failed then return ()
    else if entry = 0 then return ()
    else if entry &&& 1 = 0 then probeEntries probe addr n (i + 1)
    else do
      probe (addr + (entry &&& 0xfffff000))
      probeEntries probe addr n (i + 1)

/-- `adiv5_component_probe`, for `depth` calls inside of each other. `component` is what the probe
of a component that is no table leaves in `fault`. -/
def adiv5ComponentProbe (component : UInt32 → Bool → Bool) : Nat → UInt32 → Nat → ProbeM Unit
  | 0, _, _ => throw .tooDeep
  | depth + 1, addr, recursion =>
    let addr := addr &&& 0xfffff000
    if addr = 0 then return ()
    else do
      let cidr ← adiv5ApReadId mem (addr + 0xff0)
      let fault ← dpFault
      if fault then return ()
      else do
        let error ← adiv5DpError
        if error then return ()
        else if cidr &&& ~~~ cidClassMask ≠ cidPreamble then return ()
        else do
          let pidr ← adiv5ApReadPidr mem addr
          if (cidr &&& cidClassMask) >>> 12 = cidcRomtab then do
            let isProtected ← firstTable mem recursion (designerOf pidr) (partOf pidr)
            if isProtected then return ()
            else do
              let _ ← adiv5MemRead32 mem (addr ||| 0xfcc)
              let _ ← adiv5DpError
              probeEntries mem (fun a => adiv5ComponentProbe component depth a (recursion + 1))
                addr 960 0
          else modify fun s => { s with fault := component addr s.fault }

/-! ## The tables as a graph -/

/-- The identification registers at an address are read without an error. -/
def idFails (addr : UInt32) : Bool :=
  mem.fails addr || mem.fails (addr + 4) || mem.fails (addr + 8) || mem.fails (addr + 12)

def idOf (addr : UInt32) : UInt32 :=
  idWord (mem.word addr) (mem.word (addr + 4)) (mem.word (addr + 8)) (mem.word (addr + 12))

def pidrOf (addr : UInt32) : UInt64 :=
  ((idOf mem (addr + 0xfd0)).toUInt64 <<< 32) ||| (idOf mem (addr + 0xfe0)).toUInt64

/-- The address that a table or a component is probed at. -/
def page (addr : UInt32) : UInt32 := addr &&& 0xfffff000

/-- There is a ROM table at an address. -/
structure IsTable (addr : UInt32) : Prop where
  nonzero : addr ≠ 0
  reads : idFails mem (addr + 0xff0) = false
  preamble : idOf mem (addr + 0xff0) &&& ~~~ cidClassMask = cidPreamble
  romtab : (idOf mem (addr + 0xff0) &&& cidClassMask) >>> 12 = cidcRomtab

/-- The table is the one of a protected SAMx5x. -/
structure IsProtected (addr : UInt32) : Prop where
  reads : idFails mem (addr + 0xfd0) = false ∧ idFails mem (addr + 0xfe0) = false
  part : designerOf (pidrOf mem addr) = jep106Atmel ∧ partOf (pidrOf mem addr) = 0xcd0
  ctrlstat : mem.fails samx5xDsuCtrlstat = false ∧
    mem.word samx5xDsuCtrlstat &&& samx5xStatusbProt ≠ 0

/-- Where the present entries of a table lead, up to its end or to the first one that cannot be
read. -/
def entries (addr : UInt32) : Nat → Nat → List UInt32
  | 0, _ => []
  | n + 1, i =>
    let entry := mem.word (addr + UInt32.ofNat (i * 4))
    if mem.fails (addr + UInt32.ofNat (i * 4)) then []
    else if entry = 0 then []
    else if entry &&& 1 = 0 then entries addr n (i + 1)
    else page (addr + (entry &&& 0xfffff000)) :: entries addr n (i + 1)

open Classical in
/-- Where the probe of an address goes on. -/
noncomputable def children (addr : UInt32) : List UInt32 :=
  if IsTable mem addr then entries mem addr 960 0 else []

end

section
variable {mem : DebugMem} {s : Ap} {addr : UInt32}

/-! ## The reads -/

/-- A read gives the word of the memory, or 0 after a fault, which stays. -/
theorem adiv5MemRead32_run (mem : DebugMem) (addr : UInt32) (s : Ap) :
    adiv5MemRead32 mem addr s =
      .ok (if s.fault || mem.fails addr then 0 else mem.word addr)
        { s with fault := s.fault || mem.fails addr } := by
  obtain ⟨fault, designer, part⟩ := s
  unfold adiv5MemRead32
  cases fault with
  | true => rfl
  | false =>
    cases mem.fails addr with
    | true => rfl
    | false => rfl

/-- An ID is put together from four reads, and is right when none of them fails. -/
theorem adiv5ApReadId_run (mem : DebugMem) (addr : UInt32) (s : Ap) :
    ∃ v, adiv5ApReadId mem addr s = .ok v { s with fault := s.fault || idFails mem addr } ∧
      ((s.fault || idFails mem addr) = false → v = idOf mem addr) := by
  unfold adiv5ApReadId idFails idOf
  rw [run_bind_ok (adiv5MemRead32_run mem addr s),
    run_bind_ok (adiv5MemRead32_run mem (addr + 4) _),
    run_bind_ok (adiv5MemRead32_run mem (addr + 8) _),
    run_bind_ok (adiv5MemRead32_run mem (addr + 12) _)]
  simp only [Bool.or_assoc]
  refine ⟨_, rfl, fun h => ?_⟩
  simp only [Bool.or_eq_false_iff] at h
  obtain ⟨h, h₀, h₁, h₂, h₃⟩ := h
  simp [h, h₀, h₁, h₂, h₃]

/-- A PIDR is put together from two IDs. -/
theorem adiv5ApReadPidr_run (mem : DebugMem) (addr : UInt32) (s : Ap) :
    ∃ v, adiv5ApReadPidr mem addr s =
        .ok v { s with
          fault := s.fault || idFails mem (addr + 0xfd0) || idFails mem (addr + 0xfe0) } ∧
      ((s.fault || idFails mem (addr + 0xfd0) || idFails mem (addr + 0xfe0)) = false →
        v = pidrOf mem addr) := by
  obtain ⟨high, hhigh, hhigh'⟩ := adiv5ApReadId_run mem (addr + 0xfd0) s
  obtain ⟨low, hlow, hlow'⟩ :=
    adiv5ApReadId_run mem (addr + 0xfe0) { s with fault := s.fault || idFails mem (addr + 0xfd0) }
  unfold adiv5ApReadPidr
  rw [run_bind_ok hhigh, run_bind_ok hlow]
  refine ⟨_, rfl, fun h => ?_⟩
  rw [hlow' h, hhigh' (Bool.or_eq_false_iff.1 h).1]
  rfl

/-! ## The recursion -/

/-- A table's entries are followed to the end exactly when each of the probes comes to its end. -/
theorem probeEntries_ok {probe : UInt32 → ProbeM Unit} {T : UInt32 → Prop}
    (hprobe : ∀ a (s : Ap), s.fault = false → ((∃ s', probe a s = .ok () s') ↔ T (page a)))
    (n i : Nat) (s : Ap) :
    (∃ s', probeEntries mem probe addr n i s = .ok () s') ↔ ∀ b ∈ entries mem addr n i, T b := by
  induction n generalizing i s with
  | zero => exact ⟨fun _ b hb => (by cases hb), fun _ => ⟨s, rfl⟩⟩
  | succ n ih =>
    rw [probeEntries, run_bind_ok
      (show adiv5DpError s = .ok s.fault { s with fault := false } from rfl),
        run_bind_ok (adiv5MemRead32_run mem _ _), entries]
    simp only [Bool.false_or]
    cases hfails : mem.fails (addr + UInt32.ofNat (i * 4)) with
    | true => exact ⟨fun _ b hb => (by cases hb), fun _ => ⟨_, rfl⟩⟩
    | false =>
      rw [run_bind_ok (show adiv5DpError { s with fault := false } =
        .ok false { s with fault := false } from rfl)]
      simp only [Bool.false_eq_true, if_false]
      by_cases hend : mem.word (addr + UInt32.ofNat (i * 4)) = 0
      · rw [if_pos hend, if_pos hend]
        exact ⟨fun _ b hb => (by cases hb), fun _ => ⟨_, rfl⟩⟩
      rw [if_neg hend, if_neg hend]
      by_cases hpresent : mem.word (addr + UInt32.ofNat (i * 4)) &&& 1 = 0
      · rw [if_pos hpresent, if_pos hpresent]
        exact ih (i + 1) _
      rw [if_neg hpresent, if_neg hpresent, List.forall_mem_cons]
      have hhead := hprobe (addr + (mem.word (addr + UInt32.ofNat (i * 4)) &&& 0xfffff000))
        { s with fault := false } rfl
      constructor
      · rintro ⟨s', hrun⟩
        cases hp : probe (addr + (mem.word (addr + UInt32.ofNat (i * 4)) &&& 0xfffff000))
            { s with fault := false } with
        | ok u s₁ =>
          rw [run_bind_ok hp] at hrun
          exact ⟨hhead.1 ⟨s₁, hp⟩, (ih (i + 1) s₁).1 ⟨s', hrun⟩⟩
        | error e s₁ =>
          rw [run_bind_error hp] at hrun
          cases hrun
      · rintro ⟨hfirst, hrest⟩
        obtain ⟨s₁, hp⟩ := hhead.2 hfirst
        rw [run_bind_ok hp]
        exact (ih (i + 1) s₁).2 hrest

/-- Only the first table can be the one of a protected part. -/
theorem firstTable_run (recursion : Nat) (addr : UInt32) (s : Ap) (pidr : UInt64)
    (hfault : s.fault = (idFails mem (addr + 0xfd0) || idFails mem (addr + 0xfe0)))
    (hpidr : s.fault = false → pidr = pidrOf mem addr) :
    ∃ b s', firstTable mem recursion (designerOf pidr) (partOf pidr) s = .ok b s' ∧
      (b = true ↔ recursion = 0 ∧ IsProtected mem addr) := by
  unfold firstTable
  by_cases hrec : recursion = 0
  · rw [if_pos hrec]
    change ∃ b s', (if designerOf pidr = jep106Atmel ∧ partOf pidr = 0xcd0 then _
      else _ : ProbeM Bool)
      { s with designerCode := designerOf pidr, partno := partOf pidr } = .ok b s' ∧ _
    by_cases hpart : designerOf pidr = jep106Atmel ∧ partOf pidr = 0xcd0
    · rw [if_pos hpart, run_bind_ok (adiv5MemRead32_run mem _ _)]
      refine ⟨_, _, rfl, ?_⟩
      rw [bne_iff_ne]
      constructor
      · intro hne
        have hreads : (s.fault || mem.fails samx5xDsuCtrlstat) = false := by
          by_contra htrue
          rw [Bool.not_eq_false] at htrue
          exact hne (by rw [if_pos htrue, UInt32.zero_and])
        obtain ⟨hf, hctrl⟩ := Bool.or_eq_false_iff.1 hreads
        obtain ⟨hhigh, hlow⟩ := Bool.or_eq_false_iff.1 (hfault.symm.trans hf)
        refine ⟨hrec, ⟨hhigh, hlow⟩, hpidr hf ▸ hpart, hctrl, ?_⟩
        rwa [if_neg (by simp [hreads])] at hne
      · rintro ⟨-, ⟨hhigh, hlow⟩, -, hctrl, hprot⟩
        have hreads : (s.fault || mem.fails samx5xDsuCtrlstat) = false := by
          rw [hfault, hhigh, hlow, hctrl]
          rfl
        rwa [if_neg (by simp [hreads])]
    · rw [if_neg hpart]
      refine ⟨false, _, rfl, ⟨fun h => (by cases h), fun h => ?_⟩⟩
      have hprot := h.2
      have hf : s.fault = false := by
        rw [hfault, hprot.reads.1, hprot.reads.2]
        rfl
      exact absurd ((hpidr hf).symm ▸ hprot.part) hpart
  · rw [if_neg hrec]
    exact ⟨false, s, rfl, ⟨fun h => (by cases h), fun h => absurd h.1 hrec⟩⟩

/-- What is no table is probed without another call. -/
theorem componentProbe_leaf {component : UInt32 → Bool → Bool} (depth recursion : Nat) {a : UInt32}
    {s : Ap} (h : s.fault = true ∨ ¬ IsTable mem (page a)) :
    ∃ s', adiv5ComponentProbe mem component (depth + 1) a recursion s = .ok () s' := by
  rw [adiv5ComponentProbe]
  simp only [show ∀ a : UInt32, a &&& 0xfffff000 = page a from fun _ => rfl]
  by_cases hzero : page a = 0
  · rw [if_pos hzero]
    exact ⟨s, rfl⟩
  rw [if_neg hzero]
  obtain ⟨cidr, hread, hcidr⟩ := adiv5ApReadId_run mem (page a + 0xff0) s
  rw [run_bind_ok hread, run_bind_ok (show dpFault _ = .ok _ _ from rfl)]
  cases hfault : s.fault || idFails mem (page a + 0xff0) with
  | true => exact ⟨_, rfl⟩
  | false =>
    obtain ⟨hs, hreads⟩ := Bool.or_eq_false_iff.1 hfault
    have htable : ¬ IsTable mem (page a) := h.resolve_left (by rw [hs]; exact Bool.false_ne_true)
    rw [if_neg Bool.false_ne_true, run_bind_ok (show adiv5DpError _ = .ok _ _ from rfl),
      if_neg Bool.false_ne_true]
    by_cases hpreamble : cidr &&& ~~~ cidClassMask ≠ cidPreamble
    · rw [if_pos hpreamble]
      exact ⟨_, rfl⟩
    rw [if_neg hpreamble]
    obtain ⟨pidr, hread', -⟩ := adiv5ApReadPidr_run mem (page a) { s with fault := false }
    rw [run_bind_ok hread']
    by_cases hclass : (cidr &&& cidClassMask) >>> 12 = cidcRomtab
    · have hcidr' := hcidr hfault
      exact absurd ⟨hzero, hreads, hcidr' ▸ not_not.1 hpreamble, hcidr' ▸ hclass⟩ htable
    · rw [if_neg hclass]
      exact ⟨_, rfl⟩

/-- A table is read up to its entries. -/
theorem componentProbe_table {component : UInt32 → Bool → Bool} (depth recursion : Nat) {a : UInt32}
    {s : Ap} (hs : s.fault = false) (htable : IsTable mem (page a)) :
    (recursion = 0 ∧ IsProtected mem (page a) ∧
        ∃ s', adiv5ComponentProbe mem component (depth + 1) a recursion s = .ok () s') ∨
      ¬ (recursion = 0 ∧ IsProtected mem (page a)) ∧
        ∃ s₁, adiv5ComponentProbe mem component (depth + 1) a recursion s =
          probeEntries mem (fun a => adiv5ComponentProbe mem component depth a (recursion + 1))
            (page a) 960 0 s₁ := by
  rw [adiv5ComponentProbe]
  simp only [show ∀ a : UInt32, a &&& 0xfffff000 = page a from fun _ => rfl]
  obtain ⟨cidr, hread, hcidr⟩ := adiv5ApReadId_run mem (page a + 0xff0) s
  have hfault : (s.fault || idFails mem (page a + 0xff0)) = false := by rw [hs, htable.reads]; rfl
  have hpreamble : ¬ cidr &&& ~~~ cidClassMask ≠ cidPreamble :=
    not_not.2 (hcidr hfault ▸ htable.preamble)
  have hclass : (cidr &&& cidClassMask) >>> 12 = cidcRomtab := hcidr hfault ▸ htable.romtab
  obtain ⟨pidr, hread', hpidr⟩ := adiv5ApReadPidr_run mem (page a) { s with fault := false }
  obtain ⟨isProtected, s₁, hfirst, hprotected⟩ := firstTable_run recursion (page a)
    { s with fault := idFails mem (page a + 0xfd0) || idFails mem (page a + 0xfe0) } pidr rfl
    (fun h => hpidr (by rwa [Bool.false_or]))
  rw [if_neg htable.nonzero, run_bind_ok hread, run_bind_ok (show dpFault _ = .ok _ _ from rfl),
    hfault, if_neg Bool.false_ne_true, run_bind_ok (show adiv5DpError _ = .ok _ _ from rfl),
    if_neg Bool.false_ne_true,
    if_neg hpreamble, run_bind_ok hread', if_pos hclass, Bool.false_or, run_bind_ok hfirst]
  cases isProtected with
  | true =>
    obtain ⟨hrec, hprot⟩ := hprotected.1 rfl
    exact .inl ⟨hrec, hprot, s₁, rfl⟩
  | false =>
    refine .inr ⟨fun h => Bool.false_ne_true (hprotected.2 h), ?_⟩
    rw [if_neg Bool.false_ne_true, run_bind_ok (adiv5MemRead32_run mem _ s₁),
      run_bind_ok (show adiv5DpError _ = .ok _ _ from rfl)]
    exact ⟨_, rfl⟩

/-- Below the first table, or at one that is not protected, the probe ends as the recursion over the
graph. -/
theorem componentProbe_ok (component : UInt32 → Bool → Bool) (depth : Nat) {recursion : Nat}
    {a : UInt32} {s : Ap} (hs : s.fault = false)
    (hfirst : ¬ (recursion = 0 ∧ IsProtected mem (page a))) :
    (∃ s', adiv5ComponentProbe mem component depth a recursion s = .ok () s') ↔
      Descent.EndsWithin (children mem) depth (page a) := by
  induction depth generalizing recursion a s with
  | zero => exact iff_of_false (fun h => by obtain ⟨s', h⟩ := h; cases h) fun h => h
  | succ depth ih =>
    by_cases htable : IsTable mem (page a)
    · rcases @componentProbe_table mem component depth recursion a s hs htable with
        ⟨hrec, hprot, -⟩ | ⟨-, s₁, hrun⟩
      · exact absurd ⟨hrec, hprot⟩ hfirst
      · rw [hrun, probeEntries_ok fun a s hs => ih hs fun h => absurd h.1 (Nat.succ_ne_zero _)]
        change _ ↔ ∀ b ∈ children mem (page a), Descent.EndsWithin (children mem) depth b
        rw [children, if_pos htable]
    · refine iff_of_true (componentProbe_leaf depth recursion (.inr htable)) ?_
      intro b hb
      rw [children, if_neg htable] at hb
      cases hb

/-- The addresses that tables and components are probed at. -/
def pages : List UInt32 := (List.range (2 ^ 20)).map fun k => UInt32.ofNat (2 ^ 12 * k)

/-- Every address is in one of the pages. -/
theorem page_mem_pages (addr : UInt32) : page addr ∈ pages := by
  have hlt := addr.toNat_lt
  refine List.mem_map.2 ⟨addr.toNat / 2 ^ 12, List.mem_range.2 (by omega), ?_⟩
  rw [← UInt32.toNat_inj, UInt32.toNat_ofNat', page]
  change _ = (addr &&& UInt32.ofNat (2 ^ 32 - 2 ^ 12)).toNat
  rw [Word.toNat_and_high addr (by decide)]
  omega

/-- A table names pages only. -/
theorem entries_subset (n i : Nat) : ∀ b ∈ entries mem addr n i, b ∈ pages := by
  induction n generalizing i with
  | zero => exact fun b hb => by cases hb
  | succ n ih =>
    intro b hb
    rw [entries] at hb
    split at hb
    · cases hb
    split at hb
    · cases hb
    split at hb
    · exact ih (i + 1) b hb
    · rcases List.mem_cons.1 hb with rfl | hb
      · exact page_mem_pages _
      · exact ih (i + 1) b hb

/-- What a component names are pages. -/
theorem children_subset (mem : DebugMem) (a : UInt32) : ∀ b ∈ children mem a, b ∈ pages := by
  intro b hb
  unfold children at hb
  split at hb
  · exact entries_subset 960 0 b hb
  · cases hb

/-- The probe of an AP ends exactly when a fault is pending, the part is a protected SAMx5x or no
table that it meets is reachable from itself. Then it makes no more calls inside of each other than
there are pages, and one. -/
theorem componentProbe_ends_iff (mem : DebugMem) (component : UInt32 → Bool → Bool) (base : UInt32)
    (s : Ap) :
    ((∃ s', adiv5ComponentProbe mem component (2 ^ 20 + 1) base 0 s = .ok () s') ↔
      s.fault = true ∨ (IsTable mem (page base) ∧ IsProtected mem (page base)) ∨
        Descent.NoCycle (children mem) (page base)) ∧
    ∀ depth, (∃ s', adiv5ComponentProbe mem component depth base 0 s = .ok () s') →
      s.fault = true ∨ (IsTable mem (page base) ∧ IsProtected mem (page base)) ∨
        Descent.NoCycle (children mem) (page base) := by
  have hlen : pages.length = 2 ^ 20 := by rw [pages, List.length_map, List.length_range]
  have hmem := page_mem_pages base
  have hsubset := children_subset mem
  generalize pages = nodes at hlen hmem hsubset
  generalize 2 ^ 20 = last at hlen ⊢
  have hcond : ∀ depth, (∃ s', adiv5ComponentProbe mem component depth base 0 s = .ok () s') →
      s.fault = true ∨ (IsTable mem (page base) ∧ IsProtected mem (page base)) ∨
        Descent.NoCycle (children mem) (page base) := by
    intro depth hrun
    by_cases hs : s.fault = true
    · exact .inl hs
    by_cases hprot : IsTable mem (page base) ∧ IsProtected mem (page base)
    · exact .inr (.inl hprot)
    refine .inr (.inr ?_)
    by_cases htable : IsTable mem (page base)
    · have hfirst : ¬ (0 = 0 ∧ IsProtected mem (page base)) := fun h => hprot ⟨htable, h.2⟩
      exact ((componentProbe_ok component depth (Bool.eq_false_of_not_eq_true hs) hfirst).1
        hrun).noCycle
    · refine @Descent.EndsWithin.noCycle _ _ 1 _ fun b hb => ?_
      rw [children, if_neg htable] at hb
      cases hb
  refine ⟨⟨hcond _, ?_⟩, hcond⟩
  rintro (hs | ⟨htable, hprot⟩ | hnocycle)
  · exact componentProbe_leaf last 0 (.inl hs)
  · by_cases hs : s.fault = true
    · exact componentProbe_leaf last 0 (.inl hs)
    rcases @componentProbe_table mem component last 0 base s (Bool.eq_false_of_not_eq_true hs)
      htable with
      ⟨-, -, hrun⟩ | ⟨hfirst, -⟩
    · exact hrun
    · exact absurd ⟨rfl, hprot⟩ hfirst
  · by_cases hs : s.fault = true
    · exact componentProbe_leaf last 0 (.inl hs)
    have hends := hnocycle.endsWithin hsubset hmem
    rw [hlen] at hends
    by_cases hfirst : 0 = 0 ∧ IsProtected mem (page base)
    · by_cases htable : IsTable mem (page base)
      · rcases @componentProbe_table mem component last 0 base s (Bool.eq_false_of_not_eq_true hs)
          htable with
          ⟨-, -, hrun⟩ | ⟨hfirst', -⟩
        · exact hrun
        · exact absurd hfirst hfirst'
      · exact componentProbe_leaf last 0 (.inr htable)
    · exact (componentProbe_ok component (last + 1) (Bool.eq_false_of_not_eq_true hs) hfirst).2
        hends

end

/-- A table at 0xe00ff000 whose only entry leads back to it. -/
def selfTable : DebugMem where
  word addr :=
    if addr = 0xe00ff000 then 1
    else if addr = 0xe00ffff0 then 0x0d
    else if addr = 0xe00ffff4 then 0x10
    else if addr = 0xe00ffff8 then 0x05
    else if addr = 0xe00ffffc then 0xb1
    else 0
  fails _ := false

/-- The probe of a table that leads back to itself ends at no depth. -/
theorem componentProbe_selfTable :
    ¬ ∃ depth s', adiv5ComponentProbe selfTable (fun _ fault => fault) depth 0xe00ff003 0
      ⟨false, 0, 0⟩ =
      .ok () s' := by
  have htable : IsTable selfTable (page 0xe00ff003) := ⟨by decide, by decide, by decide, by decide⟩
  have hself : page 0xe00ff003 ∈ children selfTable (page 0xe00ff003) := by
    have hentry : selfTable.word (page 0xe00ff003 + UInt32.ofNat (0 * 4)) = 1 := by decide
    have hback : page (page 0xe00ff003 + ((1 : UInt32) &&& 0xfffff000)) = page 0xe00ff003 := by
      decide
    rw [children, if_pos htable, entries, hentry,
      if_neg (show ¬ selfTable.fails _ = true from Bool.false_ne_true), if_neg (by decide),
      if_neg (by decide), hback]
    exact List.mem_cons_self
  have hfirst : ¬ (0 = 0 ∧ IsProtected selfTable (page 0xe00ff003)) :=
    fun h => absurd h.2.part.1 (by decide +kernel)
  rintro ⟨depth, hrun⟩
  have hends := (componentProbe_ok _ depth rfl hfirst).1 hrun
  exact hends.noCycle _ .refl (.single hself)

end Components

end Blackmagic
