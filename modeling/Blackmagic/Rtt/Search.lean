import Mathlib
import Blackmagic.Lib.RollingHash
import Blackmagic.Lib.Memory
import Blackmagic.Rtt.Command

/-!
# The search for the control block

`find_rtt` looks for the control block by its hash (`fast_search`) or by an identifier
(`memory_search`), in a range of addresses. Both loops go on by strides modulo 2^32.

What `fast_search` sees is a stream: 16 zeros and the bytes of the range (`rangeStream`). Until the
addresses wrap, its hash is the hash of the window of the stream that ends at the byte it reads
(`fastScan_spec`, `fastSearchLoop_spec`).
-/

namespace Blackmagic

open Word Bytes Memory Scanf RollingHash

/-! ## The code -/

/-- `m` of `fast_search`. -/
def searchM : Nat := 16

/-- `p` of `fast_search`: the hash that is looked for. -/
def searchP : Nat := 0x444110cd

/-- `q` of `fast_search`. -/
def searchQ : Nat := 0x797a9691

/-- `r` of `fast_search`. -/
def searchR : Nat := 0x73b07d01

/-- `stride` of `fast_search`. -/
def searchStride : Nat := 128

/-- A read of the target's memory, which can fail. -/
abbrev MemReader := Nat → Nat → Option (List UInt8)

/-- The loop of `fast_search` over the bytes of a stride, from an index on: the address that is
found, or the hash at the end. -/
def fastScan (addr : Nat) (srchBuf : List UInt8) : (count i t : Nat) → Except Nat Nat
  | 0, _, t => .ok t
  | count + 1, i, t =>
    let t := (t + searchQ - searchR * (srchBuf.getD i 0).toNat % searchQ) % searchQ
    let t := (t * 256 + (srchBuf.getD (i + searchM) 0).toNat) % searchQ
    if searchP = t then .error (add32 (sub32 (add32 addr i) searchM) 1)
    else fastScan addr srchBuf count (i + 1) t

/-- The buffer of `fast_search` for the next stride. -/
def nextBuffer (srchBuf bytes : List UInt8) : List UInt8 :=
  overwrite (overwrite srchBuf 0 (slice srchBuf searchStride searchM)) searchM bytes

/-- The loop of `fast_search` over the strides, up to a number of turns. -/
def fastSearchLoop (read : MemReader) (ramEnd : Nat) :
    (fuel addr : Nat) → List UInt8 → (t : Nat) → Option Nat
  | 0, _, _, _ => none
  | fuel + 1, addr, srchBuf, t =>
    if addr < ramEnd then
      match read addr (min searchStride (ramEnd - addr)) with
      | none => some 0
      | some bytes =>
        match fastScan addr (nextBuffer srchBuf bytes) (min searchStride (ramEnd - addr)) 0 t with
        | .error found => some found
        | .ok t => fastSearchLoop read ramEnd fuel (add32 addr searchStride)
            (nextBuffer srchBuf bytes) t
    else some 0

/-- `fast_search`. -/
def fastSearch (read : MemReader) (ramStart ramEnd fuel : Nat) : Option Nat :=
  fastSearchLoop read ramEnd fuel ramStart (List.replicate (searchM + searchStride) 0) 0

/-- The size of the buffer of `memory_search`. -/
def srchBufSize : Nat := 128

/-- The loop of `memory_search` over the addresses, up to a number of turns. A string has no zero in
it, so `strncmp` for its length compares the bytes. -/
def memorySearchLoop (read : MemReader) (srchStr : List UInt8) (ramEnd : Nat) :
    (fuel addr : Nat) → Option Nat
  | 0, _ => none
  | fuel + 1, addr =>
    if addr < ramEnd then
      match read addr (min (ramEnd - addr) srchBufSize) with
      | none => memorySearchLoop read srchStr ramEnd fuel
          (add32 addr (srchBufSize - srchStr.length - 1))
      | some bytes =>
        match (List.range (min (ramEnd - addr) srchBufSize - srchStr.length - 1)).find?
            fun offset =>
            slice bytes offset srchStr.length = srchStr with
        | some offset => some (add32 addr offset)
        | none => memorySearchLoop read srchStr ramEnd fuel
            (add32 addr (srchBufSize - srchStr.length - 1))
    else some 0

/-- `memory_search`. -/
def memorySearch (read : MemReader) (rttIdent : List UInt8) (ramStart ramEnd fuel : Nat) :
    Option Nat :=
  let srchStr := cstr rttIdent
  if srchStr.length = 0 ∨ srchBufSize / 2 < srchStr.length then some 0
  else memorySearchLoop read srchStr ramEnd fuel ramStart

/-- The search of `find_rtt` in a range. -/
def searchRange (read : MemReader) (c : RttSearch) (ramStart ramEnd fuel : Nat) : Option Nat :=
  if c.rttIdent.head? = some 0 then fastSearch read ramStart ramEnd fuel
  else memorySearch read c.rttIdent ramStart ramEnd fuel

/-- The loop of `find_rtt` over the regions of RAM, each with its start and its length. -/
def searchRam (read : MemReader) (c : RttSearch) (fuel : Nat) : List (Nat × Nat) → Option Nat
  | [] => some 0
  | (start, length) :: ram =>
    match searchRange read c start (add32 start length) fuel with
    | none => none
    | some 0 => searchRam read c fuel ram
    | some cbaddr => some cbaddr

/-- What `find_rtt` searches. -/
def searchCblock (read : MemReader) (c : RttSearch) (ram : List (Nat × Nat)) (fuel : Nat) :
    Option Nat :=
  if c.rttFlagRam then searchRange read c c.rttRamStart c.rttRamEnd fuel
    else searchRam read c fuel ram

/-! ## The hash -/

/-- What `fast_search` reads: zeros that fill the first window, and the bytes from the start of the
range. -/
def rangeStream (mem : Nat → UInt8) (ramStart k : Nat) : Nat :=
  if k < searchM then 0 else (mem (ramStart + (k - searchM))).toNat

/-- The window before the byte `k` of the range has the hash. -/
def Hit (mem : Nat → UInt8) (ramStart k : Nat) : Prop :=
  windowHash 256 searchQ (rangeStream mem ramStart) searchM k = searchP

instance (mem : Nat → UInt8) (ramStart k : Nat) : Decidable (Hit mem ramStart k) :=
  inferInstanceAs (Decidable (_ = _))

/-- The 16 bytes at an address have the hash that is looked for. -/
def HasHash (mem : Nat → UInt8) (a : Nat) : Prop :=
  windowHash 256 searchQ (fun x => (mem x).toNat) searchM a = searchP

instance (mem : Nat → UInt8) (a : Nat) : Decidable (HasHash mem a) :=
  inferInstanceAs (Decidable (_ = _))

/-- The hash is the one of the identifier of the library on the target. -/
example : windowHash 256 searchQ
    (fun k => ((ascii "SEGGER RTT" ++ List.replicate 6 0).getD k 0).toNat) searchM 0 = searchP := by
  decide +kernel

/-- Behind a full window a hit is a hash of the range. -/
theorem hit_of_le {mem : Nat → UInt8} {ramStart k : Nat} (h : searchM ≤ k) :
    Hit mem ramStart k ↔ HasHash mem (ramStart + (k - searchM)) := by
  have hcongr : windowHash 256 searchQ (rangeStream mem ramStart) searchM k =
      windowHash 256 searchQ (fun x => (mem x).toNat) searchM (ramStart + (k - searchM)) := by
    refine windowHash_congr fun i _ => ?_
    rw [rangeStream, if_neg (by omega), Nat.add_assoc]
    congr 3
    omega
  rw [Hit, HasHash, hcongr]

/-- Before the first byte there is no hit. -/
theorem not_hit_zero (mem : Nat → UInt8) (ramStart : Nat) : ¬ Hit mem ramStart 0 := by
  have hzero : windowHash 256 searchQ (rangeStream mem ramStart) searchM 0 =
      windowHash 256 searchQ (fun _ => 0) searchM 0 := by
    refine windowHash_congr fun i hi => ?_
    rw [rangeStream, if_pos (by omega)]
  rw [Hit, hzero]
  decide

/-- One turn of the loop over the bytes is the step of the hash. -/
theorem searchStep_eq (mem : Nat → UInt8) (ramStart k : Nat) :
    ((windowHash 256 searchQ (rangeStream mem ramStart) searchM k + searchQ -
        searchR * rangeStream mem ramStart k % searchQ) % searchQ * 256 +
        rangeStream mem ramStart (k + searchM)) % searchQ =
      windowHash 256 searchQ (rangeStream mem ramStart) searchM (k + 1) :=
  @roll_windowHash 256 searchQ (by decide) searchR 15 (by decide) (rangeStream mem ramStart) k

/-! ## The loops of `fast_search` -/

/-- The first window with the hash, of those that end after `lo` bytes of the range and within
`hi`. -/
structure FirstHit (mem : Nat → UInt8) (ramStart lo hi k : Nat) : Prop where
  lt : lo < k
  le : k ≤ hi
  hit : Hit mem ramStart k
  least : ∀ k', lo < k' → k' < k → ¬ Hit mem ramStart k'

section
variable {mem : Nat → UInt8} {ramStart ramEnd : Nat}

/-- The hash of the code when it has read so many bytes of the range. -/
def hashAt (mem : Nat → UInt8) (ramStart k : Nat) : Nat :=
  windowHash 256 searchQ (rangeStream mem ramStart) searchM k

/-- The loop over the bytes of a stride ends at the first window with the hash. -/
theorem fastScan_spec {addr base : Nat} {srchBuf : List UInt8} : ∀ (count i : Nat),
    (∀ l < searchM + (i + count), (srchBuf.getD l 0).toNat = rangeStream mem ramStart (base + l)) →
    (∃ k, FirstHit mem ramStart (base + i) (base + i + count) k ∧
        fastScan addr srchBuf count i (hashAt mem ramStart (base + i)) =
          .error (add32 (sub32 (add32 addr (k - base - 1)) searchM) 1)) ∨
      (∀ k, base + i < k → k ≤ base + i + count → ¬ Hit mem ramStart k) ∧
        fastScan addr srchBuf count i (hashAt mem ramStart (base + i)) =
          .ok (hashAt mem ramStart (base + i + count)) := by
  intro count
  induction count with
  | zero => exact fun i _ => .inr ⟨fun k hk hk' => by omega, rfl⟩
  | succ count ih =>
    intro i hbuf
    have hstep : fastScan addr srchBuf (count + 1) i (hashAt mem ramStart (base + i)) =
        if searchP = hashAt mem ramStart (base + i + 1)
          then .error (add32 (sub32 (add32 addr i) searchM) 1)
        else fastScan addr srchBuf count (i + 1) (hashAt mem ramStart (base + i + 1)) := by
      rw [fastScan, hbuf i (by omega), hbuf (i + searchM) (by omega), ← Nat.add_assoc, hashAt,
        searchStep_eq, ← hashAt]
    rw [hstep]
    split
    · rename_i hp
      refine .inl ⟨base + i + 1, ⟨by omega, by omega, hp.symm, fun k' hk hk' => by omega⟩, ?_⟩
      rw [show base + i + 1 - base - 1 = i by omega]
    · rename_i hp
      have hnot : ¬ Hit mem ramStart (base + i + 1) := fun h => hp h.symm
      have hend : base + (i + 1) + count = base + i + (count + 1) := by omega
      have hrest := ih (i + 1) fun l hl => hbuf l (by omega)
      rw [hend] at hrest
      rcases hrest with ⟨k, hk, hfound⟩ | ⟨hnone, hend⟩
      · refine .inl ⟨k, ⟨by have := hk.lt; omega, hk.le, hk.hit, fun k' hlt hlt' => ?_⟩, hfound⟩
        rcases Nat.lt_or_ge (base + i + 1) k' with h | h
        · exact hk.least k' h hlt'
        · obtain rfl : k' = base + i + 1 := by omega
          exact hnot
      · refine .inr ⟨fun k hlt hle => ?_, hend⟩
        rcases Nat.lt_or_ge (base + i + 1) k with h | h
        · exact hnone k h hle
        · obtain rfl : k = base + i + 1 := by omega
          exact hnot

/-- Before a stride, the end of the buffer holds the last bytes that were read. -/
structure Carried (mem : Nat → UInt8) (ramStart base : Nat) (srchBuf : List UInt8) : Prop where
  length : srchBuf.length = searchM + searchStride
  carry : ∀ i < searchM, (srchBuf.getD (searchStride + i) 0).toNat =
    rangeStream mem ramStart (base + i)

/-- The cleared buffer holds the zeros before the range. -/
theorem Carried.start (mem : Nat → UInt8) (ramStart : Nat) :
    Carried mem ramStart 0 (List.replicate (searchM + searchStride) 0) := by
  refine ⟨List.length_replicate, fun i hi => ?_⟩
  have hlt : searchStride + i < searchM + searchStride := by omega
  rw [List.getD_eq_getElem?_getD, List.getElem?_replicate_of_lt hlt, rangeStream,
    if_pos (by omega)]
  rfl

/-- The buffer keeps its length. -/
theorem length_nextBuffer {base count : Nat} {srchBuf : List UInt8}
    (h : Carried mem ramStart base srchBuf) (addr : Nat) (hcount : count ≤ searchStride) :
    (overwrite srchBuf 0 (slice srchBuf searchStride searchM)).length = 144 ∧
      (nextBuffer srchBuf (bytesAt mem addr count)).length = 144 := by
  have hlen : srchBuf.length = 144 := h.length
  have hslice : (slice srchBuf searchStride searchM).length = 16 :=
    length_slice (show 128 + 16 ≤ srchBuf.length by omega)
  have hcopy : (overwrite srchBuf 0 (slice srchBuf searchStride searchM)).length = 144 := by
    rw [length_overwrite (by omega), hlen]
  refine ⟨hcopy, ?_⟩
  rw [nextBuffer, length_overwrite, hcopy]
  rw [hcopy, length_bytesAt]
  exact Nat.add_le_add_left hcount 16

/-- The buffer of a stride holds the carry and the bytes that were read. -/
theorem getD_nextBuffer {base count : Nat} {srchBuf : List UInt8}
    (h : Carried mem ramStart base srchBuf) (hcount : count ≤ searchStride) :
    ∀ l < searchM + count,
      ((nextBuffer srchBuf (bytesAt mem (ramStart + base) count)).getD l 0).toNat =
      rangeStream mem ramStart (base + l) := by
  intro l hl
  have hlen : srchBuf.length = 144 := h.length
  have hslice : (slice srchBuf searchStride searchM).length = 16 :=
    length_slice (show 128 + 16 ≤ srchBuf.length by omega)
  have hcopy := (length_nextBuffer h (ramStart + base) hcount).1
  change count ≤ 128 at hcount
  change l < 16 + count at hl
  rw [nextBuffer, List.getD_eq_getElem?_getD, getElem?_overwrite (by
    rw [hcopy, length_bytesAt]
    change 16 + count ≤ 144
    omega), length_bytesAt]
  rcases Nat.lt_or_ge l 16 with hlt | hge
  · rw [if_neg (fun hin => absurd hin.1 (Nat.not_le_of_lt hlt)), getElem?_overwrite (by omega),
      if_pos ⟨Nat.zero_le l, by omega⟩, Nat.sub_zero, slice,
      List.getElem?_take_of_lt (show l < searchM from hlt),
      List.getElem?_drop, ← List.getD_eq_getElem?_getD]
    exact h.carry l hlt
  · have hbyte : (bytesAt mem (ramStart + base) count)[l - 16]? =
        some (mem (ramStart + base + (l - 16))) := by
      rw [bytesAt, List.getElem?_map, List.getElem?_range (by omega)]
      rfl
    have hpast : ¬ base + l < searchM := by
      change ¬ _ < 16
      omega
    rw [if_pos ⟨hge, hl⟩, rangeStream, if_neg hpast]
    change (Option.getD (bytesAt mem (ramStart + base) count)[l - 16]? 0).toNat = _
    rw [hbyte, Option.getD_some, Nat.add_assoc]
    congr 3
    change base + (l - 16) = base + l - 16
    omega

/-- What a full stride leaves in the buffer is the carry of the next one. -/
theorem Carried.next {base : Nat} {srchBuf : List UInt8} (h : Carried mem ramStart base srchBuf) :
    Carried mem ramStart (base + searchStride)
      (nextBuffer srchBuf (bytesAt mem (ramStart + base) searchStride)) := by
  refine ⟨(length_nextBuffer h _ (Nat.le_refl _)).2, fun i hi => ?_⟩
  rw [getD_nextBuffer h (Nat.le_refl _) _ (by omega), Nat.add_assoc]

/-- A read of the target that fails at some addresses. -/
def memReader (mem : Nat → UInt8) (fails : Nat → Bool) : MemReader := fun addr len =>
  if fails addr then none else some (bytesAt mem addr len)

/-- No read fails. -/
abbrev allRead (mem : Nat → UInt8) : MemReader := memReader mem fun _ => false

/-- The strides of a range. -/
def strides (ramStart ramEnd : Nat) : Nat := (ramEnd - ramStart + 127) / 128

/-- The address that `fast_search` returns for the window that ends after `k` bytes of the range. -/
def foundAt (ramStart k : Nat) : Nat := sub32 (ramStart + k) searchM

/-- The address that is returned is the one the window ends at. -/
theorem foundAt_eq {addr base k : Nat} (haddr : addr = ramStart + base) (hk : base < k)
    (hk' : ramStart + k < 2 ^ 32) :
    add32 (sub32 (add32 addr (k - base - 1)) searchM) 1 = foundAt ramStart k := by
  obtain ⟨y, hy⟩ : ∃ y, addr + (k - base - 1) = y := ⟨_, rfl⟩
  have hy' : y < 2 ^ 32 := by omega
  have hk'' : ramStart + k = y + 1 := by omega
  have hsum : add32 addr (k - base - 1) = y := by rw [add32_of_lt (by omega), hy]
  rw [foundAt, hk'', hsum, add32, sub32, sub32, show searchM = 16 from rfl]
  omega

/-- The loop over the strides of the range: it ends at the first window with the hash, or goes on
after the last stride, with the address modulo 2^32. -/
theorem fastSearchLoop_spec (hend : ramEnd < 2 ^ 32) : ∀ (d j : Nat) (srchBuf : List UInt8),
    j + d = strides ramStart ramEnd → Carried mem ramStart (128 * j) srchBuf →
    (∃ k, FirstHit mem ramStart (128 * j) (ramEnd - ramStart) k ∧
        ∀ fuel, fastSearchLoop (allRead mem) ramEnd (fuel + d) ((ramStart + 128 * j) % 2 ^ 32)
          srchBuf
          (hashAt mem ramStart (128 * j)) = some (foundAt ramStart k)) ∨
      (∀ k, 128 * j < k → k ≤ ramEnd - ramStart → ¬ Hit mem ramStart k) ∧
        ∃ srchBuf' t', ∀ fuel, fastSearchLoop (allRead mem) ramEnd (fuel + d)
          ((ramStart + 128 * j) % 2 ^ 32) srchBuf (hashAt mem ramStart (128 * j)) =
            fastSearchLoop (allRead mem) ramEnd fuel
              ((ramStart + 128 * strides ramStart ramEnd) % 2 ^ 32) srchBuf' t' := by
  intro d
  induction d with
  | zero =>
    intro j srchBuf hj _
    rw [Nat.add_zero] at hj
    subst hj
    refine .inr ⟨fun k hk hk' => ?_, srchBuf, _, fun fuel => rfl⟩
    rw [strides] at hk
    omega
  | succ d ih =>
    intro j srchBuf hj hbuf
    have hlt : ramStart + 128 * j < ramEnd := by
      rw [strides] at hj
      omega
    obtain ⟨count, hcount⟩ : ∃ count, min searchStride (ramEnd - (ramStart + 128 * j)) = count :=
      ⟨_, rfl⟩
    have hle : count ≤ searchStride := hcount ▸ Nat.min_le_left _ _
    have hscan := @fastScan_spec mem ramStart (ramStart + 128 * j) (128 * j) _ count 0
      fun l hl => getD_nextBuffer hbuf hle l (by omega)
    have hloop : ∀ fuel, fastSearchLoop (allRead mem) ramEnd (fuel + (d + 1))
        ((ramStart + 128 * j) % 2 ^ 32)
        srchBuf (hashAt mem ramStart (128 * j)) =
          match fastScan (ramStart + 128 * j)
            (nextBuffer srchBuf (bytesAt mem (ramStart + 128 * j) count)) count 0
              (hashAt mem ramStart (128 * j)) with
          | .error found => some found
          | .ok t => fastSearchLoop (allRead mem) ramEnd (fuel + d)
              (add32 (ramStart + 128 * j) searchStride)
              (nextBuffer srchBuf (bytesAt mem (ramStart + 128 * j) count)) t := by
      intro fuel
      rw [Nat.mod_eq_of_lt (by omega), ← Nat.add_assoc, fastSearchLoop, if_pos hlt, hcount]
      rfl
    rw [Nat.add_zero] at hscan
    change count ≤ 128 at hle
    change min 128 _ = count at hcount
    rcases hscan with ⟨k, hk, hfound⟩ | ⟨hnone, hok⟩
    · have hkle := hk.le
      have hklt := hk.lt
      refine .inl ⟨k, ⟨hk.lt, by omega, hk.hit, hk.least⟩, fun fuel => ?_⟩
      rw [hloop, hfound, foundAt_eq rfl hk.lt (by omega)]
    · rcases Nat.lt_or_ge count 128 with hshort | hfull
      · -- a short stride is the last one, and what it leaves in the buffer is no carry
        obtain rfl : d = 0 := by
          rw [strides] at hj
          omega
        refine .inr ⟨fun k hk hk' => hnone k hk (by omega),
          nextBuffer srchBuf (bytesAt mem (ramStart + 128 * j) count),
          hashAt mem ramStart (128 * j + count), fun fuel => ?_⟩
        rw [hloop, hok]
        dsimp only
        rw [add32, show searchStride = 128 from rfl, Nat.add_assoc, ← Nat.mul_succ, ← hj]
        rfl
      · obtain rfl : count = 128 := by omega
        have hnext := hbuf.next
        rw [show searchStride = 128 from rfl, ← Nat.mul_succ] at hnext
        rw [← Nat.mul_succ] at hnone hok
        have haddr : add32 (ramStart + 128 * j) searchStride =
            (ramStart + 128 * (j + 1)) % 2 ^ 32 := by
          rw [add32, show searchStride = 128 from rfl, Nat.add_assoc, ← Nat.mul_succ]
        have hrest := ih (j + 1) _ (by omega) hnext
        rcases hrest with ⟨k, hk, hfound⟩ | ⟨hnone', srchBuf', t', hgo⟩
        · have hklt := hk.lt
          refine .inl ⟨k, ⟨by omega, hk.le, hk.hit, fun k' hlt hlt' => ?_⟩, fun fuel => ?_⟩
          · rcases Nat.lt_or_ge (128 * (j + 1)) k' with h | h
            · exact hk.least k' h hlt'
            · exact hnone k' hlt h
          · rw [hloop, hok]
            dsimp only
            rw [haddr]
            exact hfound fuel
        · refine .inr ⟨fun k hlt hle => ?_, srchBuf', t', fun fuel => ?_⟩
          · rcases Nat.lt_or_ge (128 * (j + 1)) k with h | h
            · exact hnone' k h hle
            · exact hnone k hlt h
          · rw [hloop, hok]
            dsimp only
            rw [haddr]
            exact hgo fuel

end

end Blackmagic
