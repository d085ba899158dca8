import Mathlib
import Blackmagic.Rtt.Search

/-!
# When the search for the control block is exact

`fast_search` is exact as long as its addresses stay in the range and the first window with the hash
is one of 16 bytes of the range (`FastCovers`). The zeros before the range can make a shorter
window, and a block at address 0 cannot be told from none.

`memory_search` goes on from `ram_end` to other addresses when its stride takes it past 2^32. Its
addresses are a walk (`walk`), and what it sees on it (`Sees`) is what it returns.

Over ranges that are searched exactly `find_rtt` finds the block in the first range that has it
(`searchCblock_spec`); a range above address 0 with 128 bytes behind it is one
(`searchCblock_lowest`).
-/

namespace Blackmagic

open Word Bytes Memory Scanf

/-! ## What a search should return -/

/-- The lowest address with a property, or 0 if there is none; 0 stands for none only. -/
def LowestOrNone (Match : Nat → Prop) (v : Nat) : Prop :=
  v ≠ 0 ∧ Match v ∧ (∀ a < v, ¬ Match a) ∨ v = 0 ∧ ∀ a, ¬ Match a

/-- The 16 bytes at an address of the range have the hash. -/
def InRangeHash (mem : Nat → UInt8) (ramStart ramEnd a : Nat) : Prop :=
  ramStart ≤ a ∧ a + 16 ≤ ramEnd ∧ HasHash mem a

/-- `fast_search` ends, whatever reads fail, and if none does it returns the lowest address with the
hash. -/
structure FastExact (mem : Nat → UInt8) (ramStart ramEnd : Nat) : Prop where
  ends : ∀ fails, ∃ fuel v, fastSearch (memReader mem fails) ramStart ramEnd fuel = some v
  exact : ∃ fuel v, fastSearch (allRead mem) ramStart ramEnd fuel = some v ∧
    LowestOrNone (InRangeHash mem ramStart ramEnd) v

/-! ## `fast_search` -/

section
variable {mem : Nat → UInt8} {ramStart ramEnd : Nat}

/-- The addresses of `fast_search` reach the end of the range before they wrap, or a window has the
hash before. -/
def FastEnds (mem : Nat → UInt8) (ramStart ramEnd : Nat) : Prop :=
  ramStart + 128 * strides ramStart ramEnd < 2 ^ 32 ∨ ∃ k ≤ ramEnd - ramStart, Hit mem ramStart k

/-- The first window with the hash is a full one, and not at address 0; or it is a shorter one that
seems to be at address 0, and there is no full one. -/
def FirstIsFull (mem : Nat → UInt8) (ramStart ramEnd : Nat) : Prop :=
  ∀ k, FirstHit mem ramStart 0 (ramEnd - ramStart) k →
    16 ≤ k ∧ ramStart + k ≠ 16 ∨ k < 16 ∧ ramStart + k = 16 ∧ ∀ a,
      ¬ InRangeHash mem ramStart ramEnd a

/-- A full window with the hash is one of the range. -/
theorem hit_full {k : Nat} (hk : 16 ≤ k) (hle : k ≤ ramEnd - ramStart) (h : ramStart < ramEnd) :
    Hit mem ramStart k ↔ InRangeHash mem ramStart ramEnd (ramStart + k - 16) := by
  rw [hit_of_le (show searchM ≤ k from hk), show searchM = 16 from rfl, ← Nat.add_sub_assoc hk]
  exact ⟨fun hh => ⟨by omega, by omega, hh⟩, fun hh => hh.2.2⟩

/-- An address with the hash is a window of the stream. -/
theorem InRangeHash.hit {a : Nat} (h : InRangeHash mem ramStart ramEnd a) :
    16 ≤ a - ramStart + 16 ∧ a - ramStart + 16 ≤ ramEnd - ramStart ∧
      Hit mem ramStart (a - ramStart + 16) := by
  obtain ⟨hstart, hend, hhash⟩ := h
  refine ⟨by omega, by omega, (hit_of_le (by exact Nat.le_add_left 16 _)).2 ?_⟩
  rwa [show searchM = 16 from rfl, Nat.add_sub_cancel, Nat.add_sub_cancel' hstart]

/-- What is returned for the first window with the hash is right exactly when the window is as it
should be. -/
theorem lowest_foundAt (h : ramStart < ramEnd) (hend : ramEnd < 2 ^ 32) {k : Nat}
    (hk : FirstHit mem ramStart 0 (ramEnd - ramStart) k) :
    LowestOrNone (InRangeHash mem ramStart ramEnd) (foundAt ramStart k) ↔
      16 ≤ k ∧ ramStart + k ≠ 16 ∨
        k < 16 ∧ ramStart + k = 16 ∧ ∀ a, ¬ InRangeHash mem ramStart ramEnd a := by
  have hle := hk.le
  have hfound : foundAt ramStart k = (ramStart + k + 2 ^ 32 - 16) % 2 ^ 32 := rfl
  rcases Nat.lt_or_ge k 16 with hlt | hge
  · -- the address of a shorter window is below the range, or wraps to one at the end of the memory
    have hnot : ¬ InRangeHash mem ramStart ramEnd (foundAt ramStart k) := by
      rintro ⟨h₁, h₂, -⟩
      omega
    have hzero : foundAt ramStart k = 0 ↔ ramStart + k = 16 := by omega
    constructor
    · rintro (⟨-, hmatch, -⟩ | ⟨hv, hnone⟩)
      · exact absurd hmatch hnot
      · exact .inr ⟨hlt, hzero.1 hv, hnone⟩
    · rintro (⟨hge, -⟩ | ⟨-, h16, hnone⟩)
      · omega
      · exact .inr ⟨hzero.2 h16, hnone⟩
  · have haddr : foundAt ramStart k = ramStart + k - 16 := by omega
    have hmatch := (hit_full hge hle h).1 hk.hit
    rw [haddr]
    constructor
    · rintro (⟨hv, -, -⟩ | ⟨-, hnone⟩)
      · exact .inl ⟨hge, by omega⟩
      · exact absurd hmatch (hnone _)
    · rintro (⟨-, hv⟩ | ⟨hlt, -⟩)
      · refine .inl ⟨by omega, hmatch, fun a ha hlow => ?_⟩
        have hstart := hlow.1
        exact hk.least (a - ramStart + 16) (by omega) (by omega) hlow.hit.2.2
      · omega

/-- A failing read ends the search. -/
theorem fastSearchLoop_fails (fails : Nat → Bool) :
    ∀ (fuel addr : Nat) (srchBuf : List UInt8) (t : Nat),
    fastSearchLoop (memReader mem fails) ramEnd fuel addr srchBuf t = some 0 ∨
      fastSearchLoop (memReader mem fails) ramEnd fuel addr srchBuf t =
        fastSearchLoop (allRead mem) ramEnd fuel addr srchBuf t := by
  intro fuel
  induction fuel with
  | zero => exact fun _ _ _ => .inr rfl
  | succ fuel ih =>
    intro addr srchBuf t
    rw [fastSearchLoop, fastSearchLoop]
    split
    · cases hfails : fails addr with
      | true =>
        refine .inl ?_
        rw [memReader, hfails]
        rfl
      | false =>
        have hread : memReader mem fails addr (min searchStride (ramEnd - addr)) =
            some (bytesAt mem addr (min searchStride (ramEnd - addr))) := by
          rw [memReader, hfails]
          rfl
        have hread' : allRead mem addr (min searchStride (ramEnd - addr)) =
            some (bytesAt mem addr (min searchStride (ramEnd - addr))) := rfl
        rw [hread, hread']
        dsimp only
        split
        · exact .inr rfl
        · exact ih _ _ _
    · exact .inr rfl

/-- What `fast_search` returns for a window with the hash, or after the last stride of the range. -/
theorem fastSearch_spec (h : ramStart < ramEnd) (hend : ramEnd < 2 ^ 32) :
    (∃ k, FirstHit mem ramStart 0 (ramEnd - ramStart) k ∧
        ∀ fuel, fastSearch (allRead mem) ramStart ramEnd (fuel + strides ramStart ramEnd) =
          some (foundAt ramStart k)) ∨
      (∀ k ≤ ramEnd - ramStart, ¬ Hit mem ramStart k) ∧
        ∃ srchBuf t, ∀ fuel, fastSearch (allRead mem) ramStart ramEnd
          (fuel + strides ramStart ramEnd) =
          fastSearchLoop (allRead mem) ramEnd fuel
            ((ramStart + 128 * strides ramStart ramEnd) % 2 ^ 32) srchBuf t := by
  have hzero : hashAt mem ramStart (128 * 0) = 0 := by
    have hcongr : hashAt mem ramStart 0 = RollingHash.windowHash 256 searchQ (fun _ => 0)
        searchM 0 :=
      RollingHash.windowHash_congr fun i hi => if_pos (by rwa [Nat.zero_add])
    rw [Nat.mul_zero, hcongr]
    decide
  have hloop := fastSearchLoop_spec hend (strides ramStart ramEnd) 0 _ (Nat.zero_add _)
    (Carried.start mem ramStart)
  rw [hzero, Nat.mul_zero, Nat.add_zero, Nat.mod_eq_of_lt (h.trans hend)] at hloop
  rcases hloop with hfound | ⟨hnone, hgo⟩
  · exact .inl hfound
  · refine .inr ⟨fun k hk => ?_, hgo⟩
    rcases Nat.eq_zero_or_pos k with rfl | hpos
    · exact not_hit_zero mem ramStart
    · exact hnone k hpos hk

/-- When the addresses wrap, none of them is past the end of the range, so the loop does not end
there; and it returns no 0 unless the addresses come to the first 16. -/
theorem fastSearchLoop_wraps (hend : ramEnd < 2 ^ 32)
    (hpast : ∀ x < 2 ^ 32, x % 128 = ramStart % 128 → x < ramEnd) (hrest : 16 ≤ ramStart % 128) :
    ∀ (fuel addr : Nat) (srchBuf : List UInt8) (t : Nat),
    addr < 2 ^ 32 → addr % 128 = ramStart % 128 →
      fastSearchLoop (allRead mem) ramEnd fuel addr srchBuf t ≠ some 0 := by
  have hscan : ∀ (addr : Nat) (srchBuf : List UInt8) (count i t : Nat), 16 ≤ addr →
      addr + i + count ≤ 2 ^ 32 →
      fastScan addr srchBuf count i t ≠ .error 0 := by
    intro addr srchBuf count
    induction count with
    | zero =>
      intro i t _ _ h
      cases h
    | succ count ih =>
      intro i t haddr hle h
      rw [fastScan] at h
      split at h
      · have hzero := Except.error.inj h
        rw [add32_of_lt (show addr + i < 2 ^ 32 by omega), add32, sub32, show searchM = 16 from rfl]
          at hzero
        omega
      · exact ih (i + 1) _ haddr (by omega) h
  intro fuel
  induction fuel with
  | zero =>
    intro addr srchBuf t _ _ h
    cases h
  | succ fuel ih =>
    intro addr srchBuf t hlt hmod h
    rw [fastSearchLoop, if_pos (hpast addr hlt hmod)] at h
    have hread : allRead mem addr (min searchStride (ramEnd - addr)) =
        some (bytesAt mem addr (min searchStride (ramEnd - addr))) := rfl
    rw [hread] at h
    dsimp only at h
    have hcount : min searchStride (ramEnd - addr) ≤ ramEnd - addr := Nat.min_le_right _ _
    split at h
    · rename_i found hfound
      obtain rfl := Option.some.inj h
      exact hscan _ _ _ _ _ (by omega) (by omega) hfound
    · refine ih _ _ _ (add32_lt _ _) ?_ h
      rw [add32, show searchStride = 128 from rfl]
      omega

/-- More turns change nothing once the search has ended. -/
theorem fastSearchLoop_mono {read : MemReader} {v : Nat} :
    ∀ (fuel more addr : Nat) (srchBuf : List UInt8) (t : Nat),
    fastSearchLoop read ramEnd fuel addr srchBuf t = some v →
      fastSearchLoop read ramEnd (fuel + more) addr srchBuf t = some v := by
  intro fuel
  induction fuel with
  | zero =>
    intro more addr srchBuf t h
    cases h
  | succ fuel ih =>
    intro more addr srchBuf t h
    rw [Nat.add_right_comm, fastSearchLoop]
    rw [fastSearchLoop] at h
    split at h
    · rename_i hlt
      rw [if_pos hlt]
      split at h
      · exact h
      · split at h
        · exact h
        · exact ih more _ _ _ h
    · rename_i hge
      rw [if_neg hge]
      exact h

/-- A hash that is found is found whatever reads fail, unless a failing read ends the search
before. -/
theorem ends_of_allRead {fuel v : Nat} (h : fastSearch (allRead mem) ramStart ramEnd fuel = some v)
    (fails : Nat → Bool) : ∃ fuel v, fastSearch (memReader mem fails) ramStart ramEnd fuel =
      some v := by
  rcases @fastSearchLoop_fails mem ramEnd fails fuel ramStart _ 0 with hzero | hsame
  · exact ⟨fuel, 0, hzero⟩
  · exact ⟨fuel, v, hsame.trans h⟩

/-- Where the addresses reach the end and the first hit is full, the search is exact. -/
theorem FastExact.of_ends (h : ramStart < ramEnd) (hend : ramEnd < 2 ^ 32)
    (hends : FastEnds mem ramStart ramEnd) (hfull : FirstIsFull mem ramStart ramEnd) :
    FastExact mem ramStart ramEnd := by
  rcases @fastSearch_spec mem _ _ h hend with ⟨k, hk, hfound⟩ | ⟨hnone, srchBuf, t, hgo⟩
  · exact ⟨ends_of_allRead (hfound 0), _, _, hfound 0, (lowest_foundAt h hend hk).2 (hfull k hk)⟩
  · have hfits : ramStart + 128 * strides ramStart ramEnd < 2 ^ 32 := by
      rcases hends with hfits | ⟨k, hk, hhit⟩
      · exact hfits
      · exact absurd hhit (hnone k hk)
    have hzero : fastSearch (allRead mem) ramStart ramEnd (1 + strides ramStart ramEnd) =
        some 0 := by
      rw [hgo, Nat.mod_eq_of_lt hfits, fastSearchLoop, if_neg]
      rw [strides]
      omega
    exact ⟨ends_of_allRead hzero, _, _, hzero,
      .inr ⟨rfl, fun a ha => hnone _ ha.hit.2.1 ha.hit.2.2⟩⟩

/-- An exact search has a full first hit. -/
theorem FastExact.firstIsFull (h : ramStart < ramEnd) (hend : ramEnd < 2 ^ 32)
    (hexact : FastExact mem ramStart ramEnd) : FirstIsFull mem ramStart ramEnd := by
  intro k hk
  obtain ⟨fuel, v, hv, hlowest⟩ := hexact.exact
  rcases @fastSearch_spec mem _ _ h hend with ⟨k', hk', hfound⟩ | ⟨hnone, -⟩
  · obtain rfl : k = k' := by
      rcases Nat.lt_trichotomy k k' with hlt | heq | hgt
      · exact absurd hk.hit (hk'.least k hk.lt hlt)
      · exact heq
      · exact absurd hk'.hit (hk.least k' hk'.lt hgt)
    have hsame := fastSearchLoop_mono fuel (strides ramStart ramEnd) _ _ _ hv
    rw [← fastSearch, hfound] at hsame
    obtain rfl := Option.some.inj hsame
    exact (lowest_foundAt h hend hk).1 hlowest
  · exact absurd hk.hit (hnone k hk.le)

/-- A search that ends for the right reason ends in the range, if 0 cannot be found by accident. -/
theorem FastExact.fastEnds (h : ramStart < ramEnd) (hend : ramEnd < 2 ^ 32)
    (hrest : 16 ≤ ramStart % 128) (hexact : FastExact mem ramStart ramEnd) :
    FastEnds mem ramStart ramEnd := by
  rcases Nat.lt_or_ge (ramStart + 128 * strides ramStart ramEnd) (2 ^ 32) with hfits | hwraps
  · exact .inl hfits
  rcases @fastSearch_spec mem _ _ h hend with ⟨k, hk, -⟩ | ⟨hnone, srchBuf, t, hgo⟩
  · exact .inr ⟨k, hk.le, hk.hit⟩
  · obtain ⟨fuel, v, hv, hlowest⟩ := hexact.exact
    have hzero : v = 0 := by
      rcases hlowest with ⟨-, hmatch, -⟩ | ⟨hzero, -⟩
      · exact absurd hmatch.hit.2.2 (hnone _ hmatch.hit.2.1)
      · exact hzero
    have hsame := fastSearchLoop_mono fuel (strides ramStart ramEnd) _ _ _ hv
    rw [← fastSearch, hgo, hzero] at hsame
    refine absurd hsame
      (fastSearchLoop_wraps hend ?_ hrest fuel _ _ _ (Nat.mod_lt _ (by decide)) ?_)
    · intro x hx hmod
      rw [strides] at hwraps
      omega
    · omega

end

/-! ## `memory_search` -/

/-- The addresses that `memory_search` goes through, for an identifier of some length. -/
def walk (ramStart len j : Nat) : Nat := (ramStart + j * (127 - len)) % 2 ^ 32

/-- The identifier stands where `memory_search` looks: in a turn that it comes to, at an offset. -/
structure Sees (mem : Nat → UInt8) (srchStr : List UInt8) (ramStart ramEnd j o : Nat) : Prop where
  reached : ∀ i ≤ j, walk ramStart srchStr.length i < ramEnd
  offset : o + srchStr.length + 1 < min (ramEnd - walk ramStart srchStr.length j) 128
  stands : bytesAt mem (walk ramStart srchStr.length j + o) srchStr.length = srchStr

/-- The identifier stands at an address of the range, far enough before its end. -/
def IdentAt (mem : Nat → UInt8) (srchStr : List UInt8) (ramStart ramEnd a : Nat) : Prop :=
  ramStart ≤ a ∧ a + (srchStr.length + 2) ≤ ramEnd ∧ bytesAt mem a srchStr.length = srchStr

/-- `memory_search` ends, whatever reads fail, and if none does it returns the lowest address with
the identifier. -/
structure MemoryExact (mem : Nat → UInt8) (rttIdent : List UInt8) (ramStart ramEnd : Nat) :
    Prop where
  ends : ∀ fails, ∃ fuel v, memorySearch (memReader mem fails) rttIdent ramStart ramEnd fuel =
    some v
  exact : ∃ fuel v, memorySearch (allRead mem) rttIdent ramStart ramEnd fuel = some v ∧
    (IdentAt mem (cstr rttIdent) ramStart ramEnd v ∧
      (∀ a < v, ¬ IdentAt mem (cstr rttIdent) ramStart ramEnd a) ∨
      v = 0 ∧ ∀ a, ¬ IdentAt mem (cstr rttIdent) ramStart ramEnd a)

/-- The walk comes to the end of the range or past it, and the range has the identifier or the walk
sees it at no other address, unless after address 0. -/
def WalkEnds (mem : Nat → UInt8) (srchStr : List UInt8) (ramStart ramEnd : Nat) : Prop :=
  (∃ k, ramEnd ≤ walk ramStart srchStr.length k) ∧
    ((∃ a, IdentAt mem srchStr ramStart ramEnd a) ∨
      ∀ j o, Sees mem srchStr ramStart ramEnd j o → walk ramStart srchStr.length j + o ≠ 0 →
        ∃ i ≤ j, walk ramStart srchStr.length i = 0 ∧ bytesAt mem 0 srchStr.length = srchStr)

section
variable {mem : Nat → UInt8} {srchStr : List UInt8} {ramStart ramEnd : Nat}

/-- What the walk sees first. -/
structure FirstSeen (mem : Nat → UInt8) (srchStr : List UInt8) (ramStart ramEnd j o : Nat) :
    Prop where
  sees : Sees mem srchStr ramStart ramEnd j o
  before : ∀ i < j, ∀ o', ¬ Sees mem srchStr ramStart ramEnd i o'
  least : ∀ o' < o, ¬ Sees mem srchStr ramStart ramEnd j o'

/-- One step of the walk. -/
theorem walk_succ (h : srchStr.length ≤ 64) (j : Nat) :
    add32 (walk ramStart srchStr.length j) (srchBufSize - srchStr.length - 1) =
      walk ramStart srchStr.length (j + 1) := by
  rw [add32, walk, walk, Nat.succ_mul, ← Nat.add_assoc, Nat.mod_add_mod,
    show srchBufSize - srchStr.length - 1 = 127 - srchStr.length from by
      change 128 - _ - 1 = _
      omega]

/-- What a search returns that ends: what the walk sees first, or 0 when it sees nothing. -/
theorem memorySearchLoop_spec (hlen : srchStr.length ≤ 64) (hend : ramEnd < 2 ^ 32) {v : Nat} :
    ∀ (fuel j : Nat), (∀ i < j, walk ramStart srchStr.length i < ramEnd) →
      (∀ i < j, ∀ o, ¬ Sees mem srchStr ramStart ramEnd i o) →
      memorySearchLoop (allRead mem) srchStr ramEnd fuel (walk ramStart srchStr.length j) = some v →
        (∃ j o, FirstSeen mem srchStr ramStart ramEnd j o ∧
          v = walk ramStart srchStr.length j + o) ∨
          v = 0 ∧ ∀ j o, ¬ Sees mem srchStr ramStart ramEnd j o := by
  intro fuel
  induction fuel with
  | zero =>
    intro j _ _ h
    cases h
  | succ fuel ih =>
    intro j hreached hunseen h
    rw [memorySearchLoop] at h
    split at h
    · rename_i hlt
      obtain ⟨size, hsize⟩ : ∃ size, min (ramEnd - walk ramStart srchStr.length j) srchBufSize =
        size := ⟨_, rfl⟩
      have hreached' : ∀ i ≤ j, walk ramStart srchStr.length i < ramEnd := fun i hi => by
        rcases Nat.lt_or_eq_of_le hi with hi | rfl
        · exact hreached i hi
        · exact hlt
      -- an offset of the inner loop at which the strings agree is what the walk sees in this turn
      have hsees : ∀ o, Sees mem srchStr ramStart ramEnd j o ↔ o < size - srchStr.length - 1 ∧
          slice (bytesAt mem (walk ramStart srchStr.length j) size) o srchStr.length = srchStr := by
        intro o
        change min _ 128 = size at hsize
        constructor
        · intro hs
          have hoff := hs.offset
          rw [hsize] at hoff
          rw [slice_bytesAt (by omega)]
          exact ⟨by omega, hs.stands⟩
        · rintro ⟨hoff, hstands⟩
          rw [slice_bytesAt (by omega)] at hstands
          exact ⟨hreached', by omega, hstands⟩
      have hread : allRead mem (walk ramStart srchStr.length j) size =
          some (bytesAt mem (walk ramStart srchStr.length j) size) := rfl
      rw [hsize, hread] at h
      dsimp only at h
      split at h
      · rename_i o hfind
        obtain rfl := Option.some.inj h
        have hfirst := List.find?_range_eq_some.1 hfind
        have hs : Sees mem srchStr ramStart ramEnd j o :=
          (hsees o).2 ⟨List.mem_range.1 hfirst.2.1, by simpa using hfirst.1⟩
        refine .inl ⟨j, o, ⟨hs, hunseen, fun o' ho' hs' => ?_⟩, add32_of_lt ?_⟩
        · have hnot := hfirst.2.2 o' ho'
          rw [((hsees o').1 hs').2] at hnot
          simp at hnot
        · have hoff := hs.offset
          omega
      · rename_i hfind
        rw [walk_succ hlen] at h
        refine ih (j + 1) (fun i hi => hreached' i (by omega)) (fun i hi o => ?_) h
        rcases Nat.lt_or_eq_of_le (Nat.le_of_lt_succ hi) with hi | rfl
        · exact hunseen i hi o
        · intro hs
          obtain ⟨hoff, hstands⟩ := (hsees o).1 hs
          have hnot := List.find?_eq_none.1 hfind o (List.mem_range.2 hoff)
          exact hnot (decide_eq_true hstands)
    · rename_i hge
      obtain rfl := Option.some.inj h
      refine .inr ⟨rfl, fun i o hs => ?_⟩
      rcases Nat.lt_or_ge i j with hi | hi
      · exact hunseen i hi o hs
      · exact hge (hs.reached j hi)

/-- When every read fails, the search looks at nothing, and ends when its walk does. -/
theorem exists_walk_of_ends (hlen : srchStr.length ≤ 64) {v : Nat} : ∀ (fuel j : Nat),
    memorySearchLoop (memReader mem fun _ => true) srchStr ramEnd fuel
      (walk ramStart srchStr.length j) = some v →
      ∃ k, ramEnd ≤ walk ramStart srchStr.length k := by
  intro fuel
  induction fuel with
  | zero =>
    intro j h
    cases h
  | succ fuel ih =>
    intro j h
    rw [memorySearchLoop] at h
    split at h
    · change memorySearchLoop _ _ _ _ _ = _ at h
      rw [walk_succ hlen] at h
      exact ih (j + 1) h
    · rename_i hge
      exact ⟨j, Nat.le_of_not_lt hge⟩

/-- A search whose walk comes to the end of the range ends, whatever reads fail. -/
theorem ends_of_walk (hlen : srchStr.length ≤ 64) (read : MemReader) {k : Nat}
    (hk : ramEnd ≤ walk ramStart srchStr.length k) : ∀ d ≤ k,
      ∃ v, memorySearchLoop read srchStr ramEnd (d + 1) (walk ramStart srchStr.length (k - d)) =
        some v := by
  intro d
  induction d with
  | zero =>
    intro _
    refine ⟨0, ?_⟩
    rw [memorySearchLoop, Nat.sub_zero, if_neg (Nat.not_lt_of_le hk)]
  | succ d ih =>
    intro hd
    obtain ⟨v, hv⟩ := ih (by omega)
    rw [memorySearchLoop]
    split
    · rw [walk_succ hlen, show k - (d + 1) + 1 = k - d by omega]
      split
      · exact ⟨v, hv⟩
      · split
        · exact ⟨_, rfl⟩
        · exact ⟨v, hv⟩
    · exact ⟨0, rfl⟩

/-- The walk before it wraps. -/
theorem walk_eq {len j : Nat} (h : ramStart + j * (127 - len) < 2 ^ 32) :
    walk ramStart len j = ramStart + j * (127 - len) := Nat.mod_eq_of_lt h

/-- The walk sees the identifier wherever it stands in the range, before its addresses wrap. -/
theorem IdentAt.sees (hlen : srchStr.length ≤ 64) (hend : ramEnd < 2 ^ 32) {a : Nat}
    (h : IdentAt mem srchStr ramStart ramEnd a) : ∃ j o, Sees mem srchStr ramStart ramEnd j o ∧
      o < 127 - srchStr.length ∧ ramStart + j * (127 - srchStr.length) + o = a := by
  obtain ⟨hstart, hroom, hstands⟩ := h
  have hdiv := Nat.div_add_mod' (a - ramStart) (127 - srchStr.length)
  have hmod := Nat.mod_lt (a - ramStart) (show 0 < 127 - srchStr.length by omega)
  obtain ⟨j, hj⟩ : ∃ j, (a - ramStart) / (127 - srchStr.length) = j := ⟨_, rfl⟩
  obtain ⟨o, ho⟩ : ∃ o, (a - ramStart) % (127 - srchStr.length) = o := ⟨_, rfl⟩
  rw [hj, ho] at hdiv
  rw [ho] at hmod
  have haddr : ramStart + j * (127 - srchStr.length) + o = a := by omega
  have hwalk := @walk_eq ramStart srchStr.length j (by omega)
  refine ⟨j, o, ⟨fun i hi => ?_, by omega, ?_⟩, hmod, haddr⟩
  · have hmul := Nat.mul_le_mul_right (127 - srchStr.length) hi
    rw [walk_eq (by omega)]
    omega
  · rw [hwalk, haddr, hstands]

/-- What the walk sees first is the lowest of all, if the range has any. -/
theorem FirstSeen.lowest (hlen : srchStr.length ≤ 64) (hend : ramEnd < 2 ^ 32) {j o a : Nat}
    (h : FirstSeen mem srchStr ramStart ramEnd j o) (ha : IdentAt mem srchStr ramStart ramEnd a) :
    IdentAt mem srchStr ramStart ramEnd (walk ramStart srchStr.length j + o) ∧
      walk ramStart srchStr.length j + o ≤ a := by
  obtain ⟨j', o', hs, ho', haddr⟩ := ha.sees hlen hend
  have hroom := ha.2.1
  have hoff := h.sees.offset
  have hjj : j ≤ j' := Nat.le_of_not_lt fun hlt => h.before j' hlt o' hs
  have hmul := Nat.mul_le_mul_right (127 - srchStr.length) hjj
  have hwalk := @walk_eq ramStart srchStr.length j (by omega)
  refine ⟨⟨by omega, by omega, h.sees.stands⟩, ?_⟩
  rcases Nat.lt_or_eq_of_le hjj with hlt | rfl
  · have hnext := Nat.mul_le_mul_right (127 - srchStr.length) (show j + 1 ≤ j' from hlt)
    rw [Nat.succ_mul] at hnext
    omega
  · have hoo : o ≤ o' := Nat.le_of_not_lt fun hlt => h.least o' hlt hs
    omega

end

/-- For a full identifier the search is the walk. -/
theorem memorySearch_eq (read : MemReader) {rttIdent : List UInt8} (hsize : rttIdent.length = 16)
    (hne : rttIdent.head? ≠ some 0) (ramStart ramEnd fuel : Nat) :
    memorySearch read rttIdent ramStart ramEnd fuel =
      memorySearchLoop read (cstr rttIdent) ramEnd fuel ramStart := by
  have hpos : (cstr rttIdent).length ≠ 0 := by
    cases rttIdent with
    | nil => cases hsize
    | cons c rest =>
      have hc : c ≠ 0 := fun h => hne (by rw [h, List.head?_cons])
      rw [cstr, List.takeWhile_cons_of_pos (by simpa using hc), List.length_cons]
      exact Nat.succ_ne_zero _
  have hle := length_cstr_le rttIdent
  rw [memorySearch, if_neg]
  rintro (h | h)
  · exact hpos h
  · change 64 < _ at h
    omega

/-- It is exact just where the walk ends. -/
theorem memoryExact_iff {mem : Nat → UInt8} {rttIdent : List UInt8} {ramStart ramEnd : Nat}
    (hsize : rttIdent.length = 16) (hne : rttIdent.head? ≠ some 0) (h : ramStart < ramEnd)
    (hend : ramEnd < 2 ^ 32) :
    MemoryExact mem rttIdent ramStart ramEnd ↔ WalkEnds mem (cstr rttIdent) ramStart ramEnd := by
  have hlen : (cstr rttIdent).length ≤ 64 := (length_cstr_le rttIdent).trans (by omega)
  have hwalk : walk ramStart (cstr rttIdent).length 0 = ramStart := by
    rw [walk_eq (by omega), Nat.zero_mul, Nat.add_zero]
  have hspec : ∀ {fuel v : Nat}, memorySearch (allRead mem) rttIdent ramStart ramEnd fuel = some v →
      (∃ j o, FirstSeen mem (cstr rttIdent) ramStart ramEnd j o ∧
          v = walk ramStart (cstr rttIdent).length j + o) ∨
        v = 0 ∧ ∀ j o, ¬ Sees mem (cstr rttIdent) ramStart ramEnd j o := by
    intro fuel v hv
    rw [memorySearch_eq _ hsize hne] at hv
    exact memorySearchLoop_spec hlen hend fuel 0 (fun i hi => absurd hi (Nat.not_lt_zero i))
      (fun i hi => absurd hi (Nat.not_lt_zero i)) (hwalk.symm ▸ hv)
  constructor
  · intro hexact
    obtain ⟨fuel₀, v₀, hends⟩ := hexact.ends fun _ => true
    rw [memorySearch_eq _ hsize hne] at hends
    refine ⟨exists_walk_of_ends hlen fuel₀ 0 (hwalk.symm ▸ hends),
      or_iff_not_imp_left.2 fun hnone j o hs hne₀ => ?_⟩
    obtain ⟨fuel, v, hv, hlowest⟩ := hexact.exact
    have hzero : v = 0 := by
      rcases hlowest with ⟨hmatch, -⟩ | ⟨hzero, -⟩
      · exact absurd ⟨v, hmatch⟩ hnone
      · exact hzero
    rcases hspec hv with ⟨i, o', hfirst, hfound⟩ | ⟨-, hunseen⟩
    · obtain ⟨hi, ho⟩ : walk ramStart (cstr rttIdent).length i = 0 ∧ o' = 0 := by omega
      refine ⟨i, Nat.le_of_not_lt fun hlt => hfirst.before j hlt o hs, hi, ?_⟩
      have hstands := hfirst.sees.stands
      rwa [hi, ho] at hstands
    · exact absurd hs (hunseen j o)
  · rintro ⟨⟨k, hk⟩, hsees⟩
    have hends : ∀ read, ∃ fuel v, memorySearch read rttIdent ramStart ramEnd fuel = some v := by
      intro read
      obtain ⟨v, hv⟩ := ends_of_walk hlen read hk k (Nat.le_refl k)
      rw [Nat.sub_self, hwalk] at hv
      exact ⟨k + 1, v, (memorySearch_eq _ hsize hne _ _ _).trans hv⟩
    obtain ⟨fuel, v, hv⟩ := hends (allRead mem)
    refine ⟨fun fails => hends _, fuel, v, hv, ?_⟩
    rcases hspec hv with ⟨j, o, hfirst, rfl⟩ | ⟨rfl, hunseen⟩
    · by_cases hmatch : ∃ a, IdentAt mem (cstr rttIdent) ramStart ramEnd a
      · obtain ⟨a, ha⟩ := hmatch
        refine .inl ⟨(hfirst.lowest hlen hend ha).1, fun b hb hmatch => ?_⟩
        exact absurd (hfirst.lowest hlen hend hmatch).2 (Nat.not_le_of_lt hb)
      · have hnone : ∀ a, ¬ IdentAt mem (cstr rttIdent) ramStart ramEnd a :=
          fun a ha => hmatch ⟨a, ha⟩
        refine .inr ⟨?_, hnone⟩
        by_contra hne₀
        obtain ⟨i, hij, hi, hstands⟩ := (hsees.resolve_left hmatch) j o hfirst.sees hne₀
        -- then the walk sees the identifier at address 0 first
        have hs₀ : Sees mem (cstr rttIdent) ramStart ramEnd i 0 := by
          have hoff := hfirst.sees.offset
          refine ⟨fun i' hi' => hfirst.sees.reached i' (by omega), by omega, ?_⟩
          rwa [hi, Nat.add_zero]
        rcases Nat.lt_or_eq_of_le hij with hlt | rfl
        · exact hfirst.before i hlt 0 hs₀
        · exact hfirst.least 0 (by omega) hs₀
    · exact .inr ⟨rfl, fun a ha => by
        obtain ⟨j, o, hs, -⟩ := ha.sees hlen hend
        exact hunseen j o hs⟩

/-! ## Both searches -/

/-- A range that ends early enough: the addresses of both searches reach its end before they
wrap. -/
theorem ends_of_room (mem : Nat → UInt8) {srchStr : List UInt8} {ramStart ramEnd : Nat}
    (hlen : srchStr.length ≤ 64) (h : ramStart < ramEnd) (hroom : ramEnd + 128 ≤ 2 ^ 32) :
    FastEnds mem ramStart ramEnd ∧ WalkEnds mem srchStr ramStart ramEnd := by
  refine ⟨.inl ?_, ?_⟩
  · rw [strides]
    omega
  have hpos : 0 < 127 - srchStr.length := by omega
  obtain ⟨k, hk⟩ : ∃ k, (ramEnd - ramStart - 1) / (127 - srchStr.length) = k := ⟨_, rfl⟩
  have hdiv := Nat.div_add_mod' (ramEnd - ramStart - 1) (127 - srchStr.length)
  have hmod := Nat.mod_lt (ramEnd - ramStart - 1) hpos
  rw [hk] at hdiv
  have hlast : walk ramStart srchStr.length (k + 1) =
      ramStart + (k + 1) * (127 - srchStr.length) := by
    refine walk_eq ?_
    rw [Nat.succ_mul]
    omega
  have hpast : ramEnd ≤ walk ramStart srchStr.length (k + 1) := by
    rw [hlast, Nat.succ_mul]
    omega
  refine ⟨⟨k + 1, hpast⟩, or_iff_not_imp_left.2 fun hnone j o hs _ => ?_⟩
  have hj : j ≤ k := Nat.le_of_not_lt fun hlt =>
    absurd (hs.reached (k + 1) hlt) (Nat.not_lt_of_le hpast)
  have hmul := Nat.mul_le_mul_right (127 - srchStr.length) hj
  have hoff := hs.offset
  rw [walk_eq (by omega)] at hoff
  have hstands := hs.stands
  rw [walk_eq (by omega)] at hstands
  exact absurd ⟨_, by omega, by omega, hstands⟩ hnone

/-- When the searches are exact. -/
theorem searches_exact_iff {mem : Nat → UInt8} {rttIdent : List UInt8} {ramStart ramEnd : Nat}
    (hsize : rttIdent.length = 16) (hne : rttIdent.head? ≠ some 0) (h : ramStart < ramEnd)
    (hend : ramEnd < 2 ^ 32) :
    (FastEnds mem ramStart ramEnd ∧ FirstIsFull mem ramStart ramEnd →
      FastExact mem ramStart ramEnd) ∧
      (FastEnds mem ramStart ramEnd ∨ 16 ≤ ramStart % 128 → FastExact mem ramStart ramEnd →
        FastEnds mem ramStart ramEnd ∧ FirstIsFull mem ramStart ramEnd) ∧
      (MemoryExact mem rttIdent ramStart ramEnd ↔
        WalkEnds mem (cstr rttIdent) ramStart ramEnd) := by
  refine ⟨fun hok => .of_ends h hend hok.1 hok.2, fun hrest hexact =>
    ⟨?_, hexact.firstIsFull h hend⟩,
    memoryExact_iff hsize hne h hend⟩
  rcases hrest with hends | hrest
  · exact hends
  · exact hexact.fastEnds h hend hrest

/-- Four bytes at the start of a RAM that are the hash itself. -/
def hashAtStart (x : Nat) : UInt8 :=
  if x = 0x20000000 then 0x44 else if x = 0x20000001 then 0x41 else if x = 0x20000002 then 0x10
  else if x = 0x20000003 then 0xcd else 0

/-- A RAM of twenty kilobytes, by both searches. -/
theorem searches_exact_iff_ram :
    (FastEnds hashAtStart 0x20000000 0x20005000 ∧ FirstIsFull hashAtStart 0x20000000 0x20005000 →
        FastExact hashAtStart 0x20000000 0x20005000) ∧
      (FastEnds hashAtStart 0x20000000 0x20005000 ∨ 16 ≤ 0x20000000 % 128 →
        FastExact hashAtStart 0x20000000 0x20005000 →
          FastEnds hashAtStart 0x20000000 0x20005000 ∧
            FirstIsFull hashAtStart 0x20000000 0x20005000) ∧
      (MemoryExact hashAtStart (storedIdent (ascii "SEGGER_RTT")) 0x20000000 0x20005000 ↔
        WalkEnds hashAtStart (cstr (storedIdent (ascii "SEGGER_RTT"))) 0x20000000 0x20005000) :=
  searches_exact_iff (by decide +kernel) (by decide +kernel) (by decide) (by decide)

/-- With these bytes `fast_search` returns an address before the RAM. -/
theorem not_fastExact_hashAtStart : ¬ FastExact hashAtStart 0x20000000 0x20005000 := by
  intro hexact
  have hfirst : FirstHit hashAtStart 0x20000000 0 (0x20005000 - 0x20000000) 4 := by
    refine ⟨by decide, by decide, by decide +kernel, fun k' hlt hlt' => ?_⟩
    obtain rfl | rfl | rfl : k' = 1 ∨ k' = 2 ∨ k' = 3 := by omega
    · decide +kernel
    · decide +kernel
    · decide +kernel
  rcases hexact.firstIsFull (by decide) (by decide) 4 hfirst with ⟨hle, -⟩ | ⟨-, heq, -⟩
  · exact absurd hle (by decide)
  · exact absurd heq (by decide)

/-! ## `find_rtt` -/

/-- The control block that a search looks for is at an address of a range: by the hash when there is
no identifier. -/
def RttSearch.At (c : RttSearch) (mem : Nat → UInt8) (ramStart ramEnd a : Nat) : Prop :=
  if c.rttIdent.head? = some 0 then InRangeHash mem ramStart ramEnd a
  else IdentAt mem (cstr c.rttIdent) ramStart ramEnd a

/-- The search of a range ends, and returns the lowest address with the control block. -/
def RangeExact (mem : Nat → UInt8) (c : RttSearch) (ramStart ramEnd : Nat) : Prop :=
  ∃ fuel v, searchRange (allRead mem) c ramStart ramEnd fuel = some v ∧
    LowestOrNone (c.At mem ramStart ramEnd) v

section
variable {mem : Nat → UInt8} {c : RttSearch}

/-- More turns change nothing once the search has ended. -/
theorem memorySearchLoop_mono {read : MemReader} {srchStr : List UInt8} {ramEnd v : Nat} :
    ∀ (fuel more addr : Nat), memorySearchLoop read srchStr ramEnd fuel addr = some v →
      memorySearchLoop read srchStr ramEnd (fuel + more) addr = some v := by
  intro fuel
  induction fuel with
  | zero =>
    intro more addr h
    cases h
  | succ fuel ih =>
    intro more addr h
    rw [Nat.add_right_comm, memorySearchLoop]
    rw [memorySearchLoop] at h
    split at h
    · next hlt =>
      rw [if_pos hlt]
      split at h
      · exact ih more _ h
      · split at h
        · exact h
        · exact ih more _ h
    · next hge =>
      rw [if_neg hge]
      exact h

/-- The same for the search that the identifier selects. -/
theorem searchRange_mono {read : MemReader} {ramStart ramEnd fuel v : Nat} (more : Nat)
    (h : searchRange read c ramStart ramEnd fuel = some v) :
    searchRange read c ramStart ramEnd (fuel + more) = some v := by
  unfold searchRange at h ⊢
  split
  · next hhash =>
    rw [if_pos hhash] at h
    exact fastSearchLoop_mono fuel more _ _ _ h
  · next hident =>
    rw [if_neg hident] at h
    unfold memorySearch at h ⊢
    dsimp only at h ⊢
    split
    · next hlen =>
      rw [if_pos hlen] at h
      exact h
    · next hlen =>
      rw [if_neg hlen] at h
      exact memorySearchLoop_mono fuel more _ h

/-- A range above address 0 that ends early enough is searched exactly, provided that a search by
the hash meets a full window first. -/
theorem rangeExact_of_room {ramStart ramEnd : Nat} (hsize : c.rttIdent.length = 16)
    (hpos : 0 < ramStart) (h : ramStart < ramEnd) (hroom : ramEnd + 128 ≤ 2 ^ 32)
    (hfull : c.rttIdent.head? = some 0 → FirstIsFull mem ramStart ramEnd) :
    RangeExact mem c ramStart ramEnd := by
  have hlen : (cstr c.rttIdent).length ≤ 64 := (length_cstr_le c.rttIdent).trans (by omega)
  obtain ⟨hfast, hwalk⟩ := ends_of_room mem hlen h hroom
  unfold RangeExact searchRange RttSearch.At
  by_cases hhash : c.rttIdent.head? = some 0
  · simp only [hhash, if_true]
    exact (FastExact.of_ends h (by omega) hfast (hfull hhash)).exact
  · simp only [hhash, if_false]
    obtain ⟨fuel, v, hv, ⟨hat, hleast⟩ | ⟨rfl, hnone⟩⟩ :=
      ((memoryExact_iff hsize hhash h (by omega)).2 hwalk).exact
    · have hge := hat.1
      exact ⟨fuel, v, hv, .inl ⟨by omega, hat, hleast⟩⟩
    · exact ⟨fuel, 0, hv, .inr ⟨rfl, hnone⟩⟩

/-- The end of a region of RAM, as `find_rtt` computes it. -/
def ramEndOf (r : Nat × Nat) : Nat := add32 r.1 r.2

/-- Over regions that are searched exactly, `find_rtt` returns the lowest address with the control
block in the first region that has it, and 0 when no region has it. -/
theorem searchRam_spec :
    ∀ {ram : List (Nat × Nat)}, (∀ r ∈ ram, RangeExact mem c r.1 (ramEndOf r)) →
      ∃ fuel v, (∀ more, searchRam (allRead mem) c (fuel + more) ram = some v) ∧
        ((∃ before r after, ram = before ++ r :: after ∧ v ≠ 0 ∧
            LowestOrNone (c.At mem r.1 (ramEndOf r)) v ∧
            ∀ r' ∈ before, ∀ a, ¬ c.At mem r'.1 (ramEndOf r') a) ∨
          v = 0 ∧ ∀ r ∈ ram, ∀ a, ¬ c.At mem r.1 (ramEndOf r) a) := by
  intro ram
  induction ram with
  | nil => exact fun _ => ⟨0, 0, fun _ => rfl, .inr ⟨rfl, by simp⟩⟩
  | cons r ram ih =>
    intro hram
    obtain ⟨⟨fuel₁, v₁, hv₁, hlowest⟩, hram⟩ := List.forall_mem_cons.1 hram
    have hfirst : ∀ more, searchRange (allRead mem) c r.1 (add32 r.1 r.2) (fuel₁ + more) =
        some v₁ :=
      fun more => searchRange_mono more hv₁
    rcases hlowest with hfound | ⟨rfl, hnone⟩
    · -- the block is in this region, and the others are not searched
      refine ⟨fuel₁, v₁, fun more => ?_, .inl ⟨[], r, ram, rfl, hfound.1, .inl hfound, by simp⟩⟩
      rw [searchRam, hfirst]
      split
      · next h => cases h
      · next h => exact absurd (Option.some.inj h) hfound.1
      · next h => exact h.symm
    · obtain ⟨fuel₂, v₂, hv₂, hrest⟩ := ih hram
      refine ⟨fuel₁ + fuel₂, v₂, fun more => ?_, ?_⟩
      · rw [searchRam, Nat.add_assoc, hfirst, ← Nat.add_assoc, Nat.add_comm fuel₁, Nat.add_assoc]
        exact hv₂ _
      · rcases hrest with ⟨before, r', after, rfl, hne, hlow, hbefore⟩ | ⟨rfl, hall⟩
        · exact .inl ⟨r :: before, r', after, rfl, hne, hlow,
            List.forall_mem_cons.2 ⟨hnone, hbefore⟩⟩
        · exact .inr ⟨rfl, List.forall_mem_cons.2 ⟨hnone, hall⟩⟩

/-- The regions that `find_rtt` searches: the range of the user, or the RAM of the target. -/
def searchedRanges (c : RttSearch) (ram : List (Nat × Nat)) : List (Nat × Nat) :=
  if c.rttFlagRam then [(c.rttRamStart, c.rttRamEnd)] else ram.map fun r => (r.1, ramEndOf r)

/-- `find_rtt` returns the lowest address with the control block in the first of its ranges that has
it, and 0 when none has it, as long as each range is searched exactly. -/
theorem searchCblock_spec {ram : List (Nat × Nat)}
    (hexact : ∀ r ∈ searchedRanges c ram, RangeExact mem c r.1 r.2) :
    ∃ fuel v, searchCblock (allRead mem) c ram fuel = some v ∧
      ((∃ before r after, searchedRanges c ram = before ++ r :: after ∧ v ≠ 0 ∧
          LowestOrNone (c.At mem r.1 r.2) v ∧ ∀ r' ∈ before, ∀ a, ¬ c.At mem r'.1 r'.2 a) ∨
        v = 0 ∧ ∀ r ∈ searchedRanges c ram, ∀ a, ¬ c.At mem r.1 r.2 a) := by
  unfold searchCblock
  unfold searchedRanges at hexact ⊢
  by_cases hflag : c.rttFlagRam
  · simp only [hflag, if_true] at hexact ⊢
    obtain ⟨fuel, v, hv, hlowest⟩ := hexact _ List.mem_cons_self
    refine ⟨fuel, v, hv, ?_⟩
    rcases hlowest with hfound | ⟨rfl, hnone⟩
    · exact .inl ⟨[], _, [], rfl, hfound.1, .inl hfound, by simp⟩
    · exact .inr ⟨rfl, List.forall_mem_singleton.2 hnone⟩
  · simp only [hflag, Bool.false_eq_true, if_false] at hexact ⊢
    have hram : ∀ r ∈ ram, RangeExact mem c r.1 (ramEndOf r) := fun r hr =>
      hexact (r.1, ramEndOf r) (List.mem_map_of_mem hr)
    obtain ⟨fuel, v, hv, hspec⟩ := searchRam_spec hram
    refine ⟨fuel, v, hv 0, ?_⟩
    rcases hspec with ⟨before, r, after, rfl, hne, hlow, hbefore⟩ | ⟨rfl, hall⟩
    · refine .inl ⟨before.map fun r => (r.1, ramEndOf r), (r.1, ramEndOf r),
        after.map fun r => (r.1, ramEndOf r), by simp, hne, hlow, ?_⟩
      exact List.forall_mem_map.2 hbefore
    · exact .inr ⟨rfl, List.forall_mem_map.2 hall⟩

/-- `find_rtt` over ranges above address 0 with 128 bytes behind them: it returns the lowest address
with the control block in the first range that has it, and 0 when none has it. A search by the hash
has to meet a full window first. -/
theorem searchCblock_lowest {mem : Nat → UInt8} {c : RttSearch} {ram : List (Nat × Nat)}
    (hsize : c.rttIdent.length = 16)
    (hroom : ∀ r ∈ searchedRanges c ram, 0 < r.1 ∧ r.1 < r.2 ∧ r.2 + 128 ≤ 2 ^ 32)
    (hfull : c.rttIdent.head? = some 0 → ∀ r ∈ searchedRanges c ram, FirstIsFull mem r.1 r.2) :
    ∃ fuel v, searchCblock (allRead mem) c ram fuel = some v ∧
      ((∃ before r after, searchedRanges c ram = before ++ r :: after ∧ v ≠ 0 ∧
          LowestOrNone (c.At mem r.1 r.2) v ∧ ∀ r' ∈ before, ∀ a, ¬ c.At mem r'.1 r'.2 a) ∨
        v = 0 ∧ ∀ r ∈ searchedRanges c ram, ∀ a, ¬ c.At mem r.1 r.2 a) := by
  refine searchCblock_spec fun r hr => ?_
  obtain ⟨hpos, hlt, hend⟩ := hroom r hr
  exact rangeExact_of_room hsize hpos hlt hend fun hhash => hfull hhash r hr

/-- An identifier that is looked for in the RAM of the target. -/
def byIdent : RttSearch :=
  { rttIdent := storedIdent (ascii "SEGGER_RTT"), rttFlagRam := false, rttRamStart := 0,
    rttRamEnd := 0 }

/-- A memory with the identifier at one address. -/
def identAt (x : Nat) : UInt8 :=
  if 0x20000100 ≤ x then (ascii "SEGGER RTT").getD (x - 0x20000100) 0 else 0

/-- The identifier is at its address only. -/
theorem at_identAt {ramStart ramEnd a : Nat} (h : byIdent.At identAt ramStart ramEnd a) :
    a = 0x20000100 := by
  unfold RttSearch.At at h
  rw [if_neg (by decide +kernel)] at h
  have hbytes : bytesAt identAt a 10 = ascii "SEGGER RTT" := h.2.2
  -- the first character stands nowhere else
  have hfirst : identAt a = 0x53 := congrArg (fun l => l.headD 0) hbytes
  unfold identAt at hfirst
  split at hfirst
  · next hle =>
    rcases Nat.lt_or_ge (a - 0x20000100) 10 with hlt | hge
    · have honly : ∀ i < 10, (ascii "SEGGER RTT").getD i 0 = 0x53 → i = 0 := by decide
      have := honly _ hlt hfirst
      omega
    · rw [List.getD_eq_default _ _ (show (ascii "SEGGER RTT").length ≤ _ from hge)] at hfirst
      cases hfirst
  · cases hfirst

/-- The identifier is in the second of two regions. -/
theorem searchCblock_lowest_twoRams :
    ∃ fuel, searchCblock (allRead identAt) byIdent [(0x10000000, 0x1000), (0x20000000, 0x5000)]
      fuel =
      some 0x20000100 := by
  obtain ⟨fuel, v, hv, ⟨before, r, after, -, hne, hlow, -⟩ | ⟨-, hnone⟩⟩ :=
    @searchCblock_lowest identAt byIdent [(0x10000000, 0x1000), (0x20000000, 0x5000)]
      (by decide +kernel)
      (by decide +kernel) fun hhash => absurd hhash (by decide +kernel)
  · rcases hlow with ⟨-, hat, -⟩ | ⟨hzero, -⟩
    · exact ⟨fuel, by rw [hv, at_identAt hat]⟩
    · exact absurd hzero hne
  · refine absurd ?_ (hnone (0x20000000, 0x20005000) (by decide +kernel) 0x20000100)
    unfold RttSearch.At
    rw [if_neg (by decide +kernel)]
    exact ⟨by decide, by decide +kernel, by decide +kernel⟩

end

end Blackmagic
