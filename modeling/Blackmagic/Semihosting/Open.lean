import Blackmagic.Semihosting.Target

/-!
# Opening files: `semihosting_open`

The mode of a request is an index into a table of flags, and its name is read into a buffer on the
stack where it is short enough to be one of two special names. Both come from the target. `OpenOk`
says which requests stay inside of the table and the buffers, and are not taken for one with a
special name.
-/

namespace Blackmagic

open Effect Scanf Bytes

namespace Semihosting

/-! ## The call: `semihosting.c` -/

/-- `OPEN_MODE_RDONLY`. -/
def openModeRdonly : UInt16 := 0x0

/-- `OPEN_MODE_WRONLY`. -/
def openModeWronly : UInt16 := 0x1

/-- `OPEN_MODE_RDWR`. -/
def openModeRdwr : UInt16 := 0x2

/-- `OPEN_MODE_APPEND`. -/
def openModeAppend : UInt16 := 0x8

/-- `OPEN_MODE_CREAT`. -/
def openModeCreat : UInt16 := 0x200

/-- `OPEN_MODE_TRUNC`. -/
def openModeTrunc : UInt16 := 0x400

/-- `open_mode_flags`. -/
def openModeFlags : List UInt16 :=
  [openModeRdonly, openModeRdwr, openModeWronly ||| openModeCreat ||| openModeTrunc,
    openModeRdwr ||| openModeCreat ||| openModeTrunc,
    openModeWronly ||| openModeCreat ||| openModeAppend,
    openModeRdwr ||| openModeCreat ||| openModeAppend]

/-- `open_mode_flags[i]`. -/
def openModeFlag (i : UInt32) : SemiM UInt16 :=
  match openModeFlags[i.toNat]? with
  | some flags => return flags
  | none => throw .outOfBounds

/-- What the two buffers for a name hold before they are filled. -/
structure Stack where
  short : List UInt8
  long : List UInt8
  length_short : short.length = 4
  length_long : long.length = 22

/-- `target_mem_read` into a buffer on the stack. -/
def readName (buffer : List UInt8) (addr count : UInt32) : SemiM (List UInt8) := do
  let (bytes, _) ← targetMemRead addr count.toNat
  if bytes.length ≤ buffer.length then return overwrite buffer 0 bytes
  else throw .outOfBounds

/-- `!strncmp(a, b, n)`. -/
def strncmpEq (a b : List UInt8) (n : Nat) : Bool := cstr (a.take n) == cstr (b.take n)

/-- The name of the console. -/
def ttName : List UInt8 := ascii ":tt"

/-- The name of the features. -/
def featuresName : List UInt8 := ascii ":semihosting-features"

/-- The descriptor of the console, as the target sees it. -/
def consoleFd (openMode : UInt16) : Int32 :=
  if openMode = openModeRdonly then 0 + 1
  else if openMode &&& openModeTrunc ≠ 0 then stdoutFileno + 1
  else stderrFileno + 1

section
variable (respond : SemiM Int32) (stack : Stack)

/-- The name is one for GDB. -/
def forwardOpen (addr len : UInt32) (openMode : UInt16) : SemiM Int32 := do
  gdbPutpacketF (ascii "Fopen," ++ hex08 addr ++ ascii "/" ++ hex08 len ++ ascii "," ++
    hex08 openMode.toUInt32 ++
    ascii "," ++ hex08 0o644)
  let result ← respond
  if result ≠ -1 then return result + 1
  else return result

/-- The features are opened, for reading only. -/
def openFeatures (openMode : UInt16) : SemiM Int32 :=
  if openMode = openModeRdonly then do
    modify fun s => { s with featuresOffset := 0 }
    return 0x7fffffff
  else return -1

/-- `semihosting_open`. -/
def semihostingOpen (request : Request) : SemiM Int32 := do
  let fileNameTaddr := request.params 0
  let fileNameLength := request.params 2
  let openMode ← openModeFlag (request.params 1 >>> 1)
  if fileNameLength ≤ 4 then do
    let fileName ← readName stack.short fileNameTaddr (fileNameLength + 1)
    if strncmpEq fileName (ttName ++ [0]) 4 then return consoleFd openMode
    else forwardOpen respond fileNameTaddr (fileNameLength + 1) openMode
  else if fileNameLength ≤ 22 then do
    let fileName ← readName stack.long fileNameTaddr (fileNameLength + 1)
    if strncmpEq fileName (featuresName ++ [0]) 22 then openFeatures openMode
    else forwardOpen respond fileNameTaddr (fileNameLength + 1) openMode
  else forwardOpen respond fileNameTaddr (fileNameLength + 1) openMode

end

/-! ## What is safe -/

/-- The name of a request, in the memory of the target. -/
structure IsName (s : Target) (request : Request) (text : List UInt8) : Prop where
  length : (request.params 2).toNat = text.length
  bytes : bytesAt s.byte (request.params 0) text.length = text

/-- How a request may end: the console is opened under its name, the features are opened or refused
under theirs, or GDB is asked for a name that is longer by its terminator. -/
inductive OpenSafe (respond : SemiM Int32) (stack : Stack) (request : Request) (s : Target) : Prop
  | console (fd : Int32) : IsName s request ttName → fd = 1 ∨ fd = 2 ∨ fd = 3 →
      semihostingOpen respond stack request s = .ok fd s → OpenSafe respond stack request s
  | features (fd : Int32) (s' : Target) : IsName s request featuresName → fd = 0x7fffffff ∨
      fd = -1 →
      semihostingOpen respond stack request s = .ok fd s' → s'.packets = s.packets →
        OpenSafe respond stack request s
  | forwarded (len : UInt32) (openMode : UInt16) : len.toNat = (request.params 2).toNat + 1 →
      openModeFlags[(request.params 1 >>> 1).toNat]? = some openMode →
      semihostingOpen respond stack request s = forwardOpen respond (request.params 0) len
        openMode s →
      OpenSafe respond stack request s

/-- A buffer on the stack after the name, with its terminator, was read into it. -/
def nameIn (buffer : List UInt8) (s : Target) (request : Request) : List UInt8 :=
  overwrite buffer 0 (bytesAt s.byte (request.params 0) ((request.params 2).toNat + 1))

/-- The mode is in the table, the name with its terminator fits where it is read, and what the stack
holds behind a shorter name does not make it a special one. -/
structure OpenOk (stack : Stack) (request : Request) (s : Target) : Prop where
  mode : (request.params 1).toNat < 12
  short : (request.params 2).toNat ≠ 4
  long : (request.params 2).toNat ≠ 22
  wraps : (request.params 2).toNat ≠ 2 ^ 32 - 1
  console : (request.params 2).toNat < 3 → nameIn stack.short s request ≠ ttName ++ [0]
  features : 4 < (request.params 2).toNat → (request.params 2).toNat < 21 →
    nameIn stack.long s request ≠ featuresName ++ [0]

/-- A string comparison over a whole buffer. -/
theorem strncmpEq_iff {a text : List UInt8} {n : Nat} (htext : ∀ c ∈ text, c ≠ 0)
    (hn : n = text.length + 1) (hlen : a.length = n) :
    strncmpEq a (text ++ [0]) n = true ↔ a = text ++ [0] := by
  subst hn
  have hcstr : cstr (text ++ [0]) = text := by
    unfold cstr
    rw [List.takeWhile_append_of_pos fun c hc => decide_eq_true (htext c hc)]
    simp
  unfold strncmpEq
  rw [List.take_of_length_le hlen.le, List.take_of_length_le (by simp), hcstr, beq_iff_eq]
  refine ⟨fun h => ?_, fun h => h ▸ hcstr⟩
  -- what follows the characters is one byte, and it is the one that ended them
  have hsplit := List.takeWhile_append_dropWhile (p := (· ≠ (0 : UInt8))) (l := a)
  have hrest : (a.dropWhile (· ≠ 0)).length = 1 := by
    have hsum := congrArg List.length hsplit
    rw [List.length_append, show (a.takeWhile (· ≠ 0)).length =
      text.length from congrArg List.length h, hlen] at hsum
    omega
  obtain ⟨c, hc⟩ := List.length_eq_one_iff.1 hrest
  have hzero : c = 0 := by
    have hhead := List.head?_dropWhile_not (· ≠ (0 : UInt8)) a
    rw [hc] at hhead
    simpa using hhead
  rw [← hsplit, hc, hzero]
  exact congrArg (· ++ [0]) h

/-- The name of the console has no terminator in it. -/
theorem nonzero_ttName : ∀ c ∈ ttName, c ≠ 0 := by decide +kernel

/-- Nor has the one of the features. -/
theorem nonzero_featuresName : ∀ c ∈ featuresName, c ≠ 0 := by decide +kernel

/-! ## The runs -/

section
variable {respond : SemiM Int32} {stack : Stack} {request : Request} {s : Target}
  {openMode : UInt16}

/-- A mode that is in the table. -/
theorem openModeFlag_some {i : UInt32} (h : openModeFlags[i.toNat]? = some openMode) :
    openModeFlag i s = .ok openMode s := by
  unfold openModeFlag
  rw [h]
  rfl

/-- A mode that is not is read behind the table. -/
theorem openModeFlag_none {i : UInt32} (h : openModeFlags[i.toNat]? = none) :
    openModeFlag i s = .error .outOfBounds s := by
  unfold openModeFlag
  rw [h]
  rfl

/-- Outside a syscall memory is read from the target. -/
theorem targetMemRead_outside (hsys : s.inSyscall = false) (addr : UInt32) (len : Nat) :
    targetMemRead addr len s = .ok (bytesAt s.byte addr len, s.fails addr) s := by
  unfold targetMemRead
  rw [run_bind_ok (show (get : SemiM Target) s = .ok s s from rfl),
    if_neg (by rw [hsys]; exact Bool.false_ne_true)]
  rfl

/-- A name that fits is read with what was behind it in the buffer. -/
theorem readName_ok (hsys : s.inSyscall = false) {buffer : List UInt8} {addr count : UInt32}
    (h : count.toNat ≤ buffer.length) :
    readName buffer addr count s = .ok (overwrite buffer 0 (bytesAt s.byte addr count.toNat))
      s := by
  refine (run_bind_ok (targetMemRead_outside hsys addr count.toNat)).trans ?_
  dsimp only
  rw [if_pos (by rwa [length_bytesAt])]
  rfl

/-- A name that does not fit is stored behind the buffer. -/
theorem readName_error (hsys : s.inSyscall = false) {buffer : List UInt8} {addr count : UInt32}
    (h : ¬ count.toNat ≤ buffer.length) : readName buffer addr count s = .error .outOfBounds s := by
  refine (run_bind_ok (targetMemRead_outside hsys addr count.toNat)).trans ?_
  dsimp only
  rw [if_neg (by rwa [length_bytesAt])]
  rfl

/-- The length with the terminator. -/
theorem toNat_succ {len : UInt32} (h : len.toNat ≠ 2 ^ 32 - 1) :
    (len + 1).toNat = len.toNat + 1 := by
  have hlt := len.toNat_lt
  rw [UInt32.toNat_add]
  exact Nat.mod_eq_of_lt (by simp only [UInt32.reduceToNat]; omega)

/-- A mode behind the table is a fault. -/
theorem open_badMode (h : openModeFlags[(request.params 1 >>> 1).toNat]? = none) :
    semihostingOpen respond stack request s = .error .outOfBounds s :=
  run_bind_error (openModeFlag_none h)

/-- A name that fits into the short buffer. -/
theorem open_short (respond : SemiM Int32) (stack : Stack) (hsys : s.inSyscall = false)
    (hmode : openModeFlags[(request.params 1 >>> 1).toNat]? = some openMode)
    (hlen : (request.params 2).toNat < 4) :
    semihostingOpen respond stack request s =
      if nameIn stack.short s request = ttName ++ [0] then .ok (consoleFd openMode) s
      else forwardOpen respond (request.params 0) (request.params 2 + 1) openMode s := by
  have hsucc := @toNat_succ (request.params 2) (by omega)
  have hread : readName stack.short (request.params 0) (request.params 2 + 1) s =
      .ok (nameIn stack.short s request) s := by
    rw [readName_ok hsys (by rw [hsucc, stack.length_short]; omega), hsucc]
    rfl
  have hname : (nameIn stack.short s request).length = 4 := by
    rw [nameIn, length_overwrite (by rw [length_bytesAt, stack.length_short]; omega),
      stack.length_short]
  have hcmp := strncmpEq_iff (n := 4) nonzero_ttName rfl hname
  refine (run_bind_ok (openModeFlag_some hmode)).trans ?_
  rw [if_pos (UInt32.le_iff_toNat_le.2 (show (request.params 2).toNat ≤ 4 by omega)),
    run_bind_ok hread]
  by_cases htt : nameIn stack.short s request = ttName ++ [0]
  · rw [if_pos (hcmp.2 htt), if_pos htt]
    rfl
  · rw [if_neg (mt hcmp.1 htt), if_neg htt]

/-- A name that fits into the long buffer. -/
theorem open_long (respond : SemiM Int32) (stack : Stack) (hsys : s.inSyscall = false)
    (hmode : openModeFlags[(request.params 1 >>> 1).toNat]? = some openMode)
    (hlow : 4 < (request.params 2).toNat) (hlen : (request.params 2).toNat < 22) :
    semihostingOpen respond stack request s =
      if nameIn stack.long s request = featuresName ++ [0] then openFeatures openMode s
      else forwardOpen respond (request.params 0) (request.params 2 + 1) openMode s := by
  have hsucc := @toNat_succ (request.params 2) (by omega)
  have hread : readName stack.long (request.params 0) (request.params 2 + 1) s =
      .ok (nameIn stack.long s request) s := by
    rw [readName_ok hsys (by rw [hsucc, stack.length_long]; omega), hsucc]
    rfl
  have hname : (nameIn stack.long s request).length = 22 := by
    rw [nameIn, length_overwrite (by rw [length_bytesAt, stack.length_long]; omega),
      stack.length_long]
  have hcmp := strncmpEq_iff (n := 22) nonzero_featuresName rfl hname
  refine (run_bind_ok (openModeFlag_some hmode)).trans ?_
  rw [if_neg fun h => absurd (UInt32.le_iff_toNat_le.1 h)
    (show ¬ (request.params 2).toNat ≤ 4 by omega),
      if_pos (UInt32.le_iff_toNat_le.2 (show (request.params 2).toNat ≤ 22 by omega)),
      run_bind_ok hread]
  by_cases hfeatures : nameIn stack.long s request = featuresName ++ [0]
  · rw [if_pos (hcmp.2 hfeatures), if_pos hfeatures]
  · rw [if_neg (mt hcmp.1 hfeatures), if_neg hfeatures]

/-- A name that exactly fills a buffer overruns it by its terminator. -/
theorem open_overrun (hsys : s.inSyscall = false)
    (hmode : openModeFlags[(request.params 1 >>> 1).toNat]? = some openMode)
    (hlen : (request.params 2).toNat = 4 ∨ (request.params 2).toNat = 22) :
    semihostingOpen respond stack request s = .error .outOfBounds s := by
  have hsucc := @toNat_succ (request.params 2) (by omega)
  refine (run_bind_ok (openModeFlag_some hmode)).trans ?_
  obtain hlen | hlen := hlen
  · rw [if_pos (UInt32.le_iff_toNat_le.2 (show (request.params 2).toNat ≤ 4 by omega))]
    exact run_bind_error (readName_error hsys (by rw [hsucc, stack.length_short]; omega))
  · rw [if_neg fun h => absurd (UInt32.le_iff_toNat_le.1 h)
      (show ¬ (request.params 2).toNat ≤ 4 by omega),
        if_pos (UInt32.le_iff_toNat_le.2 (show (request.params 2).toNat ≤ 22 by omega))]
    exact run_bind_error (readName_error hsys (by rw [hsucc, stack.length_long]; omega))

/-- A longer name is not looked at. -/
theorem open_other (respond : SemiM Int32) (stack : Stack)
    (hmode : openModeFlags[(request.params 1 >>> 1).toNat]? = some openMode)
    (hlen : 22 < (request.params 2).toNat) :
    semihostingOpen respond stack request s =
      forwardOpen respond (request.params 0) (request.params 2 + 1) openMode s := by
  refine (run_bind_ok (openModeFlag_some hmode)).trans ?_
  rw [if_neg fun h => absurd (UInt32.le_iff_toNat_le.1 h)
    (show ¬ (request.params 2).toNat ≤ 4 by omega), if_neg fun h =>
      absurd (UInt32.le_iff_toNat_le.1 h) (show ¬ (request.params 2).toNat ≤ 22 by omega)]

/-! ## Which requests are safe -/

/-- The modes below twelve are in the table. -/
theorem openModeFlags_isSome_iff (mode : UInt32) :
    (openModeFlags[(mode >>> 1).toNat]?).isSome ↔ mode.toNat < 12 := by
  have hhalf : (mode >>> 1).toNat = mode.toNat / 2 := by
    rw [UInt32.toNat_shiftRight]
    exact Nat.shiftRight_eq_div_pow _ 1
  rw [hhalf, isSome_getElem?, show openModeFlags.length = 6 from rfl]
  omega

/-- A buffer that holds a name with its terminator holds the name. -/
theorem isName_of_nameIn {buffer text : List UInt8} (hlen : (request.params 2).toNat = text.length)
    (h : nameIn buffer s request = text ++ [0]) : IsName s request text := by
  refine ⟨hlen, ?_⟩
  have htake := congrArg (List.take text.length) h
  rw [List.take_left, nameIn, overwrite, List.take_zero, List.nil_append, hlen,
    List.take_append_of_le_length (by rw [length_bytesAt]; omega)] at htake
  refine Eq.trans ?_ htake
  unfold bytesAt
  rw [← List.map_take, List.take_range, Nat.min_eq_left (by omega)]

/-- The console has three descriptors. -/
theorem consoleFd_mem (openMode : UInt16) :
    consoleFd openMode = 1 ∨ consoleFd openMode = 2 ∨ consoleFd openMode = 3 := by
  unfold consoleFd
  split
  · exact .inl rfl
  · split
    · exact .inr (.inl rfl)
    · exact .inr (.inr rfl)

/-- Opening the features asks GDB for nothing. -/
theorem openFeatures_run (openMode : UInt16) (s : Target) :
    ∃ fd s', openFeatures openMode s = .ok fd s' ∧ (fd = 0x7fffffff ∨ fd = -1) ∧
      s'.packets = s.packets := by
  unfold openFeatures
  split
  · exact ⟨_, _, rfl, .inl rfl, rfl⟩
  · exact ⟨_, _, rfl, .inr rfl, rfl⟩

/-- A request in order is answered safely. -/
theorem openSafe_of_openOk (hsys : s.inSyscall = false) (h : OpenOk stack request s)
    (respond : SemiM Int32) :
    OpenSafe respond stack request s := by
  obtain ⟨openMode, hmode⟩ := Option.isSome_iff_exists.1 ((openModeFlags_isSome_iff _).2 h.mode)
  have hforward : semihostingOpen respond stack request s =
      forwardOpen respond (request.params 0) (request.params 2 + 1) openMode s →
      OpenSafe respond stack request s := .forwarded _ openMode (toNat_succ h.wraps) hmode
  have hshort := h.short
  have hlong := h.long
  by_cases hlen : (request.params 2).toNat < 4
  · have hrun := open_short respond stack hsys hmode hlen
    by_cases htt : nameIn stack.short s request = ttName ++ [0]
    · have hthree : (request.params 2).toNat = 3 := by
        by_contra hne
        exact h.console (by omega) htt
      rw [if_pos htt] at hrun
      exact .console _ (isName_of_nameIn hthree htt) (consoleFd_mem openMode) hrun
    · rw [if_neg htt] at hrun
      exact hforward hrun
  by_cases hlen' : (request.params 2).toNat < 22
  · have hrun := open_long respond stack hsys hmode (by omega) hlen'
    by_cases hfeatures : nameIn stack.long s request = featuresName ++ [0]
    · have hlast : (request.params 2).toNat = 21 := by
        by_contra hne
        exact h.features (by omega) (by omega) hfeatures
      rw [if_pos hfeatures] at hrun
      obtain ⟨fd, s', hopen, hfd, hpackets⟩ := openFeatures_run openMode s
      exact .features fd s' (isName_of_nameIn hlast hfeatures) hfd (hrun.trans hopen) hpackets
    · rw [if_neg hfeatures] at hrun
      exact hforward hrun
  · exact hforward (open_other respond stack hmode (by omega))

/-! A GDB that never responds tells a request that was handed on from one that was answered. -/

/-- A host that does not answer leaves a forwarded request waiting. -/
theorem forwardOpen_silent (addr len : UInt32) (openMode : UInt16) (s : Target) :
    ∃ t, forwardOpen (throw .notYet) addr len openMode s = .error .notYet t := ⟨_, rfl⟩

/-- A fault is no safe answer. -/
theorem not_openSafe_of_error
    (hrun : semihostingOpen (throw .notYet) stack request s = .error .outOfBounds s) :
    ¬ OpenSafe (throw .notYet) stack request s := by
  intro h
  cases h with
  | console fd _ _ h => exact absurd (h.symm.trans hrun) (by simp)
  | features fd s' _ _ h _ => exact absurd (h.symm.trans hrun) (by simp)
  | forwarded len openMode _ _ h =>
    obtain ⟨t, ht⟩ := forwardOpen_silent (request.params 0) len openMode s
    exact absurd ((h.trans ht).symm.trans hrun) (by simp)

/-- A request that is answered without GDB has a special name. -/
theorem isName_of_answered {fd : Int32} {s' : Target}
    (hrun : semihostingOpen (throw .notYet) stack request s = .ok fd s')
    (h : OpenSafe (throw .notYet) stack request s) :
    IsName s request ttName ∨ IsName s request featuresName := by
  cases h with
  | console fd hname _ _ => exact .inl hname
  | features fd s' hname _ _ _ => exact .inr hname
  | forwarded len openMode _ _ h =>
    obtain ⟨t, ht⟩ := forwardOpen_silent (request.params 0) len openMode s
    exact absurd ((h.trans ht).symm.trans hrun) (by simp)

/-- A request that is answered safely whatever the host does is in order. -/
theorem openOk_of_openSafe (hsys : s.inSyscall = false)
    (h : OpenSafe (throw .notYet) stack request s) :
    OpenOk stack request s := by
  have hsome : (openModeFlags[(request.params 1 >>> 1).toNat]?).isSome := by
    by_contra hnone
    rw [Bool.not_eq_true, Option.isSome_eq_false_iff, Option.isNone_iff_eq_none] at hnone
    exact not_openSafe_of_error (open_badMode hnone) h
  obtain ⟨openMode, hmode⟩ := Option.isSome_iff_exists.1 hsome
  have hother : ∀ n, n ≠ 3 → n ≠ 21 → (request.params 2).toNat = n →
      ∀ {fd s'}, semihostingOpen (throw .notYet) stack request s ≠ .ok fd s' := by
    intro n htt hfeatures hn fd s' hrun
    obtain hname | hname := isName_of_answered hrun h
    · exact htt (hn.symm.trans hname.length)
    · exact hfeatures (hn.symm.trans hname.length)
  refine ⟨(openModeFlags_isSome_iff _).1 hsome, fun hlen => ?_, fun hlen => ?_, fun hlen => ?_,
    fun hlen htt => ?_,
    fun hlow hlen hfeatures => ?_⟩
  · exact not_openSafe_of_error (open_overrun hsys hmode (.inl hlen)) h
  · exact not_openSafe_of_error (open_overrun hsys hmode (.inr hlen)) h
  · obtain ⟨t, ht⟩ := forwardOpen_silent (request.params 0) (request.params 2 + 1) openMode s
    have hrun := (open_other (throw .notYet) stack hmode (by omega)).trans ht
    cases h with
    | console fd _ _ h => exact absurd (h.symm.trans hrun) (by simp)
    | features fd s' _ _ h _ => exact absurd (h.symm.trans hrun) (by simp)
    | forwarded len openMode hlen' _ _ =>
      have hlt := len.toNat_lt
      omega
  · have hrun := open_short (throw .notYet) stack hsys hmode (by omega)
    rw [if_pos htt] at hrun
    exact hother _ (by omega) (by omega) rfl hrun
  · have hrun := open_long (throw .notYet) stack hsys hmode hlow (by omega)
    rw [if_pos hfeatures] at hrun
    obtain ⟨fd, s', hopen, -⟩ := openFeatures_run openMode s
    exact hother _ (by omega) (by omega) rfl (hrun.trans hopen)

/-- A request is handled safely, whatever GDB responds, exactly when its mode and its name keep to
their places. -/
theorem openSafe_iff (stack : Stack) (request : Request) (hsys : s.inSyscall = false) :
    (∀ respond, OpenSafe respond stack request s) ↔ OpenOk stack request s :=
  ⟨fun h => openOk_of_openSafe hsys (h _), openSafe_of_openOk hsys⟩

end

/-! ## Requests of a target -/

/-- A target with a text at an address, and its request to open it for reading. -/
def naming (text : List UInt8) : Target where
  byte a := text.getD a.toNat 0
  fails _ := false
  ramStart := 0x20000000
  stdoutRedirected := false
  inSyscall := false
  buffer := []
  featuresOffset := 0
  serial := []
  packets := []

def openRequest (mode len : UInt32) : Request := ⟨0, ![0, mode, len, 0]⟩

def zeroStack : Stack := ⟨List.replicate 4 0, List.replicate 22 0, rfl, rfl⟩

/-- A file name. -/
theorem openSafe_log :
    (naming (ascii "log.txt")).inSyscall = false ∧
      ∀ respond, OpenSafe respond zeroStack (openRequest 4 7) (naming (ascii "log.txt")) :=
  ⟨rfl, (openSafe_iff zeroStack (openRequest 4 7) rfl).2
    ⟨by
      decide, by decide, by decide, by decide, fun h => absurd h (by decide), fun _ _ => by
        decide +kernel⟩⟩

/-- A name of four characters is written past its buffer. -/
theorem not_openSafe_main :
    ¬ ∀ respond, OpenSafe respond zeroStack (openRequest 0 4) (naming (ascii "main")) :=
  fun h => (openOk_of_openSafe rfl (h _)).short rfl

end Semihosting

end Blackmagic
