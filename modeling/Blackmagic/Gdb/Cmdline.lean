import Blackmagic.Gdb.Hex

/-!
# The command line of `vRun`

The arguments of `vRun` are decoded into a buffer on the stack, two bytes at a time of which the
second one is of no use, and copied to the target. No byte goes outside of either buffer, whatever
the packet holds (`vRunLoop_run`), and what arrives is what `runCmdline` collects. Arguments in
hexadecimal come out as they are, with escapes, up to the last unit that fits (`CutOf`).
-/

namespace Blackmagic

open Scanf Bytes

/-! ## The buffers: `gdb_main.c`, `target.c` -/

/-- `char cmdline[MAX_CMDLINE]`. -/
structure CmdBuffer where
  bytes : List UInt8
  length_bytes : bytes.length = maxCmdline

/-- Bytes are stored in a buffer. -/
def putBytes : (cmdline : List UInt8) → (i : Nat) → (data : List UInt8) →
    Except RxFault (List UInt8)
  | cmdline, _, [] => .ok cmdline
  | cmdline, i, c :: data => do
    let cmdline ← putByte cmdline i c
    putBytes cmdline (i + 1) data

/-- The loop of `vRun` over what is left of the packet's buffer. -/
def vRunLoop : (tok cmdline : List UInt8) → (offset : Nat) → Except RxFault (List UInt8 × Nat)
  | [], cmdline, offset => .ok (cmdline, offset)
  | a :: tok, cmdline, offset =>
    if a = 0 then .ok (cmdline, offset)
    else if maxCmdline ≤ offset + 1 then .ok (cmdline, offset)
    else if a = 0x3b then do
      let cmdline ← putByte cmdline offset 0x20
      vRunLoop tok cmdline (offset + 1)
    else
      match tok with
      | [] => .ok (cmdline, offset)
      | b :: tok =>
        if isHex a && isHex b then do
          let cmdline ← putBytes cmdline offset (unhexify (a :: b :: tok) 2)
          let c := cmdline.getD offset 0
          if c = 0x20 ∨ c = 0x5c then
            if maxCmdline ≤ offset + 2 then .ok (cmdline, offset)
            else do
              let cmdline ← putByte cmdline (offset + 1) c
              let cmdline ← putByte cmdline offset 0x5c
              vRunLoop tok cmdline (offset + 2)
          else vRunLoop tok cmdline (offset + 1)
        else .ok (cmdline, offset)

/-- `target_set_cmdline`. -/
def targetSetCmdline (target cmdline : List UInt8) (cmdlineLen : Nat) :
    Except RxFault (List UInt8) :=
  putBytes target 0 (cmdline.take (cmdlineLen + 1))

/-- The case `vRun` up to `target_set_cmdline`, with what the buffers on the stack and of the target
hold before. -/
def vRunCmdline (pbuf stack target : List UInt8) : Except RxFault (List UInt8) := do
  let tok := pbuf.drop 4
  let tok := if tok.headD 0 = 0x3b then tok.drop 1 else tok
  let (cmdline, offset) ← vRunLoop tok stack 0
  let cmdline ← putByte cmdline offset 0
  targetSetCmdline target cmdline offset

/-! ## What the arguments mean -/

/-- A byte of an argument on the command line. -/
def escaped (c : UInt8) : List UInt8 := if c = 0x20 ∨ c = 0x5c then [0x5c, c] else [c]

/-- The units of a command line: the bytes of its arguments, and the spaces between them. -/
def cmdlineUnits (args : List (List UInt8)) : List (List UInt8) :=
  [[0x20]].intercalate (args.map (List.map escaped))

/-- The units up to the last one with which the command line is not longer than
`MAX_CMDLINE - 1`. -/
def CutOf (units : List (List UInt8)) (cmdline : List UInt8) : Prop :=
  ∃ k ≤ units.length, cmdline = (units.take k).flatten ∧ cmdline.length ≤ maxCmdline - 1 ∧
    (k < units.length → maxCmdline - 1 < (units.take (k + 1)).flatten.length)

/-- A byte in two hexadecimal digits of either case. -/
structure HexPair where
  hi : UInt8
  lo : UInt8
  isHex_hi : isHex hi = true
  isHex_lo : isHex lo = true

namespace HexPair

/-- The byte that the digits stand for. -/
def byte (p : HexPair) : UInt8 := unhexDigit p.hi <<< 4 ||| unhexDigit p.lo

def digits (p : HexPair) : List UInt8 := [p.hi, p.lo]

end HexPair

/-- The arguments in a packet. -/
def hexArgs (args : List (List HexPair)) : List UInt8 :=
  [0x3b].intercalate (args.map (List.flatMap HexPair.digits))

/-! ## Nothing is stored outside -/

section
variable {cmdline : List UInt8} {i : Nat} {c : UInt8}

/-- One byte is put into the buffer. -/
theorem putBytes_one (h : i < cmdline.length) (c : UInt8) (data : List UInt8) :
    putBytes cmdline i (c :: data) = putBytes (cmdline.set i c) (i + 1) data := by
  rw [putBytes, putByte_of_lt h]
  rfl

/-- A byte is stored behind those before it. -/
theorem take_set_succ (h : i < cmdline.length) (c : UInt8) :
    (cmdline.set i c).take (i + 1) = cmdline.take i ++ [c] := by
  rw [List.take_add_one, List.take_set_of_le (Nat.le_refl i), List.getElem?_set_self h]
  rfl

/-- An escape and its character are put into the buffer. -/
theorem take_set_escape (h : i + 1 < cmdline.length) (e c : UInt8) :
    ((cmdline.set (i + 1) c).set i e).take (i + 2) = cmdline.take i ++ [e, c] := by
  rw [List.set_comm _ _ (Nat.succ_ne_self i), take_set_succ (by rw [List.length_set]; exact h),
    take_set_succ (by omega), List.append_assoc]
  rfl

/-- Two bytes are put into the buffer. -/
theorem putBytes_two (h : i + 1 < cmdline.length) (c d : UInt8) :
    putBytes cmdline i [c, d] = .ok ((cmdline.set i c).set (i + 1) d) := by
  rw [putBytes_one (by omega), putBytes_one (by rw [List.length_set]; exact h), putBytes]

/-- Two bytes are decoded and stored, of which the first is the pair's. -/
theorem putPair {a b : UInt8} {tok : List UInt8} (h : i + 1 < cmdline.length) :
    ∃ d, putBytes cmdline i (unhexify (a :: b :: tok) 2) =
        .ok ((cmdline.set i (unhexDigit a <<< 4 ||| unhexDigit b)).set (i + 1) d) ∧
      ((cmdline.set i (unhexDigit a <<< 4 ||| unhexDigit b)).set (i + 1) d).getD i 0 =
        unhexDigit a <<< 4 ||| unhexDigit b := by
  refine ⟨_, putBytes_two h _ _, ?_⟩
  rw [List.getD_eq_getElem?_getD, List.getElem?_set_ne (Nat.succ_ne_self i),
    List.getElem?_set_self (by omega), Option.getD_some]

/-- The loop goes through, leaves room for a terminator, and what it collects is what `runCmdline`
does. -/
theorem vRunLoop_run (n : Nat) : ∀ (tok cmdline : List UInt8) (offset : Nat), tok.length = n →
    cmdline.length = maxCmdline → offset < maxCmdline →
      ∃ cmdline' offset', vRunLoop tok cmdline offset = .ok (cmdline', offset') ∧
        cmdline'.length = maxCmdline ∧
        offset' < maxCmdline ∧ cmdline'.take offset' =
          runCmdline (cstr tok) (cmdline.take offset) := by
  induction n using Nat.strong_induction_on with
  | _ n ih =>
    intro tok cmdline offset hn hlength hoffset
    have htake : (cmdline.take offset).length = offset := by
      rw [List.length_take]
      omega
    cases tok with
    | nil => exact ⟨cmdline, offset, rfl, hlength, hoffset, rfl⟩
    | cons a tok =>
      rw [vRunLoop.eq_def]
      dsimp only
      split
      next hnul =>
        rw [hnul]
        exact ⟨cmdline, offset, rfl, hlength, hoffset, rfl⟩
      next hnul =>
      have hcstr : cstr (a :: tok) = a :: cstr tok :=
        List.takeWhile_cons_of_pos (decide_eq_true hnul)
      rw [hcstr, runCmdline.eq_def]
      dsimp only
      rw [htake]
      split
      next hfull => exact ⟨cmdline, offset, rfl, hlength, hoffset, rfl⟩
      next hfull =>
      rw [Nat.not_le] at hfull
      split
      next hsep =>
        have hput : putByte cmdline offset 0x20 = .ok (cmdline.set offset 0x20) :=
          putByte_of_lt (by omega) _
        rw [hput, ← take_set_succ (by omega)]
        exact ih tok.length (by rw [← hn, List.length_cons]; omega) tok _ _ rfl
          ((List.length_set ..).trans hlength) hfull
      next hsep =>
      cases tok with
      | nil => exact ⟨cmdline, offset, rfl, hlength, hoffset, rfl⟩
      | cons b tok =>
        dsimp only
        by_cases hb : b = 0
        · rw [hb, if_neg (by rw [show (isHex a && isHex 0) = false from Bool.and_false _]; decide)]
          exact ⟨cmdline, offset, rfl, hlength, hoffset, rfl⟩
        have hcstr : cstr (b :: tok) = b :: cstr tok :=
          List.takeWhile_cons_of_pos (decide_eq_true hb)
        rw [hcstr]
        dsimp only
        split
        next hex =>
          obtain ⟨d, hput, hfirst⟩ := @putPair _ _ a b tok (hlength ▸ hfull)
          have hlength' :
              ((cmdline.set offset (unhexDigit a <<< 4 ||| unhexDigit b)).set (offset + 1)
              d).length =
              maxCmdline := by
            rw [List.length_set, List.length_set, hlength]
          have hchar :
              ((cmdline.set offset (unhexDigit a <<< 4 ||| unhexDigit b)).set (offset + 1) d).take
              (offset + 1) =
              cmdline.take offset ++ [unhexDigit a <<< 4 ||| unhexDigit b] := by
            rw [List.take_set_of_le (Nat.le_refl _), take_set_succ (by omega)]
          rw [hput]
          dsimp only [bind, Except.bind]
          rw [hfirst]
          split
          next hescape =>
            split
            next => exact ⟨_, offset, rfl, hlength', hoffset, by
              rw [List.take_set_of_le (by omega), List.take_set_of_le (by omega)]⟩
            next hroom =>
              rw [Nat.not_le] at hroom
              rw [putByte_of_lt (by omega)]
              dsimp only
              rw [putByte_of_lt (by rw [List.length_set]; omega)]
              dsimp only
              have hpair :=
                @take_set_escape ((cmdline.set offset (unhexDigit a <<< 4 ||| unhexDigit b)).set
                (offset + 1) d) _
                  (show offset + 1 < _ by omega) 0x5c (unhexDigit a <<< 4 ||| unhexDigit b)
              rw [List.take_set_of_le (show offset ≤ offset + 1 by omega),
                List.take_set_of_le (Nat.le_refl offset)] at hpair
              rw [← hpair]
              exact ih tok.length (by rw [← hn, List.length_cons, List.length_cons]; omega) tok
                _ _ rfl
                (by rw [List.length_set, List.length_set, hlength']) hroom
          next hescape =>
            rw [← hchar]
            exact ih tok.length (by rw [← hn, List.length_cons, List.length_cons]; omega) tok _ _
              rfl hlength' hfull
        next hex => exact ⟨cmdline, offset, rfl, hlength, hoffset, rfl⟩

/-- Bytes that fit into a buffer are stored there. -/
theorem putBytes_run (data : List UInt8) :
    ∀ (cmdline : List UInt8) (i : Nat), i + data.length ≤ cmdline.length →
    putBytes cmdline i data = .ok (overwrite cmdline i data) := by
  induction data with
  | nil =>
    intro cmdline i _
    rw [putBytes, overwrite_nil]
  | cons c data ih =>
    intro cmdline i h
    rw [List.length_cons] at h
    rw [putBytes_one (by omega), ih _ _ (by rw [List.length_set]; omega),
      set_eq_overwrite c (by omega)]
    exact congrArg Except.ok (overwrite_append [c] data (by rw [List.length_singleton]; omega))

/-- The arguments begin behind a semicolon. -/
theorem cstr_args (pbuf : List UInt8) :
    cstr (if (pbuf.drop 4).headD 0 = 0x3b then (pbuf.drop 4).drop 1 else pbuf.drop 4) =
      runArgs pbuf := by
  rw [runArgs]
  cases pbuf.drop 4 with
  | nil => rfl
  | cons a tok =>
    rw [List.headD_cons]
    split
    next hsep =>
      rw [hsep]
      rfl
    next hsep =>
      by_cases hnul : a = 0
      · rw [hnul]
        rfl
      · have hcstr : cstr (a :: tok) = a :: cstr tok :=
          List.takeWhile_cons_of_pos (decide_eq_true hnul)
        rw [hcstr]
        split
        next heq => exact absurd (List.cons.inj heq).1 hsep
        next => rfl

/-- The case `vRun` goes through, and what it leaves for the target is the command line and a
`NUL`. -/
theorem vRunCmdline_run (pbuf : List UInt8) (stack target : CmdBuffer) :
    ∃ rest, vRunCmdline pbuf stack.bytes target.bytes =
      .ok (runCmdline (runArgs pbuf) [] ++ 0 :: rest) := by
  obtain ⟨cmdline, offset, hloop, hlength, hoffset, htake⟩ := vRunLoop_run _
    (if (pbuf.drop 4).headD 0 = 0x3b then (pbuf.drop 4).drop 1 else pbuf.drop 4) stack.bytes 0 rfl
    stack.length_bytes (by decide)
  rw [cstr_args, List.take_zero] at htake
  have hdata : (cmdline.set offset 0).take (offset + 1) = runCmdline (runArgs pbuf) [] ++ [0] := by
    rw [take_set_succ (hlength ▸ hoffset), htake]
  have hfits : 0 + ((cmdline.set offset 0).take (offset + 1)).length ≤ target.bytes.length := by
    rw [List.length_take, List.length_set, target.length_bytes]
    omega
  refine ⟨target.bytes.drop (0 + (runCmdline (runArgs pbuf) [] ++ [0]).length), ?_⟩
  rw [vRunCmdline]
  dsimp only
  rw [hloop]
  dsimp only [bind, Except.bind]
  rw [putByte_of_lt (hlength ▸ hoffset)]
  dsimp only
  rw [targetSetCmdline, putBytes_run _ _ _ hfits, hdata, overwrite, List.take_zero, List.nil_append,
    List.append_assoc]
  rfl

end

/-! ## Arguments in hexadecimal -/

/-- Text that decodes to units: a semicolon to a space, and two digits to a byte with its escape. -/
inductive Spells : (tok : List UInt8) → (units : List (List UInt8)) → Prop
  | nil : Spells [] []
  | sep {tok : List UInt8} {units : List (List UInt8)} : Spells tok units →
      Spells (0x3b :: tok) ([0x20] :: units)
  | pair (p : HexPair) {tok : List UInt8} {units : List (List UInt8)} :
      Spells tok units → Spells (p.hi :: p.lo :: tok) (escaped p.byte :: units)

/-- No digit is the separator. -/
theorem HexPair.hi_ne (p : HexPair) : p.hi ≠ 0x3b := by
  intro h
  have hhex := p.isHex_hi
  rw [h] at hhex
  exact absurd hhex (by decide)

/-- A command line `r` is `cmdline` with units behind it, up to the last one that fits. -/
def CutBehind (cmdline : List UInt8) (units : List (List UInt8)) (r : List UInt8) : Prop :=
  ∃ k ≤ units.length, r = cmdline ++ (units.take k).flatten ∧ r.length ≤ maxCmdline - 1 ∧
    (k < units.length → maxCmdline - 1 < (cmdline ++ (units.take (k + 1)).flatten).length)

section
variable {cmdline unit r : List UInt8} {units : List (List UInt8)}

/-- A unit that fits is part of the command line. -/
theorem CutBehind.cons (h : CutBehind (cmdline ++ unit) units r) :
    CutBehind cmdline (unit :: units) r := by
  obtain ⟨k, hk, hr, hfits, hnext⟩ := h
  refine ⟨k + 1, Nat.succ_le_succ hk, ?_, hfits, fun hlt => ?_⟩
  · rw [hr, List.take_succ_cons, List.flatten_cons, List.append_assoc]
  · have := hnext (Nat.lt_of_succ_lt_succ hlt)
    rwa [List.append_assoc, ← List.flatten_cons, ← List.take_succ_cons] at this

/-- A unit that does not fit ends the command line. -/
theorem cutBehind_full (hfits : cmdline.length ≤ maxCmdline - 1)
    (hfull : maxCmdline - 1 < cmdline.length + unit.length) :
    CutBehind cmdline (unit :: units) cmdline := by
  refine ⟨0, Nat.zero_le _, (List.append_nil _).symm, hfits, fun _ => ?_⟩
  rw [List.take_succ_cons, List.take_zero, List.flatten_singleton, List.length_append]
  exact hfull

end

/-- Digits and semicolons are collected unit after unit, as long as they fit. -/
theorem runCmdline_spells {tok : List UInt8} {units : List (List UInt8)} (h : Spells tok units) :
    ∀ cmdline : List UInt8, cmdline.length ≤ maxCmdline - 1 →
      CutBehind cmdline units (runCmdline tok cmdline) := by
  induction h with
  | nil =>
    intro cmdline hfits
    exact ⟨0, Nat.le_refl _, (List.append_nil _).symm, hfits, fun h => absurd h (Nat.lt_irrefl _)⟩
  | sep _ ih =>
    intro cmdline hfits
    rw [runCmdline.eq_def]
    dsimp only
    split
    next hfull => exact cutBehind_full hfits (by rw [List.length_singleton]; omega)
    next hfull =>
      rw [if_pos rfl]
      refine (ih _ ?_).cons
      rw [List.length_append, List.length_singleton]
      omega
  | pair p _ ih =>
    intro cmdline hfits
    rw [runCmdline.eq_def]
    dsimp only
    rw [if_neg p.hi_ne, p.isHex_hi, p.isHex_lo]
    change CutBehind _ _ (if _ then _ else if p.byte = 0x20 ∨ p.byte = 0x5c then _
      else runCmdline _ (_ ++ [p.byte]))
    split
    next hfull =>
      refine cutBehind_full hfits ?_
      rw [escaped]
      split <;> simp only [List.length_cons] <;> omega
    next hfull =>
    rw [escaped]
    split
    next hescape =>
      split
      next hroom => exact cutBehind_full hfits (by simp only [List.length_cons]; omega)
      next hroom =>
        refine (ih _ ?_).cons
        simp only [List.length_append, List.length_cons, List.length_nil]
        omega
    next hescape =>
      refine (ih _ ?_).cons
      rw [List.length_append, List.length_singleton]
      omega

/-- An argument in front of more text. -/
theorem Spells.argument {tok : List UInt8} {units : List (List UInt8)} (h : Spells tok units)
    (arg : List HexPair) :
    Spells (arg.flatMap HexPair.digits ++ tok) (arg.map (fun p => escaped p.byte) ++ units) := by
  induction arg with
  | nil => exact h
  | cons p arg ih => exact .pair p ih

/-- The arguments in a packet spell the units of the command line. -/
theorem spells_hexArgs (args : List (List HexPair)) :
    Spells (hexArgs args) (cmdlineUnits (args.map (List.map HexPair.byte))) := by
  rw [hexArgs, cmdlineUnits, List.map_map]
  induction args with
  | nil => exact .nil
  | cons arg args ih =>
    cases args with
    | nil =>
      have h := Spells.nil.argument arg
      simpa [Function.comp_def] using h
    | cons arg' args =>
      have h := (Spells.sep ih).argument arg
      simpa [Function.comp_def] using h

/-- What spells an argument has no terminator in it. -/
theorem Spells.cstr_eq {tok : List UInt8} {units : List (List UInt8)} (h : Spells tok units) :
    cstr tok = tok := by
  refine List.takeWhile_eq_self_iff.2 ?_
  induction h with
  | nil => exact List.forall_mem_nil _
  | sep _ ih => exact List.forall_mem_cons.2 ⟨rfl, ih⟩
  | pair p _ ih =>
    have hdigit : ∀ c : UInt8, isHex c = true → decide (c ≠ 0) = true := by
      intro c hc
      refine decide_eq_true fun h => ?_
      rw [h] at hc
      exact absurd hc (by decide)
    exact List.forall_mem_cons.2
      ⟨hdigit _ p.isHex_hi, List.forall_mem_cons.2 ⟨hdigit _ p.isHex_lo, ih⟩⟩

/-- The arguments of a `vRun` packet. -/
theorem runArgs_hexArgs (args : List (List HexPair)) (beyond : List UInt8) :
    runArgs (ascii "vRun;" ++ hexArgs args ++ 0 :: beyond) = hexArgs args := by
  have hdrop : (ascii "vRun;" ++ hexArgs args ++ 0 :: beyond).drop 4 = 0x3b :: hexArgs args ++
    0 :: beyond := rfl
  rw [runArgs, hdrop, cstr_append_zero, (spells_hexArgs args).sep.cstr_eq]
  rfl

/-- The units are the arguments with single spaces between them. -/
theorem flatten_cmdlineUnits (args : List (List UInt8)) :
    (cmdlineUnits args).flatten = [0x20].intercalate (args.map (List.flatMap escaped)) := by
  rw [cmdlineUnits]
  induction args with
  | nil => rfl
  | cons arg args ih =>
    cases args with
    | nil => simp [List.flatMap_def]
    | cons arg' args =>
      rw [List.map_cons, List.map_cons] at ih ⊢
      rw [List.map_cons, List.map_cons, List.intercalate_cons_cons, List.intercalate_cons_cons,
        List.flatten_append, List.flatten_append, ih, List.flatten_singleton]
      rfl

/-- No packet makes the command line leave its buffers, and arguments in hexadecimal arrive at the
target with single spaces between them and escapes in them, up to the last byte or pair that
fits. -/
theorem vRun_cmdline (stack target : CmdBuffer) :
    (∀ pbuf, ∃ stored, vRunCmdline pbuf stack.bytes target.bytes = .ok stored) ∧
      ∀ (args : List (List HexPair)) (beyond : List UInt8), ∃ cmdline rest,
        vRunCmdline (ascii "vRun;" ++ hexArgs args ++ 0 :: beyond) stack.bytes target.bytes =
          .ok (cmdline ++ 0 :: rest) ∧
        CutOf (cmdlineUnits (args.map (List.map HexPair.byte))) cmdline := by
  constructor
  · intro pbuf
    obtain ⟨rest, hrun⟩ := vRunCmdline_run pbuf stack target
    exact ⟨_, hrun⟩
  · intro args beyond
    obtain ⟨rest, hrun⟩ := vRunCmdline_run (ascii "vRun;" ++ hexArgs args ++ 0 :: beyond) stack
      target
    rw [runArgs_hexArgs] at hrun
    exact ⟨_, rest, hrun, runCmdline_spells (spells_hexArgs args) [] (Nat.zero_le _)⟩

end Blackmagic
