import Blackmagic.Ui.Scrollback

/-!
# Captured output

What monitor commands print is collected in `line_buf` until a newline or the 41st character of a
row comes; then the row is written to the CDC interface and pushed to the scrollback.
`capture_chunks` says that only the text counts, not the calls in which it comes: its lines are cut
into rows (`cut`), and the rest of the last one waits.
-/

namespace Blackmagic.Ui

open Scanf

/-- The scrollback, `line_buf` up to `line_buf_len`, and what `tud_cdc_n_write` was given. -/
structure Console where
  scrollback : Scrollback
  pending : List UInt8
  cdc : List (List UInt8)

/-- A row is mirrored with a line end. -/
def mirrored (row : List UInt8) : List (List UInt8) := [row, [0x0d, 0x0a]]

/-- The row in `line_buf` goes out. -/
def pushPending (c : Console) : Console where
  scrollback := scrollbackPushLine c.scrollback c.pending
  pending := []
  cdc := c.cdc ++ mirrored c.pending

/-- A turn of the loop of `ui_capture_write`. -/
def captureChar (c : Console) (p : UInt8) : Console :=
  if p = 0x0a ∨ uiCols ≤ c.pending.length then
    let c := pushPending c
    if p = 0x0a then c else { c with pending := c.pending ++ [p] }
  else { c with pending := c.pending ++ [p] }

/-- `ui_capture_write`. -/
def uiCaptureWrite (c : Console) (str : List UInt8) : Console := (cstr str).foldl captureChar c

/-- `scrollback_flush_partial`. -/
def scrollbackFlushPartial (c : Console) : Console := if 0 < c.pending.length then pushPending c
    else c

/-- A call, or something else that happens to the scrollback. -/
inductive ConsoleEvent
  | capture (str : List UInt8)
  | flushPartial
  | scrollback (step : Step)
  deriving DecidableEq, Repr

def consoleStep (c : Console) : ConsoleEvent → Console
  | .capture str => uiCaptureWrite c str
  | .flushPartial => scrollbackFlushPartial c
  | .scrollback st => { c with scrollback := step c.scrollback st }

/-- The console after start-up and some calls. -/
def console (events : List ConsoleEvent) : Console := events.foldl consoleStep ⟨boot, [], []⟩

/-! ## Lines and rows -/

/-- The lines of a text that end with a newline, and the text behind the last newline. -/
def logicalLines : List UInt8 → List (List UInt8) × List UInt8
  | [] => ([], [])
  | c :: text =>
    match logicalLines text with
    | (lines, rest) =>
      if c = 0x0a then ([] :: lines, rest)
      else
        match lines with
        | [] => ([], c :: rest)
        | line :: lines => ((c :: line) :: lines, rest)

/-- A line cut into rows. -/
def cut (line : List UInt8) : List (List UInt8) :=
  if line.length ≤ uiCols then [line] else line.take uiCols :: cut (line.drop uiCols)
termination_by line.length
decreasing_by
  rw [List.length_drop]
  have : 0 < uiCols := by decide
  omega

/-- The rows that a text fills, and what is left for the next one. -/
def rowsOf (text : List UInt8) : List (List UInt8) × List UInt8 :=
  ((logicalLines text).1.flatMap cut ++ (cut (logicalLines text).2).dropLast,
    (cut (logicalLines text).2).getLastD [])

section
variable {line : List UInt8}

/-- A line that fits is one row. -/
theorem cut_short (h : line.length ≤ uiCols) : cut line = [line] := by
  rw [cut, if_pos h]

/-- A longer one is cut after a row. -/
theorem cut_long (h : uiCols < line.length) :
    cut line = line.take uiCols :: cut (line.drop uiCols) := by
  rw [cut, if_neg (Nat.not_le.2 h)]

/-- A line gives at least one row. -/
theorem cut_ne_nil (line : List UInt8) : cut line ≠ [] := by
  rw [cut]
  split <;> exact List.cons_ne_nil _ _

/-- A row in front of a line that is not empty. -/
theorem cut_append {row : List UInt8} (hrow : row.length = uiCols) (hline : line ≠ []) :
    cut (row ++ line) = row :: cut line := by
  have hpos := List.length_pos_of_ne_nil hline
  rw [cut_long (by rw [List.length_append]; omega), ← hrow, List.take_left, List.drop_left]

/-- A line of `n` characters is cut into as many rows as they need, and into one if there are none;
no row is longer than the screen is wide, and nothing is lost. -/
theorem cut_spec (line : List UInt8) :
    (cut line).length = max 1 ((line.length + 39) / 40) ∧ (∀ row ∈ cut line, row.length ≤ uiCols) ∧
      (cut line).flatten = line := by
  induction line using cut.induct with
  | case1 line h =>
    rw [cut_short h]
    rw [uiCols] at h
    exact ⟨by
      rw [List.length_singleton]; omega, fun row hrow => List.mem_singleton.1 hrow ▸ h,
      List.append_nil _⟩
  | case2 line h ih =>
    obtain ⟨hlength, hrows, hflat⟩ := ih
    rw [cut_long (Nat.lt_of_not_le h)]
    refine ⟨?_, ?_, ?_⟩
    · rw [List.length_cons, hlength, List.length_drop]
      rw [uiCols] at h ⊢
      omega
    · exact List.forall_mem_cons.2 ⟨List.length_take_le _ _, hrows⟩
    · rw [List.flatten_cons, hflat, List.take_append_drop]

end

/-! ## What is captured -/

section
variable {c : Console} {p text : List UInt8}

/-- Text without a newline goes in front of the first line. -/
theorem logicalLines_append (h : (0x0a : UInt8) ∉ p) (text : List UInt8) :
    logicalLines (p ++ text) =
      match logicalLines text with
      | ([], rest) => ([], p ++ rest)
      | (line :: lines, rest) => ((p ++ line) :: lines, rest) := by
  induction p with
  | nil =>
    rw [List.nil_append]
    rcases logicalLines text with ⟨_ | ⟨line, lines⟩, rest⟩ <;> rfl
  | cons a p ih =>
    have ha : a ≠ 0x0a := fun heq => h (heq ▸ List.mem_cons_self)
    rw [List.cons_append, logicalLines, ih fun hmem => h (List.mem_cons_of_mem _ hmem)]
    rcases logicalLines text with ⟨_ | ⟨line, lines⟩, rest⟩
    · simp only [if_neg ha, List.cons_append]
    · simp only [if_neg ha, List.cons_append]

/-- A newline ends a line. -/
theorem logicalLines_newline (text : List UInt8) :
    logicalLines (0x0a :: text) = ([] :: (logicalLines text).1, (logicalLines text).2) := by
  rw [logicalLines]
  rcases logicalLines text with ⟨lines, rest⟩
  rfl

/-- A character that is no newline starts its line. -/
theorem logicalLines_cons {ch : UInt8} (hch : ch ≠ 0x0a) (text : List UInt8) :
    (∃ rest, logicalLines (ch :: text) = ([], ch :: rest)) ∨
      ∃ line lines rest, logicalLines (ch :: text) = ((ch :: line) :: lines, rest) := by
  rw [logicalLines]
  rcases logicalLines text with ⟨_ | ⟨line, lines⟩, rest⟩
  · exact .inl ⟨rest, by simp only [if_neg hch]⟩
  · exact .inr ⟨line, lines, rest, by simp only [if_neg hch]⟩

/-- A text that fits one row and has no newline waits. -/
theorem rowsOf_short (hp : p.length ≤ uiCols) (hno : (0x0a : UInt8) ∉ p) : rowsOf p = ([], p) := by
  have hlines : logicalLines p = ([], p) := by
    have := logicalLines_append hno []
    rw [List.append_nil] at this
    rw [this, logicalLines]
    simp only [List.append_nil]
  rw [rowsOf, hlines, cut_short hp]
  rfl

/-- Behind a newline the rows go on with the rest. -/
theorem rowsOf_newline (hp : p.length ≤ uiCols) (hno : (0x0a : UInt8) ∉ p) (text : List UInt8) :
    rowsOf (p ++ 0x0a :: text) = (p :: (rowsOf text).1, (rowsOf text).2) := by
  rw [rowsOf, logicalLines_append hno, logicalLines_newline]
  simp only [List.append_nil, List.flatMap_cons, cut_short hp]
  rfl

/-- A full row in front of a text that goes on in its line. -/
theorem rowsOf_full (hp : p.length = uiCols) (hno : (0x0a : UInt8) ∉ p) {ch : UInt8}
    (hch : ch ≠ 0x0a) (text : List UInt8) :
    rowsOf (p ++ ch :: text) = (p :: (rowsOf (ch :: text)).1, (rowsOf (ch :: text)).2) := by
  rw [rowsOf, rowsOf, logicalLines_append hno]
  obtain ⟨rest, hlines⟩ | ⟨line, lines, rest, hlines⟩ := logicalLines_cons hch text
  · obtain ⟨row, rows, hrows⟩ := List.exists_cons_of_ne_nil (cut_ne_nil (ch :: rest))
    rw [hlines]
    simp only [List.flatMap_nil, List.nil_append, cut_append hp (List.cons_ne_nil ch rest), hrows]
    rfl
  · rw [hlines]
    simp only [List.flatMap_cons, cut_append hp (List.cons_ne_nil ch line)]
    rfl

/-- The console after rows went out and others wait. -/
def Console.sent (c : Console) (rows : List (List UInt8)) (pending : List UInt8) : Console where
  scrollback := rows.foldl scrollbackPushLine c.scrollback
  pending := pending
  cdc := c.cdc ++ rows.flatMap mirrored

/-- Pushing the row that waits sends it first. -/
theorem sent_pushPending (rows : List (List UInt8)) (pending : List UInt8) :
    (pushPending c).sent rows pending = c.sent (c.pending :: rows) pending := by
  rw [Console.sent, Console.sent, pushPending, List.flatMap_cons, List.append_assoc]
  rfl

/-- The loop of `ui_capture_write`, behind the part of a line that waits. -/
theorem foldl_captureChar (text : List UInt8) :
    ∀ c : Console, c.pending.length ≤ uiCols → (0x0a : UInt8) ∉ c.pending →
    text.foldl captureChar c =
      c.sent (rowsOf (c.pending ++ text)).1 (rowsOf (c.pending ++ text)).2 := by
  induction text with
  | nil =>
    intro c hfits hno
    rw [List.append_nil, rowsOf_short hfits hno, Console.sent, List.flatMap_nil, List.append_nil]
    rfl
  | cons ch text ih =>
    intro c hfits hno
    rw [List.foldl_cons, captureChar]
    by_cases hch : ch = 0x0a
    · subst hch
      rw [if_pos (.inl rfl), rowsOf_newline hfits hno, ← sent_pushPending]
      exact ih (pushPending c) (Nat.zero_le _) List.not_mem_nil
    · have hsingle : (0x0a : UInt8) ∉ [ch] := fun hmem => hch (List.mem_singleton.1 hmem).symm
      by_cases hfull : uiCols ≤ c.pending.length
      · rw [if_pos (.inr hfull),
          rowsOf_full (Nat.le_antisymm hfits hfull) hno hch, ← sent_pushPending]
        dsimp only
        rw [if_neg hch]
        exact ih { pushPending c with pending := [ch] } (show 1 ≤ uiCols by decide) hsingle
      · rw [if_neg (not_or.2 ⟨hch, hfull⟩)]
        have hrest := ih { c with pending := c.pending ++ [ch] }
          (by rw [List.length_append, List.length_singleton]; omega)
          (fun hmem => (List.mem_append.1 hmem).elim hno hsingle)
        rw [List.append_assoc] at hrest
        exact hrest

/-! ## Calls -/

/-- What waits is a part of a line that fits into a row. -/
structure Waits (c : Console) : Prop where
  fits : c.pending.length ≤ uiCols
  noNewline : (0x0a : UInt8) ∉ c.pending

/-- After a push an empty row waits. -/
theorem waits_pushPending (c : Console) : Waits (pushPending c) := ⟨Nat.zero_le _, List.not_mem_nil⟩

/-- A character leaves a row that fits. -/
theorem Waits.captureChar (h : Waits c) (ch : UInt8) : Waits (captureChar c ch) := by
  rw [Ui.captureChar]
  split
  · dsimp only
    split
    · exact waits_pushPending c
    · next hch =>
      exact ⟨show 1 ≤ uiCols by decide, fun hmem => hch (List.mem_singleton.1 hmem).symm⟩
  · next hcond =>
    rw [not_or] at hcond
    refine ⟨?_, fun hmem => (List.mem_append.1 hmem).elim h.noNewline fun hmem =>
      hcond.1 (List.mem_singleton.1 hmem).symm⟩
    rw [List.length_append, List.length_singleton]
    exact Nat.lt_of_not_le hcond.2

/-- So does a text, by induction on it. -/
theorem Waits.foldl (text : List UInt8) :
    ∀ {c : Console}, Waits c → Waits (text.foldl Ui.captureChar c) := by
  induction text with
  | nil => exact id
  | cons ch text ih => exact fun h => ih (h.captureChar ch)

/-- So does every event. -/
theorem Waits.step (h : Waits c) (ev : ConsoleEvent) : Waits (consoleStep c ev) := by
  cases ev with
  | capture str => exact h.foldl _
  | flushPartial =>
    rw [consoleStep, scrollbackFlushPartial]
    split
    · exact waits_pushPending c
    · exact h
  | scrollback st => exact ⟨h.fits, h.noNewline⟩

/-- So does every run. -/
theorem waits_console (events : List ConsoleEvent) : Waits (console events) := by
  induction events using List.reverseRecOn with
  | nil => exact ⟨Nat.zero_le _, List.not_mem_nil⟩
  | append_singleton events ev ih =>
    rw [console, List.foldl_append]
    exact ih.step ev

/-- A text without a terminator is whole. -/
theorem cstr_of_not_mem {str : List UInt8} (h : (0 : UInt8) ∉ str) : cstr str = str :=
  List.takeWhile_eq_self_iff.2 fun _ hc => decide_eq_true fun h0 => h (h0 ▸ hc)

/-- Calls one after the other are a call with all of their text. -/
theorem foldl_uiCaptureWrite (chunks : List (List UInt8))
    (hchunks : ∀ chunk ∈ chunks, (0 : UInt8) ∉ chunk) :
    ∀ c : Console, chunks.foldl uiCaptureWrite c = chunks.flatten.foldl Ui.captureChar c := by
  induction chunks with
  | nil => exact fun _ => rfl
  | cons chunk chunks ih =>
    intro c
    have hhead := hchunks chunk List.mem_cons_self
    rw [List.foldl_cons, List.flatten_cons, List.foldl_append, uiCaptureWrite,
      cstr_of_not_mem hhead]
    exact ih (fun chunk h => hchunks chunk (List.mem_cons_of_mem _ h)) _

/-- However a text is split into calls, the rows of its lines go out, behind the part of a line that
waited before, and the rest of its last line waits until a flush; a line is cut into the rows that
it needs. -/
theorem capture_chunks (events : List ConsoleEvent) (chunks : List (List UInt8))
    (hchunks : ∀ chunk ∈ chunks, (0 : UInt8) ∉ chunk) :
    (let text := (console events).pending ++ chunks.flatten
      let out := chunks.foldl uiCaptureWrite (console events)
      out = (console events).sent (rowsOf text).1 (rowsOf text).2 ∧ out.pending.length ≤ uiCols ∧
        scrollbackFlushPartial out = if out.pending = [] then out else out.sent [out.pending] []) ∧
      ∀ line : List UInt8, (cut line).length = max 1 ((line.length + 39) / 40) ∧
        (∀ row ∈ cut line, row.length ≤ uiCols) ∧ (cut line).flatten = line := by
  have hwaits := waits_console events
  refine ⟨⟨?_, ?_, ?_⟩, cut_spec⟩
  · rw [foldl_uiCaptureWrite chunks hchunks]
    exact foldl_captureChar _ _ hwaits.fits hwaits.noNewline
  · rw [foldl_uiCaptureWrite chunks hchunks]
    exact (hwaits.foldl _).fits
  · rw [scrollbackFlushPartial]
    cases hpending : (chunks.foldl uiCaptureWrite (console events)).pending with
    | nil => rfl
    | cons ch rest =>
      rw [if_pos (show 0 < (ch :: rest).length from Nat.succ_pos _),
        if_neg (List.cons_ne_nil ch rest), ← hpending, ← sent_pushPending]
      rw [Console.sent, List.flatMap_nil, List.append_nil]
      rfl

/-- A line of 41 characters in two calls: the row of 40 goes out with the second one. -/
theorem capture_chunks_two :
    [List.replicate 40 0x61, [0x61, 0x0a]].foldl uiCaptureWrite (console []) =
      (console []).sent (rowsOf (List.replicate 41 0x61 ++ [0x0a])).1
        (rowsOf (List.replicate 41 0x61 ++ [0x0a])).2 :=
  (capture_chunks [] [List.replicate 40 0x61, [0x61, 0x0a]] (by decide)).1.1

end

end Blackmagic.Ui
