import Blackmagic.Lib.Memory
import Blackmagic.Lib.Scanf

/-!
# The lines of the on-screen console: `ui.c`

The last lines are kept in a ring of 50 rows. A line is pushed to the row at `head`, and `render`
counts back from there. The start-up animation ends with a logo that is written to the first rows,
whatever they hold, and `head` and `count` are set to what they are behind it: `scrollback_iff` says
of which runs this keeps the lines that were pushed.
-/

namespace Blackmagic.Ui

open Scanf Memory

/-- `UI_COLS`. -/
def uiCols : Nat := 40

/-- `UI_VISIBLE_ROWS`. -/
def uiVisibleRows : Nat := 10

/-- `UI_HISTORY_ROWS`. -/
def uiHistoryRows : Nat := 50

/-- The text of each row, and `scrollback_head` and `scrollback_count`. -/
structure Scrollback where
  rows : Nat → List UInt8
  head : Nat
  count : Nat
  head_lt : head < uiHistoryRows
  count_le : count ≤ uiHistoryRows

/-- The text that a row has room for. -/
def rowText (text : List UInt8) : List UInt8 := (cstr text).take uiCols

/-- `scrollback_push_line`. -/
def scrollbackPushLine (s : Scrollback) (text : List UInt8) : Scrollback where
  rows := Function.update s.rows s.head (rowText text)
  head := (s.head + 1) % uiHistoryRows
  count := if s.count < uiHistoryRows then s.count + 1 else s.count
  head_lt := Nat.mod_lt _ (by decide)
  count_le := by
    have := s.count_le
    split <;> omega

/-- The logo. -/
def logo : List (List UInt8) :=
  [" ____   __  __  ____  ", " || ))  ||\\/||  || )) ", " ||  )) ||  ||  ||    ",
    " ||__// ||  ||  ||    ",
    " -------------------- ", "   Cardputer v1.0", "   (C) 2026 Niel Nielsen",
    "   SWD Probe Ready"].map ascii

/-- The end of the start-up animation of `ui_task`. -/
def showLogo (s : Scrollback) : Scrollback where
  rows i := (logo[i]?).getD (s.rows i)
  head := 8
  count := 8
  head_lt := by decide
  count_le := by decide

/-- A line of the scrollback, the oldest one first. -/
def Scrollback.line (s : Scrollback) (logical : Nat) : List UInt8 :=
  s.rows ((s.head + logical + 2 * uiHistoryRows - s.count) % uiHistoryRows)

/-- `max_scroll_offset`. -/
def maxScrollOffset (s : Scrollback) : Int :=
  let m := (s.count : Int) - uiVisibleRows
  if m > 0 then m else 0

/-- What `render` leaves in `scroll_offset`. -/
def clampOffset (s : Scrollback) (scrollOffset : Int) : Int :=
  let scrollOffset := if scrollOffset > maxScrollOffset s then maxScrollOffset s else scrollOffset
  if scrollOffset < 0 then 0 else scrollOffset

/-- The loop of `render` over the rows of the screen: the texts that it draws, with the rows. -/
def drawRows (s : Scrollback) (start : Nat) : (left i : Nat) → List (Nat × List UInt8)
  | 0, _ => []
  | left + 1, i =>
    if s.count ≤ start + i then []
    else if s.line (start + i) = [] then drawRows s start left (i + 1)
    else (i, s.line (start + i)) :: drawRows s start left (i + 1)

/-- `render`, but for the prompt. -/
def render (s : Scrollback) (scrollOffset : Int) : List (Nat × List UInt8) :=
  let start := (s.count : Int) - uiVisibleRows - clampOffset s scrollOffset
  drawRows s (if start < 0 then 0 else start).toNat uiVisibleRows 0

/-! ## Runs -/

/-- What happens to the scrollback. -/
inductive Step
  | push (text : List UInt8)
  | logo
  deriving DecidableEq, Repr

/-- `ui_start` leaves empty rows. -/
def boot : Scrollback := ⟨fun _ => [], 0, 0, by decide, by decide⟩

def step (s : Scrollback) : Step → Scrollback
  | .push text => scrollbackPushLine s text
  | .logo => showLogo s

def runSteps (s : Scrollback) (steps : List Step) : Scrollback := steps.foldl step s

/-- The lines that a step shows. -/
def Step.lines : Step → List (List UInt8)
  | .push text => [rowText text]
  | .logo => Ui.logo

/-! ## The lines that are held -/

/-- The lines that are held, the oldest one first. -/
def Scrollback.held (s : Scrollback) : List (List UInt8) := (List.range s.count).map s.line

section
variable (s : Scrollback)

@[simp] theorem length_held : s.held.length = s.count := by
  rw [Scrollback.held, List.length_map, List.length_range]

/-- What the buffer holds, read from its rows. -/
theorem held_eq : s.held = contents s.rows uiHistoryRows (s.head + 2 * uiHistoryRows - s.count)
    s.count := by
  have hcount := s.count_le
  refine List.map_congr_left fun k _ => ?_
  rw [Scrollback.line]
  congr 2
  omega

/-- A line is pushed behind the others; the oldest one goes when there is no row left. -/
theorem held_push (text : List UInt8) :
    (scrollbackPushLine s text).held = (s.held ++ [rowText text]).rtake uiHistoryRows := by
  have hhead := s.head_lt
  have hcount := s.count_le
  rw [List.rtake, List.length_append, length_held, List.length_singleton, held_eq, held_eq]
  rw [uiHistoryRows] at *
  rcases Nat.lt_or_ge s.count 50 with hlt | hge
  · have hplace : (s.head + 2 * 50 - s.count + s.count) % 50 = s.head := by omega
    have hstart : ((s.head + 1) % 50 + 2 * 50 - (s.count + 1)) % 50 =
      (s.head + 2 * 50 - s.count) % 50 := by omega
    rw [show s.count + 1 - 50 = 0 by omega, List.drop_zero, ← contents_push hlt hplace]
    simp only [scrollbackPushLine, uiHistoryRows, hlt, if_true]
    exact contents_congr_mod hstart
  · have hfull : s.count = 50 := Nat.le_antisymm hcount hge
    have hplace : (s.head + 2 * 50 - 50 + 1 + 49) % 50 = s.head := by omega
    have hstart : ((s.head + 1) % 50 + 2 * 50 - 50) % 50 = (s.head + 2 * 50 - 50 + 1) % 50 := by
      omega
    rw [hfull, List.drop_append_of_le_length (by rw [length_contents]; decide),
      drop_contents (by decide), ← contents_push (show 49 < 50 by decide) hplace]
    simp only [scrollbackPushLine, uiHistoryRows, hfull, if_neg (Nat.lt_irrefl 50)]
    exact contents_congr_mod hstart

/-- The logo has eight rows. -/
theorem length_logo : logo.length = 8 := rfl

/-- After the logo the buffer holds the logo. -/
theorem held_logo : (showLogo s).held = logo := by
  refine List.ext_getElem (by rw [length_held, length_logo]; rfl) fun k hk hk' => ?_
  have hplace : ((showLogo s).head + k + 2 * uiHistoryRows - (showLogo s).count) % uiHistoryRows =
      k := by
    change (8 + k + 2 * 50 - 8) % 50 = k
    rw [length_logo] at hk'
    omega
  simp only [Scrollback.held, List.getElem_map, List.getElem_range, Scrollback.line, hplace]
  change (logo[k]?).getD (s.rows k) = logo[k]
  rw [List.getElem?_eq_getElem hk', Option.getD_some]

end

/-! ## What is drawn -/

/-- The texts of a window on the rows of the screen from the `i`-th on; empty ones need no
drawing. -/
def drawn : (window : List (List UInt8)) → (i : Nat) → List (Nat × List UInt8)
  | [], _ => []
  | text :: window, i => if text = [] then drawn window (i + 1)
      else (i, text) :: drawn window (i + 1)

section
variable (s : Scrollback)

/-- The rows on the screen are a window of what the buffer holds, by induction on the rows left. -/
theorem drawRows_eq (start left : Nat) :
    ∀ i, drawRows s start left i = drawn ((s.held.drop (start + i)).take left) i := by
  induction left with
  | zero => exact fun i => rfl
  | succ left ih =>
    intro i
    rw [drawRows]
    split
    · next hend =>
      rw [List.drop_of_length_le (by rw [length_held]; exact hend)]
      rfl
    · next hin =>
      have hlt : start + i < s.held.length := by
        rw [length_held]
        exact Nat.lt_of_not_le hin
      have hline : s.held[start + i] = s.line (start + i) := by
        simp only [Scrollback.held, List.getElem_map, List.getElem_range]
      rw [ih (i + 1), List.drop_eq_getElem_cons hlt, List.take_succ_cons, hline]
      rfl

/-- Whatever the offset, ten lines that follow one another are drawn, or all of them where there are
fewer; for the offset 0 they are the last ones. -/
def DrawsWindow (s : Scrollback) : Prop :=
  ∀ scrollOffset : Int, ∃ start, render s scrollOffset =
    drawn ((s.held.drop start).take uiVisibleRows) 0 ∧
    start + min uiVisibleRows s.held.length ≤ s.held.length ∧
    (scrollOffset = 0 → start + min uiVisibleRows s.held.length = s.held.length)

/-- So is the whole screen. -/
theorem drawsWindow : DrawsWindow s := by
  intro scrollOffset
  refine ⟨_, drawRows_eq s _ _ 0, ?_⟩
  rw [length_held, clampOffset, maxScrollOffset, uiVisibleRows]
  split_ifs <;> omega

end

/-! ## What is held over a run -/

/-- The scrollback has the last of the lines, and draws windows of them. -/
structure Shows (s : Scrollback) (lines : List (List UInt8)) : Prop where
  tail : s.held = lines.rtake uiHistoryRows
  draws : DrawsWindow s

/-- What came before the last rows does not matter. -/
theorem rtake_append_rtake {α : Type} (l m : List α) (n : Nat) :
    (l.rtake n ++ m).rtake n = (l ++ m).rtake n := by
  rw [List.rtake_eq_reverse_take_reverse, List.rtake_eq_reverse_take_reverse,
    List.rtake_eq_reverse_take_reverse, List.reverse_append, List.reverse_reverse,
    List.reverse_append, List.take_append, List.take_append, List.take_take,
    Nat.min_eq_left (Nat.sub_le _ _)]

section
variable {s : Scrollback} {lines : List (List UInt8)}

/-- A run without the logo holds the last rows pushed, by induction on its steps. -/
theorem held_run (steps : List Step) :
    ∀ {s : Scrollback} {lines : List (List UInt8)}, s.held = lines.rtake uiHistoryRows →
    .logo ∉ steps → (runSteps s steps).held = (lines ++ steps.flatMap Step.lines).rtake
      uiHistoryRows := by
  induction steps with
  | nil =>
    intro s lines hs _
    rw [List.flatMap_nil, List.append_nil]
    exact hs
  | cons st steps ih =>
    intro s lines hs hno
    cases st with
    | logo => exact absurd List.mem_cons_self hno
    | push text =>
      have hpush : (scrollbackPushLine s text).held =
          (lines ++ [rowText text]).rtake uiHistoryRows := by
        rw [held_push, hs, rtake_append_rtake]
      have hrest := ih hpush fun h => hno (List.mem_cons_of_mem _ h)
      rw [List.append_assoc] at hrest
      exact hrest

/-- A step pushes at least one line. -/
theorem Step.lines_ne_nil (st : Step) : st.lines ≠ [] := by
  cases st with
  | push text => exact List.cons_ne_nil _ _
  | logo => exact List.ne_nil_of_length_pos (by rw [Step.lines, length_logo]; decide)

/-- The scrollback has the last of the lines that were pushed at every point of a run exactly when
no line was pushed before the logo was shown. -/
theorem scrollback_iff (steps : List Step) :
    (∀ before after, steps = before ++ after →
      Shows (runSteps boot before) (before.flatMap Step.lines)) ↔
      ∀ before after, steps = before ++ .logo :: after → before = [] := by
  constructor
  · intro h before after hsteps
    by_contra hne
    have hshows := (h (before ++ [.logo]) after (by rw [hsteps, List.append_assoc]; rfl)).tail
    rw [runSteps, List.foldl_append, List.flatMap_append] at hshows
    have hlength := congrArg List.length hshows
    obtain ⟨st, rest, rfl⟩ := List.exists_cons_of_ne_nil hne
    have hpos := List.length_pos_of_ne_nil st.lines_ne_nil
    rw [show ([Step.logo].foldl step ((st :: rest).foldl step boot)).held = logo from held_logo _,
      length_logo, List.rtake, List.length_drop, List.length_append, List.flatMap_singleton,
      show Step.logo.lines.length = 8 from length_logo, List.flatMap_cons, List.length_append,
      uiHistoryRows] at hlength
    omega
  · intro h before after hsteps
    refine ⟨?_, drawsWindow _⟩
    have hboot : boot.held = ([] : List (List UInt8)).rtake uiHistoryRows := rfl
    rcases before with _ | ⟨st, before⟩
    · exact hboot
    -- only the first step can be the logo
    have hno : Step.logo ∉ before := by
      intro hmem
      obtain ⟨l, r, rfl⟩ := List.append_of_mem hmem
      exact absurd (h (st :: l) (r ++ after) (by rw [hsteps]; simp)) (List.cons_ne_nil _ _)
    cases st with
    | logo =>
      have hlogo : (showLogo boot).held = logo.rtake uiHistoryRows := held_logo boot
      exact held_run before hlogo hno
    | push text =>
      have hpush : (scrollbackPushLine boot text).held = [rowText text].rtake uiHistoryRows :=
        held_push boot text
      exact held_run before hpush hno

/-- The line on the SD card is pushed while the start-up animation runs. -/
theorem not_scrollback_sdStatus :
    ¬ ∀ before after, [Step.push (ascii "sd: mounted 30436 MB"), .logo] = before ++ after →
      Shows (runSteps boot before) (before.flatMap Step.lines) := by
  intro h
  have htail := (h [Step.push (ascii "sd: mounted 30436 MB"), .logo] [] rfl).tail
  exact absurd (congrArg List.length htail)
    (by rw [show runSteps boot [.push (ascii "sd: mounted 30436 MB"), .logo] =
    showLogo (scrollbackPushLine boot (ascii "sd: mounted 30436 MB")) from rfl, held_logo]; decide)

end

end Blackmagic.Ui
