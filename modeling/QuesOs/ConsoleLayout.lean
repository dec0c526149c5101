import QuesOs.Console

/-! What the console shows: the last 25 rows of the text, laid out in rows of 80 cells. The
screen and the layout grow by one cell at a time; a tab and a newline are runs of blanks. -/
namespace QuesOs.Console
open Resumption

-- The loops are not to be run while they are reasoned about.
attribute [local irreducible] Meets

variable {bad : Fault → Prop} {s : Screen}

/-! ## The layout -/

/-- One more character of the text. -/
def layOut (cells : List UInt8) (c : UInt8) : List UInt8 :=
  if c = TAB then cells ++ [SPACE, SPACE]
  else if c = NEWLINE then cells ++ List.replicate (80 - cells.length % 80) SPACE
  else cells ++ [c]

/-- The cells of a text, without end. -/
def layout (text : List UInt8) : List UInt8 := text.foldl layOut []

/-- The row of the layout that is the first on the screen. -/
def topRow (pos : Nat) : Nat := (pos + 79) / 80 - 25

/-- The character in a cell of the screen. -/
def Screen.cell (s : Screen) (r x : Nat) : UInt8 := s.video (getPosition r x)

/-- The screen shows the end of the layout, and the cursor is where it ends. -/
structure Screen.Shows (s : Screen) (cells : List UInt8) : Prop where
  column : s.currPos.x = cells.length % 80
  row : s.currPos.y + topRow cells.length = cells.length / 80
  shown : ∀ r < 25, ∀ x < 80, s.cell r x = (cells[(topRow cells.length + r) * 80 + x]?).getD SPACE

theorem Screen.Shows.placed (shows : s.Shows cells) : s.Placed := by
  have column := shows.column
  have row := shows.row
  unfold topRow at row
  exact ⟨by omega, by omega⟩

/-! ## Cells -/

theorem cell_put (column : s.currPos.x < 80) (c color : UInt8) (next : Bool) (inside : x < 80) :
    (s.put c color next).cell r x = if r = s.currPos.y ∧ x = s.currPos.x then c else s.cell r x := by
  unfold Screen.cell Screen.put getPosition SCREEN_WIDTH
  dsimp only
  rw [Function.update_of_ne (by omega)]
  by_cases here : r = s.currPos.y ∧ x = s.currPos.x
  · rw [if_pos here, here.1, here.2, Nat.mul_assoc, Function.update_self]
  · rw [if_neg here, Function.update_of_ne (by omega)]

theorem cell_scrolled (row : r < 25) (inside : x < 80) :
    s.scrolled.cell r x = if r = 24 then SPACE else s.cell (r + 1) x := by
  unfold Screen.cell Screen.scrolled getPosition SCREEN_WIDTH cleared
  dsimp only
  by_cases last : r = 24
  · rw [if_pos (by omega), if_pos (by omega), if_pos last]
  · rw [if_neg (by omega), if_neg last, raised, if_pos (by omega)]
    congr 1
    omega

theorem ready_ready (s : Screen) : s.ready.ready = s.ready := by
  by_cases due : s.currPos.y = 25
  · have scrolled : s.ready = s.scrolled := if_pos due
    have up : s.scrolled.currPos.y ≠ 25 := by simp [Screen.scrolled, due]
    rw [scrolled]
    exact if_neg up
  · have same : s.ready = s := if_neg due
    rw [same, same]

/-- The check for a scroll can be made before. -/
theorem printed_ready (s : Screen) (c color : UInt8) (next : Bool) :
    s.ready.printed c color next = s.printed c color next := by
  unfold Screen.printed
  rw [ready_ready]

/-! ## One character at a time -/

/-- The screen as it was or scrolled, the cursor is in a row of the screen. -/
theorem Screen.Shows.ready_cells (shows : s.Shows cells) : s.ready.currPos.x = cells.length % 80 ∧
    s.ready.currPos.y + topRow (cells.length + 1) = cells.length / 80 ∧
    ∀ r < 25, ∀ x < 80, s.ready.cell r x = (cells[(topRow (cells.length + 1) + r) * 80 + x]?).getD SPACE := by
  have column := shows.column
  have row := shows.row
  unfold topRow at row ⊢
  by_cases due : s.currPos.y = 25
  · have scrolled : s.ready = s.scrolled := if_pos due
    have up : s.scrolled.currPos.y = 24 := by simp [Screen.scrolled, due]
    rw [scrolled, up]
    refine ⟨column, by omega, fun r low x inside => ?_⟩
    rw [cell_scrolled low inside]
    by_cases last : r = 24
    · rw [if_pos last, List.getElem?_eq_none (by omega)]
      rfl
    · rw [if_neg last, shows.shown (r + 1) (by omega) x inside]
      unfold topRow
      congr 3
      omega
  · have same : s.ready = s := if_neg due
    rw [same]
    have top : (cells.length + 1 + 79) / 80 - 25 = (cells.length + 79) / 80 - 25 := by omega
    rw [top]
    exact ⟨column, row, shows.shown⟩

theorem printed_shows (shows : s.Shows cells) (c color : UInt8) : (s.printed c color true).Shows (cells ++ [c]) := by
  obtain ⟨column, row, shown⟩ := shows.ready_cells
  have inside : s.ready.currPos.x < 80 := by omega
  have next : (s.printed c color true).currPos = s.ready.currPos.next := rfl
  have length : (cells ++ [c]).length = cells.length + 1 := by simp
  refine ⟨?_, ?_, fun r low x width => ?_⟩
  · rw [next, length]
    unfold Vec.next
    split
    · dsimp only
      omega
    · dsimp only
      omega
  · rw [next, length]
    unfold Vec.next
    split
    · dsimp only
      omega
    · dsimp only
      omega
  · rw [Screen.printed, cell_put inside c color true width, length]
    have here : r = s.ready.currPos.y ∧ x = s.ready.currPos.x ↔
      (topRow (cells.length + 1) + r) * 80 + x = cells.length := by
      omega
    by_cases cursor : r = s.ready.currPos.y ∧ x = s.ready.currPos.x
    · rw [if_pos cursor, here.mp cursor]
      simp
    · rw [if_neg cursor, shown r low x width]
      have other := fun same => cursor (here.mpr same)
      by_cases before : (topRow (cells.length + 1) + r) * 80 + x < cells.length
      · rw [List.getElem?_append_left before]
      · rw [List.getElem?_eq_none (Nat.not_lt.mp before), List.getElem?_eq_none (by rw [length]; omega)]

theorem blanks_show (shows : s.Shows cells) (n : Nat) :
    (Screen.blank^[n] s).Shows (cells ++ List.replicate n SPACE) := by
  induction n generalizing s cells with
  | zero => simpa using shows
  | succ n ih =>
    have rest := ih (printed_shows shows SPACE ((BLACK <<< 4) ||| LGREY))
    rwa [List.append_assoc, List.singleton_append, ← List.replicate_succ] at rest

/-- `printCharColor` lays out one character. -/
theorem printCharColor_shows (shows : s.Shows cells) (plain : c ≠ BACKSPACE) (charColor bgColor : UInt8) :
    Meets bad (printCharColor c charColor bgColor true) (fun _ s' => s'.Shows (layOut cells c)) s := by
  have placed := shows.placed
  have placed' := ready_placed placed
  unfold printCharColor layOut
  rw [if_neg plain, meets_bind]
  apply scrollWhenDue_spec.mono
  rintro _ _ rfl
  by_cases newline : c = NEWLINE
  · have other : c ≠ TAB := by
      rw [newline]
      decide
    rw [if_pos newline, if_neg other, if_pos newline]
    apply (newLine_spec placed').mono
    rintro _ _ rfl
    have column := placed.column
    obtain ⟨n, more⟩ : ∃ n, 80 - s.currPos.x = n + 1 := ⟨79 - s.currPos.x, by omega⟩
    have same : Screen.blank^[n + 1] s.ready = Screen.blank^[n + 1] s := by
      rw [Function.iterate_succ_apply, Function.iterate_succ_apply]
      exact congrArg _ (printed_ready s ..)
    rw [ready_column, more, same, ← more, shows.column]
    exact blanks_show shows _
  · rw [if_neg newline]
    by_cases tab : c = TAB
    · rw [if_pos tab, if_pos tab, meets_bind]
      apply (printOrdinary_spec placed' SPACE charColor bgColor true).mono
      rintro _ _ rfl
      rw [printed_ready]
      have first := printed_shows shows SPACE ((bgColor <<< 4) ||| charColor)
      apply (printOrdinary_spec first.placed SPACE charColor bgColor true).mono
      rintro _ _ rfl
      have second := printed_shows first SPACE ((bgColor <<< 4) ||| charColor)
      rwa [List.append_assoc] at second
    · rw [if_neg tab, if_neg tab, if_neg newline]
      apply (putCharColor_spec placed'.column (ready_row placed) c charColor bgColor true).mono
      rintro _ _ rfl
      exact printed_shows shows c ((bgColor <<< 4) ||| charColor)

/-! ## Clearing the screen -/

/-- The place of the cursor, counted in cells. -/
def Screen.pos (s : Screen) : Nat := s.currPos.y * 80 + s.currPos.x

/-- The cells before the cursor are blank. -/
def Screen.Wiped (s : Screen) : Prop := ∀ r < 25, ∀ x < 80, r * 80 + x < s.pos → s.cell r x = SPACE

theorem blank_wiped (placed : s.Placed) (wiped : s.Wiped) :
    s.blank.Wiped ∧ s.blank.pos = if s.currPos.y = 25 then s.pos - 79 else s.pos + 1 := by
  have inside : s.ready.currPos.x < 80 := by
    rw [ready_column]
    exact placed.column
  have row := ready_row placed
  have step : s.blank.pos = s.ready.pos + 1 := by
    have next : s.blank.currPos = s.ready.currPos.next := rfl
    unfold Screen.pos
    rw [next, Vec.next]
    split
    · dsimp only
      omega
    · dsimp only
      omega
  have before : s.ready.Wiped ∧ s.ready.pos = if s.currPos.y = 25 then s.pos - 80 else s.pos := by
    by_cases due : s.currPos.y = 25
    · have scrolled : s.ready = s.scrolled := if_pos due
      have up : s.scrolled.currPos = ⟨s.currPos.x, 24⟩ := by simp [Screen.scrolled, due]
      rw [scrolled, if_pos due]
      refine ⟨fun r low x width early => ?_, ?_⟩
      · rw [cell_scrolled low width]
        by_cases last : r = 24
        · rw [if_pos last]
        · rw [if_neg last]
          apply wiped (r + 1) (by omega) x width
          unfold Screen.pos
          omega
      · unfold Screen.pos
        rw [up]
        dsimp only
        omega
    · have same : s.ready = s := if_neg due
      rw [same, if_neg due]
      exact ⟨wiped, rfl⟩
  refine ⟨fun r low x width early => ?_, ?_⟩
  · rw [Screen.blank, Screen.printed, cell_put inside _ _ true width]
    by_cases cursor : r = s.ready.currPos.y ∧ x = s.ready.currPos.x
    · rw [if_pos cursor]
    · rw [if_neg cursor]
      apply before.1 r low x width
      rw [step] at early
      unfold Screen.pos at early ⊢
      omega
  · rw [step, before.2]
    have placedPos : s.currPos.y = 25 → 80 ≤ s.pos := by
      unfold Screen.pos
      omega
    split
    · have := placedPos (by assumption)
      omega
    · rfl

/-- From the start of a row, the cursor goes through the row, or the last one. -/
theorem blanks_wiped (k n : Nat) (placed : s.Placed) (wiped : s.Wiped) (start : s.pos = 80 * k)
    (low : k ≤ 25) (within : n ≤ 80) :
    (Screen.blank^[n] s).Wiped ∧ (Screen.blank^[n] s).pos = if n = 0 then 80 * k else 80 * min k 24 + n := by
  induction n with
  | zero => exact ⟨wiped, start⟩
  | succ n ih =>
    obtain ⟨wiped', pos⟩ := ih (Nat.le_of_succ_le within)
    have placed' := blanks_placed placed n
    obtain ⟨wiped'', pos'⟩ := blank_wiped placed' wiped'
    rw [Function.iterate_succ_apply']
    refine ⟨wiped'', ?_⟩
    have column := placed'.column
    have linear : (Screen.blank^[n] s).pos = (Screen.blank^[n] s).currPos.y * 80 + (Screen.blank^[n] s).currPos.x := rfl
    rw [pos', if_neg (Nat.succ_ne_zero n)]
    rw [pos] at linear ⊢
    split at linear <;> split <;> omega

theorem newLine_wiped (k : Nat) (low : k ≤ 25) (placed : s.Placed) (wiped : s.Wiped) (start : s.pos = 80 * k) :
    Meets bad newLine (fun _ s' => s'.Placed ∧ s'.Wiped ∧ s'.pos = 80 * min (k + 1) 25) s := by
  have column : s.currPos.x = 0 := by
    have inside := placed.column
    unfold Screen.pos at start
    omega
  apply (newLine_spec placed).mono
  rintro _ _ rfl
  rw [column]
  obtain ⟨wiped', pos⟩ := blanks_wiped k 80 placed wiped start low (Nat.le_refl _)
  refine ⟨blanks_placed placed _, wiped', ?_⟩
  rw [pos, if_neg (by decide)]
  omega

/-- `clearScreen` leaves an empty screen, whatever it showed. -/
theorem clearScreen_spec (s : Screen) : Meets bad clearScreen (fun _ s' => s'.Shows []) s := by
  unfold clearScreen restartCurrentPos
  rw [meets_bind, meets_setPos, meets_bind]
  have height : stdout.height + 1 = 26 := rfl
  rw [height]
  have lines : Meets bad ((List.range 26).forM fun _ => newLine)
      (fun _ s' => s'.Placed ∧ s'.Wiped ∧ s'.pos = 80 * min 26 25) { s with currPos := stdout.start } := by
    refine meets_forM_range (fun i (s' : Screen) => s'.Placed ∧ s'.Wiped ∧ s'.pos = 80 * min i 25) ?_ ?_
    · refine ⟨⟨Nat.zero_lt_succ _, Nat.zero_le _⟩, fun r _ x _ early => ?_, rfl⟩
      exact (Nat.not_lt_zero _ early).elim
    · rintro i low s' ⟨placed, wiped, pos⟩
      apply (newLine_wiped (min i 25) (Nat.min_le_right ..) placed wiped pos).mono
      rintro _ s'' ⟨placed', wiped', pos'⟩
      exact ⟨placed', wiped', by rw [pos']; omega⟩
  apply lines.mono
  rintro _ s' ⟨placed, wiped, pos⟩
  rw [meets_setPos]
  refine ⟨rfl, rfl, fun r low x inside => ?_⟩
  exact wiped r low x inside (by rw [pos]; omega)

/-! ## The whole text -/

/-- A character of a text and its colours. -/
structure Letter where
  c : UInt8
  charColor : UInt8
  bgColor : UInt8

def printText (text : List Letter) : M Unit := text.forM fun letter =>
  printCharColor letter.c letter.charColor letter.bgColor true

theorem printText_shows (text : List Letter) (plain : ∀ letter ∈ text, letter.c ≠ BACKSPACE) (shows : s.Shows cells) :
    Meets bad (printText text) (fun _ s' => s'.Shows ((text.map Letter.c).foldl layOut cells)) s := by
  induction text generalizing s cells with
  | nil => exact meets_pure.mpr shows
  | cons letter rest ih =>
    unfold printText
    rw [List.forM_eq_forM, List.forM_cons, meets_bind]
    apply (printCharColor_shows shows (plain letter (List.mem_cons_self ..)) _ _).mono
    intro _ s' shows'
    exact ih (fun letter member => plain letter (List.mem_cons_of_mem _ member)) shows'

/-- **The console shows the last 25 rows of the text**, laid out, after it was cleared. -/
theorem console_shows (s : Screen) (text : List Letter) (plain : ∀ letter ∈ text, letter.c ≠ BACKSPACE) :
    ∃ s', (do clearScreen; printText text : M Unit).run s = .ok ((), s') ∧ ∀ r < 25, ∀ x < 80,
      s'.cell r x =
      ((layout (text.map Letter.c))[(topRow (layout (text.map Letter.c)).length + r) * 80 + x]?).getD SPACE := by
  have meets : Meets (fun _ => False) (do clearScreen; printText text : M Unit)
      (fun _ s' => s'.Shows (layout (text.map Letter.c))) s := by
    rw [meets_bind]
    apply (clearScreen_spec s).mono
    intro _ s' shows
    exact printText_shows text plain shows
  obtain ⟨_, s', ran, shows⟩ := meets.returns
  exact ⟨s', ran, shows.shown⟩

/-- A letter, a tab and a newline fill a row; the next letter is at the start of the second. -/
def fewLetters : List Letter := [⟨97, LGREY, BLACK⟩, ⟨TAB, LGREY, BLACK⟩, ⟨NEWLINE, LGREY, BLACK⟩, ⟨98, WHITE, BLACK⟩]

theorem console_shows_few : (layout (fewLetters.map Letter.c)).length = 81 ∧ ∃ s',
    (do clearScreen; printText fewLetters : M Unit).run (booted fun _ => 88) = .ok ((), s') ∧
    ∀ r < 25, ∀ x < 80, s'.cell r x =
      ((layout (fewLetters.map Letter.c))[(topRow (layout (fewLetters.map Letter.c)).length + r) * 80 + x]?).getD
      SPACE :=
  ⟨by decide, console_shows _ fewLetters (by decide)⟩

end QuesOs.Console
