import QuesOs.Resumption
import Mathlib.Logic.Function.Iterate

/-! The text console of `console.c`: one window of 25 rows of 80 cells, two bytes of
video memory each. A read or a write outside of them is a fault, and so is a loop
that does not end. The cursor may stand one row below the last one until the next
character is printed. -/
namespace QuesOs.Console
open Resumption

def SCREEN_WIDTH : Nat := 80
def SCREEN_HEIGHT : Nat := 25

def LGREY : UInt8 := 7
def BLACK : UInt8 := 0
def WHITE : UInt8 := 15

def BACKSPACE : UInt8 := 8
def TAB : UInt8 := 9
def NEWLINE : UInt8 := 10
def SPACE : UInt8 := 32
def UNDERSCORE : UInt8 := 95

/-- `vec`; both are bytes. -/
structure Vec where
  x : Nat
  y : Nat

/-- `window`, without its `currPos`. -/
structure Window where
  width : Nat
  height : Nat
  start : Vec

/-- The only one of `windows`. -/
def stdout : Window where
  width := SCREEN_WIDTH
  height := SCREEN_HEIGHT
  start := ⟨0, 0⟩

structure Screen where
  currPos : Vec
  video : Nat → UInt8
  cursorActive : Int

/-- Why a call does not return. -/
inductive Fault where
  | outside
  | endless

abbrev M := Action Screen Fault

/-! ## Video memory -/

/-- The bytes of video memory that are on the screen. -/
def videoSize : Nat := SCREEN_WIDTH * SCREEN_HEIGHT * 2

def peek (offset : Nat) : M UInt8 := do
  if offset < videoSize then return (← get).video offset
  else throw .outside

def poke (offset : Nat) (byte : UInt8) : M Unit :=
  if offset < videoSize then modify fun s => { s with video := Function.update s.video offset byte }
  else throw .outside

/-- `getPosition`, as an offset from `video`. -/
def getPosition (y x : Nat) : Nat := x * 2 + y * SCREEN_WIDTH * 2

def setPos (pos : Vec) : M Unit := modify fun s => { s with currPos := pos }

/-! ## `console.c` -/

def restartCurrentPos : M Unit := setPos stdout.start

/-- One round of the inner loop of `scrollUp`. -/
def copyUp (i j : Nat) : M Unit := do
  let start := stdout.start
  poke (getPosition (start.y + i - 1) (start.x + j)) (← peek (getPosition (start.y + i) (start.x + j)))
  poke (getPosition (start.y + i - 1) (start.x + j) + 1) (← peek (getPosition (start.y + i) (start.x + j) + 1))

/-- One round of the loop that clears the last row. -/
def clearLast (j : Nat) : M Unit := do
  let start := stdout.start
  poke (getPosition (start.y + stdout.height - 1) (j + start.x)) SPACE
  poke (getPosition (start.y + stdout.height - 1) (j + start.x) + 1) 0

def scrollUp : M Unit := do
  (List.range (stdout.height - 1)).forM fun i => (List.range stdout.width).forM (copyUp (i + 1))
  (List.range stdout.width).forM clearLast
  let pos := (← get).currPos
  setPos { pos with y := (pos.y + 255) % 256 }

def goNextPosition : M Unit := do
  let pos := (← get).currPos
  let goNextLine := pos.x = stdout.start.x + stdout.width - 1
  setPos ⟨if goNextLine then stdout.start.x else (pos.x + 1) % 256, if goNextLine then (pos.y + 1) % 256 else pos.y⟩

/-- The check that `printCharColor` begins with. -/
def scrollWhenDue : M Unit := do
  if (← get).currPos.y = stdout.height + stdout.start.y then scrollUp

/-- The last statements of `printCharColor`. -/
def putCharColor (c charColor bgColor : UInt8) (next : Bool) : M Unit := do
  let pos := (← get).currPos
  let current := getPosition pos.y pos.x
  poke current c
  poke (current + 1) ((bgColor <<< 4) ||| charColor)
  if next then goNextPosition

/-- `printCharColor` of a character that is none of backspace, newline and tab. -/
def printOrdinary (c charColor bgColor : UInt8) (next : Bool) : M Unit := do
  scrollWhenDue
  putCharColor c charColor bgColor next

/-- The loop of `newLine`. -/
def newLineLoop : Nat → M Unit
  | 0 => throw .endless
  | fuel + 1 => do
    printOrdinary SPACE LGREY BLACK true
    if (← get).currPos.x ≠ stdout.start.x then newLineLoop fuel

/-- A byte takes no more than 256 values. -/
def newLine : M Unit := newLineLoop 256

def deleteChar : M Unit := do
  let pos := (← get).currPos
  if pos.x = stdout.start.x then
    if pos.y > stdout.start.y then
      setPos ⟨(stdout.width + stdout.start.x - 1) % 256, (pos.y + 255) % 256⟩
      printOrdinary SPACE WHITE BLACK false
  else
    setPos { pos with x := (pos.x + 255) % 256 }
    printOrdinary SPACE WHITE BLACK false

def printCharColor (c charColor bgColor : UInt8) (next : Bool) : M Unit := do
  if c = BACKSPACE then deleteChar
  else
    scrollWhenDue
    if c = NEWLINE then newLine
    else if c = TAB then
      printOrdinary SPACE charColor bgColor true
      printOrdinary SPACE charColor bgColor true
    else putCharColor c charColor bgColor next

def clearScreen : M Unit := do
  restartCurrentPos
  (List.range (stdout.height + 1)).forM fun _ => newLine
  restartCurrentPos

def stopCursor : M Unit := printCharColor SPACE WHITE BLACK false

def setCursor (active : Int) : M Unit := do
  modify fun s => { s with cursorActive := active }
  if active = 0 then stopCursor

/-- `blinkCursor` when `ticks_elapsed` returns `ticks`. -/
def blinkCursor (ticks : Int) : M Unit := do
  if (← get).cursorActive ≠ 0 then
    if ticks % 18 = 0 then printCharColor SPACE WHITE BLACK false
    else if ticks % 9 = 0 then printCharColor UNDERSCORE WHITE BLACK false

/-! ## What the actions do -/

variable {bad : Fault → Prop} {s : Screen}

@[simp] theorem meets_setPos {pos : Vec} {post : Unit → Screen → Prop} :
    Meets bad (setPos pos) post s ↔ post () { s with currPos := pos } := Iff.rfl

theorem meets_poke {byte : UInt8} {post : Unit → Screen → Prop} (inside : offset < videoSize) :
    Meets bad (poke offset byte) post s ↔ post () { s with video := Function.update s.video offset byte } := by
  unfold poke
  rw [if_pos inside, meets_modify]

theorem meets_peek {post : UInt8 → Screen → Prop} (inside : offset < videoSize) :
    Meets bad (peek offset) post s ↔ post (s.video offset) s := by
  unfold peek
  rw [if_pos inside]
  rfl

-- The loops are not to be run while they are reasoned about.
attribute [local irreducible] Meets

/-- Video memory whose first bytes are those of the next row. -/
def raised (video : Nat → UInt8) (n : Nat) : Nat → UInt8 := fun o => if o < n then video (o + 160) else video o

theorem raised_zero (video : Nat → UInt8) : raised video 0 = video := by
  funext o
  simp [raised]

/-- Two more bytes are copied. -/
theorem raised_step (video : Nat → UInt8) (o : Nat) :
    Function.update (Function.update (raised video o) o (video (o + 160))) (o + 1) (video (o + 1 + 160)) =
    raised video (o + 2) := by
  funext o'
  by_cases second : o' = o + 1
  · subst second
    rw [Function.update_self, raised, if_pos (Nat.lt_succ_self _)]
  · rw [Function.update_of_ne second]
    by_cases first : o' = o
    · subst first
      rw [Function.update_self, raised, if_pos (Nat.lt_add_of_pos_right (by decide))]
    · rw [Function.update_of_ne first]
      simp only [raised]
      by_cases before : o' < o
      · rw [if_pos before, if_pos (by omega)]
      · rw [if_neg before, if_neg (by omega)]

theorem copyUp_spec (row : i < 24) (column : j < 80) (video : Nat → UInt8) :
    Meets bad (copyUp (i + 1) j) (fun _ s' => s' = { s with video := raised video (160 * i + 2 * (j + 1)) })
      { s with video := raised video (160 * i + 2 * j) } := by
  have low : 160 * i + 2 * j + 162 ≤ videoSize := by
    unfold videoSize SCREEN_WIDTH SCREEN_HEIGHT
    omega
  have target : getPosition (0 + (i + 1) - 1) (0 + j) = 160 * i + 2 * j := by
    unfold getPosition SCREEN_WIDTH
    omega
  have source : getPosition (0 + (i + 1)) (0 + j) = 160 * i + 2 * j + 160 := by
    unfold getPosition SCREEN_WIDTH
    omega
  unfold copyUp
  simp only [stdout, target, source]
  rw [show 160 * i + 2 * (j + 1) = 160 * i + 2 * j + 2 by omega]
  generalize 160 * i + 2 * j = o at low
  rw [meets_bind, meets_peek (by omega), meets_bind, meets_poke (by omega), meets_bind, meets_peek (by omega),
    meets_poke (by omega)]
  dsimp only
  have first : raised video o (o + 160) = video (o + 160) := if_neg (by omega)
  have second : Function.update (raised video o) o (video (o + 160)) (o + 160 + 1) = video (o + 1 + 160) := by
    rw [Function.update_of_ne (by omega), raised, if_neg (by omega), Nat.add_right_comm]
  rw [first, second, raised_step]

/-- Video memory with some cells of the last row cleared. -/
def cleared (video : Nat → UInt8) (n : Nat) : Nat → UInt8 :=
  fun o => if 3840 ≤ o ∧ o < 3840 + 2 * n then (if o % 2 = 0 then SPACE else 0) else video o

/-- One more cell is cleared. -/
theorem cleared_step (video : Nat → UInt8) (n : Nat) :
    Function.update (Function.update (cleared video n) (3840 + 2 * n) SPACE) (3840 + 2 * n + 1) 0 =
    cleared video (n + 1) := by
  funext o
  by_cases second : o = 3840 + 2 * n + 1
  · subst second
    rw [Function.update_self, cleared, if_pos (by omega), if_neg (by omega)]
  · rw [Function.update_of_ne second]
    by_cases first : o = 3840 + 2 * n
    · subst first
      rw [Function.update_self, cleared, if_pos (by omega), if_pos (by omega)]
    · rw [Function.update_of_ne first]
      simp only [cleared]
      by_cases before : 3840 ≤ o ∧ o < 3840 + 2 * n
      · have after : 3840 ≤ o ∧ o < 3840 + 2 * (n + 1) := by omega
        rw [if_pos before, if_pos after]
      · rw [if_neg before, if_neg (by omega)]

theorem clearLast_spec (column : j < 80) (video : Nat → UInt8) :
    Meets bad (clearLast j) (fun _ s' => s' = { s with video := cleared video (j + 1) })
    { s with video := cleared video j } := by
  have low : 3840 + 2 * j + 1 < videoSize := by
    unfold videoSize SCREEN_WIDTH SCREEN_HEIGHT
    omega
  have target : getPosition (0 + SCREEN_HEIGHT - 1) (j + 0) = 3840 + 2 * j := by
    unfold getPosition SCREEN_WIDTH SCREEN_HEIGHT
    omega
  unfold clearLast
  simp only [stdout, target]
  rw [meets_bind, meets_poke (by omega), meets_poke low]
  dsimp only
  rw [cleared_step]

/-- The screen after `scrollUp`. -/
def Screen.scrolled (s : Screen) : Screen :=
  { s with currPos := { s.currPos with y := (s.currPos.y + 255) % 256 }, video := cleared (raised s.video 3840) 80 }

/-- The screen with other video memory. -/
def Screen.showing (s : Screen) (video : Nat → UInt8) : Screen := { s with video }

theorem copyRow_spec (row : i < 24) (video : Nat → UInt8) :
    Meets bad ((List.range 80).forM (copyUp (i + 1))) (fun _ s' => s' = s.showing (raised video (160 * (i + 1))))
      (s.showing (raised video (160 * i))) := by
  have columns : Meets bad ((List.range 80).forM (copyUp (i + 1))) (fun _ s' =>
    s' = s.showing (raised video (160 * i + 2 * 80)))
      (s.showing (raised video (160 * i))) := by
    refine meets_forM_range (fun j s' => s' = s.showing (raised video (160 * i + 2 * j))) rfl ?_
    rintro j column _ rfl
    exact copyUp_spec row column video
  exact columns

theorem copyRows_spec : Meets bad ((List.range 24).forM fun i => (List.range 80).forM (copyUp (i + 1)))
    (fun _ s' => s' = s.showing (raised s.video (160 * 24))) s := by
  refine meets_forM_range (fun i s' => s' = s.showing (raised s.video (160 * i))) ?_ ?_
  · exact congrArg s.showing (raised_zero s.video).symm
  · rintro i row _ rfl
    exact copyRow_spec row s.video

theorem clearRow_spec (video : Nat → UInt8) :
    Meets bad ((List.range 80).forM clearLast) (fun _ s' => s' = s.showing (cleared video 80)) (s.showing video) := by
  refine meets_forM_range (fun j s' => s' = s.showing (cleared video j)) ?_ ?_
  · refine congrArg s.showing (funext fun o => ?_)
    rw [cleared, if_neg (by omega)]
  · rintro j column _ rfl
    exact clearLast_spec column video

theorem scrollUp_spec : Meets bad scrollUp (fun _ s' => s' = s.scrolled) s := by
  unfold scrollUp
  have height : stdout.height - 1 = 24 := rfl
  have width : stdout.width = 80 := rfl
  rw [height, width, meets_bind]
  apply copyRows_spec.mono
  rintro _ _ rfl
  rw [meets_bind]
  apply (clearRow_spec _).mono
  rintro _ _ rfl
  rw [meets_bind, meets_get, meets_setPos]
  rfl

/-- The screen after the check for a scroll. -/
def Screen.ready (s : Screen) : Screen := if s.currPos.y = 25 then s.scrolled else s

theorem scrollWhenDue_spec : Meets bad scrollWhenDue (fun _ s' => s' = s.ready) s := by
  unfold scrollWhenDue
  rw [meets_bind, meets_get, Screen.ready]
  have height : stdout.height + stdout.start.y = 25 := rfl
  rw [height]
  by_cases due : s.currPos.y = 25
  · rw [if_pos due, if_pos due]
    exact scrollUp_spec
  · rw [if_neg due, if_neg due, meets_pure]

/-- The cursor is on the screen, or at most one row below it. -/
structure Screen.Placed (s : Screen) : Prop where
  column : s.currPos.x < 80
  row : s.currPos.y ≤ 25

/-- Where the cursor goes after a character. -/
def Vec.next (pos : Vec) : Vec := if pos.x = 79 then ⟨0, pos.y + 1⟩ else ⟨pos.x + 1, pos.y⟩

/-- The screen with a character at the cursor. -/
def Screen.put (s : Screen) (c color : UInt8) (next : Bool) : Screen :=
  { s with
    currPos := if next then s.currPos.next else s.currPos
    video :=
      Function.update (Function.update s.video (s.currPos.x * 2 + s.currPos.y * 160) c)
        (s.currPos.x * 2 + s.currPos.y * 160 + 1) color }

theorem putCharColor_spec (column : s.currPos.x < 80) (row : s.currPos.y < 25)
    (c charColor bgColor : UInt8) (next : Bool) :
    Meets bad (putCharColor c charColor bgColor next)
      (fun _ s' => s' = s.put c ((bgColor <<< 4) ||| charColor) next) s := by
  have target : getPosition s.currPos.y s.currPos.x = s.currPos.x * 2 + s.currPos.y * 160 := by
    unfold getPosition SCREEN_WIDTH
    omega
  have size : videoSize = 4000 := rfl
  unfold putCharColor
  rw [meets_bind, meets_get, meets_bind, meets_poke (by omega), meets_bind, meets_poke (by omega), target]
  cases next with
  | false =>
    rw [if_neg Bool.false_ne_true, meets_pure]
    rfl
  | true =>
    simp only [if_true, goNextPosition, meets_bind, meets_get, meets_setPos]
    have width : stdout.start.x + stdout.width - 1 = 79 := rfl
    have start : stdout.start.x = 0 := rfl
    rw [width, start]
    have column' : (s.currPos.x + 1) % 256 = s.currPos.x + 1 := Nat.mod_eq_of_lt (by omega)
    have row' : (s.currPos.y + 1) % 256 = s.currPos.y + 1 := Nat.mod_eq_of_lt (by omega)
    have moved : (⟨if s.currPos.x = 79 then 0 else (s.currPos.x + 1) % 256,
        if s.currPos.x = 79 then (s.currPos.y + 1) % 256 else s.currPos.y⟩ : Vec) = s.currPos.next := by
      rw [column', row', Vec.next]
      split <;> rfl
    rw [moved]
    rfl

/-- The screen after an ordinary character. -/
def Screen.printed (s : Screen) (c color : UInt8) (next : Bool) : Screen := s.ready.put c color next

theorem ready_column (s : Screen) : s.ready.currPos.x = s.currPos.x := by
  unfold Screen.ready
  split <;> rfl

theorem ready_row (placed : s.Placed) : s.ready.currPos.y < 25 := by
  unfold Screen.ready
  split
  · rename_i due
    simp [Screen.scrolled, due]
  · rename_i early
    exact Nat.lt_of_le_of_ne placed.row early

theorem ready_placed (placed : s.Placed) : s.ready.Placed :=
  ⟨by rw [ready_column]; exact placed.column, Nat.le_of_lt (ready_row placed)⟩

theorem put_placed (column : s.currPos.x < 80) (row : s.currPos.y < 25) (c color : UInt8) (next : Bool) :
    (s.put c color next).Placed := by
  cases next with
  | false => exact ⟨column, Nat.le_of_lt row⟩
  | true =>
    have next : s.currPos.next.x < 80 ∧ s.currPos.next.y ≤ 25 := by
      unfold Vec.next
      split
      · exact ⟨by simp, row⟩
      · dsimp only
        omega
    exact ⟨next.1, next.2⟩

theorem printed_placed (placed : s.Placed) (c color : UInt8) (next : Bool) : (s.printed c color next).Placed :=
  put_placed (by rw [ready_column]; exact placed.column) (ready_row placed) c color next

theorem printOrdinary_spec (placed : s.Placed) (c charColor bgColor : UInt8) (next : Bool) :
    Meets bad (printOrdinary c charColor bgColor next)
      (fun _ s' => s' = s.printed c ((bgColor <<< 4) ||| charColor) next) s := by
  unfold printOrdinary
  rw [meets_bind]
  apply scrollWhenDue_spec.mono
  rintro _ _ rfl
  exact putCharColor_spec (by rw [ready_column]; exact placed.column) (ready_row placed) c charColor bgColor next

/-- A blank, as `newLine` prints it. -/
def Screen.blank (s : Screen) : Screen := s.printed SPACE ((BLACK <<< 4) ||| LGREY) true

theorem blanks_placed (placed : s.Placed) (n : Nat) : (Screen.blank^[n] s).Placed := by
  induction n generalizing s with
  | zero => exact placed
  | succ n ih => exact ih (printed_placed placed ..)

theorem blank_column (s : Screen) : s.blank.currPos.x = if s.currPos.x = 79 then 0 else s.currPos.x + 1 := by
  change (Vec.next s.ready.currPos).x = _
  unfold Vec.next
  rw [ready_column]
  split <;> rfl

theorem newLineLoop_spec (fuel : Nat) (placed : s.Placed) (enough : 80 - s.currPos.x ≤ fuel) :
    Meets bad (newLineLoop fuel) (fun _ s' => s' = Screen.blank^[80 - s.currPos.x] s) s := by
  induction fuel generalizing s with
  | zero =>
    have column := placed.column
    omega
  | succ fuel ih =>
    have column := placed.column
    unfold newLineLoop
    rw [meets_bind]
    apply (printOrdinary_spec placed SPACE LGREY BLACK true).mono
    rintro _ _ rfl
    change Meets bad _ _ s.blank
    have start : stdout.start.x = 0 := rfl
    rw [meets_bind, meets_get, start, blank_column]
    by_cases last : s.currPos.x = 79
    · simp only [last, if_true, ne_eq, not_true, if_false, meets_pure]
      rfl
    · have next : 80 - s.currPos.x = (80 - (s.currPos.x + 1)) + 1 := by omega
      have nextColumn : s.blank.currPos.x = s.currPos.x + 1 := by rw [blank_column, if_neg last]
      have placed' : s.blank.Placed := printed_placed placed ..
      have rest := ih (s := s.blank) placed' (by rw [nextColumn]; omega)
      rw [if_neg last, if_pos (Nat.succ_ne_zero _), next]
      rw [nextColumn] at rest
      exact rest

theorem newLine_spec (placed : s.Placed) :
    Meets bad newLine (fun _ s' => s' = Screen.blank^[80 - s.currPos.x] s) s :=
  newLineLoop_spec 256 placed (Nat.le_trans (Nat.sub_le ..) (by decide))

/-! ## Safety -/

/-- The action ends, without a fault, and leaves the cursor where it should be. -/
abbrev Safe {α : Type} (f : M α) : Prop := Keeps (fun _ => False) Screen.Placed f

theorem safe_printOrdinary (c charColor bgColor : UInt8) (next : Bool) :
    Safe (printOrdinary c charColor bgColor next) := by
  intro s placed
  apply (printOrdinary_spec placed c charColor bgColor next).mono
  rintro _ _ rfl
  exact printed_placed placed ..

theorem safe_newLine : Safe newLine := by
  intro s placed
  apply (newLine_spec placed).mono
  rintro _ _ rfl
  exact blanks_placed placed _

theorem safe_restartCurrentPos : Safe restartCurrentPos := by
  intro s placed
  exact meets_setPos.mpr ⟨Nat.zero_lt_succ _, Nat.zero_le _⟩

theorem safe_clearScreen : Safe clearScreen := by
  apply safe_restartCurrentPos.bind
  intro _
  apply (Keeps.forM _ fun _ _ => safe_newLine).bind
  intro _
  exact safe_restartCurrentPos

theorem safe_deleteChar : Safe deleteChar := by
  intro s placed
  unfold deleteChar
  have column := placed.column
  have row := placed.row
  have startX : stdout.start.x = 0 := rfl
  have startY : stdout.start.y = 0 := rfl
  rw [meets_bind, meets_get, startX, startY, meets_ite]
  constructor
  · intro _
    rw [meets_ite]
    constructor
    · intro below
      rw [meets_bind, meets_setPos]
      apply safe_printOrdinary
      exact ⟨by simp [stdout, SCREEN_WIDTH], by dsimp only; omega⟩
    · intro _
      exact meets_pure.mpr placed
  · intro _
    rw [meets_bind, meets_setPos]
    apply safe_printOrdinary
    exact ⟨by dsimp only; omega, row⟩

theorem safe_printCharColor (c charColor bgColor : UInt8) (next : Bool) :
    Safe (printCharColor c charColor bgColor next) := by
  intro s placed
  unfold printCharColor
  rw [meets_ite]
  constructor
  · intro _
    exact safe_deleteChar s placed
  · intro _
    rw [meets_bind]
    apply scrollWhenDue_spec.mono
    rintro _ _ rfl
    have placed' := ready_placed placed
    rw [meets_ite]
    constructor
    · intro _
      exact safe_newLine _ placed'
    · intro _
      rw [meets_ite]
      constructor
      · intro _
        have blanks := (safe_printOrdinary SPACE charColor bgColor true).bind fun _ =>
          safe_printOrdinary SPACE charColor bgColor true
        exact blanks _ placed'
      · intro _
        apply (putCharColor_spec placed'.column (ready_row placed) c charColor bgColor next).mono
        rintro _ _ rfl
        exact put_placed placed'.column (ready_row placed) ..

theorem safe_setCursor (active : Int) : Safe (setCursor active) := by
  intro s placed
  unfold setCursor
  rw [meets_bind, meets_modify, meets_ite]
  constructor
  · intro _
    exact safe_printCharColor SPACE WHITE BLACK false _ ⟨placed.column, placed.row⟩
  · intro _
    exact meets_pure.mpr ⟨placed.column, placed.row⟩

theorem safe_blinkCursor (ticks : Int) : Safe (blinkCursor ticks) := by
  intro s placed
  unfold blinkCursor
  rw [meets_bind, meets_get]
  split
  · split
    · exact safe_printCharColor SPACE WHITE BLACK false s placed
    · split
      · exact safe_printCharColor UNDERSCORE WHITE BLACK false s placed
      · exact meets_pure.mpr placed
  · exact meets_pure.mpr placed

/-- A call of the console. -/
inductive Call where
  | printCharColor (c charColor bgColor : UInt8) (next : Bool)
  | deleteChar
  | newLine
  | clearScreen
  | setCursor (active : Int)
  | blinkCursor (ticks : Int)

def Call.perform : Call → M Unit
  | .printCharColor c charColor bgColor next => Console.printCharColor c charColor bgColor next
  | .deleteChar => Console.deleteChar
  | .newLine => Console.newLine
  | .clearScreen => Console.clearScreen
  | .setCursor active => Console.setCursor active
  | .blinkCursor ticks => Console.blinkCursor ticks

theorem safe_call (call : Call) : Safe call.perform := by
  cases call with
  | printCharColor c charColor bgColor next => exact safe_printCharColor c charColor bgColor next
  | deleteChar => exact safe_deleteChar
  | newLine => exact safe_newLine
  | clearScreen => exact safe_clearScreen
  | setCursor active => exact safe_setCursor active
  | blinkCursor ticks => exact safe_blinkCursor ticks

/-- The screen when the kernel starts, whatever it shows. -/
def booted (video : Nat → UInt8) : Screen where
  currPos := stdout.start
  video
  cursorActive := 0

/-- **Every call returns** without a look outside of the screen, and leaves the cursor in a
column of the screen and at most one row below it. -/
theorem console_safe (video : Nat → UInt8) (calls : List Call) :
    ∃ s', (calls.forM Call.perform).run (booted video) = .ok ((), s') ∧ s'.currPos.x < 80 ∧ s'.currPos.y ≤ 25 := by
  have placed : (booted video).Placed := ⟨Nat.zero_lt_succ _, Nat.zero_le _⟩
  have safe : Safe (calls.forM Call.perform) := Keeps.forM calls fun call _ => safe_call call
  obtain ⟨_, s', ran, after⟩ := (safe _ placed).returns
  exact ⟨s', ran, after.column, after.row⟩

end QuesOs.Console
