import QuesOs.ConsoleLayout
import QuesOs.Shell
import Mathlib.Data.List.TakeWhile
import Mathlib.Algebra.GroupWithZero.Nat

/-! What the shell echoes, on the console. A tab is two cells there; for a backspace the
shell decides by its buffer how many cells to delete, but looks one place too far: at
what is stored after the deleted character. -/
namespace QuesOs.Console
open Resumption

variable {bad : Fault → Prop} {s : Screen}

/-! ## Where the cursor goes -/

/-- The cursor is in this cell, counted from the first. -/
structure Screen.At (s : Screen) (place : Nat) : Prop where
  column : s.currPos.x < 80
  pos : s.pos = place

theorem Screen.At.row (here : s.At place) (inside : place < 2000) : s.currPos.y < 25 := by
  have pos := here.pos
  unfold Screen.pos at pos
  omega

theorem Screen.At.placed (here : s.At place) (inside : place ≤ 2000) : s.Placed := by
  refine ⟨here.column, ?_⟩
  have pos := here.pos
  unfold Screen.pos at pos
  omega

theorem Screen.At.ready (here : s.At place) (inside : place < 2000) : s.ready = s :=
  if_neg (Nat.ne_of_lt (here.row inside))

theorem Screen.At.printed (here : s.At place) (inside : place < 2000) (c color : UInt8) (next : Bool) :
    (s.printed c color next).At (if next then place + 1 else place) := by
  have column := here.column
  have pos := here.pos
  unfold Screen.printed
  rw [here.ready inside]
  cases next with
  | false => exact ⟨column, pos⟩
  | true =>
    have moved : (s.put c color true).currPos = s.currPos.next := rfl
    unfold Screen.pos at pos
    constructor
    · rw [moved, Vec.next]
      split
      · exact Nat.zero_lt_succ _
      · dsimp only
        omega
    · unfold Screen.pos
      rw [moved, Vec.next, if_pos rfl]
      split
      · dsimp only
        omega
      · dsimp only
        omega

theorem printOrdinary_at (here : s.At place) (inside : place < 2000) (c charColor bgColor : UInt8) (next : Bool) :
    Meets bad (printOrdinary c charColor bgColor next) (fun _ s' => s'.At (if next then place + 1 else place)) s := by
  refine (printOrdinary_spec (here.placed (Nat.le_of_lt inside)) c charColor bgColor next).mono ?_
  rintro _ _ rfl
  exact here.printed inside ..

/-- A backspace goes one cell back. -/
theorem deleteChar_at (here : s.At (place + 1)) (inside : place < 2000) :
    Meets bad deleteChar (fun _ s' => s'.At place) s := by
  have column := here.column
  have pos := here.pos
  unfold Screen.pos at pos
  have startX : stdout.start.x = 0 := rfl
  have startY : stdout.start.y = 0 := rfl
  have width : stdout.width = 80 := rfl
  unfold deleteChar
  rw [meets_bind, meets_get, startX, startY, width, meets_ite]
  constructor
  · intro left
    have below : s.currPos.y > 0 := by omega
    rw [if_pos below, meets_bind, meets_setPos]
    refine printOrdinary_at ⟨?_, ?_⟩ inside SPACE WHITE BLACK false
    · dsimp only
      omega
    · unfold Screen.pos
      dsimp only
      omega
  · intro _
    rw [meets_bind, meets_setPos]
    refine printOrdinary_at ⟨?_, ?_⟩ inside SPACE WHITE BLACK false
    · dsimp only
      omega
    · unfold Screen.pos
      dsimp only
      omega

theorem printCharColor_spec (placed : s.Placed) (c charColor bgColor : UInt8)
    (back : c ≠ BACKSPACE) (newline : c ≠ NEWLINE)
    (tab : c ≠ TAB) : Meets bad (printCharColor c charColor bgColor true)
      (fun _ s' => s' = s.printed c ((bgColor <<< 4) ||| charColor) true) s := by
  have print : Meets bad (printOrdinary c charColor bgColor true) _ s :=
    printOrdinary_spec placed c charColor bgColor true
  unfold printCharColor
  rw [if_neg back, if_neg newline, if_neg tab]
  exact print

theorem printCharColor_at (here : s.At place) (inside : place < 2000)
    (c charColor bgColor : UInt8) (back : c ≠ BACKSPACE)
    (newline : c ≠ NEWLINE) (tab : c ≠ TAB) :
    Meets bad (printCharColor c charColor bgColor true) (fun _ s' => s'.At (place + 1)) s := by
  refine (printCharColor_spec (here.placed (Nat.le_of_lt inside)) c charColor bgColor back newline tab).mono ?_
  rintro _ _ rfl
  exact here.printed inside ..

/-- After a character the cursor is not in the first cell. -/
theorem printed_pos_pos (s : Screen) (c color : UInt8) : 0 < (s.printed c color true).pos := by
  have moved : (s.printed c color true).currPos = s.ready.currPos.next := rfl
  unfold Screen.pos
  rw [moved, Vec.next]
  split
  · dsimp only
    omega
  · exact Nat.succ_pos _

theorem printTab_at (here : s.At place) (inside : place + 1 < 2000) (charColor bgColor : UInt8) :
    Meets bad (printCharColor TAB charColor bgColor true) (fun _ s' => s'.At (place + 2)) s := by
  have low : place < 2000 := Nat.lt_of_succ_lt inside
  unfold printCharColor
  rw [if_neg (by decide), meets_bind]
  refine (scrollWhenDue_spec).mono ?_
  rintro _ _ rfl
  rw [here.ready low, if_neg (by decide), if_pos rfl, meets_bind]
  refine (printOrdinary_at here low ..).mono ?_
  intro _ s' here'
  exact printOrdinary_at here' inside ..

end QuesOs.Console

namespace QuesOs.Shell
open Resumption
open Console (Screen)

def YELLOW : UInt8 := 14

/-- `sysWrite` of a process whose output is the screen. -/
def sysWrite (buffer : List UInt8) (textColor bgColor : UInt8) : Console.M Unit :=
  (buffer.takeWhile (· ≠ 0)).forM fun c => Console.printCharColor c textColor bgColor true

/-- What `_putc` was given, on the screen. -/
def showEcho (echo : List Int8) : Console.M Unit :=
  echo.forM fun c => sysWrite [c.toUInt8] Console.LGREY Console.BLACK

/-- `QUESOS>` -/
def prompt : List UInt8 := [81, 85, 69, 83, 79, 83, 62]

/-! ## What is to come of it -/

def width (c : Int8) : Nat := if c = TAB then 2 else 1

def lineWidth (line : List Int8) : Nat := (line.map width).sum

/-- The cursor is as far from where the prompt ended as the edited line is wide. -/
def CursorMatches (m : Memory) (s : Screen) (text : List Int8) : Prop :=
  ∃ bufferIndex m' echo s', (typeLine (text ++ [NEWLINE])).run m = .ok (bufferIndex, m') ∧ m'.echo = m.echo ++ echo ∧
    (showEcho echo).run s = .ok ((), s') ∧ s'.pos = s.pos + lineWidth (edited text)

/-- Whenever a character is deleted, there is a tab after it in the buffer exactly if it is one. -/
def Matched (buffer : Nat → Int8) (line : List Int8) : List Int8 → Prop
  | [] => True
  | c :: text => (c = BACKSPACE → line ≠ [] → (buffer line.length = TAB ↔ line.getLast? = some TAB)) ∧
    Matched (stored buffer line c) (edit line c) text

instance decidableMatched : ∀ buffer line text, Decidable (Matched buffer line text)
  | _, _, [] => isTrue trivial
  | buffer, line, c :: text =>
    have := decidableMatched (stored buffer line c) (edit line c) text
    inferInstanceAs (Decidable (_ ∧ _))

/-- All that is echoed for a text. -/
def echoes (buffer : Nat → Int8) (line : List Int8) : List Int8 → List Int8
  | [] => []
  | c :: text => echoed buffer line c ++ echoes (stored buffer line c) (edit line c) text

section
variable {m : Memory} {buffer : Nat → Int8} {line text echo echo' : List Int8}

theorem typingLoop_echoes {bad : Fault → Prop} (line text : List Int8) (plain : ∀ c ∈ text, c ≠ NEWLINE ∧ c ≠ EOF)
    (short : ∀ n ≤ text.length, ((text.take n).foldl edit line).length < BUFFER_LENGTH) :
    Meets bad (typingLoop line.length (text ++ [NEWLINE])) (fun _ m' =>
      m'.echo = m.echo ++ echoes m.buffer line text) m := by
  induction text generalizing m line with
  | nil =>
    rw [List.nil_append, typingLoop, if_neg (fun going => going.1 rfl), meets_pure]
    exact (List.append_nil _).symm
  | cons c text ih =>
    have now := short 0 (Nat.zero_le _)
    obtain ⟨newline, eof⟩ := plain c (List.mem_cons_self ..)
    rw [List.cons_append, typingLoop, if_pos ⟨newline, eof, now⟩, meets_bind]
    refine (typeChar_spec c now).mono ?_
    rintro _ _ ⟨rfl, rfl⟩
    refine (ih _ (fun c' member => plain c' (List.mem_cons_of_mem _ member)) fun n low => ?_).mono ?_
    · exact short (n + 1) (Nat.succ_le_succ low)
    · intro _ m' echoed
      rw [echoed, echoes, ← List.append_assoc]
      rfl

/-! ## The echo on the console -/

variable {bad : Console.Fault → Prop} {s : Screen}

theorem toUInt8_injective {c c' : Int8} (same : c.toUInt8 = c'.toUInt8) : c = c' := congrArg Int8.ofUInt8 same

@[simp] theorem meets_showEcho_nil {post : Unit → Screen → Prop} : Meets bad (showEcho []) post s ↔ post () s := Iff.rfl

theorem meets_showEcho_cons {post : Unit → Screen → Prop} (char : c ≠ NUL) :
    Meets bad (showEcho (c :: echo)) post s ↔
      Meets bad (Console.printCharColor c.toUInt8 Console.LGREY Console.BLACK true) (fun _ s' =>
        Meets bad (showEcho echo) post s') s := by
  have other : c.toUInt8 ≠ 0 := fun zero => char (toUInt8_injective zero)
  have write : sysWrite [c.toUInt8] Console.LGREY Console.BLACK =
      (Console.printCharColor c.toUInt8 Console.LGREY Console.BLACK true >>= fun _ => pure ()) := by
    unfold sysWrite
    rw [List.takeWhile_cons_of_pos (by simpa using other)]
    rfl
  unfold showEcho
  rw [List.forM_eq_forM, List.forM_cons, meets_bind, write, meets_bind]
  rfl

theorem meets_showEcho_append {post : Unit → Screen → Prop} :
    Meets bad (showEcho (echo ++ echo')) post s ↔
    Meets bad (showEcho echo) (fun _ s' => Meets bad (showEcho echo') post s') s := by
  unfold showEcho
  rw [List.forM_eq_forM, List.forM_append, meets_bind]

theorem lineWidth_concat (line : List Int8) (c : Int8) : lineWidth (line ++ [c]) = lineWidth line + width c := by
  unfold lineWidth
  rw [List.map_append, List.sum_append]
  simp

theorem showEcho_char (here : s.At place) (char : c ≠ NUL) (back : c ≠ BACKSPACE) (newline : c ≠ NEWLINE)
    (room : place + width c ≤ 2000) : Meets bad (showEcho [c]) (fun _ s' => s'.At (place + width c)) s := by
  rw [meets_showEcho_cons char]
  simp only [meets_showEcho_nil]
  unfold width at room ⊢
  by_cases tab : c = TAB
  · subst tab
    rw [if_pos rfl] at room ⊢
    exact Console.printTab_at here room ..
  · rw [if_neg tab] at room ⊢
    refine Console.printCharColor_at here room _ _ _ ?_ ?_ ?_
    · exact fun same => back (toUInt8_injective same)
    · exact fun same => newline (toUInt8_injective same)
    · exact fun same => tab (toUInt8_injective same)

theorem showEcho_backspace (here : s.At (place + 1)) (room : place < 2000) :
    Meets bad (showEcho [BACKSPACE]) (fun _ s' => s'.At place) s := by
  rw [meets_showEcho_cons (by decide)]
  simp only [meets_showEcho_nil]
  exact Console.deleteChar_at here room

/-- One more character. The cursor stays where it should be unless the wrong number of cells is deleted. -/
theorem showEcho_echoed (here : s.At (start + lineWidth line)) (begun : 0 < start)
    (char : c ≠ NUL) (newline : c ≠ NEWLINE)
    (room : start + lineWidth line ≤ 2000) (room' : start + lineWidth (edit line c) ≤ 2000) :
    Meets bad (showEcho (echoed buffer line c)) (fun _ s' => ∃ place, s'.At place ∧
      (place = start + lineWidth (edit line c) ↔
      (c = BACKSPACE → line ≠ [] → (buffer line.length = TAB ↔ line.getLast? = some TAB)))) s := by
  by_cases back : c = BACKSPACE
  · subst back
    obtain rfl | ⟨front, d, rfl⟩ := List.eq_nil_or_concat line
    · exact ⟨_, here, by simp [edit]⟩
    · rw [List.concat_eq_append] at *
      have shorter : edit (front ++ [d]) BACKSPACE = front := List.dropLast_concat
      rw [lineWidth_concat] at here room
      have wide : width d = 1 ∨ width d = 2 := by
        unfold width
        split <;> simp
      have tab : d = TAB ↔ width d = 2 := by
        unfold width
        split <;> simp [*]
      obtain ⟨place, after⟩ : ∃ place, start + (lineWidth front + width d) = place + 2 :=
        ⟨start + (lineWidth front + width d) - 2, by omega⟩
      rw [after] at here
      have first : Meets bad (showEcho [BACKSPACE]) _ s := showEcho_backspace here (by omega)
      rw [shorter, echoed, if_neg (by simp), if_neg (by simp)]
      simp only [List.getLast?_concat, Option.some.injEq, forall_const, ne_eq, List.append_eq_nil_iff,
        List.cons_ne_self, and_false,
        not_false_eq_true, tab]
      by_cases more : buffer (front ++ [d]).length = TAB
      · rw [if_pos more, ← List.singleton_append, meets_showEcho_append]
        refine first.mono fun _ s' here' => (showEcho_backspace here' (by omega)).mono fun _ s'' here'' =>
          ⟨place, here'', ?_⟩
        simp only [more, true_iff]
        omega
      · rw [if_neg more]
        refine first.mono fun _ s' here' => ⟨place + 1, here', ?_⟩
        simp only [more, false_iff]
        omega
  · have longer : edit line c = line ++ [c] := if_neg back
    rw [longer, lineWidth_concat, ← Nat.add_assoc] at room'
    rw [longer, lineWidth_concat, ← Nat.add_assoc, echoed, if_pos back]
    exact (showEcho_char here char back newline room').mono fun _ s' here' => ⟨_, here', by simp [back]⟩

theorem showEcho_append_run (ran : (showEcho echo).run s = .ok ((), s₁)) :
    (showEcho (echo ++ echo')).run s = (showEcho echo').run s₁ := by
  unfold showEcho at *
  rw [List.forM_eq_forM, List.forM_append, StateT.run_bind, ← List.forM_eq_forM, ran]
  rfl

/-- From a cursor that is where it should be, it always is exactly if what the buffer has is always matched. -/
theorem showEcho_matches (here : s.At (start + lineWidth line)) (begun : 0 < start)
    (plain : ∀ c ∈ text, c ≠ NUL ∧ c ≠ NEWLINE)
    (room : ∀ n ≤ text.length, start + lineWidth ((text.take n).foldl edit line) ≤ 2000) :
    (∀ n ≤ text.length, ∃ s', (showEcho (echoes buffer line (text.take n))).run s = .ok ((), s') ∧
      s'.pos = start + lineWidth ((text.take n).foldl edit line)) ↔ Matched buffer line text := by
  induction text generalizing s buffer line with
  | nil =>
    refine iff_of_true (fun n low => ?_) trivial
    rw [List.take_nil]
    exact ⟨s, rfl, here.pos⟩
  | cons c text ih =>
    obtain ⟨char, newline⟩ := plain c (List.mem_cons_self ..)
    have now := room 0 (Nat.zero_le _)
    have next := room 1 (Nat.succ_le_succ (Nat.zero_le _))
    have step : Meets (fun _ => False) (showEcho (echoed buffer line c)) _ s :=
      showEcho_echoed here begun char newline now next
    obtain ⟨_, s₁, ran, place, here₁, right⟩ := step.returns
    have later (n : Nat) : (showEcho (echoes buffer line ((c :: text).take (n + 1)))).run s =
        (showEcho (echoes (stored buffer line c) (edit line c) (text.take n))).run s₁ := showEcho_append_run ran
    have rest := fun here₁ => @ih (stored buffer line c) (edit line c) s₁ here₁
      (fun c' member => plain c' (List.mem_cons_of_mem _ member)) fun n low => room (n + 1) (Nat.succ_le_succ low)
    constructor
    · intro all
      obtain ⟨s', ran', pos⟩ := all 1 (Nat.succ_le_succ (Nat.zero_le _))
      rw [later 0] at ran'
      cases ran'
      have there : place = start + lineWidth (edit line c) := here₁.pos.symm.trans pos
      refine ⟨right.mp there, (rest (there ▸ here₁)).mp fun n low => ?_⟩
      have after := all (n + 1) (Nat.succ_le_succ low)
      rw [later n] at after
      exact after
    · rintro ⟨matched, others⟩ n low
      cases n with
      | zero => exact ⟨s, rfl, here.pos⟩
      | succ n =>
        rw [later n]
        exact (rest (right.mpr matched ▸ here₁)).mpr others n (Nat.le_of_succ_le_succ low)

theorem cursorMatches_iff (m : Memory) (here : s.At start) (begun : 0 < start)
    (plain : ∀ c ∈ text, c ≠ NUL ∧ c ≠ NEWLINE ∧ c ≠ EOF)
    (short : ∀ n ≤ text.length, (edited (text.take n)).length < BUFFER_LENGTH)
    (room : ∀ n ≤ text.length, start + lineWidth (edited (text.take n)) ≤ 2000) :
    (∀ n ≤ text.length, CursorMatches m s (text.take n)) ↔
    Matched (Function.update m.buffer (BUFFER_LENGTH - 1) NUL) [] text := by
  rw [← showEcho_matches here begun (fun c member => ⟨(plain c member).1, (plain c member).2.1⟩) room]
  refine forall_congr' fun n => forall_congr' fun low => ?_
  have typing : Meets (fun _ => False) (typeLine (text.take n ++ [NEWLINE])) (fun _ m' =>
      m'.echo = m.echo ++ echoes (Function.update m.buffer (BUFFER_LENGTH - 1) NUL) [] (text.take n)) m := by
    unfold typeLine
    rw [meets_bind, meets_writeBuffer (by decide)]
    refine typingLoop_echoes [] _ (fun c member => (plain c (List.mem_of_mem_take member)).2) fun k low' => ?_
    rw [List.take_take]
    exact short _ (by omega)
  obtain ⟨bufferIndex, m', ran, echoed⟩ := typing.returns
  unfold CursorMatches
  rw [ran, here.pos]
  constructor
  · rintro ⟨_, _, echo, s', same, echo', shown, pos⟩
    cases same
    rw [echoed, List.append_cancel_left_eq] at echo'
    exact ⟨s', echo' ▸ shown, pos⟩
  · rintro ⟨s', shown, pos⟩
    exact ⟨bufferIndex, m', _, s', rfl, echoed, shown, pos⟩

/-- The cursor is not in the first cell when the prompt ends. -/
theorem sysWrite_prompt (placed : s.Placed) :
    Meets (fun _ => False) (sysWrite prompt YELLOW Console.BLACK) (fun _ s' => s'.Placed ∧ 0 < s'.pos) s := by
  have chars : prompt.takeWhile (· ≠ 0) = [81, 85, 69, 83, 79, 83] ++ [62] := rfl
  unfold sysWrite
  rw [chars, List.forM_eq_forM, List.forM_append, meets_bind]
  have front :
    Console.Safe ([81, 85, 69, 83, 79, 83].forM fun c => Console.printCharColor c YELLOW Console.BLACK true) :=
    .forM _ fun c _ => Console.safe_printCharColor c YELLOW Console.BLACK true
  refine (front s placed).mono fun _ s' placed' => ?_
  rw [List.forM_cons, meets_bind]
  refine (Console.printCharColor_spec placed' 62 YELLOW Console.BLACK (by decide) (by decide) (by decide)).mono ?_
  rintro _ _ rfl
  exact ⟨Console.printed_placed placed' .., Console.printed_pos_pos s' ..⟩

/-- After the prompt and any text that does not scroll, the cursor is always as far on as the edited line is wide
exactly if what follows a deleted character in the buffer always matches it. -/
theorem echo_matches_iff (m : Memory) (s₀ s : Screen) (placed : s₀.Placed)
    (prompted : (sysWrite prompt YELLOW Console.BLACK).run s₀ = .ok ((), s)) (text : List Int8)
    (plain : ∀ c ∈ text, c ≠ NUL ∧ c ≠ NEWLINE ∧ c ≠ EOF)
    (short : ∀ n ≤ text.length, (edited (text.take n)).length < 1024)
    (room : ∀ n ≤ text.length, s.pos + lineWidth (edited (text.take n)) ≤ 2000) :
    (∀ n ≤ text.length, CursorMatches m s (text.take n)) ↔ Matched (Function.update m.buffer 1023 NUL) [] text := by
  obtain ⟨placed', begun⟩ := (meets_of_run prompted).mp (sysWrite_prompt placed)
  exact cursorMatches_iff m ⟨placed'.column, rfl⟩ begun plain short room

/-- Text without special characters takes a cell for each. -/
theorem sysWrite_at (here : s.At place) (text : List UInt8) (textColor bgColor : UInt8)
    (room : place + text.length ≤ 2000)
    (plain : ∀ c ∈ text, c ≠ 0 ∧ c ≠ Console.BACKSPACE ∧ c ≠ Console.NEWLINE ∧ c ≠ Console.TAB) :
    Meets bad (sysWrite text textColor bgColor) (fun _ s' => s'.At (place + text.length)) s := by
  have whole : text.takeWhile (· ≠ 0) = text :=
    List.takeWhile_eq_self_iff.mpr fun c member => decide_eq_true (plain c member).1
  unfold sysWrite
  rw [whole]
  clear whole
  induction text generalizing place s with
  | nil => exact here
  | cons c text ih =>
    obtain ⟨-, back, newline, tab⟩ := plain c (List.mem_cons_self ..)
    rw [List.length_cons] at room ⊢
    rw [List.forM_eq_forM, List.forM_cons, meets_bind, Nat.add_comm text.length, ← Nat.add_assoc]
    refine (Console.printCharColor_at here (by omega) c textColor bgColor back newline tab).mono fun _ s' here' => ?_
    exact ih here' (by omega) fun c' member => plain c' (List.mem_cons_of_mem _ member)

/-- The prompt at the start of the screen. -/
theorem prompt_at (here : s.At 0) : ∃ s', (sysWrite prompt YELLOW Console.BLACK).run s = .ok ((), s') ∧ s'.At 7 := by
  have plain : ∀ c ∈ prompt, c ≠ 0 ∧ c ≠ Console.BACKSPACE ∧ c ≠ Console.NEWLINE ∧ c ≠ Console.TAB := by decide +kernel
  have room : 0 + prompt.length ≤ 2000 := by simp [prompt]
  obtain ⟨_, s', ran, here'⟩ := (sysWrite_at here prompt YELLOW Console.BLACK room plain).returns
  exact ⟨s', ran, here'⟩

theorem booted_at (video : Nat → UInt8) : (Console.booted video).At 0 := ⟨Nat.zero_lt_succ _, rfl⟩

theorem echo_matches_iff_word :
    ∃ s, (sysWrite prompt YELLOW Console.BLACK).run (Console.booted fun _ => 0) = .ok ((), s) ∧
    ((∀ n ≤ 2, CursorMatches ⟨fun _ => NUL, fun _ => 0, []⟩ s ([97, BACKSPACE].take n)) ↔
      Matched (Function.update (fun _ => NUL) 1023 NUL) [] [97, BACKSPACE]) := by
  obtain ⟨s, ran, here⟩ := prompt_at (booted_at fun _ => 0)
  have placed := (booted_at fun _ => 0).placed (by decide)
  refine ⟨s, ran, echo_matches_iff ⟨fun _ => NUL, fun _ => 0, []⟩ _ s placed ran [97,
    BACKSPACE] (by decide +kernel) (by decide) ?_⟩
  rw [here.pos]
  decide

/-- A tab that is deleted at once. -/
theorem echo_tab_deleted : ¬∀ (m : Memory) (s₀ s : Screen) (text : List Int8), s₀.Placed →
    (sysWrite prompt YELLOW Console.BLACK).run s₀ = .ok ((), s) → (∀ c ∈ text, c ≠ NUL ∧ c ≠ NEWLINE ∧ c ≠ EOF) →
    (∀ n ≤ text.length, (edited (text.take n)).length < 1024) →
    (∀ n ≤ text.length, s.pos + lineWidth (edited (text.take n)) ≤ 2000) → CursorMatches m s text := by
  intro all
  obtain ⟨s, ran, here⟩ := prompt_at (booted_at fun _ => 0)
  have placed := (booted_at fun _ => 0).placed (by decide)
  have room : ∀ n ≤ 2, 7 + lineWidth (edited ([TAB, BACKSPACE].take n)) ≤ 2000 := by decide
  have short : ∀ n ≤ 2, (edited ([TAB, BACKSPACE].take n)).length < 1024 := by decide
  have plain : ∀ c ∈ [TAB, BACKSPACE], c ≠ NUL ∧ c ≠ NEWLINE ∧ c ≠ EOF := by decide +kernel
  have always : ∀ n ≤ 2, CursorMatches ⟨fun _ => NUL, fun _ => 0, []⟩ s ([TAB, BACKSPACE].take n) := by
    intro n low
    refine all _ _ s _ placed ran (fun c member => plain c (List.mem_of_mem_take member)) (fun k _ => ?_) fun k _ => ?_
    · rw [List.take_take]
      exact short _ (by omega)
    · rw [List.take_take, here.pos]
      exact room _ (by omega)
  have matched := (cursorMatches_iff _ here (by decide) plain short room).mp always
  exact absurd matched (by decide +kernel)

end

end QuesOs.Shell
