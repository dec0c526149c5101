import QuesOs.Resumption
import Mathlib.Data.List.Induction
import Mathlib.Logic.Function.Basic

/-! The line reader of `shell.c`. `getCommandLine` edits a line in a static buffer, which
still holds the one before, and splits it there: it puts terminators over separators
and fills `args` with the addresses of the words, here their places in the buffer. A
write outside of one of the arrays is a fault. The characters that `getChar` is going
to deliver are a list; whoever has read them all waits for more. -/
namespace QuesOs.Shell
open Resumption

def BUFFER_LENGTH : Nat := 1024
def MAX_ARGS : Nat := 32

def NUL : Int8 := 0
def BACKSPACE : Int8 := 8
def TAB : Int8 := 9
def NEWLINE : Int8 := 10
def SPACE : Int8 := 32
def EOF : Int8 := -1

/-- The static `buffer`, the array that `args` points to, and what `_putc` was given. -/
structure Memory where
  buffer : Nat → Int8
  args : Nat → Nat
  echo : List Int8

/-- Why a call does not return. -/
inductive Fault where
  | outside
  | waiting

abbrev M := Action Memory Fault

def readBuffer (i : Nat) : M Int8 := do
  if i < BUFFER_LENGTH then return (← get).buffer i
  else throw .outside

def writeBuffer (i : Nat) (c : Int8) : M Unit :=
  if i < BUFFER_LENGTH then modify fun m => { m with buffer := Function.update m.buffer i c }
  else throw .outside

def writeArg (i strStart : Nat) : M Unit :=
  if i < MAX_ARGS then modify fun m => { m with args := Function.update m.args i strStart }
  else throw .outside

def _putc (c : Int8) : M Unit := modify fun m => { m with echo := m.echo ++ [c] }

/-! ## `shell.c` -/

/-- The body of the loop that reads; the next `bufferIndex`. -/
def typeChar (bufferIndex : Nat) (c : Int8) : M Nat := do
  if c = BACKSPACE then
    if bufferIndex > 0 then
      if (← readBuffer bufferIndex) = TAB then _putc c
      writeBuffer bufferIndex NUL
      _putc c
      return bufferIndex - 1
    else return bufferIndex
  else
    writeBuffer bufferIndex c
    _putc c
    return bufferIndex + 1

/-- The loop that reads. The character that ends it is lost. -/
def typingLoop (bufferIndex : Nat) : List Int8 → M Nat
  | [] => throw .waiting
  | c :: input => do
    if c ≠ NEWLINE ∧ c ≠ EOF ∧ bufferIndex < BUFFER_LENGTH then typingLoop (← typeChar bufferIndex c) input
    else return bufferIndex

/-- The first statements of `getCommandLine`. -/
def typeLine (input : List Int8) : M Nat := do
  writeBuffer (BUFFER_LENGTH - 1) NUL
  typingLoop 0 input

/-- The variables of the loop that splits. -/
structure Splitting where
  isPrevChar : Bool
  argIndex : Nat
  strStart : Nat

/-- The body of the loop that splits. -/
def splitChar (i : Nat) (split : Splitting) : M Splitting := do
  let c ← readBuffer i
  if c = SPACE ∧ split.isPrevChar = true then
    writeBuffer i NUL
    writeArg split.argIndex split.strStart
    return { split with isPrevChar := false, argIndex := split.argIndex + 1 }
  else if split.isPrevChar = false ∧ c ≠ SPACE then
    return { split with isPrevChar := true, strStart := i }
  else return split

/-- The loop that splits, from `i` on, with so many rounds to go. -/
def splitLoop : Nat → Nat → Splitting → M Splitting
  | 0, _, split => return split
  | rounds + 1, i, split => do splitLoop rounds (i + 1) (← splitChar i split)

def getCommandLine (input : List Int8) : M Nat := do
  let bufferIndex ← typeLine input
  if bufferIndex = 0 then return 0
  else
    let split ← splitLoop bufferIndex 0 ⟨false, 0, 0⟩
    if split.isPrevChar then
      writeBuffer bufferIndex NUL
      writeArg split.argIndex split.strStart
      return split.argIndex + 1
    else return split.argIndex

/-! ## What is to come of it -/

/-- A backspace removes the last character that remains, if any. -/
def edit (line : List Int8) (c : Int8) : List Int8 := if c = BACKSPACE then line.dropLast else line ++ [c]

/-- The line that these characters make. -/
def edited (text : List Int8) : List Int8 := text.foldl edit []

/-- The line when it is entered; a line that is too long is when there is more. -/
def entered (line : List Int8) : List Int8 → Option (List Int8)
  | [] => none
  | c :: input => if c ≠ NEWLINE ∧ c ≠ EOF ∧ line.length < BUFFER_LENGTH then entered (edit line c) input else some line

def words (line : List Int8) : List (List Int8) := (line.splitOn SPACE).filter (· ≠ [])

/-- These characters are in the buffer, from `start` on. -/
def Reads (buffer : Nat → Int8) (start : Nat) (text : List Int8) : Prop :=
  ∀ i c, text[i]? = some c → buffer (start + i) = c

/-- The terminated string at `start`. -/
def CString (buffer : Nat → Int8) (start : Nat) (word : List Int8) : Prop :=
  NUL ∉ word ∧ Reads buffer start (word ++ [NUL])

/-- There is room for the last terminator, if there is one, and for every word. -/
def Fits (line : List Int8) : Prop :=
  (line.length < BUFFER_LENGTH ∨ line.getLast? = some SPACE) ∧ (words line).length ≤ MAX_ARGS

instance (line : List Int8) : Decidable (Fits line) := inferInstanceAs (Decidable (_ ∧ _))

/-! ## Actions -/

section
variable {bad : Fault → Prop} {m : Memory}

theorem meets_readBuffer {post : Int8 → Memory → Prop} (inside : i < BUFFER_LENGTH) :
    Meets bad (readBuffer i) post m ↔ post (m.buffer i) m := by
  unfold readBuffer
  rw [if_pos inside]
  rfl

theorem meets_writeBuffer {post : Unit → Memory → Prop} (inside : i < BUFFER_LENGTH) :
    Meets bad (writeBuffer i c) post m ↔ post () { m with buffer := Function.update m.buffer i c } := by
  unfold writeBuffer
  rw [if_pos inside, meets_modify]

theorem meets_writeArg {post : Unit → Memory → Prop} (inside : i < MAX_ARGS) :
    Meets bad (writeArg i strStart) post m ↔ post () { m with args := Function.update m.args i strStart } := by
  unfold writeArg
  rw [if_pos inside, meets_modify]

theorem meets_writeBuffer_outside {post : Unit → Memory → Prop} (outside : BUFFER_LENGTH ≤ i) :
    Meets bad (writeBuffer i c) post m ↔ bad .outside := by
  unfold writeBuffer
  rw [if_neg (Nat.not_lt.mpr outside), meets_throw]

theorem meets_writeArg_outside {post : Unit → Memory → Prop} (outside : MAX_ARGS ≤ i) :
    Meets bad (writeArg i strStart) post m ↔ bad .outside := by
  unfold writeArg
  rw [if_neg (Nat.not_lt.mpr outside), meets_throw]

@[simp] theorem meets_putc {post : Unit → Memory → Prop} :
    Meets bad (_putc c) post m ↔ post () { m with echo := m.echo ++ [c] } := Iff.rfl

end

/-! ## Text in the buffer -/

section
variable {buffer buffer' : Nat → Int8}

theorem reads_nil : Reads buffer start [] := by
  intro i c found
  cases found

theorem reads_append : Reads buffer start (text ++ text') ↔ Reads buffer start text ∧
    Reads buffer (start + text.length) text' := by
  constructor
  · intro reads
    constructor
    · intro i c found
      refine reads i c ?_
      rw [List.getElem?_append_left (List.getElem?_eq_some_iff.mp found).1, found]
    · intro i c found
      rw [Nat.add_assoc]
      refine reads _ c ?_
      rw [List.getElem?_append_right (Nat.le_add_right ..), Nat.add_sub_cancel_left, found]
  · rintro ⟨first, second⟩ i c found
    by_cases low : i < text.length
    · rw [List.getElem?_append_left low] at found
      exact first i c found
    · rw [List.getElem?_append_right (Nat.not_lt.mp low)] at found
      have there := second _ c found
      rwa [Nat.add_assoc, Nat.add_sub_cancel' (Nat.not_lt.mp low)] at there

theorem reads_cons : Reads buffer start (c :: text) ↔ buffer start = c ∧ Reads buffer (start + 1) text := by
  rw [← List.singleton_append, reads_append]
  refine and_congr_left' ⟨fun reads => reads 0 c rfl, ?_⟩
  rintro rfl (_ | i) c found
  · exact Option.some.inj found
  · cases found

theorem reads_singleton : Reads buffer start [c] ↔ buffer start = c := by
  rw [reads_cons]
  exact and_iff_left reads_nil

/-- Text that lies where nothing changed. -/
theorem Reads.frame (reads : Reads buffer start text)
    (same : ∀ i, start ≤ i → i < start + text.length → buffer' i = buffer i) : Reads buffer' start text := by
  intro i c found
  have low := (List.getElem?_eq_some_iff.mp found).1
  rw [same _ (Nat.le_add_right ..) (Nat.add_lt_add_left low _)]
  exact reads i c found

/-- Text that lies before or after the character that is written. -/
theorem Reads.update (reads : Reads buffer start text) (apart : i < start ∨ start + text.length ≤ i) :
    Reads (Function.update buffer i c) start text := by
  refine reads.frame fun j low high => Function.update_of_ne ?_ ..
  omega

end

/-! ## Words -/

theorem words_nil : words [] = [] := rfl

theorem words_append_space (line rest : List Int8) : words (line ++ SPACE :: rest) = words line ++ words rest := by
  unfold words
  rw [List.splitOn_append_cons_self, List.filter_append]

/-- A word is the only word of itself. -/
theorem words_word (single : SPACE ∉ word) (some : word ≠ []) : words word = [word] := by
  unfold words
  rw [List.splitOn_eq_singleton single]
  simp [some]

/-! ## Reading -/

section
variable {bad : Fault → Prop} {m : Memory} {line : List Int8}

/-- The buffer after one more character. -/
def stored (buffer : Nat → Int8) (line : List Int8) (c : Int8) : Nat → Int8 :=
  if c ≠ BACKSPACE then Function.update buffer line.length c
  else if line = [] then buffer
  else Function.update buffer line.length NUL

/-- What is echoed for it. A backspace is echoed twice when the cell behind the line has a tab. -/
def echoed (buffer : Nat → Int8) (line : List Int8) (c : Int8) : List Int8 :=
  if c ≠ BACKSPACE then [c]
  else if line = [] then []
  else if buffer line.length = TAB then [c, c]
  else [c]

def Memory.typed (m : Memory) (line : List Int8) (c : Int8) : Memory :=
  { m with buffer := stored m.buffer line c, echo := m.echo ++ echoed m.buffer line c }

theorem typeChar_spec (c : Int8) (short : line.length < BUFFER_LENGTH) :
    Meets bad (typeChar line.length c) (fun bufferIndex m' => bufferIndex = (edit line c).length ∧
      m' = m.typed line c) m := by
  unfold typeChar edit Memory.typed stored echoed
  by_cases back : c = BACKSPACE
  · subst back
    simp only [ne_eq, not_true_eq_false, if_true, if_false]
    by_cases empty : line = []
    · subst empty
      simp only [List.length_nil, gt_iff_lt, Nat.lt_irrefl, if_true, if_false, List.append_nil]
      exact ⟨rfl, rfl⟩
    · rw [if_pos (List.length_pos_iff.mpr empty), if_neg empty, if_neg empty, meets_bind, meets_readBuffer short]
      by_cases tab : m.buffer line.length = TAB
      · rw [if_pos tab, if_pos tab, meets_bind, meets_putc, meets_bind, meets_writeBuffer short,
          meets_bind, meets_putc, meets_pure,
          List.length_dropLast]
        refine ⟨rfl, ?_⟩
        rw [← List.singleton_append (l := [BACKSPACE]), ← List.append_assoc]
      · rw [if_neg tab, if_neg tab, meets_bind, meets_writeBuffer short, meets_bind, meets_putc,
          meets_pure, List.length_dropLast]
        exact ⟨rfl, rfl⟩
  · rw [if_neg back, if_neg back, if_pos back, if_pos back, meets_bind, meets_writeBuffer short,
      meets_bind, meets_putc, meets_pure,
      List.length_append]
    exact ⟨rfl, rfl⟩

theorem stored_reads {buffer : Nat → Int8} (reads : Reads buffer 0 line) (c : Int8) :
    Reads (stored buffer line c) 0 (edit line c) := by
  unfold stored edit
  by_cases back : c = BACKSPACE
  · simp only [back, ne_eq, not_true_eq_false, if_false, if_true]
    by_cases empty : line = []
    · rw [empty]
      exact reads_nil
    · rw [if_neg empty]
      have kept : Reads buffer 0 line.dropLast := by
        rw [← List.dropLast_concat_getLast empty, reads_append] at reads
        exact reads.1
      refine kept.update (.inr ?_)
      simp
  · simp only [back, ne_eq, not_false_eq_true, if_true, if_false]
    rw [reads_append, reads_singleton, Nat.zero_add, Function.update_self]
    exact ⟨reads.update (.inr (by simp)), rfl⟩

theorem length_edit_le (line : List Int8) (c : Int8) : (edit line c).length ≤ line.length + 1 := by
  unfold edit
  split
  · rw [List.length_dropLast]
    omega
  · rw [List.length_append]
    exact Nat.le_refl _

/-- The line that is entered is in the buffer. -/
theorem typingLoop_spec (line input : List Int8) (reads : Reads m.buffer 0 line) (short : line.length ≤ BUFFER_LENGTH) :
    Meets (fun e => e = .waiting ∧ entered line input = none) (typingLoop line.length input) (fun bufferIndex m' =>
      ∃ line', entered line input = some line' ∧ bufferIndex = line'.length ∧ line'.length ≤ BUFFER_LENGTH ∧
        Reads m'.buffer 0 line') m := by
  induction input generalizing m line with
  | nil => exact ⟨rfl, rfl⟩
  | cons c input ih =>
    unfold typingLoop entered
    by_cases more : c ≠ NEWLINE ∧ c ≠ EOF ∧ line.length < BUFFER_LENGTH
    · rw [if_pos more, if_pos more, meets_bind]
      refine (typeChar_spec c more.2.2).mono ?_
      rintro _ _ ⟨rfl, rfl⟩
      exact ih _ (stored_reads reads c) (Nat.le_trans (length_edit_le line c) more.2.2)
    · rw [if_neg more, if_neg more, meets_pure]
      exact ⟨line, rfl, rfl, short, reads⟩

end

/-! ## Splitting -/

/-- How far the line is split: the words of `before` are done, `word` is the one that the loop is in, `rest` is
still to be looked at. -/
structure Divided (m : Memory) (before word rest : List Int8) (split : Splitting) : Prop where
  ended : before = [] ∨ ∃ front, before = front ++ [SPACE]
  single : SPACE ∉ word
  isPrevChar : split.isPrevChar = true ↔ word ≠ []
  strStart : word ≠ [] → split.strStart = before.length
  argIndex : split.argIndex = (words before).length
  few : split.argIndex ≤ MAX_ARGS
  strings : ∀ i w, (words before)[i]? = some w → m.args i + w.length < before.length ∧
  Reads m.buffer (m.args i) (w ++ [NUL])
  unread : Reads m.buffer before.length (word ++ rest)

namespace Divided
variable {m : Memory} {before word rest : List Int8} {split : Splitting}

theorem words_append (divided : Divided m before word rest split) (rest' : List Int8) :
    words (before ++ rest') = words before ++ words rest' := by
  obtain rfl | ⟨front, rfl⟩ := divided.ended
  · rfl
  · rw [List.append_assoc, List.singleton_append, words_append_space, words_append_space, words_nil, List.append_nil]

theorem words_line (divided : Divided m before word rest split) (some : word ≠ []) (rest' : List Int8) :
    words (before ++ word ++ SPACE :: rest') = words before ++ word :: words rest' := by
  rw [words_append_space, divided.words_append, words_word divided.single some, List.append_assoc]
  rfl

theorem argIndex_lt (divided : Divided m before word rest split) (some : word ≠ []) (rest' : List Int8) :
    split.argIndex < (words (before ++ word ++ SPACE :: rest')).length := by
  rw [divided.words_line some, divided.argIndex, List.length_append, List.length_cons]
  omega

/-- A word gets its terminator and its place among `args`. -/
theorem strings_filed (divided : Divided m before word rest split) (some : word ≠ []) (i : Nat) (w : List Int8)
    (found : (words before ++ [word])[i]? = .some w) :
    Function.update m.args split.argIndex split.strStart i + w.length < (before ++ word).length + 1 ∧
      Reads (Function.update m.buffer (before ++ word).length NUL)
        (Function.update m.args split.argIndex split.strStart i) (w ++ [NUL]) := by
  rw [List.length_append]
  by_cases old : i < (words before).length
  · rw [List.getElem?_append_left old] at found
    have other : i ≠ split.argIndex := divided.argIndex ▸ Nat.ne_of_lt old
    obtain ⟨low, reads⟩ := divided.strings i w found
    rw [Function.update_of_ne other]
    refine ⟨by omega, reads.update (.inr ?_)⟩
    rw [List.length_append, List.length_singleton]
    omega
  · rw [List.getElem?_append_right (Nat.not_lt.mp old), List.getElem?_singleton] at found
    split at found
    · cases found
      have this : i = split.argIndex := by
        have := divided.argIndex
        omega
      rw [this, Function.update_self, divided.strStart some, reads_append, reads_singleton, Function.update_self]
      refine ⟨Nat.lt_succ_self _, ((reads_append.mp divided.unread).1).update (.inr (Nat.le_refl _)), rfl⟩
    · cases found

end Divided

section
variable {m : Memory} {before word rest : List Int8} {split : Splitting}

theorem splitChar_spec (divided : Divided m before word (c :: rest) split)
    (inside : (before ++ word).length < BUFFER_LENGTH) :
    Meets (fun e => e = .outside ∧ MAX_ARGS < (words (before ++ word ++ c :: rest)).length)
      (splitChar (before ++ word).length split) (fun split' m' => ∃ before' word',
        before' ++ word' = before ++ word ++ [c] ∧ Divided m' before' word' rest split') m := by
  have read : m.buffer (before ++ word).length = c := by
    have later := (reads_append.mp divided.unread).2
    rw [reads_cons, ← List.length_append] at later
    exact later.1
  unfold splitChar
  rw [meets_bind, meets_readBuffer inside, read, meets_ite, meets_ite]
  constructor
  · rintro ⟨rfl, isPrevChar⟩
    have some := divided.isPrevChar.mp isPrevChar
    rw [meets_bind, meets_writeBuffer inside, meets_bind]
    by_cases room : split.argIndex < MAX_ARGS
    · rw [meets_writeArg room, meets_pure]
      have filed := words_append_space (before ++ word) []
      rw [divided.words_append, words_word divided.single some, words_nil, List.append_nil] at filed
      have longer : (before ++ word ++ [SPACE]).length = (before ++ word).length + 1 := by
        rw [List.length_append, List.length_singleton]
      refine ⟨before ++ word ++ [SPACE], [], by simp, ?_⟩
      constructor
      case ended => exact .inr ⟨_, rfl⟩
      case single => simp
      case isPrevChar => simp
      case strStart => simp
      case argIndex =>
        rw [filed, List.length_append, divided.argIndex]
        rfl
      case few => exact room
      case strings =>
        intro i w found
        rw [filed] at found
        have here := divided.strings_filed some i w found
        rw [longer]
        exact here
      case unread =>
        have later := (reads_append.mp divided.unread).2
        rw [reads_cons, ← List.length_append] at later
        rw [List.nil_append, longer]
        exact later.2.update (.inl (Nat.lt_succ_self _))
    · rw [meets_writeArg_outside (Nat.not_lt.mp room)]
      exact ⟨rfl, Nat.lt_of_le_of_lt (Nat.not_lt.mp room) (divided.argIndex_lt some rest)⟩
  · intro going
    constructor
    · rintro ⟨first, char⟩
      have empty : word = [] := by
        by_contra some
        rw [divided.isPrevChar.mpr some] at first
        cases first
      subst empty
      refine ⟨before, [c],
        by simp, divided.ended, by simpa using char.symm, by simp, fun _ => by simp, divided.argIndex,
        divided.few, divided.strings, divided.unread⟩
    · intro between
      by_cases space : c = SPACE
      · have empty : word = [] := by
          by_contra some
          exact going ⟨space, divided.isPrevChar.mpr some⟩
        subst empty
        have same : words (before ++ [c]) = words before := by
          rw [space, words_append_space, words_nil, List.append_nil]
        refine ⟨before ++ [c], [], by simp, .inr ⟨before, space ▸ rfl⟩, by simp, divided.isPrevChar, by simp, ?_,
          divided.few, fun i w found => ?_, ?_⟩
        · rw [same]
          exact divided.argIndex
        · rw [same] at found
          obtain ⟨low, reads⟩ := divided.strings i w found
          refine ⟨?_, reads⟩
          rw [List.length_append]
          omega
        · have later := divided.unread
          rw [List.nil_append, reads_cons] at later
          rw [List.length_append]
          exact later.2
      · have inWord : word ≠ [] := by
          refine divided.isPrevChar.mp ?_
          by_contra first
          exact between ⟨Bool.not_eq_true _ ▸ first, space⟩
        refine ⟨before, word ++ [c], by simp, divided.ended, ?_, ?_, fun _ => divided.strStart inWord, divided.argIndex,
          divided.few, divided.strings, ?_⟩
        · simp only [List.mem_append, List.mem_singleton, not_or]
          exact ⟨divided.single, fun same => space same.symm⟩
        · simpa [inWord] using divided.isPrevChar
        · simpa using divided.unread

theorem splitLoop_spec (divided : Divided m before word rest split)
    (inside : (before ++ word ++ rest).length ≤ BUFFER_LENGTH) :
    Meets (fun e => e = .outside ∧ MAX_ARGS < (words (before ++ word ++ rest)).length)
      (splitLoop rest.length (before ++ word).length split) (fun split' m' => ∃ before' word',
        before' ++ word' = before ++ word ++ rest ∧ Divided m' before' word' [] split') m := by
  induction rest generalizing m before word split with
  | nil => exact ⟨before, word, by simp, divided⟩
  | cons c rest ih =>
    have whole : (before ++ word ++ c :: rest).length = (before ++ word).length + rest.length + 1 := by
      simp only [List.length_append, List.length_cons]
      omega
    rw [List.length_cons, splitLoop, meets_bind]
    refine (splitChar_spec divided (by omega)).mono ?_
    rintro split' m' ⟨before', word', same, divided'⟩
    have next : (before ++ word).length + 1 = (before' ++ word').length := by
      rw [same]
      simp only [List.length_append, List.length_singleton]
    have line : before' ++ word' ++ rest = before ++ word ++ c :: rest := by
      rw [same, List.append_assoc, List.singleton_append]
    rw [next, ← line]
    rw [← line] at inside
    exact ih divided' inside

end

/-! ## The line reader -/

section
variable {m : Memory} {line : List Int8}

theorem divided_start (reads : Reads m.buffer 0 line) : Divided m [] [] line ⟨false, 0, 0⟩ := by
  constructor
  case ended => exact .inl rfl
  case single => simp
  case isPrevChar => simp
  case strStart => simp
  case argIndex => rfl
  case few => exact Nat.zero_le _
  case strings =>
    intro i w found
    cases found
  case unread => exact reads

/-- A line that ends in a word does not end in a space. -/
theorem last_word (single : SPACE ∉ word) (some : word ≠ []) (before : List Int8) :
    (before ++ word).getLast? ≠ .some SPACE := by
  intro last
  rw [List.getLast?_append, List.getLast?_eq_some_getLast some, Option.some_or] at last
  exact single (Option.some.inj last ▸ List.getLast_mem some)

/-- What is left to do when the line is split. -/
theorem finish_spec {before word : List Int8} {split : Splitting} (divided : Divided m before word [] split)
    (short : (before ++ word).length ≤ BUFFER_LENGTH) : Meets (fun e => e = .outside ∧ ¬Fits (before ++ word))
      (if split.isPrevChar then do
        writeBuffer (before ++ word).length NUL
        writeArg split.argIndex split.strStart
        return split.argIndex + 1
      else return split.argIndex) (fun count m' => Fits (before ++ word) ∧ count = (words (before ++ word)).length ∧
        ∀ i w, (words (before ++ word))[i]? = some w → Reads m'.buffer (m'.args i) (w ++ [NUL])) m := by
  rw [meets_ite]
  constructor
  · intro isPrevChar
    have some := divided.isPrevChar.mp isPrevChar
    have last := last_word divided.single some before
    have all : words (before ++ word) = words before ++ [word] := by
      rw [divided.words_append, words_word divided.single some]
    have count : (words (before ++ word)).length = split.argIndex + 1 := by
      rw [all, List.length_append, divided.argIndex]
      rfl
    rw [meets_bind]
    by_cases inside : (before ++ word).length < BUFFER_LENGTH
    · rw [meets_writeBuffer inside, meets_bind]
      by_cases room : split.argIndex < MAX_ARGS
      · rw [meets_writeArg room, meets_pure]
        refine ⟨⟨.inl inside, ?_⟩, count.symm, fun i w found => ?_⟩
        · rw [count]
          exact room
        · rw [all] at found
          exact (divided.strings_filed some i w found).2
      · rw [meets_writeArg_outside (Nat.not_lt.mp room)]
        refine ⟨rfl, fun fits => ?_⟩
        have few := fits.2
        rw [count] at few
        exact room few
    · rw [meets_writeBuffer_outside (Nat.not_lt.mp inside)]
      refine ⟨rfl, fun fits => ?_⟩
      cases fits.1 with
      | inl low => exact inside low
      | inr space => exact last space
  · intro between
    have empty : word = [] := by
      by_contra some
      exact between (divided.isPrevChar.mpr some)
    subst empty
    rw [List.append_nil] at short ⊢
    refine ⟨⟨?_, ?_⟩, divided.argIndex, fun i w found => (divided.strings i w found).2⟩
    · obtain rfl | ⟨front, rfl⟩ := divided.ended
      · exact .inl (by decide)
      · exact .inr (by simp)
    · rw [← divided.argIndex]
      exact divided.few

theorem getCommandLine_spec (m : Memory) (input : List Int8) :
    Meets (fun e => e = .waiting ∧ entered [] input = none ∨ e = .outside ∧
      ∃ line, entered [] input = some line ∧ ¬Fits line)
      (getCommandLine input) (fun count m' => ∃ line, entered [] input = some line ∧ Fits line ∧
        count = (words line).length ∧
        ∀ i w, (words line)[i]? = some w → Reads m'.buffer (m'.args i) (w ++ [NUL])) m := by
  unfold getCommandLine typeLine
  rw [meets_bind, meets_bind, meets_writeBuffer (by decide)]
  refine ((typingLoop_spec [] input reads_nil (Nat.zero_le _)).allow fun e => .inl).mono ?_
  rintro _ m₁ ⟨line, typed, rfl, short, reads⟩
  rw [meets_ite]
  constructor
  · intro empty
    obtain rfl := List.eq_nil_of_length_eq_zero empty
    exact ⟨[], typed, by decide, rfl, fun i w found => by cases found⟩
  · intro _
    rw [meets_bind]
    refine ((splitLoop_spec (divided_start reads) short).allow ?_).mono ?_
    · rintro e ⟨rfl, many⟩
      exact .inr ⟨rfl, line, typed, fun fits => Nat.not_le_of_lt many fits.2⟩
    · rintro split m₂ ⟨before, word, whole, divided⟩
      rw [List.nil_append, List.nil_append] at whole
      rw [← whole] at short typed ⊢
      refine ((finish_spec divided short).allow ?_).mono ?_
      · rintro e ⟨rfl, cut⟩
        exact .inr ⟨rfl, _, typed, cut⟩
      · rintro count m₃ ⟨fits, rfl, strings⟩
        exact ⟨_, typed, fits, rfl, strings⟩

theorem getCommandLine_returns (m : Memory) (typed : entered [] input = some line) (fits : Fits line) :
    ∃ m', (getCommandLine input).run m = .ok ((words line).length, m') ∧
      ∀ i w, (words line)[i]? = some w → Reads m'.buffer (m'.args i) (w ++ [NUL]) := by
  have spec := getCommandLine_spec m input
  rw [typed] at spec
  have returns : Meets (fun _ => False) (getCommandLine input) (fun count m' => count = (words line).length ∧
      ∀ i w, (words line)[i]? = some w → Reads m'.buffer (m'.args i) (w ++ [NUL])) m := by
    refine (spec.mono ?_).allow ?_
    · rintro count m' ⟨_, same, -, rfl, strings⟩
      cases same
      exact ⟨rfl, strings⟩
    · rintro e (⟨-, nothing⟩ | ⟨-, _, same, cut⟩)
      · cases nothing
      · cases same
        exact cut fits
  obtain ⟨_, m', ran, rfl, strings⟩ := returns.returns
  exact ⟨m', ran, strings⟩

theorem getCommandLine_overflows (m : Memory) (typed : entered [] input = some line) (cut : ¬Fits line) :
    (getCommandLine input).run m = .error .outside := by
  have spec := getCommandLine_spec m input
  unfold Meets at spec
  rw [typed] at spec
  cases ran : (getCommandLine input).run m with
  | ok result =>
    rw [ran] at spec
    obtain ⟨_, same, fits, -⟩ := spec
    cases same
    exact (cut fits).elim
  | error e =>
    rw [ran] at spec
    obtain ⟨-, nothing⟩ | ⟨rfl, -⟩ := spec
    · cases nothing
    · rfl

theorem getCommandLine_waits (m : Memory) (typed : entered [] input = none) :
    (getCommandLine input).run m = .error .waiting := by
  have spec := getCommandLine_spec m input
  unfold Meets at spec
  rw [typed] at spec
  cases ran : (getCommandLine input).run m with
  | ok result =>
    rw [ran] at spec
    obtain ⟨_, same, -⟩ := spec
    cases same
  | error e =>
    rw [ran] at spec
    obtain ⟨rfl, -⟩ | ⟨-, _, same, -⟩ := spec
    · rfl
    · cases same

/-- The line reader stays in its arrays exactly when the line that is entered fits. -/
theorem getCommandLine_inside (m : Memory) (input : List Int8) :
    (getCommandLine input).run m ≠ .error .outside ↔ ∀ line, entered [] input = some line → Fits line := by
  cases typed : entered [] input with
  | none =>
    rw [getCommandLine_waits m typed]
    exact ⟨fun _ _ => nofun, fun _ => nofun⟩
  | some line =>
    by_cases fits : Fits line
    · obtain ⟨m', ran, -⟩ := getCommandLine_returns m typed fits
      rw [ran]
      refine ⟨fun _ line' same => ?_, fun _ => nofun⟩
      cases same
      exact fits
    · rw [getCommandLine_overflows m typed fits]
      exact ⟨fun inside => (inside rfl).elim, fun all => (fits (all line rfl)).elim⟩

/-- Thirty-three words of one letter. -/
def crowded : List Int8 := (List.replicate 33 [97, SPACE]).flatten

theorem getCommandLine_crowded : ¬∀ m input, (getCommandLine input).run m ≠ .error .outside := by
  intro inside
  have typed : entered [] (crowded ++ [NEWLINE]) = some crowded := by decide +kernel
  exact inside ⟨fun _ => NUL, fun _ => 0, []⟩ _ (getCommandLine_overflows _ typed (by decide +kernel))

/-! ## The words -/

theorem edited_concat (text : List Int8) (c : Int8) : edited (text ++ [c]) = edit (edited text) c := by
  unfold edited
  rw [List.foldl_append]
  rfl

/-- A line that stays short enough is entered as it is edited. -/
theorem entered_edited (front text rest : List Int8) (last : Int8) (going : ∀ c ∈ text, c ≠ NEWLINE ∧ c ≠ EOF)
    (ends : last = NEWLINE ∨ last = EOF)
    (short : ∀ n < text.length, (edited (front ++ text.take n)).length < BUFFER_LENGTH) :
    entered (edited front) (text ++ last :: rest) = some (edited (front ++ text)) := by
  induction text generalizing front with
  | nil =>
    have stop : ¬(last ≠ NEWLINE ∧ last ≠ EOF ∧ (edited front).length < BUFFER_LENGTH) := by
      rintro ⟨line, file, -⟩
      cases ends with
      | inl newline => exact line newline
      | inr eof => exact file eof
    rw [List.nil_append, entered, if_neg stop, List.append_nil]
  | cons c text ih =>
    have now := short 0 (by simp)
    rw [List.take_zero, List.append_nil] at now
    obtain ⟨line, file⟩ := going c (List.mem_cons_self ..)
    rw [List.cons_append, entered, if_pos ⟨line, file, now⟩, ← edited_concat]
    rw [ih (front ++ [c]) (fun c' member => going c' (List.mem_cons_of_mem _ member)) fun n low => ?_]
    · rw [List.append_assoc, List.singleton_append]
    · have later := short (n + 1) (by simpa using low)
      rwa [List.take_succ_cons, ← List.singleton_append, ← List.append_assoc] at later

theorem mem_edit (member : c ∈ edit line c') : c ∈ line ∨ c = c' := by
  unfold edit at member
  split at member
  · exact .inl (List.dropLast_subset _ member)
  · simpa using member

/-- What is in the line was typed. -/
theorem mem_edited (text : List Int8) (member : c ∈ edited text) : c ∈ text := by
  induction text using List.reverseRecOn with
  | nil => cases member
  | append_singleton text c' ih =>
    rw [edited_concat] at member
    cases mem_edit member with
    | inl old => exact List.mem_append_left _ (ih old)
    | inr new => simp [new]

theorem mem_splitOn (line : List Int8) (listed : piece ∈ line.splitOn SPACE) (member : c ∈ piece) : c ∈ line := by
  induction line generalizing piece with
  | nil =>
    rw [List.splitOn_nil, List.mem_singleton] at listed
    exact listed ▸ member
  | cons c' line ih =>
    rw [List.splitOn_cons_eq_if_modifyHead] at listed
    split at listed
    · cases List.mem_cons.mp listed with
      | inl empty =>
        rw [empty] at member
        cases member
      | inr later => exact List.mem_cons_of_mem _ (ih later member)
    · cases pieces : line.splitOn SPACE with
      | nil =>
        rw [pieces] at listed
        cases listed
      | cons first others =>
        rw [pieces] at listed ih
        cases List.mem_cons.mp listed with
        | inl here =>
          rw [here, List.mem_cons] at member
          cases member with
          | inl this => exact this ▸ List.mem_cons_self ..
          | inr inside => exact List.mem_cons_of_mem _ (ih (List.mem_cons_self ..) inside)
        | inr later => exact List.mem_cons_of_mem _ (ih (List.mem_cons_of_mem _ later) member)

/-- Whatever was in the buffer, a line that is not too long is split into its words. -/
theorem getCommandLine_words (m : Memory) (text rest : List Int8) (last : Int8)
    (plain : ∀ c ∈ text, c ≠ NUL ∧ c ≠ NEWLINE ∧ c ≠ EOF) (ends : last = NEWLINE ∨ last = EOF)
    (short : ∀ n ≤ text.length, (edited (text.take n)).length ≤ 1023) (few : (words (edited text)).length ≤ 32) :
    ∃ m', (getCommandLine (text ++ last :: rest)).run m = .ok ((words (edited text)).length, m') ∧
      ∀ i w, (words (edited text))[i]? = some w → CString m'.buffer (m'.args i) w := by
  have typed := entered_edited [] text rest last (fun c member => (plain c member).2) ends
    fun n low => Nat.lt_succ_of_le (short n (Nat.le_of_lt low))
  have whole := short text.length (Nat.le_refl _)
  rw [List.take_length] at whole
  obtain ⟨m', ran, strings⟩ := getCommandLine_returns m typed ⟨.inl (Nat.lt_succ_of_le whole), few⟩
  refine ⟨m', ran, fun i w found => ⟨fun nul => ?_, strings i w found⟩⟩
  have listed := (List.mem_filter.mp (List.mem_of_getElem? found)).1
  exact (plain NUL (mem_edited text (mem_splitOn _ listed nul))).1 rfl

/-- Two words, with a correction, more spaces than needed and more typed after. -/
theorem getCommandLine_words_two :
    ∃ m', (getCommandLine ([SPACE, 97, 99, BACKSPACE, 98, SPACE, SPACE, 99] ++ NEWLINE :: [100])).run
      ⟨fun _ => TAB, fun _ => 7, []⟩ = .ok (2, m') ∧ ∀ i w, [[97, 98], [99]][i]? = some w →
      CString m'.buffer (m'.args i) w :=
  getCommandLine_words _ [SPACE, 97, 99, BACKSPACE, 98, SPACE, SPACE, 99] [100] NEWLINE
    (by decide +kernel) (.inl rfl) (by decide)
    (by decide)

end

end QuesOs.Shell
