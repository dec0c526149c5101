import QuesOs.Resumption
import QuesOs.UserlandNumbers

/-! `_fprintf` of `ustdlib.c`. It goes through the format one character at a
time; what it knows of an unfinished conversion is in four flags and the digits
of the width. Arguments are taken one after the other, each as the type that
the conversion asks for. -/
namespace QuesOs.Userland
open Numerals Resumption

def PERCENT : Int8 := 37
def MINUS : Int8 := 45
def SPACE : Int8 := 32

def MAX_SPACES : Nat := 6

/-- A terminated string: its characters, none of which is the terminator. -/
structure CString where
  chars : List Int8
  ended : 0 ∉ chars

/-- What the caller passes. -/
inductive Argument where
  | int (value : Int32)
  | uint64 (value : UInt64)
  | pointer (string : CString)

/-- The variables of `_fprintf`, and what the process has written. Of `padding`
it is the characters before `paddingIndex`: a terminator is put behind them
before the array is read. -/
structure Formatter where
  arg : List Argument
  hasFormat : Bool
  hasPadding : Bool
  paddingNegative : Bool
  padding : List Int8
  output : List Int8

/-- Why a call does not return: `va_arg` finds no argument of its type, an
index is outside of its array, or an `int` overflows. -/
inductive Fault where
  | argument
  | outside
  | overflow
  deriving DecidableEq

abbrev M := Action Formatter Fault

/-- The system call stops at a terminator. -/
def write (str : List Int8) (length : Nat) : M Unit :=
  modify fun s => { s with output := s.output ++ (str.take length).takeWhile (· ≠ 0) }

def _putc (c : Int8) : M Unit := write [c] 1

/-- The counter is an `int`. -/
def _strlen (str : List Int8) : M Nat :=
  if str.length < 2 ^ 31 then return str.length else throw .overflow

def _fprint (str : List Int8) : M Unit := do write str (← _strlen str)

/-- The loop of `fillSpaces`. -/
def putSpaces : Nat → M Unit
  | 0 => return
  | n + 1 => do
    _putc SPACE
    putSpaces n

def fillSpaces (stringLength : Nat) : M Unit := do
  let s ← get
  if s.hasPadding then
    set { s with hasPadding := false }
    let paddingLength := _atoi s.padding
    putSpaces (paddingLength - .ofInt stringLength).toInt.toNat

def vaInt : M Int32 := do
  let s ← get
  match s.arg with
  | .int value :: arg =>
    set { s with arg := arg }
    return value
  | _ => throw .argument

def vaUint64 : M UInt64 := do
  let s ← get
  match s.arg with
  | .uint64 value :: arg =>
    set { s with arg := arg }
    return value
  | _ => throw .argument

def vaPointer : M (List Int8) := do
  let s ← get
  match s.arg with
  | .pointer string :: arg =>
    set { s with arg := arg }
    return string.chars
  | _ => throw .argument

/-- The string in the buffer of `_itoa`. -/
def itoa (num base : UInt64) : M (List Int8) :=
  match _itoa num base with
  | some str => return str
  | none => throw .outside

/-- What the cases of the conversions do with their string. -/
def printString (toPrint : List Int8) : M Unit := do
  if ¬ (← get).paddingNegative then fillSpaces (← _strlen toPrint)
  _fprint toPrint
  if (← get).paddingNegative then fillSpaces (← _strlen toPrint)

inductive Conversion where
  | c | d | o | s | x | u
  deriving DecidableEq

/-- The labels of the `switch`. -/
def Conversion.char : Conversion → Int8
  | c => 99 | d => 100 | o => 111 | s => 115 | x => 120 | u => 117

def conversionOf (traverse : Int8) : Option Conversion :=
  [Conversion.c, .d, .o, .s, .x, .u].find? (·.char = traverse)

/-- The `switch`. The variable `i` is an `unsigned int`. -/
def convert (traverse : Int8) : M Unit :=
  match conversionOf traverse with
  | some .c => do
    let i ← vaInt
    if ¬ (← get).paddingNegative then fillSpaces 1
    _putc i.toInt8
    if (← get).paddingNegative then fillSpaces 1
  | some .d => do
    let i ← vaInt
    printString (← itoa i.toUInt32.toUInt64 10)
  | some .o => do
    let i ← vaInt
    printString (← itoa i.toUInt32.toUInt64 8)
  | some .s => do
    printString (← vaPointer)
  | some .x => do
    let i ← vaUint64
    printString (← itoa i.toUInt32.toUInt64 16)
  | some .u => do
    printString (← itoa (← vaUint64) 10)
  | none => _putc PERCENT

/-- The body of the loop. -/
def step (traverse : Int8) : M Unit := do
  let s ← get
  if traverse = PERCENT then
    if s.hasFormat then _putc PERCENT
    modify fun s => { s with hasFormat := true }
  else if s.hasFormat then
    if traverse = MINUS ∨ IS_DIGIT traverse then
      modify fun s => { s with hasPadding := true }
      if traverse = MINUS then modify fun s => { s with paddingNegative := true }
      else if s.padding.length < MAX_SPACES then
        modify fun s => { s with padding := s.padding ++ [traverse] }
      else throw .outside
    else
      -- `padding[paddingIndex] = '\0'`
      if s.padding.length < MAX_SPACES then convert traverse else throw .outside
      modify fun s => { s with hasPadding := false, paddingNegative := false, padding := [], hasFormat := false }
  else _putc traverse

def fprintfLoop : List Int8 → M Unit
  | [] => return
  | traverse :: format => do
    step traverse
    fprintfLoop format

/-- What the call writes. -/
def _fprintf (format : List Int8) (arg : List Argument) : Except Fault (List Int8) :=
  match (fprintfLoop format).run ⟨arg, false, false, false, [], []⟩ with
  | .ok (_, s) => .ok s.output
  | .error e => .error e

/-! ## What the functions do -/

variable {s s' : Formatter}

/-- How many blanks `fillSpaces` writes. -/
def Formatter.blanks (s : Formatter) (stringLength : Nat) : Nat :=
  if s.hasPadding then (_atoi s.padding - .ofInt stringLength).toInt.toNat else 0

/-- A text with its blanks on one side. -/
def surround (negative : Bool) (blanks : Nat) (text : List Int8) : List Int8 :=
  if negative then text ++ List.replicate blanks SPACE else List.replicate blanks SPACE ++ text

theorem ok_bind {α β : Type} (a : α) (f : α → Except Fault β) : (Except.ok a >>= f) = f a := rfl

theorem throw_bind {α β : Type} (e : Fault) (f : α → Except Fault β) :
    ((throw e : Except Fault α) >>= f) = .error e := rfl

theorem putSpaces_run :
    (putSpaces n).run s = .ok ((), { s with output := s.output ++ List.replicate n SPACE }) := by
  induction n generalizing s with
  | zero =>
    rw [List.replicate_zero, List.append_nil]
    rfl
  | succ n ih =>
    have one : (_putc SPACE).run s = .ok ((), { s with output := s.output ++ [SPACE] }) := rfl
    rw [putSpaces, StateT.run_bind, one]
    refine ih.trans ?_
    rw [List.append_assoc]
    rfl

theorem fillSpaces_run : (fillSpaces stringLength).run s =
    .ok ((), { s with hasPadding := false,
                      output := s.output ++ List.replicate (s.blanks stringLength) SPACE }) := by
  cases padded : s.hasPadding with
  | false =>
    simp only [fillSpaces, Formatter.blanks, padded, StateT.run_bind, StateT.run_get, pure_bind, Bool.false_eq_true,
      if_false, List.replicate_zero, List.append_nil]
    rw [← padded]
    rfl
  | true =>
    simp only [fillSpaces, Formatter.blanks, padded, StateT.run_bind, StateT.run_get,
      StateT.run_set, pure_bind, if_true,
      putSpaces_run]

theorem write_run (ended : 0 ∉ str) :
    (write str str.length).run s = .ok ((), { s with output := s.output ++ str }) := by
  rw [write, List.take_length, takeWhile_ended ended]
  rfl

/-- A string is printed with its blanks, unless it is too long to be counted. -/
theorem printString_run (ended : 0 ∉ str) : (printString str).run s =
    if str.length < 2 ^ 31 then
      .ok ((), { s with hasPadding := false,
                        output := s.output ++ surround s.paddingNegative (s.blanks str.length) str })
    else .error .overflow := by
  split
  · rename_i short
    have counted : _strlen str = pure str.length := if_pos short
    cases negative : s.paddingNegative with
    | false =>
      simp [printString, counted, _fprint, fillSpaces_run, write_run ended, negative, ok_bind, surround]
      rfl
    | true =>
      simp [printString, counted, _fprint, fillSpaces_run, write_run ended, negative, ok_bind, surround,
        Formatter.blanks]
  · rename_i long
    have counted : _strlen str = throw .overflow := if_neg long
    cases negative : s.paddingNegative with
    | false => simp [printString, counted, negative, throw_bind]
    | true => simp [printString, counted, _fprint, negative, throw_bind]

/-- What a conversion prints for an argument, and for how many characters it
counts that. -/
def printed : Conversion → Argument → Except Fault (List Int8 × Nat)
  | .c, .int i => .ok ([i.toInt8].takeWhile (· ≠ 0), 1)
  | .d, .int i => .ok (text 10 i.toUInt32.toNat, (text 10 i.toUInt32.toNat).length)
  | .o, .int i => .ok (text 8 i.toUInt32.toNat, (text 8 i.toUInt32.toNat).length)
  | .s, .pointer string =>
    if string.chars.length < 2 ^ 31 then .ok (string.chars, string.chars.length) else .error .overflow
  | .x, .uint64 n => .ok (text 16 n.toUInt32.toNat, (text 16 n.toUInt32.toNat).length)
  | .u, .uint64 n => .ok (text 10 n.toNat, (text 10 n.toNat).length)
  | _, _ => .error .argument

/-- The flags after a conversion, with the arguments left. -/
def Formatter.done (s : Formatter) (arg : List Argument) (piece : List Int8) : Formatter :=
  ⟨arg, false, false, false, [], s.output ++ piece⟩

theorem conversionOf_char (conversion : Conversion) : conversionOf conversion.char = some conversion := by
  cases conversion <;> decide +kernel

/-- A numeral of 64 bits is short enough to be counted. -/
theorem text_counted (n : UInt64) (two : 2 ≤ base) : (text base n.toNat).length < 2 ^ 31 :=
  Nat.lt_of_le_of_lt (text_short two n.toNat_lt) (by decide)

theorem printNumeral_run (num base : UInt64) (two : 2 ≤ base.toNat) (most : base.toNat ≤ 16) :
    (itoa num base >>= printString).run s =
      .ok ((), { s with hasPadding := false,
                        output := s.output ++ surround s.paddingNegative
                          (s.blanks (text base.toNat num.toNat).length) (text base.toNat num.toNat) }) := by
  have string : itoa num base = pure (text base.toNat num.toNat) := by
    rw [itoa, itoa_text two most]
  rw [string, pure_bind, printString_run (text_ended two (by omega)), if_pos (text_counted num two)]

/-- A conversion prints its argument, with the blanks that the flags ask for. -/
theorem convert_run (conversion : Conversion) : (convert conversion.char).run s =
    match s.arg with
    | [] => .error .argument
    | a :: arg => (printed conversion a).map fun (piece, length) =>
      ((), { s with hasPadding := false, arg := arg,
                    output := s.output ++ surround s.paddingNegative (s.blanks length) piece }) := by
  rw [convert, conversionOf_char]
  obtain ⟨arg, hasFormat, hasPadding, negative, padding, output⟩ := s
  cases arg with
  | nil => cases conversion <;> rfl
  | cons a arg =>
    cases a with
    | int i =>
      cases conversion with
      | c =>
        have fetched : vaInt.run ⟨.int i :: arg, hasFormat, hasPadding, negative, padding, output⟩ =
          .ok (i, ⟨arg, hasFormat, hasPadding, negative, padding, output⟩) := rfl
        cases negative with
        | false =>
          simp [fetched, fillSpaces_run, ok_bind, _putc, write, printed, surround]
          rfl
        | true =>
          simp [fetched, fillSpaces_run, ok_bind, _putc, write, printed, surround]
          rfl
      | d => exact printNumeral_run i.toUInt32.toUInt64 10 (by decide) (by decide)
      | o => exact printNumeral_run i.toUInt32.toUInt64 8 (by decide) (by decide)
      | s => rfl
      | x => rfl
      | u => rfl
    | uint64 n =>
      cases conversion with
      | x => exact printNumeral_run n.toUInt32.toUInt64 16 (by decide) (by decide)
      | u => exact printNumeral_run n 10 (by decide) (by decide)
      | c => rfl
      | d => rfl
      | o => rfl
      | s => rfl
    | pointer string =>
      cases conversion with
      | s =>
        refine (printString_run string.ended).trans ?_
        simp only [printed]
        split <;> rfl
      | c => rfl
      | d => rfl
      | o => rfl
      | x => rfl
      | u => rfl

/-! ## One character -/

theorem step_percent : (step PERCENT).run s =
    .ok ((), { s with hasFormat := true, output := s.output ++ if s.hasFormat then [PERCENT] else [] }) := by
  cases inFormat : s.hasFormat with
  | false => simp [step, inFormat]; rfl
  | true => simp [step, inFormat]; rfl

/-- Outside of a conversion a character is written as it is. -/
theorem step_plain (outside : s.hasFormat = false) (other : c ≠ PERCENT) (ended : c ≠ 0) :
    (step c).run s = .ok ((), { s with output := s.output ++ [c] }) := by
  have single : 0 ∉ [c] := fun member => ended (List.mem_singleton.mp member).symm
  have written : (step c).run s = (_putc c).run s := by
    simp only [step, outside, other, StateT.run_bind, StateT.run_get, pure_bind, if_false, Bool.false_eq_true]
  exact written.trans (write_run single)

section conversions
variable (inFormat : s.hasFormat = true)
include inFormat

theorem step_minus : (step MINUS).run s = .ok ((), { s with hasPadding := true, paddingNegative := true }) := by
  have other : MINUS ≠ PERCENT := by decide +kernel
  simp [step, inFormat, other]
  rfl

/-- The width takes six digits; the seventh goes outside of the array. -/
theorem step_digit (small : d < 10) : (step (digitChar d)).run s =
    if s.padding.length < 6 then .ok ((), { s with hasPadding := true, padding := s.padding ++ [digitChar d] })
    else .error .outside := by
  have digits : ∀ d < 10, digitChar d ≠ PERCENT ∧ digitChar d ≠ MINUS ∧ IS_DIGIT (digitChar d) := by
    decide +kernel
  obtain ⟨percent, minus, digit⟩ := digits d small
  by_cases room : s.padding.length < 6
  · simp [step, inFormat, percent, minus, digit, MAX_SPACES, room]
    rfl
  · simp [step, inFormat, percent, minus, digit, MAX_SPACES, room]
    rfl

/-- Where a conversion ends, the terminator of the width needs a place. -/
theorem step_end (percent : c ≠ PERCENT) (minus : c ≠ MINUS) (digit : ¬ IS_DIGIT c) : (step c).run s =
    if s.padding.length < 6 then
      (convert c).run s >>= fun (_, s) => .ok ((), ⟨s.arg, false, false, false, [], s.output⟩)
    else .error .outside := by
  by_cases room : s.padding.length < 6
  · simp [step, inFormat, percent, minus, digit, MAX_SPACES, room]
    rfl
  · simp [step, inFormat, percent, minus, digit, MAX_SPACES, room]
    rfl

end conversions

/-! ## A format, part by part -/

theorem fprintfLoop_append : (fprintfLoop (before ++ after)).run s =
    (fprintfLoop before).run s >>= fun (_, s') => (fprintfLoop after).run s' := by
  induction before generalizing s with
  | nil => rfl
  | cons c before ih =>
    rw [List.cons_append, fprintfLoop, StateT.run_bind, fprintfLoop, StateT.run_bind, bind_assoc]
    congr 1
    funext ⟨_, s'⟩
    exact ih

/-- What follows goes on where the loop is. -/
theorem fprintfLoop_then (ran : (fprintfLoop before).run s = .ok ((), s')) :
    (fprintfLoop (before ++ after)).run s = (fprintfLoop after).run s' := by
  rw [fprintfLoop_append, ran]
  rfl

theorem fprintfLoop_fails (ran : (fprintfLoop before).run s = .error e) :
    (fprintfLoop (before ++ after)).run s = .error e := by
  rw [fprintfLoop_append, ran]
  rfl

theorem fprintfLoop_single : (fprintfLoop [c]).run s = (step c).run s := by
  rw [fprintfLoop, fprintfLoop, bind_pure]

/-- The characters of a width. -/
def widthText (width : List (Fin 10)) : List Int8 := width.map fun d => digitChar d.val

theorem fprintfLoop_width (inFormat : s.hasFormat = true) (fits : s.padding.length ≤ 6) :
    (fprintfLoop (widthText width)).run s =
      if s.padding.length + width.length ≤ 6 then
        .ok ((), { s with hasPadding := s.hasPadding || !width.isEmpty, padding := s.padding ++ widthText width })
      else .error .outside := by
  induction width generalizing s with
  | nil =>
    simp [fits, widthText]
    rfl
  | cons d width ih =>
    rw [widthText, List.map_cons, fprintfLoop, StateT.run_bind, step_digit inFormat d.isLt]
    by_cases room : s.padding.length < 6
    · have longer : (s.padding ++ [digitChar d.val]).length = s.padding.length + 1 := List.length_append
      rw [if_pos room, ok_bind]
      have fits' : (s.padding ++ [digitChar d.val]).length ≤ 6 := by omega
      refine (ih (by exact inFormat) fits').trans ?_
      have same : s.padding.length + 1 + width.length = s.padding.length + (d :: width).length := by
        rw [List.length_cons]
        omega
      rw [longer, same]
      simp [widthText]
    · rw [if_neg room, if_neg (by rw [List.length_cons]; omega)]
      rfl

/-- The characters of a conversion. -/
def directive (minus : Bool) (width : List (Fin 10)) (conversion : Conversion) : List Int8 :=
  PERCENT :: ((if minus then [MINUS] else []) ++ (widthText width ++ [conversion.char]))

/-- The flags once the width is read. -/
def Formatter.flagged (s : Formatter) (minus : Bool) (width : List (Fin 10)) : Formatter where
  arg := s.arg
  hasFormat := true
  hasPadding := s.hasPadding || minus || !width.isEmpty
  paddingNegative := s.paddingNegative || minus
  padding := s.padding ++ widthText width
  output := s.output ++ if s.hasFormat then [PERCENT] else []

theorem conversion_char (conversion : Conversion) :
    conversion.char ≠ PERCENT ∧ conversion.char ≠ MINUS ∧ ¬ IS_DIGIT conversion.char := by
  cases conversion <;> decide +kernel

/-- **What a conversion comes to**, whatever the flags are when it begins. -/
theorem directive_run (fits : s.padding.length ≤ 6) :
    (fprintfLoop (directive minus width conversion)).run s =
      if s.padding.length + width.length < 6 then
        match s.arg with
        | [] => .error .argument
        | a :: arg => (printed conversion a).map fun (piece, length) =>
          ((), (s.flagged minus width).done arg
            (surround (s.paddingNegative || minus) ((s.flagged minus width).blanks length) piece))
      else .error .outside := by
  obtain ⟨percent, noMinus, digit⟩ := conversion_char conversion
  -- The flags after the minus sign, and after the width.
  have first : (fprintfLoop (PERCENT :: if minus then [MINUS] else [])).run s =
      .ok ((), s.flagged minus []) := by
    rw [fprintfLoop, StateT.run_bind, step_percent, ok_bind]
    cases minus with
    | false => simp [fprintfLoop, Formatter.flagged, widthText]; rfl
    | true =>
      refine (fprintfLoop_single.trans (step_minus rfl)).trans ?_
      simp [Formatter.flagged, widthText]
  have read : (fprintfLoop (widthText width)).run (s.flagged minus []) =
      if s.padding.length + width.length ≤ 6 then .ok ((), s.flagged minus width) else .error .outside := by
    refine (fprintfLoop_width rfl (by simpa [Formatter.flagged, widthText] using fits)).trans ?_
    simp [Formatter.flagged, widthText]
  have split : directive minus width conversion =
      (PERCENT :: if minus then [MINUS] else []) ++ (widthText width ++ [conversion.char]) := rfl
  have long : (s.flagged minus width).padding.length = s.padding.length + width.length := by
    simp [Formatter.flagged, widthText]
  rw [split, fprintfLoop_then first]
  by_cases most : s.padding.length + width.length ≤ 6
  · rw [if_pos most] at read
    rw [fprintfLoop_then read, fprintfLoop_single, step_end rfl percent noMinus digit, long]
    split
    · rw [convert_run]
      cases args : s.arg with
      | nil => simp [Formatter.flagged, args]; rfl
      | cons a arg =>
        simp only [Formatter.flagged, args]
        cases printed conversion a <;> rfl
    · rfl
  · rw [if_neg most] at read
    rw [fprintfLoop_fails read, if_neg (by omega)]

end QuesOs.Userland
