import QuesOs.KernelNumbers

/-! `printf` of the kernel's `stdio.c`, for a process whose output is the
console. `scan` goes through the format with a pointer that it advances in two
places and counts in `length` what it means to have written; for `%s` the same
count is the size that `sysWrite` is given. -/
namespace QuesOs.KernelText
open Numerals

def PERCENT : Int8 := 37

/-- A terminated string: its characters, none of which is the terminator. -/
structure CString where
  chars : List Int8
  ended : 0 ∉ chars

/-- A format, with the bytes that follow it in memory. -/
structure Format extends CString where
  beyond : Nat → Int8

/-- The byte at an index from the first character on. -/
def Format.read (format : Format) (i : Nat) : Int8 :=
  (format.chars ++ [0]).getD i (format.beyond (i - (format.chars.length + 1)))

inductive Argument where
  | int (value : Int32)
  | pointer (string : CString)

/-- Why a call does not return: `va_arg` finds no argument of its type, an
`int` overflows, or the number of rounds is too small. -/
inductive Fault where
  | argument
  | overflow
  | unfinished

/-- The variables of `scan`, with `fmt` as an index, and what is written. -/
structure Scanner where
  fmt : Nat
  arg : List Argument
  length : Int32
  console : List Int8

/-- `sysWrite` to the console: it stops at the size or at a terminator. -/
def sysWrite (s : Scanner) (buffer : List Int8) (size : UInt64) : Scanner :=
  { s with console := s.console ++ (buffer.take size.toNat).takeWhile (· ≠ 0) }

/-- The counter is an `int`. -/
def strlen (string : List Int8) : Except Fault Int32 :=
  if string.length < 2 ^ 31 then .ok (.ofNat string.length) else .error .overflow

/-- The string that `intToStr` leaves in the local buffer. -/
def formatted (value base : Int32) : Except Fault (List Int8) :=
  match intToStr value [] base with
  | some buffer => .ok buffer
  | none => .error .unfinished

/-- An `int` as the size of a write. -/
def toSize (length : Int32) : UInt64 := length.toInt64.toUInt64

/-- The labels of the `switch`. -/
inductive Directive where
  | percent | c | s | d | x
  deriving DecidableEq

def Directive.char : Directive → Int8
  | percent => 37 | c => 99 | s => 115 | d => 100 | x => 120

def directiveOf (ch : Int8) : Option Directive :=
  [Directive.percent, .c, .s, .d, .x].find? (·.char = ch)

/-- The `switch`, which has no default. -/
def directive (s : Scanner) (ch : Int8) : Except Fault Scanner :=
  match directiveOf ch, s.arg with
  | none, _ => .ok s
  | some .percent, _ => .ok { sysWrite s [PERCENT] 1 with length := s.length + 1 }
  | some .c, .int value :: arg => .ok { sysWrite s [value.toInt8] 1 with arg := arg, length := s.length + 1 }
  | some .s, .pointer string :: arg => do
    let thisLength ← strlen string.chars
    return { sysWrite s string.chars (toSize s.length) with arg := arg, length := s.length + thisLength }
  | some .d, .int value :: arg => do
    let buffer ← formatted value 10
    let thisLength ← strlen buffer
    return { sysWrite s buffer (toSize thisLength) with arg := arg, length := s.length + thisLength }
  | some .x, .int value :: arg => do
    let buffer ← formatted value 16
    let s := sysWrite s [48, 120] 2
    let thisLength ← strlen buffer
    return { sysWrite s buffer (toSize thisLength) with arg := arg, length := s.length + thisLength }
  | _, _ => .error .argument

/-- The loop of `scan`, for a number of rounds. -/
def scanLoop (format : Format) : Nat → Scanner → Except Fault Scanner
  | 0, _ => .error .unfinished
  | rounds + 1, s => do
    let ch := format.read s.fmt
    let s := { s with fmt := s.fmt + 1 }
    if ch = 0 then return s
    else if ch = PERCENT then
      let ch := format.read s.fmt
      let s ← directive { s with fmt := s.fmt + 1 } ch
      scanLoop format rounds s
    else scanLoop format rounds { sysWrite s [ch] 1 with length := s.length + 1 }

/-- `printf` returns the final `length`. -/
def printf (rounds : Nat) (format : Format) (arg : List Argument) : Except Fault Scanner :=
  scanLoop format rounds ⟨0, arg, 0, []⟩

/-! ## What should be written -/

/-- A part of a format; `trailing` is a percent sign before the terminator. -/
inductive Item where
  | literal (c : Int8)
  | directive (label : Option Directive)
  | trailing

/-- The parts of a format. -/
def parse : List Int8 → List Item
  | [] => []
  | c :: rest =>
    if c = PERCENT then
      match rest with
      | [] => [.trailing]
      | k :: rest => .directive (directiveOf k) :: parse rest
    else .literal c :: parse rest

/-- The text of a directive, and the arguments after it. An unknown letter has none. -/
def piece : Option Directive → List Argument → Option (List Int8 × List Argument)
  | none, arg => some ([], arg)
  | some .percent, arg => some ([PERCENT], arg)
  | some .c, .int value :: arg => some ([value.toInt8], arg)
  | some .s, .pointer string :: arg => some (string.chars, arg)
  | some .d, .int value :: arg => some (numeralOf value 10, arg)
  | some .x, .int value :: arg => some ([48, 120] ++ numeralOf value 16, arg)
  | _, _ => none

/-- The whole text, if the arguments are those that the format asks for. -/
def expected : List Item → List Argument → Option (List Int8)
  | [], [] => some []
  | [], _ :: _ => none
  | .literal c :: items, arg => (expected items arg).map ([c] ++ ·)
  | .directive label :: items, arg => do
    let (full, arg) ← piece label arg
    let rest ← expected items arg
    return full ++ rest
  | .trailing :: items, arg => expected items arg

/-- The call returns, having read nothing after the terminator and written the
text, whose length it returns. -/
def Prints (format : Format) (arg : List Argument) (text : List Int8) : Prop :=
  ∃ rounds s, printf rounds format arg = .ok s ∧ s.fmt ≤ format.chars.length + 1 ∧ s.console = text ∧
    s.length.toInt = text.length

/-- The arguments that a directive prints right, after a number of characters. -/
def Right : Nat → Option Directive → List Argument → Prop
  | _, some .c, .int value :: _ => value.toInt8 ≠ 0
  | written, some .s, .pointer string :: _ => string.chars.length ≤ written
  | _, some .d, .int value :: _ => value ≠ Int32.minValue
  | _, some .x, _ => False
  | _, _, _ => True

/-- The formats and arguments, from a number of characters written on, that are
printed as they should be. -/
def Fine : Nat → List Item → List Argument → Prop
  | written, [], _ => written < 2 ^ 31
  | written, .literal _ :: items, arg => Fine (written + 1) items arg
  | written, .directive label :: items, arg =>
    Right written label arg ∧
      match piece label arg with
      | some (full, arg') => Fine (written + full.length) items arg'
      | none => False
  | _, .trailing :: _, _ => False

/-! ## What is written -/

variable {s t : Scanner} {format : Format}

theorem toSize_nat (small : n < 2 ^ 31) : (toSize (.ofNat n)).toNat = n := by
  have amount : (Int32.ofNat n).toInt64.toInt = n := by
    rw [Int32.toInt_toInt64, Int32.toInt_ofNat_of_lt small]
  have positive : 0 ≤ (Int32.ofNat n).toInt64 := by
    apply Int64.le_iff_toInt_le.mpr
    rw [amount]
    exact Int.natCast_nonneg n
  rw [toSize, Int64.toNat_toUInt64_of_le positive, Int64.toNatClampNeg, amount, Int.toNat_natCast]

/-- A whole string is written when its length is given. -/
theorem sysWrite_whole {str : List Int8} (ended : 0 ∉ str) (enough : str.length ≤ size.toNat) :
    sysWrite s str size = { s with console := s.console ++ str } := by
  rw [sysWrite, List.take_of_length_le enough, takeWhile_ended ended]

/-- Whatever is in the buffer is no longer than what should be there. -/
theorem formatted_short (value base : Int32) (known : base = 10 ∨ base = 16) :
    ∃ buffer, formatted value base = .ok buffer ∧ buffer.length ≤ (numeralOf value base).length ∧ 0 ∉ buffer ∧
      buffer.length < 2 ^ 31 := by
  by_cases least : value = Int32.minValue
  · subst least
    have ten : formatted Int32.minValue 10 = .ok [45, 46, 47, 44, 41, 44, 40, 45, 42, 44, 40] := by
      have written : intToStr Int32.minValue [] 10 = some [45, 46, 47, 44, 41, 44, 40, 45, 42, 44, 40] := by
        decide +kernel
      rw [formatted, written]
    have sixteen : formatted Int32.minValue 16 = .ok [40, 48, 48, 48, 48, 48, 48, 48] := by
      have written : intToStr Int32.minValue [] 16 = some [40, 48, 48, 48, 48, 48, 48, 48] := by decide +kernel
      rw [formatted, written]
    rcases known with rfl | rfl
    · exact ⟨_, ten, by decide +kernel, by decide +kernel, by decide⟩
    · exact ⟨_, sixteen, by decide +kernel, by decide +kernel, by decide⟩
  · have two : 2 ≤ base.toInt := by rcases known with rfl | rfl <;> decide
    have most : base.toInt ≤ 32 := by rcases known with rfl | rfl <;> decide
    have small := (abs_nat least).1
    have written := @intToStr_abs [] value base two most least
    refine ⟨_, by rw [formatted, written], ?_⟩
    have digits : 0 ∉ text base.toInt.toNat value.toInt.natAbs := text_ended (by omega) (by omega)
    have short := @text_short base.toInt.toNat value.toInt.natAbs 30 (by omega) small
    rcases known with rfl | rfl
    · have minus : (0 : Int8) ≠ 45 := by decide +kernel
      have ten : (10 : Int32).toInt.toNat = 10 := rfl
      rw [ten] at digits short
      simp only [ten, and_true, numeralOf, if_true, Nat.le_refl, true_and]
      constructor
      · split
        · simp [digits, minus]
        · simpa using digits
      · rw [List.length_append]
        split <;> simp <;> omega
    · have sixteen : (16 : Int32).toInt.toNat = 16 := rfl
      have other : ¬ (16 : Int32) = 10 := by decide
      have less : value.toInt.natAbs ≤ value.toUInt32.toNat := by
        by_cases positive : 0 ≤ value
        · exact Nat.le_of_eq (unsigned_positive positive).symm
        · have := unsigned_negative (Int32.not_le.mp positive)
          omega
      simp only [other, and_false, if_false, List.nil_append, numeralOf]
      refine ⟨?_, digits, by omega⟩
      rw [text_length, text_length]
      exact numeral_length_mono less

/-! ## One directive -/

/-- The state after a text that was counted. -/
def Scanner.put (s : Scanner) (arg : List Argument) (text : List Int8) (count : Nat) : Scanner :=
  ⟨s.fmt, arg, s.length + .ofNat count, s.console ++ text⟩

/-- What a directive writes, and for how many characters it counts that. The
size is what `length` is as one. -/
inductive Writes (size : Nat) : Option Directive → List Argument → List Argument → List Int8 → Nat → Prop
  | unknown : Writes size none arg arg [] 0
  | percent : Writes size (some .percent) arg arg [PERCENT] 1
  | c : Writes size (some .c) (.int v :: arg) arg ([v.toInt8].takeWhile (· ≠ 0)) 1
  | s (short : string.chars.length < 2 ^ 31) :
      Writes size (some .s) (.pointer string :: arg) arg (string.chars.take size) string.chars.length
  | d (written : formatted v 10 = .ok buffer) : Writes size (some .d) (.int v :: arg) arg buffer buffer.length
  | x (written : formatted v 16 = .ok buffer) :
      Writes size (some .x) (.int v :: arg) arg ([48, 120] ++ buffer) buffer.length

theorem strlen_short {str : List Int8} (short : str.length < 2 ^ 31) :
    strlen str = .ok (.ofNat str.length) := if_pos short

theorem sysWrite_string {string : CString} :
    sysWrite s string.chars size = { s with console := s.console ++ string.chars.take size.toNat } := by
  have ended : 0 ∉ string.chars.take size.toNat := fun member => string.ended (List.mem_of_mem_take member)
  rw [sysWrite, takeWhile_ended ended]

theorem sysWrite_buffer {buffer : List Int8} (ended : 0 ∉ buffer) (short : buffer.length < 2 ^ 31) :
    sysWrite s buffer (toSize (.ofNat buffer.length)) = { s with console := s.console ++ buffer } :=
  sysWrite_whole ended (by rw [toSize_nat short])

/-- What a directive does, if it does not fail. -/
theorem directive_writes (ran : directive s ch = .ok t) :
    ∃ arg text count, Writes (toSize s.length).toNat (directiveOf ch) s.arg arg text count ∧
    t = s.put arg text count := by
  unfold directive at ran
  split at ran
  · rename_i known
    rw [known]
    cases ran
    exact ⟨_, _, _, .unknown, by simp [Scanner.put]⟩
  · rename_i known
    rw [known]
    cases ran
    exact ⟨_, _, _, .percent, rfl⟩
  · rename_i v arg known args
    rw [known, args]
    cases ran
    exact ⟨_, _, _, .c, rfl⟩
  · rename_i string arg known args
    rw [known, args]
    by_cases short : string.chars.length < 2 ^ 31
    · rw [strlen_short short, sysWrite_string] at ran
      cases ran
      exact ⟨_, _, _, .s short, rfl⟩
    · have counted : strlen string.chars = .error .overflow := if_neg short
      rw [counted] at ran
      cases ran
  · rename_i v arg known args
    obtain ⟨buffer, written, -, ended, short⟩ := formatted_short v 10 (.inl rfl)
    have counted := strlen_short short
    rw [written] at ran
    rw [known, args]
    dsimp only [bind, Except.bind] at ran
    rw [counted] at ran
    dsimp only at ran
    rw [sysWrite_buffer ended short] at ran
    cases ran
    exact ⟨_, _, _, .d written, rfl⟩
  · rename_i v arg known args
    obtain ⟨buffer, written, -, ended, short⟩ := formatted_short v 16 (.inr rfl)
    have counted := strlen_short short
    rw [written] at ran
    rw [known, args]
    dsimp only [bind, Except.bind] at ran
    rw [counted] at ran
    dsimp only at ran
    rw [sysWrite_buffer ended short] at ran
    cases ran
    refine ⟨_, _, _, .x written, ?_⟩
    have both : (s.console ++ [48, 120]) ++ buffer = s.console ++ ([48, 120] ++ buffer) := List.append_assoc ..
    rw [Scanner.put, ← both]
    rfl
  · cases ran

theorem writes_directive (writes : Writes (toSize s.length).toNat (directiveOf ch) s.arg arg out count) :
    directive s ch = .ok (s.put arg out count) := by
  obtain ⟨fmt, args, length, console⟩ := s
  dsimp only at writes
  generalize known : directiveOf ch = label at writes
  rw [directive, known]
  cases writes with
  | unknown => simp [Scanner.put]
  | percent => rfl
  | c => rfl
  | s short =>
    dsimp only [bind, Except.bind]
    rw [strlen_short short]
    dsimp only
    rw [sysWrite_string]
    rfl
  | d written =>
    obtain ⟨buffer, written', -, ended, short⟩ := formatted_short _ 10 (.inl rfl)
    cases written.symm.trans written'
    dsimp only [bind, Except.bind]
    rw [written]
    dsimp only
    rw [strlen_short short]
    dsimp only
    rw [sysWrite_buffer ended short]
    rfl
  | x written =>
    obtain ⟨buffer, written', -, ended, short⟩ := formatted_short _ 16 (.inr rfl)
    cases written.symm.trans written'
    dsimp only [bind, Except.bind]
    rw [written]
    dsimp only
    rw [strlen_short short]
    dsimp only
    rw [sysWrite_buffer ended short, Scanner.put, ← List.append_assoc]
    rfl

/-- Nothing is longer than it should be, and the arguments are taken alike. -/
theorem Writes.le (writes : Writes size label args arg out count) (asks : piece label args = some (full, arg')) :
    arg = arg' ∧ out.length ≤ full.length := by
  cases writes with
  | unknown | percent =>
    cases asks
    exact ⟨rfl, Nat.le_refl _⟩
  | c =>
    cases asks
    exact ⟨rfl, (List.takeWhile_prefix _).length_le⟩
  | s short =>
    cases asks
    exact ⟨rfl, (List.take_prefix _ _).length_le⟩
  | d written =>
    obtain ⟨buffer, written', less, -⟩ := formatted_short _ 10 (.inl rfl)
    cases written.symm.trans written'
    cases asks
    exact ⟨rfl, less⟩
  | x written =>
    obtain ⟨buffer, written', less, -⟩ := formatted_short _ 16 (.inr rfl)
    cases written.symm.trans written'
    cases asks
    refine ⟨rfl, ?_⟩
    rw [List.length_append, List.length_append]
    omega

/-- How many characters are written twice over what is counted. -/
def hidden (label : Option Directive) : Nat := if label = some .x then 1 else 0

/-- What is written whole is counted but for the prefix of `%x`. -/
theorem Writes.whole (writes : Writes size label args arg full count) (asks : piece label args = some (full, arg')) :
    count + 2 * hidden label = full.length ∧ (hidden label = 0 → Right size label args) := by
  cases writes with
  | unknown | percent =>
    cases asks
    exact ⟨rfl, fun _ => trivial⟩
  | @c v arg =>
    simp only [piece, Option.some.injEq, Prod.mk.injEq] at asks
    have other : v.toInt8 ≠ 0 := by
      intro zero
      rw [zero] at asks
      simp at asks
    rw [← asks.1]
    exact ⟨rfl, fun _ => other⟩
  | @s string arg short =>
    simp only [piece, Option.some.injEq, Prod.mk.injEq] at asks
    have enough : string.chars.length ≤ size := by
      have := congrArg List.length asks.1
      rw [List.length_take] at this
      omega
    rw [← asks.1]
    exact ⟨rfl, fun _ => enough⟩
  | @d v buffer arg written =>
    simp only [piece, Option.some.injEq, Prod.mk.injEq] at asks
    have right : intToStr v [] 10 = some (numeralOf v 10) := by
      unfold formatted at written
      split at written
      · rename_i known
        cases written
        rw [known, asks.1]
      · cases written
    have representable : v ≠ Int32.minValue := by
      rcases (intToStr_iff (by decide) (by decide)).mp right with positive | ten
      · rintro rfl
        exact absurd positive (by decide)
      · exact ten.2
    exact ⟨rfl, fun _ => representable⟩
  | x written =>
    rw [List.length_append]
    exact ⟨Nat.add_comm _ _, fun none => absurd none (by decide)⟩

/-- Where the arguments are right, what should be written is. -/
theorem Right.writes (right : Right size label args) (asks : piece label args = some (full, arg))
    (short : size < 2 ^ 31) : Writes size label args arg full full.length := by
  unfold piece at asks
  split at asks
  · cases asks
    exact .unknown
  · cases asks
    exact .percent
  · rename_i v arg
    have other : v.toInt8 ≠ 0 := right
    have kept : [v.toInt8].takeWhile (· ≠ 0) = [v.toInt8] := by simp [other]
    have writes : Writes size (some .c) (.int v :: arg) arg ([v.toInt8].takeWhile (· ≠ 0)) 1 := .c
    cases asks
    rwa [kept] at writes
  · rename_i string arg
    have enough : string.chars.length ≤ size := right
    have writes : Writes size (some .s) (.pointer string :: arg) arg (string.chars.take size) string.chars.length :=
      .s (Nat.lt_of_le_of_lt enough short)
    cases asks
    rwa [List.take_of_length_le enough] at writes
  · rename_i v arg
    have representable : v ≠ Int32.minValue := right
    have written : formatted v 10 = .ok (numeralOf v 10) := by
      rw [formatted, (intToStr_iff (by decide) (by decide)).mpr (.inr ⟨rfl, representable⟩)]
    cases asks
    exact .d written
  · exact absurd right id
  · cases asks

/-! ## The loop -/

variable {before rest : List Int8}

theorem read_chars (place : format.chars = before ++ c :: rest) : format.read before.length = c := by
  simp [Format.read, place, List.getD_eq_getElem?_getD]

theorem read_end (place : format.chars = before) : format.read before.length = 0 := by
  simp [Format.read, place, List.getD_eq_getElem?_getD]

theorem plain_chars (place : format.chars = before ++ c :: rest) : c ≠ 0 := by
  rintro rfl
  apply format.ended
  rw [place]
  exact List.mem_append_right _ List.mem_cons_self

/-- The loop ends at the terminator. -/
theorem scanLoop_end (place : format.chars = before) (here : s.fmt = before.length) :
    scanLoop format (rounds + 1) s = .ok { s with fmt := s.fmt + 1 } := by
  have terminator : format.read s.fmt = 0 := by rw [here, read_end place]
  rw [scanLoop, terminator]
  rfl

theorem scanLoop_literal (place : format.chars = before ++ c :: rest) (other : c ≠ PERCENT)
    (here : s.fmt = before.length) : scanLoop format (rounds + 1) s =
      scanLoop format rounds ⟨s.fmt + 1, s.arg, s.length + 1, s.console ++ [c]⟩ := by
  have ch : format.read s.fmt = c := by rw [here, read_chars place]
  have single : 0 ∉ [c] := fun member => plain_chars place (List.mem_singleton.mp member).symm
  rw [scanLoop, ch]
  dsimp only
  have enough : [c].length ≤ (1 : UInt64).toNat := Nat.le_refl 1
  rw [if_neg (plain_chars place), if_neg other, sysWrite_whole single enough]

theorem scanLoop_directive (place : format.chars = before ++ PERCENT :: k :: rest) (here : s.fmt = before.length) :
    scanLoop format (rounds + 1) s = directive { s with fmt := s.fmt + 2 } k >>= scanLoop format rounds := by
  have ch : format.read s.fmt = PERCENT := by rw [here, read_chars place]
  have place' : format.chars = (before ++ [PERCENT]) ++ k :: rest := by rw [place, List.append_assoc]; rfl
  have letter : format.read (s.fmt + 1) = k := by
    have next : s.fmt + 1 = (before ++ [PERCENT]).length := by rw [here, List.length_append]; rfl
    rw [next, read_chars place']
  rw [scanLoop, ch]
  dsimp only
  rw [if_neg (plain_chars place), if_pos rfl, letter]

/-- A percent sign at the end takes the terminator for its letter. -/
theorem scanLoop_trailing (place : format.chars = before ++ [PERCENT]) (here : s.fmt = before.length) :
    scanLoop format (rounds + 1) s = scanLoop format rounds { s with fmt := s.fmt + 2 } := by
  have ch : format.read s.fmt = PERCENT := by rw [here, read_chars place]
  have letter : format.read (s.fmt + 1) = 0 := by
    have next : s.fmt + 1 = (before ++ [PERCENT]).length := by rw [here, List.length_append]; rfl
    rw [next, read_end place]
  have nothing : directive { s with fmt := s.fmt + 2 } 0 = .ok { s with fmt := s.fmt + 2 } := rfl
  rw [scanLoop, ch]
  dsimp only
  rw [if_neg (plain_chars place), if_pos rfl, letter]
  exact congrArg (· >>= scanLoop format rounds) nothing

theorem bind_ok {α β : Type} {result : Except Fault α} {next : α → Except Fault β} {b : β}
    (ran : (result >>= next) = .ok b) : ∃ a, result = .ok a ∧ next a = .ok b := by
  cases result with
  | error e => cases ran
  | ok a => exact ⟨a, rfl, ran⟩

/-- Every round goes on in the format. -/
theorem scanLoop_moves (ran : scanLoop format rounds s = .ok t) : s.fmt < t.fmt := by
  induction rounds generalizing s with
  | zero => cases ran
  | succ rounds ih =>
    rw [scanLoop] at ran
    dsimp only at ran
    split at ran
    · cases ran
      exact Nat.lt_succ_self s.fmt
    · split at ran
      · obtain ⟨u, first, later⟩ := bind_ok ran
        obtain ⟨arg, out, count, -, rfl⟩ := directive_writes first
        have := ih later
        simp only [Scanner.put] at this
        omega
      · have := ih ran
        simp only [sysWrite] at this
        omega

/-! ## Whole formats -/

theorem parse_literal (other : c ≠ PERCENT) : parse (c :: rest) = .literal c :: parse rest := by
  rw [parse.eq_def]
  exact if_neg other

theorem parse_directive : parse (PERCENT :: k :: rest) = .directive (directiveOf k) :: parse rest := by
  rw [parse.eq_def]
  exact if_pos rfl

theorem parse_trailing : parse [PERCENT] = [.trailing] := by
  rw [parse.eq_def]
  exact if_pos rfl

theorem expected_directive (matching : expected (.directive label :: items) args = some written) :
    ∃ full arg rest, piece label args = some (full, arg) ∧ expected items arg = some rest ∧ written = full ++ rest := by
  simp only [expected, Option.bind_eq_bind, Option.bind_eq_some_iff, Option.pure_def, Option.some.injEq] at matching
  obtain ⟨⟨full, arg⟩, asks, rest, matching', rfl⟩ := matching
  exact ⟨full, arg, rest, asks, matching', rfl⟩

/-- As long as it stays in the format, the loop never writes too much. -/
theorem scanLoop_short (place : format.chars = before ++ rest) (here : s.fmt = before.length)
    (matching : expected (parse rest) s.arg = some written) (ran : scanLoop format rounds s = .ok t)
    (inside : t.fmt ≤ format.chars.length + 1) : ∃ out, t.console = s.console ++ out ∧ out.length ≤ written.length := by
  induction rest using parse.induct generalizing before s written rounds with
  | case1 =>
    rw [List.append_nil] at place
    cases rounds with
    | zero => cases ran
    | succ rounds =>
      rw [scanLoop_end place here] at ran
      cases ran
      exact ⟨[], (List.append_nil _).symm, Nat.zero_le _⟩
  | case2 =>
    cases rounds with
    | zero => cases ran
    | succ rounds =>
      rw [scanLoop_trailing place here] at ran
      have moved := scanLoop_moves ran
      rw [place, List.length_append, List.length_singleton] at inside
      dsimp only at moved
      omega
  | case3 k rest ih =>
    cases rounds with
    | zero => cases ran
    | succ rounds =>
      rw [parse_directive] at matching
      obtain ⟨full, arg', rest', asks, matching', rfl⟩ := expected_directive matching
      rw [scanLoop_directive place here] at ran
      obtain ⟨u, first, later⟩ := bind_ok ran
      obtain ⟨arg, out, count, writes, rfl⟩ := directive_writes first
      obtain ⟨rfl, less⟩ := writes.le asks
      have place' : format.chars = (before ++ [PERCENT, k]) ++ rest := by rw [place, List.append_assoc]; rfl
      have here' : s.fmt + 2 = (before ++ [PERCENT, k]).length := by rw [here, List.length_append]; rfl
      obtain ⟨more, console, fewer⟩ := ih place' (by exact here') matching' later
      refine ⟨out ++ more, by rw [console, Scanner.put, List.append_assoc], ?_⟩
      rw [List.length_append, List.length_append]
      omega
  | case4 c rest other ih =>
    cases rounds with
    | zero => cases ran
    | succ rounds =>
      rw [parse_literal other] at matching
      obtain ⟨rest', matching', rfl⟩ := Option.map_eq_some_iff.mp matching
      rw [scanLoop_literal place other here] at ran
      have place' : format.chars = (before ++ [c]) ++ rest := by rw [place, List.append_assoc]; rfl
      have here' : s.fmt + 1 = (before ++ [c]).length := by rw [here, List.length_append]; rfl
      obtain ⟨more, console, fewer⟩ := ih place' (by exact here') (by exact matching') ran
      refine ⟨[c] ++ more, by rw [console, List.append_assoc], ?_⟩
      rw [List.length_append, List.length_append]
      omega

theorem ofInt_nat : Int32.ofInt (n : Nat) + .ofNat m = .ofInt ((n + m : Nat) : Int) := by
  rw [Int.natCast_add, Int32.ofInt_add]
  rfl

/-- Where the whole text is right, each part of it is, and `length` lacks the
prefixes that are not counted: there are `h` of them so far. -/
theorem scanLoop_fine (place : format.chars = before ++ rest) (here : s.fmt = before.length)
    (matching : expected (parse rest) s.arg = some written) (ran : scanLoop format rounds s = .ok t)
    (inside : t.fmt ≤ format.chars.length + 1) (same : t.console = s.console ++ written)
    (count : s.length = .ofInt (s.console.length - 2 * (h : Nat))) (fits : t.console.length < 2 ^ 31) :
    ∃ h', h ≤ h' ∧ h' ≤ h + written.length ∧ t.length = .ofInt (t.console.length - 2 * (h' : Nat)) ∧
      (h' = 0 → Fine s.console.length (parse rest) s.arg) := by
  induction rest using parse.induct generalizing before s written rounds h with
  | case1 =>
    rw [List.append_nil] at place
    cases rounds with
    | zero => cases ran
    | succ rounds =>
      rw [scanLoop_end place here] at ran
      cases ran
      exact ⟨h, Nat.le_refl h, Nat.le_add_right h _, count, fun _ => fits⟩
  | case2 =>
    cases rounds with
    | zero => cases ran
    | succ rounds =>
      rw [scanLoop_trailing place here] at ran
      have moved := scanLoop_moves ran
      rw [place, List.length_append, List.length_singleton] at inside
      dsimp only at moved
      omega
  | case3 k rest ih =>
    cases rounds with
    | zero => cases ran
    | succ rounds =>
      rw [parse_directive] at matching ⊢
      obtain ⟨full, arg', rest', asks, matching', rfl⟩ := expected_directive matching
      rw [scanLoop_directive place here] at ran
      obtain ⟨u, first, later⟩ := bind_ok ran
      obtain ⟨arg, out, counted, writes, rfl⟩ := directive_writes first
      obtain ⟨rfl, less⟩ := writes.le asks
      have place' : format.chars = (before ++ [PERCENT, k]) ++ rest := by rw [place, List.append_assoc]; rfl
      have here' : s.fmt + 2 = (before ++ [PERCENT, k]).length := by rw [here, List.length_append]; rfl
      obtain ⟨more, console, fewer⟩ := scanLoop_short place' (by exact here') matching' later inside
      -- Neither part is too long, and together they are long enough.
      have parts : out ++ more = full ++ rest' := by
        rw [same, Scanner.put, List.append_assoc] at console
        exact (List.append_cancel_left console).symm
      have lengths := congrArg List.length parts
      rw [List.length_append, List.length_append] at lengths
      obtain ⟨rfl, rfl⟩ := List.append_inj parts (by omega)
      obtain ⟨whole, right⟩ := writes.whole asks
      have count' : s.length + .ofNat counted =
          .ofInt ((s.console ++ out).length - 2 * ((h + hidden (directiveOf k) : Nat) : Int)) := by
        have both : (Int32.ofNat counted) = .ofInt counted := rfl
        rw [count, both, ← Int32.ofInt_add, List.length_append]
        congr 1
        omega
      obtain ⟨h', most, least, length, fine⟩ := ih place' (by exact here') matching' later console (by exact count')
      refine ⟨h', by omega, by rw [List.length_append]; omega, length, ?_⟩
      intro none
      have start : h = 0 := by omega
      have visible : hidden (directiveOf k) = 0 := by omega
      have later : Fine (s.console ++ out).length (parse rest) arg := fine none
      have size : (toSize s.length).toNat = s.console.length := by
        have bound : s.console.length < 2 ^ 31 := by
          rw [same, List.length_append] at fits
          omega
        have plain : s.length = .ofNat s.console.length := by
          rw [count, start, Int.natCast_zero, Int.mul_zero, Int.sub_zero]
          rfl
        rw [plain, toSize_nat bound]
      rw [List.length_append] at later
      refine ⟨size ▸ right visible, ?_⟩
      rw [asks]
      exact later
  | case4 c rest other ih =>
    cases rounds with
    | zero => cases ran
    | succ rounds =>
      rw [parse_literal other] at matching ⊢
      obtain ⟨rest', matching', rfl⟩ := Option.map_eq_some_iff.mp matching
      rw [scanLoop_literal place other here] at ran
      have place' : format.chars = (before ++ [c]) ++ rest := by rw [place, List.append_assoc]; rfl
      have here' : s.fmt + 1 = (before ++ [c]).length := by rw [here, List.length_append]; rfl
      have count' : s.length + 1 = .ofInt ((s.console ++ [c]).length - 2 * (h : Nat)) := by
        have one : (1 : Int32) = .ofInt 1 := rfl
        rw [count, one, ← Int32.ofInt_add, List.length_append, List.length_singleton]
        congr 1
        omega
      have same' : t.console = (s.console ++ [c]) ++ rest' := by rw [same, List.append_assoc]
      obtain ⟨h', most, least, length, fine⟩ :=
        ih place' (by exact here') (by exact matching') ran same' (by exact count')
      refine ⟨h', most, by rw [List.length_append]; omega, length, ?_⟩
      intro none
      have later : Fine (s.console ++ [c]).length (parse rest) s.arg := fine none
      rw [List.length_append] at later
      exact later

theorem Fine.small (fine : Fine n items args) : n < 2 ^ 31 := by
  induction items generalizing n args with
  | nil => exact fine
  | cons item items ih =>
    cases item with
    | literal c =>
      have := ih fine
      omega
    | directive label =>
      obtain ⟨-, later⟩ := fine
      split at later
      · have := ih later
        omega
      · exact absurd later id
    | trailing => exact absurd fine id

/-- Where all of it is fine, the loop writes the text and counts it. -/
theorem Fine.scans (fine : Fine s.console.length (parse rest) s.arg) (place : format.chars = before ++ rest)
    (here : s.fmt = before.length) (matching : expected (parse rest) s.arg = some written)
    (count : s.length = .ofNat s.console.length) :
    ∃ rounds t, scanLoop format rounds s = .ok t ∧ t.fmt = format.chars.length + 1 ∧ t.console = s.console ++ written ∧
      t.length = .ofNat t.console.length ∧ t.console.length < 2 ^ 31 := by
  induction rest using parse.induct generalizing before s written with
  | case1 =>
    rw [List.append_nil] at place
    refine ⟨1, _, scanLoop_end place here, by rw [here, place], ?_, count, fine⟩
    rw [parse] at matching
    generalize s.arg = args at matching
    cases args with
    | nil =>
      cases matching
      exact (List.append_nil _).symm
    | cons => cases matching
  | case2 =>
    rw [parse_trailing] at fine
    exact absurd fine id
  | case3 k rest ih =>
    rw [parse_directive] at fine matching
    obtain ⟨full, arg, rest', asks, matching', rfl⟩ := expected_directive matching
    have bound := fine.small
    obtain ⟨right, later⟩ := fine
    rw [asks] at later
    have size : (toSize s.length).toNat = s.console.length := by rw [count, toSize_nat bound]
    have writes := right.writes asks bound
    rw [← size] at writes
    have first := @writes_directive { s with fmt := s.fmt + 2 } _ _ _ _ writes
    have place' : format.chars = (before ++ [PERCENT, k]) ++ rest := by rw [place, List.append_assoc]; rfl
    have here' : s.fmt + 2 = (before ++ [PERCENT, k]).length := by rw [here, List.length_append]; rfl
    have later' : Fine (s.console ++ full).length (parse rest) arg := by rwa [List.length_append]
    have count' : s.length + .ofNat full.length = .ofNat (s.console ++ full).length := by
      rw [count, List.length_append]
      exact ofInt_nat
    obtain ⟨rounds, t, ran, stop, console, whole⟩ :=
      @ih (Scanner.put { s with fmt := s.fmt + 2 } arg full full.length) (before ++ [PERCENT, k]) rest' later' place'
        here' matching' count'
    refine ⟨rounds + 1, t, ?_, stop, by rw [console, Scanner.put, List.append_assoc], whole⟩
    rw [scanLoop_directive place here, first]
    exact ran
  | case4 c rest other ih =>
    rw [parse_literal other] at fine matching
    obtain ⟨rest', matching', rfl⟩ := Option.map_eq_some_iff.mp matching
    have place' : format.chars = (before ++ [c]) ++ rest := by rw [place, List.append_assoc]; rfl
    have here' : s.fmt + 1 = (before ++ [c]).length := by rw [here, List.length_append]; rfl
    have fine' : Fine (s.console ++ [c]).length (parse rest) s.arg := by
      rw [List.length_append]
      exact fine
    have count' : s.length + 1 = .ofNat (s.console ++ [c]).length := by
      rw [count, List.length_append]
      exact ofInt_nat
    obtain ⟨rounds, t, ran, stop, console, whole⟩ :=
      @ih ⟨s.fmt + 1, s.arg, s.length + 1, s.console ++ [c]⟩ (before ++ [c]) rest' fine' place' here' matching' count'
    refine ⟨rounds + 1, t, ?_, stop, by rw [console, List.append_assoc], whole⟩
    rw [scanLoop_literal place other here]
    exact ran

/-- `printf` does what it should exactly for the formats and arguments that are fine. -/
theorem printf_iff (matching : expected (parse format.chars) args = some written) :
    Prints format args written ↔ Fine 0 (parse format.chars) args := by
  have place : format.chars = [] ++ format.chars := rfl
  constructor
  · rintro ⟨rounds, t, ran, inside, rfl, counted⟩
    have fits : t.console.length < 2 ^ 31 := by
      have := t.length.toInt_lt
      omega
    obtain ⟨h, -, least, length, fine⟩ := scanLoop_fine (h := 0) place rfl matching ran inside rfl rfl fits
    refine fine ?_
    have few : h ≤ t.console.length := by simpa using least
    have known : t.length.toInt = t.console.length - 2 * (h : Int) := by
      rw [length]
      exact Int32.toInt_ofInt_of_le (by omega) (by omega)
    omega
  · intro fine
    obtain ⟨rounds, t, ran, stop, console, length, fits⟩ :=
      @Fine.scans ⟨0, args, 0, []⟩ format [] _ _ fine place rfl matching rfl
    refine ⟨rounds, t, ran, Nat.le_of_eq stop, console, ?_⟩
    rw [length, Int32.toInt_ofNat_of_lt fits, console]
    rfl

/-- `printf("a%s%d", "x", -7)` writes `ax-7` and returns 4. -/
theorem printf_all : Prints ⟨⟨[97, 37, 115, 37, 100], by decide +kernel⟩, fun _ => 0⟩
    [.pointer ⟨[120], by decide +kernel⟩, .int (-7)] [97, 120, 45, 55] := by
  refine (printf_iff (by decide +kernel)).mpr ?_
  refine ⟨Nat.le_refl 1, ?_, ?_⟩
  · have representable : (-7 : Int32) ≠ Int32.minValue := by decide
    exact representable
  · have short : 4 < 2 ^ 31 := by decide
    exact short

/-- `printf("%s", "x")` writes nothing and returns 1. -/
theorem printf_nothing : ¬ Prints ⟨⟨[37, 115], by decide +kernel⟩, fun _ => 0⟩
    [.pointer ⟨[120], by decide +kernel⟩] [120] := by
  rintro ⟨rounds, t, ran, -, console, -⟩
  have place : [37, 115] = [] ++ PERCENT :: 115 :: [] := rfl
  unfold printf at ran
  match rounds with
  | 0 | 1 => cases ran
  | rounds + 2 =>
    rw [scanLoop_directive place rfl] at ran
    cases ran
    cases console

end QuesOs.KernelText
