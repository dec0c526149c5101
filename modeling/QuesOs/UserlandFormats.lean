import QuesOs.UserlandPrintf

/-! What `_fprintf` should write for a format made of ordinary characters,
percent signs and conversions, and for which formats and arguments it does.
After `%%` the flag `hasFormat` stays set, so only the end of the format may
follow. Where more follows, or an argument is outside of what its conversion
can print, the two texts are told apart by how often some kind of character
is in them. -/
namespace QuesOs.Userland
open Numerals Resumption

variable {s s' : Formatter} {width : List (Fin 10)}

/-- A part of a format. -/
inductive Item where
  | literal (c : Int8) (plain : c ≠ 0 ∧ c ≠ PERCENT)
  | percent
  | conversion (minus : Bool) (width : List (Fin 10)) (kind : Conversion)

def Item.chars : Item → List Int8
  | literal c _ => [c]
  | percent => [PERCENT, PERCENT]
  | conversion minus width kind => directive minus width kind

def formatOf (items : List Item) : List Int8 := items.flatMap Item.chars

/-- The text that an argument converts to, if it is one for the conversion. -/
def converted : Conversion → Argument → Option (List Int8)
  | .c, .int i => some [i.toInt8]
  | .d, .int i => some ((if i < 0 then [MINUS] else []) ++ text 10 i.toInt.natAbs)
  | .o, .int i => some (text 8 i.toUInt32.toNat)
  | .s, .pointer string => some string.chars
  | .x, .uint64 n => some (text 16 n.toNat)
  | .u, .uint64 n => some (text 10 n.toNat)
  | _, _ => none

/-- The text with blanks to the width, on the right with the minus sign. -/
def padded (minus : Bool) (width : List (Fin 10)) (text : List Int8) : List Int8 :=
  surround minus (value 10 (width.map (·.val)) - text.length) text

/-- What should be written, if the arguments are those that the format asks for. -/
def expected : List Item → List Argument → Option (List Int8)
  | [], [] => some []
  | [], _ :: _ => none
  | .literal c _ :: items, arg => (expected items arg).map ([c] ++ ·)
  | .percent :: items, arg => (expected items arg).map ([PERCENT] ++ ·)
  | .conversion minus width kind :: items, a :: arg => do
    let piece ← converted kind a
    let rest ← expected items arg
    return padded minus width piece ++ rest
  | .conversion .. :: _, [] => none

/-- The conversions of a format with their widths and arguments. -/
def conversions : List Item → List Argument → List (List (Fin 10) × Conversion × Argument)
  | .literal .. :: items, arg | .percent :: items, arg => conversions items arg
  | .conversion _ width kind :: items, a :: arg => (width, kind, a) :: conversions items arg
  | .conversion .. :: _, [] | [], _ => []

/-- Nothing comes after a percent sign. -/
def PercentLast (items : List Item) : Prop := ∀ before after, items = before ++ .percent :: after → after = []

/-- The arguments that a conversion can print. -/
def Right : Conversion → Argument → Prop
  | .c, .int i => i.toInt8 ≠ 0
  | .d, .int i => 0 ≤ i
  | .s, .pointer string => string.chars.length < 2 ^ 31
  | .x, .uint64 n => n.toNat < 2 ^ 32
  | _, _ => True

/-- The formats and arguments that are printed as they should be. -/
structure Fine (items : List Item) (arg : List Argument) : Prop where
  percent : PercentLast items
  narrow : ∀ c ∈ conversions items arg, c.1.length ≤ 5
  right : ∀ c ∈ conversions items arg, Right c.2.1 c.2.2

/-! ## What is printed right -/

theorem Right.printed (right : Right kind a) (text : converted kind a = some t) :
    printed kind a = .ok (t, t.length) := by
  unfold converted at text
  split at text
  · rename_i i
    have kept : [i.toInt8].takeWhile (· ≠ 0) = [i.toInt8] := by
      have : i.toInt8 ≠ 0 := right
      simp [this]
    cases text
    rw [Userland.printed, kept]
    rfl
  · rename_i i
    have positive : 0 ≤ i := right
    have amount : 0 ≤ i.toInt := Int32.le_iff_toInt_le.mp positive
    have same : i.toUInt32.toNat = i.toInt.natAbs := by
      rw [Int32.toNat_toUInt32_of_le positive, Int32.toNatClampNeg]
      omega
    have unsigned : ¬ i < 0 := Int32.not_lt.mpr positive
    cases text
    rw [Userland.printed, same, if_neg unsigned]
    rfl
  · cases text
    rfl
  · cases text
    exact if_pos right
  · rename_i n
    have same : n.toUInt32.toNat = n.toNat := by
      rw [UInt64.toNat_toUInt32]
      exact Nat.mod_eq_of_lt right
    cases text
    rw [Userland.printed, same]
  · cases text
    rfl
  · cases text

/-- What is counted of a text is an `int`. -/
theorem printed_length (prints : printed kind a = .ok (piece, length)) : length < 2 ^ 31 := by
  unfold printed at prints
  split at prints
  · cases prints
    decide
  · rename_i i
    cases prints
    exact text_counted i.toUInt32.toUInt64 (by decide)
  · rename_i i
    cases prints
    exact text_counted i.toUInt32.toUInt64 (by decide)
  · split at prints
    · rename_i short
      cases prints
      exact short
    · cases prints
  · rename_i n
    cases prints
    exact text_counted n.toUInt32.toUInt64 (by decide)
  · rename_i n
    cases prints
    exact text_counted n (by decide)
  · cases prints

theorem widthText_eq : widthText width = (width.map (·.val)).map digitChar := by
  rw [List.map_map]
  rfl

/-- The blanks of a conversion with a width of up to five digits. -/
theorem blanks_eq (fresh : s.padding = []) (narrow : width.length ≤ 5)
    (short : length < 2 ^ 31) :
    (s.flagged minus width).blanks length = value 10 (width.map (·.val)) - length := by
  have digits : ∀ d ∈ width.map (·.val), d < 10 := by
    intro d member
    obtain ⟨e, -, rfl⟩ := List.mem_map.mp member
    exact e.isLt
  have small : value 10 (width.map (·.val)) < 10 ^ 5 := calc
    value 10 (width.map (·.val)) < 10 ^ (width.map (·.val)).length := value_lt (by decide) digits
    _ ≤ 10 ^ 5 := Nat.pow_le_pow_right (by decide) (by rwa [List.length_map])
  have read : _atoi (s.flagged minus width).padding = .ofInt (value 10 (width.map (·.val)) : Nat) := by
    rw [Formatter.flagged, fresh, List.nil_append, widthText_eq, atoi_digits digits]
  have count : (Int64.ofInt (value 10 (width.map (·.val)) : Nat) - .ofInt length).toInt.toNat =
      value 10 (width.map (·.val)) - length := by
    rw [← Int64.ofInt_sub, Int64.toInt_ofInt_of_le (by omega) (by omega)]
    omega
  rw [Formatter.blanks, read, count]
  split
  · rfl
  · rename_i unset
    -- No digits were read, so there is no width.
    cases width with
    | nil => simp
    | cons d width => simp [Formatter.flagged] at unset

theorem PercentLast.tail (last : PercentLast (item :: items)) : PercentLast items :=
  fun before after split => last (item :: before) after (by rw [split, List.cons_append])

/-- The variables at the beginning of the call, and after every conversion. -/
def Formatter.clean (arg : List Argument) (output : List Int8) : Formatter := ⟨arg, false, false, false, [], output⟩

/-- A conversion that has its width and its argument right. -/
theorem conversion_prints (narrow : width.length ≤ 5) (right : Right kind a) (text : converted kind a = some t) :
    (fprintfLoop (directive minus width kind)).run (.clean (a :: arg) out) =
      .ok ((), .clean arg (out ++ padded minus width t)) := by
  have prints := right.printed text
  have blanks := @blanks_eq (.clean (a :: arg) out) width t.length minus rfl narrow (printed_length prints)
  have fits : (Formatter.clean (a :: arg) out).padding.length ≤ 6 := Nat.zero_le 6
  rw [directive_run fits]
  simp only [Formatter.clean, List.length_nil, Nat.zero_add, Nat.lt_succ_iff.mpr narrow, if_true, prints, Except.map]
  simp only [Formatter.clean] at blanks
  rw [blanks]
  simp [Formatter.done, Formatter.flagged, padded]

/-- What is fine is printed as it should be. -/
theorem fine_prints (fine : Fine items arg) (matching : expected items arg = some written) :
    ∃ s', (fprintfLoop (formatOf items)).run (.clean arg out) = .ok ((), s') ∧ s'.output = out ++ written := by
  induction items generalizing arg out written with
  | nil =>
    cases arg with
    | nil =>
      cases matching
      exact ⟨_, rfl, (List.append_nil out).symm⟩
    | cons a arg => cases matching
  | cons item items ih =>
    rw [formatOf, List.flatMap_cons]
    cases item with
    | literal c plain =>
      obtain ⟨rest, matching', rfl⟩ := Option.map_eq_some_iff.mp matching
      obtain ⟨s', ran, output⟩ := ih ⟨fine.percent.tail, fine.narrow, fine.right⟩ matching'
      have one : (fprintfLoop [c]).run (.clean arg out) = .ok ((), .clean arg (out ++ [c])) := by
        rw [fprintfLoop_single]
        exact step_plain rfl plain.2 plain.1
      exact ⟨s', (fprintfLoop_then one).trans ran, by rw [output, List.append_assoc]⟩
    | percent =>
      obtain ⟨rest, matching', rfl⟩ := Option.map_eq_some_iff.mp matching
      obtain rfl : items = [] := fine.percent [] items rfl
      cases arg with
      | nil =>
        cases matching'
        refine ⟨⟨[], true, false, false, [], out ++ [PERCENT]⟩, ?_, rfl⟩
        rw [Item.chars, List.flatMap_nil, List.append_nil, fprintfLoop, StateT.run_bind, step_percent, ok_bind,
          fprintfLoop_single, step_percent]
        simp [Formatter.clean]
      | cons a arg => cases matching'
    | conversion minus width kind =>
      cases arg with
      | nil => cases matching
      | cons a arg =>
        simp only [expected, Option.bind_eq_bind, Option.bind_eq_some_iff, Option.pure_def,
          Option.some.injEq] at matching
        obtain ⟨t, text, rest, matching', rfl⟩ := matching
        have mine : (width, kind, a) ∈ conversions (.conversion minus width kind :: items) (a :: arg) :=
          List.mem_cons_self
        have others : Fine items arg :=
          ⟨fine.percent.tail, fun c member => fine.narrow c (List.mem_cons_of_mem _ member),
            fun c member => fine.right c (List.mem_cons_of_mem _ member)⟩
        obtain ⟨s', ran, output⟩ := @ih arg rest (out ++ padded minus width t) others matching'
        have one : (fprintfLoop (directive minus width kind)).run (.clean (a :: arg) out) =
          .ok ((), .clean arg (out ++ padded minus width t)) :=
            conversion_prints (fine.narrow _ mine) (fine.right _ mine) text
        exact ⟨s', (fprintfLoop_then one).trans ran, by rw [output, List.append_assoc]⟩

/-! ## What one part does -/

/-- Between two parts there are flags only after a percent sign. -/
structure Between (s : Formatter) : Prop where
  fits : s.padding.length ≤ 6
  clean : s.hasFormat = false → s = .clean s.arg s.output

/-- What a part can do that does not fail. An ordinary character that comes
after a percent sign is taken for one of a conversion. -/
inductive Passes (s : Formatter) : Item → Formatter → Prop
  | kept (outside : s.hasFormat = false) : Passes s (.literal c plain) (.clean s.arg (s.output ++ [c]))
  | flagged {t : Formatter} (inFormat : s.hasFormat = true) (flags : t.hasFormat = true) (fits : t.padding.length ≤ 6)
      (arg : t.arg = s.arg) (output : t.output = s.output) : Passes s (.literal c plain) t
  | misread (inFormat : s.hasFormat = true) (taken : s.arg = a :: arg) : Passes s (.literal c plain) (.clean arg output)
  | unknown (inFormat : s.hasFormat = true) : Passes s (.literal c plain) (.clean s.arg (s.output ++ [PERCENT]))
  | percent {t : Formatter} (flags : t.hasFormat = true) (fits : t.padding.length ≤ 6) (arg : t.arg = s.arg)
      (output : t.output = s.output ++ (if s.hasFormat then [PERCENT] else []) ++ [PERCENT]) : Passes s .percent t
  | converted {w : List (Fin 10)} (narrow : w.length ≤ 5) (taken : s.arg = a :: arg)
      (prints : printed kind a = .ok (piece, length)) :
      Passes s (.conversion minus w kind)
        (.clean arg (s.output ++ (if s.hasFormat then [PERCENT] else []) ++ surround negative blanks piece))

theorem Passes.between (passes : Passes s item s') : Between s' := by
  cases passes with
  | kept | misread | unknown | converted => exact ⟨Nat.zero_le 6, fun _ => rfl⟩
  | flagged _ flags fits | percent flags fits =>
    refine ⟨fits, ?_⟩
    rw [flags]
    exact fun absurd => Bool.noConfusion absurd

theorem clean_between : Between (.clean arg output) := ⟨Nat.zero_le 6, fun _ => rfl⟩

theorem exists_digit (digit : IS_DIGIT c) : ∃ d < 10, digitChar d = c := by
  obtain ⟨low, high⟩ := isDigit_iff.mp digit
  refine ⟨(c.toInt - 48).toNat, by omega, ?_⟩
  rw [← Int8.toInt_inj, digitChar_toInt (by omega), if_pos (by omega)]
  omega

theorem conversionOf_some (known : conversionOf c = some kind) : c = kind.char := by
  have := List.find?_some known
  simpa using Eq.symm (of_decide_eq_true this)

/-- An ordinary character after a percent sign. -/
theorem literal_passes (between : Between s) (inFormat : s.hasFormat = true) (plain : c ≠ 0 ∧ c ≠ PERCENT)
    (ran : (step c).run s = .ok ((), s')) : Passes s (.literal c plain) s' := by
  by_cases minus : c = MINUS
  · subst minus
    rw [step_minus inFormat] at ran
    cases ran
    exact .flagged inFormat inFormat between.fits rfl rfl
  · by_cases digit : IS_DIGIT c
    · obtain ⟨d, small, rfl⟩ := exists_digit digit
      rw [step_digit inFormat small] at ran
      split at ran
      · rename_i room
        cases ran
        refine .flagged inFormat inFormat ?_ rfl rfl
        rw [List.length_append]
        exact room
      · cases ran
    · rw [step_end inFormat plain.2 minus digit] at ran
      split at ran
      · cases known : conversionOf c with
        | none =>
          have other : (convert c).run s = .ok ((), { s with output := s.output ++ [PERCENT] }) := by
            rw [convert, known]
            rfl
          rw [other] at ran
          cases ran
          exact .unknown inFormat
        | some kind =>
          obtain rfl := conversionOf_some known
          rw [convert_run] at ran
          cases args : s.arg with
          | nil =>
            rw [args] at ran
            cases ran
          | cons a arg =>
            simp only [args] at ran
            cases prints : printed kind a with
            | error e =>
              rw [prints] at ran
              cases ran
            | ok result =>
              rw [prints] at ran
              cases ran
              exact .misread inFormat args
      · cases ran

theorem item_passes (between : Between s) (ran : (fprintfLoop item.chars).run s = .ok ((), s')) :
    Passes s item s' := by
  cases item with
  | literal c plain =>
    rw [Item.chars, fprintfLoop_single] at ran
    cases inFormat : s.hasFormat with
    | true => exact literal_passes between inFormat plain ran
    | false =>
      rw [step_plain inFormat plain.2 plain.1] at ran
      cases ran
      rw [between.clean inFormat]
      exact .kept rfl
  | percent =>
    rw [Item.chars, fprintfLoop, StateT.run_bind, step_percent, ok_bind, fprintfLoop_single, step_percent] at ran
    cases ran
    exact .percent rfl between.fits rfl rfl
  | conversion minus width kind =>
    rw [Item.chars, directive_run between.fits] at ran
    split at ran
    · rename_i room
      cases args : s.arg with
      | nil =>
        rw [args] at ran
        cases ran
      | cons a arg =>
        simp only [args] at ran
        cases prints : printed kind a with
        | error e =>
          rw [prints] at ran
          cases ran
        | ok result =>
          rw [prints] at ran
          cases ran
          exact .converted (by omega) args prints
    · cases ran

/-! ## Whole runs that do not fail -/

/-- The run of a format begins with the run of its first part. -/
theorem fprintfLoop_parts (ran : (fprintfLoop (formatOf (item :: items))).run s = .ok ((), s')) :
    ∃ t, (fprintfLoop item.chars).run s = .ok ((), t) ∧ (fprintfLoop (formatOf items)).run t = .ok ((), s') := by
  rw [formatOf, List.flatMap_cons] at ran
  cases first : (fprintfLoop item.chars).run s with
  | error e =>
    rw [fprintfLoop_fails first] at ran
    cases ran
  | ok result =>
    rw [fprintfLoop_then first] at ran
    exact ⟨result.2, rfl, ran⟩

/-- How many arguments a format takes. -/
def asked (items : List Item) : Nat := items.countP fun item => item matches .conversion ..

theorem expected_length (matching : expected items arg = some written) : arg.length = asked items := by
  induction items generalizing arg written with
  | nil =>
    cases arg with
    | nil => rfl
    | cons a arg => cases matching
  | cons item items ih =>
    cases item with
    | literal c plain | percent =>
      obtain ⟨rest, matching', -⟩ := Option.map_eq_some_iff.mp matching
      simpa [asked] using ih matching'
    | conversion minus width kind =>
      cases arg with
      | nil => cases matching
      | cons a arg =>
        simp only [expected, Option.bind_eq_bind, Option.bind_eq_some_iff] at matching
        obtain ⟨t, text, rest, matching', -⟩ := matching
        simpa [asked] using ih matching'

/-- Each conversion takes an argument, whatever else takes some. -/
theorem asked_le (between : Between s) (ran : (fprintfLoop (formatOf items)).run s = .ok ((), s')) :
    asked items ≤ s.arg.length := by
  induction items generalizing s with
  | nil => exact Nat.zero_le _
  | cons item items ih =>
    obtain ⟨t, first, rest⟩ := fprintfLoop_parts ran
    have passes := item_passes between first
    have left := ih passes.between rest
    cases passes with
    | kept outside => simpa [asked, Formatter.clean] using left
    | flagged inFormat flags fits arg =>
      rw [arg] at left
      simpa [asked] using left
    | misread inFormat taken =>
      rw [taken]
      have more := Nat.le_succ_of_le left
      simpa [asked, Formatter.clean] using more
    | unknown inFormat => simpa [asked, Formatter.clean] using left
    | percent flags fits arg =>
      rw [arg] at left
      simpa [asked] using left
    | converted narrow taken =>
      rw [taken]
      simpa [asked, Formatter.clean] using left

/-- What a part does where the arguments are those of the conversions, with
what it should have written. -/
inductive Matched (s : Formatter) : Item → Formatter → List Int8 → Prop
  | kept (outside : s.hasFormat = false) : Matched s (.literal c plain) (.clean s.arg (s.output ++ [c])) [c]
  | flagged {t : Formatter} (inFormat : s.hasFormat = true) (flags : t.hasFormat = true)
      (arg : t.arg = s.arg) (output : t.output = s.output) : Matched s (.literal c plain) t [c]
  | unknown (inFormat : s.hasFormat = true) : Matched s (.literal c plain) (.clean s.arg (s.output ++ [PERCENT])) [c]
  | percent {t : Formatter} (flags : t.hasFormat = true) (arg : t.arg = s.arg)
      (output : t.output = s.output ++ (if s.hasFormat then [PERCENT] else []) ++ [PERCENT]) :
      Matched s .percent t [PERCENT]
  | converted {w : List (Fin 10)} (narrow : w.length ≤ 5) (taken : s.arg = a :: arg)
      (prints : printed kind a = .ok (piece, length)) (text : converted kind a = some full) :
      Matched s (.conversion minus w kind)
        (.clean arg (s.output ++ (if s.hasFormat then [PERCENT] else []) ++ surround negative blanks piece))
        (padded minus w full)

/-- With an argument for each conversion no ordinary character takes one. -/
theorem matched_parts (between : Between s) (matching : expected (item :: items) s.arg = some written)
    (ran : (fprintfLoop (formatOf (item :: items))).run s = .ok ((), s')) :
    ∃ t piece rest, Matched s item t piece ∧ Between t ∧ (fprintfLoop (formatOf items)).run t = .ok ((), s') ∧
      expected items t.arg = some rest ∧ written = piece ++ rest := by
  obtain ⟨t, first, later⟩ := fprintfLoop_parts ran
  have passes := item_passes between first
  have between' := passes.between
  cases passes with
  | kept outside =>
    obtain ⟨rest, matching', rfl⟩ := Option.map_eq_some_iff.mp matching
    exact ⟨_, _, rest, .kept outside, between', later, matching', rfl⟩
  | flagged inFormat flags fits arg output =>
    obtain ⟨rest, matching', rfl⟩ := Option.map_eq_some_iff.mp matching
    exact ⟨_, _, rest, .flagged inFormat flags arg output, between', later, by rw [arg, matching'], rfl⟩
  | misread inFormat taken =>
    obtain ⟨rest, matching', -⟩ := Option.map_eq_some_iff.mp matching
    have enough := expected_length matching'
    have left := asked_le between' later
    rw [taken] at enough
    simp only [Formatter.clean, List.length_cons] at left enough
    omega
  | unknown inFormat =>
    obtain ⟨rest, matching', rfl⟩ := Option.map_eq_some_iff.mp matching
    exact ⟨_, _, rest, .unknown inFormat, between', later, matching', rfl⟩
  | percent flags fits arg output =>
    obtain ⟨rest, matching', rfl⟩ := Option.map_eq_some_iff.mp matching
    exact ⟨_, _, rest, .percent flags arg output, between', later, by rw [arg, matching'], rfl⟩
  | converted narrow taken prints =>
    rw [taken] at matching
    simp only [expected, Option.bind_eq_bind, Option.bind_eq_some_iff, Option.pure_def,
      Option.some.injEq] at matching
    obtain ⟨full, text, rest, matching', rfl⟩ := matching
    exact ⟨_, _, rest, .converted narrow taken prints text, between', later, matching', rfl⟩

/-- No conversion is left out, and none fails. -/
theorem conversions_printed (between : Between s) (matching : expected items s.arg = some written)
    (ran : (fprintfLoop (formatOf items)).run s = .ok ((), s')) :
    ∀ c ∈ conversions items s.arg, c.1.length ≤ 5 ∧
      ∃ full piece length, converted c.2.1 c.2.2 = some full ∧ printed c.2.1 c.2.2 = .ok (piece, length) := by
  induction items generalizing s written with
  | nil =>
    intro c member
    cases member
  | cons item items ih =>
    obtain ⟨t, mine, rest, matched, between', later, matching', -⟩ := matched_parts between matching ran
    have others := ih between' matching' later
    cases matched with
    | kept => exact others
    | flagged inFormat flags arg =>
      rw [arg] at others
      exact others
    | unknown => exact others
    | percent flags arg =>
      rw [arg] at others
      exact others
    | converted narrow taken prints text =>
      rw [taken]
      intro c member
      rcases List.mem_cons.mp member with rfl | old
      · exact ⟨narrow, _, _, _, text, prints⟩
      · exact others c old

/-! ## Counting characters -/

variable {P : Int8 → Bool}

/-- What is printed for the argument has no more of these characters than
what should be, or fewer. -/
def Keeps (P : Int8 → Bool) (c : List (Fin 10) × Conversion × Argument) : Prop :=
  ∀ full piece length, converted c.2.1 c.2.2 = some full → printed c.2.1 c.2.2 = .ok (piece, length) →
    piece.countP P ≤ full.countP P

def Loses (P : Int8 → Bool) (c : List (Fin 10) × Conversion × Argument) : Prop :=
  ∃ full piece length, converted c.2.1 c.2.2 = some full ∧ printed c.2.1 c.2.2 = .ok (piece, length) ∧
    piece.countP P < full.countP P

theorem countP_surround (blank : P SPACE = false) : (surround negative blanks piece).countP P = piece.countP P := by
  have none : (List.replicate blanks SPACE).countP P = 0 := by simp [List.countP_replicate, blank]
  cases negative <;> simp [surround, none]

/-- Neither a lost character nor one for the percent sign adds others. -/
theorem counts_le (blank : P SPACE = false) (percent : P PERCENT = false) (between : Between s)
    (matching : expected items s.arg = some written) (ran : (fprintfLoop (formatOf items)).run s = .ok ((), s'))
    (keeps : ∀ c ∈ conversions items s.arg, Keeps P c) :
    s'.output.countP P ≤ s.output.countP P + written.countP P ∧
      ((∃ c ∈ conversions items s.arg, Loses P c) →
        s'.output.countP P < s.output.countP P + written.countP P) := by
  induction items generalizing s written with
  | nil =>
    cases ran
    refine ⟨Nat.le_add_right _ _, ?_⟩
    rintro ⟨c, member, -⟩
    cases member
  | cons item items ih =>
    obtain ⟨t, mine, rest, matched, between', later, matching', rfl⟩ := matched_parts between matching ran
    rw [List.countP_append]
    cases matched with
    | kept =>
      obtain ⟨least, less⟩ := ih between' matching' later keeps
      simp only [Formatter.clean, List.countP_append] at least less
      exact ⟨by omega, fun loses => by have := less loses; omega⟩
    | flagged inFormat flags arg output =>
      obtain ⟨least, less⟩ := ih between' matching' later (by rw [arg]; exact keeps)
      rw [output] at least less
      rw [arg] at less
      exact ⟨by omega, fun loses => by have := less loses; omega⟩
    | unknown =>
      obtain ⟨least, less⟩ := ih between' matching' later keeps
      simp only [Formatter.clean, List.countP_append, List.countP_singleton, percent,
        Bool.false_eq_true, if_false] at least less
      exact ⟨by omega, fun loses => by have := less loses; omega⟩
    | percent flags arg output =>
      obtain ⟨least, less⟩ := ih between' matching' later (by rw [arg]; exact keeps)
      have none : (if s.hasFormat then [PERCENT] else []).countP P = 0 := by split <;> simp [percent]
      simp only [output, List.countP_append, none, List.countP_singleton, percent, Bool.false_eq_true,
        if_false] at least less ⊢
      rw [arg] at less
      exact ⟨by omega, fun loses => by have := less loses; omega⟩
    | @converted a arg kind piece length full minus negative blanks w narrow taken prints text =>
      rw [taken] at keeps ⊢
      obtain ⟨least, less⟩ := ih between' matching' later fun c member => keeps c (List.mem_cons_of_mem _ member)
      have none : (if s.hasFormat then [PERCENT] else []).countP P = 0 := by split <;> simp [percent]
      have mine := keeps (w, kind, a) List.mem_cons_self full piece length text prints
      simp only [Formatter.clean, List.countP_append, none, countP_surround blank] at least less
      simp only [padded, countP_surround blank]
      refine ⟨by omega, ?_⟩
      rintro ⟨c, member, loses⟩
      rcases List.mem_cons.mp member with rfl | old
      · obtain ⟨full', piece', length', text', prints', fewer⟩ := loses
        rw [text] at text'
        rw [prints] at prints'
        cases text'
        cases prints'
        omega
      · have := less ⟨c, old, loses⟩
        omega

/-- There are never too few percent signs, and too many as soon as something is
written while the flag of a percent sign is still set. -/
theorem percents_ge (between : Between s) (matching : expected items s.arg = some written)
    (ran : (fprintfLoop (formatOf items)).run s = .ok ((), s'))
    (right : ∀ c ∈ conversions items s.arg, Right c.2.1 c.2.2) :
    s.output.countP (· == PERCENT) + written.countP (· == PERCENT) ≤ s'.output.countP (· == PERCENT) ∧
      (s.hasFormat = true → items ≠ [] →
        s.output.countP (· == PERCENT) + written.countP (· == PERCENT) < s'.output.countP (· == PERCENT) ∨
          s'.output = s.output ∧ written ≠ []) := by
  have blank : (SPACE == PERCENT) = false := by decide +kernel
  have sign : [PERCENT].countP (· == PERCENT) = 1 := by simp
  induction items generalizing s written with
  | nil =>
    cases ran
    obtain rfl : written = [] := by
      cases args : s'.arg with
      | nil =>
        rw [args] at matching
        cases matching
        rfl
      | cons a arg =>
        rw [args] at matching
        cases matching
    exact ⟨Nat.le_refl _, fun _ some => absurd rfl some⟩
  | cons item items ih =>
    obtain ⟨t, mine, rest, matched, between', later, matching', rfl⟩ := matched_parts between matching ran
    rw [List.countP_append]
    cases matched with
    | @kept c plain outside =>
      have other : [c].countP (· == PERCENT) = 0 := by simp [plain.2]
      have most := (ih between' matching' later right).1
      simp only [Formatter.clean, List.countP_append, other] at most ⊢
      refine ⟨by omega, ?_⟩
      rw [outside]
      exact fun absurd => Bool.noConfusion absurd
    | @flagged c plain t inFormat flags arg output =>
      have other : [c].countP (· == PERCENT) = 0 := by simp [plain.2]
      obtain ⟨most, more⟩ := ih between' matching' later (by rw [arg]; exact right)
      rw [output] at most more
      rw [other]
      refine ⟨by omega, ?_⟩
      intro _ _
      by_cases last : items = []
      · subst last
        cases later
        exact .inr ⟨output, List.cons_ne_nil _ _⟩
      · rcases more flags last with strict | ⟨same, -⟩
        · exact .inl (by omega)
        · exact .inr ⟨same, List.cons_ne_nil _ _⟩
    | @unknown c plain inFormat =>
      have other : [c].countP (· == PERCENT) = 0 := by simp [plain.2]
      have most := (ih between' matching' later right).1
      simp only [Formatter.clean, List.countP_append, other, sign] at most ⊢
      exact ⟨by omega, fun _ _ => .inl (by omega)⟩
    | percent flags arg output =>
      have most := (ih between' matching' later (by rw [arg]; exact right)).1
      simp only [output, List.countP_append, sign] at most ⊢
      refine ⟨by omega, ?_⟩
      intro inFormat _
      rw [inFormat, if_pos rfl, sign] at most
      exact .inl (by omega)
    | @converted a arg kind piece length full minus negative blanks w narrow taken prints text =>
      rw [taken] at right
      have printed := (right (w, kind, a) List.mem_cons_self).printed text
      rw [prints] at printed
      cases printed
      have most := (ih between' matching' later fun c member => right c (List.mem_cons_of_mem _ member)).1
      have mine : (padded minus w piece).countP (· == PERCENT) = piece.countP (· == PERCENT) := countP_surround blank
      have same : (surround negative blanks piece).countP (· == PERCENT) = piece.countP (· == PERCENT) :=
        countP_surround blank
      simp only [Formatter.clean, List.countP_append, same, mine] at most ⊢
      refine ⟨by omega, ?_⟩
      intro inFormat _
      rw [inFormat, if_pos rfl, sign] at most
      exact .inl (by omega)

/-! ## Which arguments change the text -/

/-- The characters of the numerals that are printed. -/
def isNumeral (c : Int8) : Bool := IS_DIGIT c ∨ c ≥ 65 ∧ c ≤ 70

theorem countP_text (two : 2 ≤ base) (most : base ≤ 16) (none : ∀ d < 16, P (digitChar d) = false) :
    (text base n).countP P = 0 := by
  rw [List.countP_eq_zero]
  intro c member
  obtain ⟨d, small, rfl⟩ := mem_text two member
  rw [none d (by omega)]
  exact Bool.false_ne_true

/-- The numerals of the wrong numbers have no minus sign and no terminator. -/
theorem keeps_of_digits (none : ∀ d < 16, P (digitChar d) = false) : Keeps P c := by
  obtain ⟨w, kind, a⟩ := c
  intro full piece length text prints
  dsimp only at text prints
  unfold converted at text
  split at text
  · cases text
    cases prints
    exact (List.takeWhile_sublist _).countP_le
  · cases prints
    rw [countP_text (by decide) (by decide) none]
    exact Nat.zero_le _
  · cases text
    cases prints
    exact Nat.le_refl _
  · cases text
    rw [printed] at prints
    split at prints
    · cases prints
      exact Nat.le_refl _
    · cases prints
  · cases prints
    rw [countP_text (by decide) (by decide) none]
    exact Nat.zero_le _
  · cases text
    cases prints
    exact Nat.le_refl _
  · cases text

theorem countP_numeral (two : 2 ≤ base) (most : base ≤ 16) : (text base n).countP isNumeral = (text base n).length := by
  have digits : ∀ d < 16, isNumeral (digitChar d) = true := by decide +kernel
  rw [List.countP_eq_length]
  intro c member
  obtain ⟨d, small, rfl⟩ := mem_text two member
  exact digits d (by omega)

/-- Cutting a number to 32 bits does not make its numeral longer. -/
theorem text_cut (n : UInt64) : (text 16 n.toUInt32.toNat).length ≤ (text 16 n.toNat).length ∧
    (2 ^ 32 ≤ n.toNat → (text 16 n.toUInt32.toNat).length < (text 16 n.toNat).length) := by
  have short : (text 16 n.toUInt32.toNat).length ≤ 7 + 1 := by
    rw [text_length]
    exact numeral_length (by decide) n.toUInt32.toNat_lt
  have long : 2 ^ 32 ≤ n.toNat → 8 < (text 16 n.toNat).length := by
    intro large
    rw [text_length]
    exact numeral_longer (by decide) large
  refine ⟨?_, fun large => by have := long large; omega⟩
  by_cases large : 2 ^ 32 ≤ n.toNat
  · have := long large
    omega
  · have same : n.toUInt32.toNat = n.toNat := by
      rw [UInt64.toNat_toUInt32]
      exact Nat.mod_eq_of_lt (by omega)
    rw [same]

theorem printed_string (prints : printed .s (.pointer string) = .ok (piece, length)) :
    string.chars.length < 2 ^ 31 := by
  rw [printed] at prints
  split at prints
  · assumption
  · cases prints

/-- Where no number is negative, no numeral that is printed is too long. -/
theorem keeps_numeral (unsigned : c.2.1 = .d → Right c.2.1 c.2.2) : Keeps isNumeral c := by
  obtain ⟨w, kind, a⟩ := c
  intro full piece length text prints
  dsimp only at text prints unsigned
  by_cases right : Right kind a
  · rw [right.printed text] at prints
    cases prints
    exact Nat.le_refl _
  · unfold converted at text
    split at text
    · cases text
      cases prints
      exact (List.takeWhile_sublist _).countP_le
    · exact absurd (unsigned rfl) right
    · exact absurd trivial right
    · exact absurd (printed_string prints) right
    · rename_i n
      cases text
      cases prints
      rw [countP_numeral (by decide) (by decide), countP_numeral (by decide) (by decide)]
      exact (text_cut n).1
    · exact absurd trivial right
    · cases text

/-- What is wrong with a text shows in one of three kinds of characters. -/
theorem loses_of_wrong (wrong : ¬ Right kind a) (text : converted kind a = some full)
    (prints : printed kind a = .ok (piece, length)) :
    Loses (· == 0) (w, kind, a) ∨ Loses (· == MINUS) (w, kind, a) ∨ kind ≠ .d ∧ Loses isNumeral (w, kind, a) := by
  have whole := text
  have shown := prints
  unfold converted at text
  split at text
  · rename_i i
    have zero : i.toInt8 = 0 := not_not.mp wrong
    refine .inl ⟨_, _, _, whole, shown, ?_⟩
    cases text
    cases prints
    simp [zero]
  · rename_i i
    have negative : i < 0 := Int32.not_le.mp wrong
    have none : ∀ d < 16, (digitChar d == MINUS) = false := by decide +kernel
    refine .inr (.inl ⟨_, _, _, whole, shown, ?_⟩)
    cases text
    cases prints
    rw [countP_text (by decide) (by decide) none, if_pos negative]
    simp
  · exact absurd trivial wrong
  · exact absurd (printed_string prints) wrong
  · rename_i n
    refine .inr (.inr ⟨by simp, _, _, _, whole, shown, ?_⟩)
    have large : 2 ^ 32 ≤ n.toNat := Nat.le_of_not_lt wrong
    cases text
    cases prints
    rw [countP_numeral (by decide) (by decide), countP_numeral (by decide) (by decide)]
    exact (text_cut n).2 large
  · exact absurd trivial wrong
  · cases text

/-! ## Both directions -/

/-- A text that is right has every argument in range. -/
theorem arguments_right (matching : expected items arg = some written)
    (ran : (fprintfLoop (formatOf items)).run (.clean arg []) = .ok ((), s')) (same : s'.output = written) :
    ∀ c ∈ conversions items arg, Right c.2.1 c.2.2 := by
  have between : Between (.clean arg []) := clean_between
  have prints := conversions_printed between matching ran
  -- No kind of character is counted less often than it should be.
  have balanced : ∀ P : Int8 → Bool, P SPACE = false → P PERCENT = false →
      (∀ c ∈ conversions items arg, Keeps P c) → ∀ c ∈ conversions items arg, ¬ Loses P c := by
    intro P blank percent keeps c member loses
    have less := (counts_le blank percent between matching ran keeps).2 ⟨c, member, loses⟩
    simp [Formatter.clean, same] at less
  have terminators : ∀ c ∈ conversions items arg, ¬ Loses (· == 0) c :=
    balanced _ (by decide +kernel) (by decide +kernel) fun _ _ => keeps_of_digits (by decide +kernel)
  have signs : ∀ c ∈ conversions items arg, ¬ Loses (· == MINUS) c :=
    balanced _ (by decide +kernel) (by decide +kernel) fun _ _ => keeps_of_digits (by decide +kernel)
  have wrongs : ∀ c ∈ conversions items arg, ¬ Right c.2.1 c.2.2 → c.2.1 ≠ .d ∧ Loses isNumeral c := by
    intro c member wrong
    obtain ⟨-, full, piece, length, text, shown⟩ := prints c member
    rcases @loses_of_wrong c.2.1 c.2.2 full piece length c.1 wrong text shown with nul | sign | numeral
    · exact absurd nul (terminators c member)
    · exact absurd sign (signs c member)
    · exact numeral
  have unsigned : ∀ c ∈ conversions items arg, Keeps isNumeral c := by
    intro c member
    apply keeps_numeral
    intro signed
    by_contra wrong
    exact (wrongs c member wrong).1 signed
  have numerals := balanced isNumeral (by decide +kernel) (by decide +kernel) unsigned
  intro c member
  by_contra wrong
  exact numerals c member (wrongs c member wrong).2

theorem percentLast_single : PercentLast [.percent] := by
  intro before after split
  cases before with
  | nil =>
    cases split
    rfl
  | cons first before => cases before <;> cases split

theorem PercentLast.cons (last : PercentLast items) (other : item ≠ .percent) : PercentLast (item :: items) := by
  intro before after split
  cases before with
  | nil =>
    cases split
    exact absurd rfl other
  | cons first before =>
    cases split
    exact last before after rfl

/-- With all of them in range, a text that is right has no percent sign before its end. -/
theorem percent_last (matching : expected items arg = some written)
    (ran : (fprintfLoop (formatOf items)).run (.clean arg out) = .ok ((), s')) (same : s'.output = out ++ written)
    (narrow : ∀ c ∈ conversions items arg, c.1.length ≤ 5)
    (right : ∀ c ∈ conversions items arg, Right c.2.1 c.2.2) : PercentLast items := by
  induction items generalizing arg out written with
  | nil =>
    intro before after split
    cases before <;> cases split
  | cons item items ih =>
    rw [formatOf, List.flatMap_cons] at ran
    cases item with
    | literal c plain =>
      obtain ⟨rest, matching', rfl⟩ := Option.map_eq_some_iff.mp matching
      have one : (fprintfLoop [c]).run (.clean arg out) = .ok ((), .clean arg (out ++ [c])) := by
        rw [fprintfLoop_single]
        exact step_plain rfl plain.2 plain.1
      rw [Item.chars, fprintfLoop_then one] at ran
      rw [← List.append_assoc] at same
      exact (ih matching' ran same narrow right).cons (by simp)
    | conversion minus width kind =>
      cases arg with
      | nil => cases matching
      | cons a arg =>
        simp only [expected, Option.bind_eq_bind, Option.bind_eq_some_iff, Option.pure_def,
          Option.some.injEq] at matching
        obtain ⟨full, text, rest, matching', rfl⟩ := matching
        have mine : (width, kind, a) ∈ conversions (.conversion minus width kind :: items) (a :: arg) :=
          List.mem_cons_self
        have one : (fprintfLoop (directive minus width kind)).run (.clean (a :: arg) out) =
          .ok ((), .clean arg (out ++ padded minus width full)) :=
            conversion_prints (narrow _ mine) (right _ mine) text
        rw [Item.chars, fprintfLoop_then one] at ran
        rw [← List.append_assoc] at same
        have last := ih matching' ran same (fun c member => narrow c (List.mem_cons_of_mem _ member))
          fun c member => right c (List.mem_cons_of_mem _ member)
        exact last.cons (by simp)
    | percent =>
      obtain ⟨rest, matching', rfl⟩ := Option.map_eq_some_iff.mp matching
      have one : (fprintfLoop [PERCENT, PERCENT]).run (.clean arg out) =
          .ok ((), ⟨arg, true, false, false, [], out ++ [PERCENT]⟩) := by
        rw [fprintfLoop, StateT.run_bind, step_percent, ok_bind, fprintfLoop_single, step_percent]
        simp [Formatter.clean]
      rw [Item.chars, fprintfLoop_then one] at ran
      have between : Between ⟨arg, true, false, false, [], out ++ [PERCENT]⟩ :=
        ⟨Nat.zero_le 6, fun absurd => Bool.noConfusion absurd⟩
      have counts := percents_ge between matching' ran right
      have nothing : items = [] := by
        by_contra some
        rw [same] at counts
        rcases counts.2 rfl some with more | ⟨kept, written⟩
        · simp only [List.countP_append] at more
          omega
        · rw [← List.append_assoc] at kept
          exact written (List.append_right_eq_self.mp kept)
      subst nothing
      exact percentLast_single

/-- **When `_fprintf` prints what it should**: nothing comes after `%%`, no
width has more than five digits, and every argument is in the range that its
conversion can print. -/
theorem fprintf_iff (matching : expected items arg = some written) :
    _fprintf (formatOf items) arg = .ok written ↔ Fine items arg := by
  constructor
  · intro prints
    unfold _fprintf at prints
    split at prints
    · rename_i u s' ran
      have same : s'.output = written := Except.ok.inj prints
      have right := arguments_right matching ran same
      have narrow : ∀ c ∈ conversions items arg, c.1.length ≤ 5 := fun c member =>
        (conversions_printed clean_between matching ran c member).1
      exact ⟨percent_last matching ran same narrow right, narrow, right⟩
    · cases prints
  · intro fine
    obtain ⟨s', ran, output⟩ := @fine_prints items arg written [] fine matching
    have start : (fprintfLoop (formatOf items)).run ⟨arg, false, false, false, [], []⟩ = .ok ((), s') := ran
    rw [_fprintf, start]
    exact congrArg Except.ok output

/-- `[%-5d]%%` with 42. -/
theorem fprintf_left :
    _fprintf (formatOf [.literal 91 (by decide +kernel), .conversion true [5] .d,
      .literal 93 (by decide +kernel), .percent])
      [.int 42] = .ok [91, 52, 50, 32, 32, 32, 93, 37] := by
  have matching : expected [.literal 91 (by decide +kernel), .conversion true [5] .d, .literal 93 (by decide +kernel),
      .percent] [.int 42] = some [91, 52, 50, 32, 32, 32, 93, 37] := by decide +kernel
  apply (fprintf_iff matching).mpr
  refine ⟨?_, by simp [conversions], by simp [conversions, Right]⟩
  apply PercentLast.cons _ (by simp)
  apply PercentLast.cons _ (by simp)
  exact percentLast_single.cons (by simp)

/-- `%d` prints -1 as 4294967295. -/
theorem fprintf_negative :
    ¬ ∀ items arg written, expected items arg = some written → _fprintf (formatOf items) arg = .ok written := by
  intro always
  have matching : expected [.conversion false [] .d] [.int (-1)] = some [45, 49] := by decide +kernel
  have printed : _fprintf (formatOf [.conversion false [] .d]) [.int (-1)] =
      .ok [52, 50, 57, 52, 57, 54, 55, 50, 57, 53] := by rfl
  have right := always _ _ _ matching
  rw [printed] at right
  cases right

end QuesOs.Userland
