import QuesOs.Numerals
import Mathlib.Data.UInt

/-! The number printer `_itoa` of `ustdlib.c` and the parsers `_atoi`,
`strToHex` and, from `test_util.c`, `satoi`. A `char *` to a string is the list
of its characters up to the terminator. All arithmetic wraps at the width of
its type. -/
namespace QuesOs.Userland
open Numerals

/-! ## `ustdlib.c` -/

/-- `Representation`, with the terminator of the literal. -/
def Representation : List Int8 := [48, 49, 50, 51, 52, 53, 54, 55, 56, 57, 65, 66, 67, 68, 69, 70, 0]

/-- The loop of `_itoa`. The memory is seen from `buffer` on, which has 128 bytes. -/
def itoaLoop (base : UInt64) : Nat → UInt64 → (Nat → Int8) → Option (Nat × (Nat → Int8))
  | 0, _, _ => none
  | ptr + 1, num, buffer => do
    if base = 0 then none
    let c ← Representation[(num % base).toNat]?
    let buffer := Function.update buffer ptr c
    if num / base ≠ 0 then itoaLoop base ptr (num / base) buffer else some (ptr, buffer)

/-- What `_itoa` does to the memory, and where the string begins; none when it divides by zero,
takes a digit from outside of `Representation` or comes to the front of the buffer. The source
converts the `int` it gets for `base` both times it uses it. -/
def itoaBuffer (num base : UInt64) (buffer : Nat → Int8) : Option (Nat × (Nat → Int8)) :=
  -- The terminator is stored behind the buffer.
  itoaLoop base 128 num (Function.update buffer 128 0)

/-- The characters from `ptr` up to a terminator. -/
def stringAt (buffer : Nat → Int8) (ptr : Nat) : List Int8 :=
  ((List.range' ptr (129 - ptr)).map buffer).takeWhile (· ≠ 0)

/-- The string that `_itoa` returns, from the buffer as it is before the first call. -/
def _itoa (num base : UInt64) : Option (List Int8) :=
  (itoaBuffer num base fun _ => 0).map fun (ptr, buffer) => stringAt buffer ptr

def IS_DIGIT (x : Int8) : Prop := x ≥ 48 ∧ x ≤ 57
  deriving Decidable

def IS_HEXDIGIT (x : Int8) : Prop := IS_DIGIT x ∨ x ≥ 65 ∧ x ≤ 70 ∨ x ≥ 97 ∧ x ≤ 102
  deriving Decidable

def atoiLoop : Int64 → List Int8 → Int64
  | res, [] => res
  | res, c :: str => if IS_DIGIT c then atoiLoop (res * 10 + (c.toInt32 - 48).toInt64) str else res

def _atoi (str : List Int8) : Int64 := atoiLoop 0 (str.dropWhile (· = 32))

def strToHexLoop : Int32 → List Int8 → Int32
  | val, [] => val
  | val, c :: str =>
    if ¬ IS_HEXDIGIT c then -1
    else if IS_DIGIT c then strToHexLoop (val * 16 + c.toInt32 - 48) str
    else if c ≥ 65 ∧ c ≤ 70 then strToHexLoop (val * 16 + c.toInt32 - 65 + 10) str
    else strToHexLoop (val * 16 + c.toInt32 - 97 + 10) str

def strToHex (str : List Int8) : Int32 := strToHexLoop 0 str

/-! ## `test_util.c` -/

def satoiLoop (sign : Int8) : Int64 → List Int8 → Int64
  | res, [] => res * sign.toInt64
  | res, c :: str => if c < 48 ∨ c > 57 then 0 else satoiLoop sign (res * 10 + c.toInt64 - 48) str

/-- `none` is the null pointer. -/
def satoi : Option (List Int8) → Int64
  | none => 0
  | some str => if str.head? = some 45 then satoiLoop (-1) 0 str.tail else satoiLoop 1 0 str

/-! ## Printing -/

theorem representation_digit (small : d < 16) : Representation[d]? = some (digitChar d) := by
  revert d
  decide +kernel

theorem stringAt_update {c : Int8} (inside : ptr ≤ 128) (character : c ≠ 0) :
    stringAt (Function.update buffer ptr c) ptr = c :: stringAt buffer (ptr + 1) := by
  have rest : ∀ i ∈ List.range' (ptr + 1) (128 - ptr), Function.update buffer ptr c i = buffer i := fun i member =>
    Function.update_of_ne (Nat.ne_of_gt (List.mem_range'_1.mp member).1) _ _
  unfold stringAt
  rw [show 129 - ptr = 128 - ptr + 1 by omega, show 129 - (ptr + 1) = 128 - ptr by omega, List.range'_succ,
    List.map_cons, Function.update_self, List.takeWhile_cons_of_pos (by simpa using character),
    List.map_congr_left rest]

section printing
variable {num base : UInt64} (two : 2 ≤ base.toNat) (sixteen : base.toNat ≤ 16)
include two sixteen

/-- A round writes the last digit and goes on with the others, if there are any. -/
theorem itoaLoop_step : itoaLoop base (ptr + 1) num buffer =
    if num.toNat < base.toNat then some (ptr, Function.update buffer ptr (digitChar (num.toNat % base.toNat)))
    else itoaLoop base ptr (num / base) (Function.update buffer ptr (digitChar (num.toNat % base.toNat))) := by
  have divides : base ≠ 0 := by
    rintro rfl
    exact absurd two (by decide)
  have digit : Representation[(num % base).toNat]? = some (digitChar (num.toNat % base.toNat)) := by
    rw [UInt64.toNat_mod]
    exact representation_digit (lt_of_lt_of_le (Nat.mod_lt _ (by omega)) sixteen)
  have last : num / base = 0 ↔ num.toNat < base.toNat := by
    rw [← UInt64.toNat_inj, UInt64.toNat_div]
    exact Nat.div_eq_zero_iff_lt (by omega)
  rw [itoaLoop, digit]
  by_cases small : num.toNat < base.toNat
  · simp only [divides, last.mpr small, small, ne_eq, not_true_eq_false, if_true, if_false]
    rfl
  · have more : num / base ≠ 0 := fun none => small (last.mp none)
    simp only [divides, more, small, ne_eq, not_false_eq_true, if_true, if_false]
    rfl

/-- The loop puts the numeral in front of what there is. -/
theorem itoaLoop_text (inside : ptr < 128) (fits : num.toNat < base.toNat ^ (ptr + 1)) :
    ∃ first after, itoaLoop base (ptr + 1) num buffer = some (first, after) ∧ first ≤ ptr ∧
      stringAt after first = text base.toNat num.toNat ++ stringAt buffer (ptr + 1) ∧
      ∀ i, i < first ∨ ptr < i → after i = buffer i := by
  have digit : num.toNat % base.toNat < 36 :=
    Nat.lt_of_lt_of_le (Nat.mod_lt _ (Nat.lt_of_lt_of_le (by decide) two)) (Nat.le_trans sixteen (by decide))
  have stored : stringAt (Function.update buffer ptr (digitChar (num.toNat % base.toNat))) ptr =
      digitChar (num.toNat % base.toNat) :: stringAt buffer (ptr + 1) :=
    stringAt_update (Nat.le_of_lt inside) (digitChar_ended digit)
  induction ptr generalizing num buffer with
  | zero =>
    have small : num.toNat < base.toNat := by simpa using fits
    rw [itoaLoop_step two sixteen, if_pos small]
    refine ⟨0, _, rfl, Nat.le_refl 0, ?_, fun i outside => Function.update_of_ne (by omega) _ _⟩
    rw [stored, text_small small, Nat.mod_eq_of_lt small]
    rfl
  | succ ptr ih =>
    rw [itoaLoop_step two sixteen]
    split
    · rename_i small
      refine ⟨ptr + 1, _, rfl, Nat.le_refl _, ?_, fun i outside => Function.update_of_ne (by omega) _ _⟩
      rw [stored, text_small small, Nat.mod_eq_of_lt small]
      rfl
    · rename_i large
      have quotient : (num / base).toNat < base.toNat ^ (ptr + 1) := by
        rw [UInt64.toNat_div]
        exact Nat.div_lt_of_lt_mul (by rwa [Nat.pow_succ'] at fits)
      have digit' : (num / base).toNat % base.toNat < 36 :=
        Nat.lt_of_lt_of_le (Nat.mod_lt _ (Nat.lt_of_lt_of_le (by decide) two)) (Nat.le_trans sixteen (by decide))
      obtain ⟨first, after, ran, low, string, others⟩ := ih (Nat.lt_of_succ_lt inside) quotient digit'
        (stringAt_update (Nat.le_of_lt (Nat.lt_of_succ_lt inside)) (digitChar_ended digit'))
      refine ⟨first, after, ran, Nat.le_succ_of_le low, ?_, fun i outside => ?_⟩
      · rw [string, stored, text_step two (Nat.le_of_not_lt large), UInt64.toNat_div, List.append_assoc]
        rfl
      · rw [others i (by omega), Function.update_of_ne (by omega)]

/-- **The printer writes the canonical numeral**, for which 128 places are enough, and a terminator
behind the buffer. Nothing else in the memory is changed. -/
theorem itoa_stores (buffer : Nat → Int8) : ∃ first after, itoaBuffer num base buffer = some (first, after) ∧
    first < 128 ∧ stringAt after first = text base.toNat num.toNat ∧ after 128 = 0 ∧
    ∀ i, i < first ∨ 128 < i → after i = buffer i := by
  have fits : num.toNat < base.toNat ^ (127 + 1) := calc
    num.toNat < 2 ^ 64 := num.toNat_lt
    _ ≤ 2 ^ 128 := by decide
    _ ≤ base.toNat ^ 128 := Nat.pow_le_pow_left two 128
  obtain ⟨first, after, ran, low, string, others⟩ :=
    @itoaLoop_text num base two sixteen 127 (Function.update buffer 128 0) (by decide) fits
  have ended : stringAt (Function.update buffer 128 0) 128 = [] := by simp [stringAt]
  refine ⟨first, after, ran, Nat.lt_succ_of_le low, ?_, ?_, fun i outside => ?_⟩
  · rw [string, ended, List.append_nil]
  · rw [others 128 (.inr (by decide)), Function.update_self]
  · rw [others i (by omega), Function.update_of_ne (by omega)]

theorem itoa_text : _itoa num base = some (text base.toNat num.toNat) := by
  obtain ⟨first, after, ran, -, string, -⟩ := @itoa_stores num base two sixteen fun _ => 0
  rw [_itoa, ran, ← string]
  rfl

end printing

/-! ## Parsing decimal numerals -/

theorem isDigit_digitChar (small : d < 16) : IS_DIGIT (digitChar d) ↔ d < 10 := by
  revert d
  decide +kernel

theorem digitChar_sub (small : d < 10) : ((digitChar d).toInt32 - 48).toInt64 = .ofInt d := by
  revert d
  decide +kernel

theorem ofInt_shift (v d : Nat) :
    Int64.ofInt v * 10 + .ofInt d = Int64.ofInt ((v * 10 + d : Nat) : Int) := by
  rw [Int.natCast_add, Int.natCast_mul, Int64.ofInt_add, Int64.ofInt_mul]
  rfl

section decimals
variable {digits : List Nat} (below : ∀ d ∈ digits, d < 10)
include below

/-- Reading a digit is one step of the value. -/
theorem atoiLoop_digits :
    atoiLoop (.ofInt (v : Nat)) (digits.map digitChar) = .ofInt (digits.foldl (fun v d => v * 10 + d) v : Nat) := by
  induction digits generalizing v with
  | nil => rfl
  | cons d digits ih =>
    have small : d < 10 := below d List.mem_cons_self
    rw [List.map_cons, atoiLoop, if_pos ((isDigit_digitChar (by omega)).mpr small), digitChar_sub small, ofInt_shift]
    exact ih fun e member => below e (List.mem_cons_of_mem _ member)

/-- No blank is in front of a digit. -/
theorem atoi_digits : _atoi (digits.map digitChar) = .ofInt (value 10 digits : Nat) := by
  have blank : ∀ d < 10, digitChar d ≠ 32 := by decide +kernel
  have skipped : (digits.map digitChar).dropWhile (· = 32) = digits.map digitChar := by
    cases digits with
    | nil => rfl
    | cons d digits =>
      have other := blank d (below d List.mem_cons_self)
      simp [other]
  rw [_atoi, skipped]
  exact atoiLoop_digits below

theorem satoiLoop_digits :
    satoiLoop sign (.ofInt (v : Nat)) (digits.map digitChar) =
      .ofInt (digits.foldl (fun v d => v * 10 + d) v : Nat) * sign.toInt64 := by
  induction digits generalizing v with
  | nil => rfl
  | cons d digits ih =>
    have small : d < 10 := below d List.mem_cons_self
    have digit : ∀ d < 10, ¬ (digitChar d < 48 ∨ digitChar d > 57) ∧ (digitChar d).toInt64 = .ofInt (d + 48) := by
      decide +kernel
    have next : Int64.ofInt v * 10 + (digitChar d).toInt64 - 48 = .ofInt ((v * 10 + d : Nat) : Int) := by
      rw [(digit d small).2, Int64.ofInt_add, ← Int64.add_assoc, ofInt_shift]
      exact Int64.add_sub_cancel ..
    rw [List.map_cons, satoiLoop, if_neg (digit d small).1, next]
    exact ih fun e member => below e (List.mem_cons_of_mem _ member)

/-- No sign either. -/
theorem satoi_digits : satoi (some (digits.map digitChar)) = .ofInt (value 10 digits : Nat) := by
  have minus : ∀ d < 10, digitChar d ≠ 45 := by decide +kernel
  have unsigned : (digits.map digitChar).head? ≠ some 45 := by
    cases digits with
    | nil => simp
    | cons d digits => simp [minus d (below d List.mem_cons_self)]
  rw [satoi, if_neg unsigned]
  exact (satoiLoop_digits below).trans (Int64.mul_one _)

end decimals

/-! ## Parsing hexadecimal numerals -/

/-- The digit that a character stands for, in either case. -/
def hexDigit (c : Int8) : Option Nat :=
  if IS_DIGIT c then some (c.toInt - 48).toNat
  else if c ≥ 65 ∧ c ≤ 70 then some (c.toInt - 55).toNat
  else if c ≥ 97 ∧ c ≤ 102 then some (c.toInt - 87).toNat
  else none

/-- What the string is as a hexadecimal numeral, if it has no other characters. -/
def hexValue (str : List Int8) : Option Nat := (str.mapM hexDigit).map (value 16)

theorem isDigit_iff : IS_DIGIT c ↔ 48 ≤ c.toInt ∧ c.toInt ≤ 57 := by
  simp only [IS_DIGIT, ge_iff_le, Int8.le_iff_toInt_le]
  exact Iff.rfl

theorem isHexdigit_iff : IS_HEXDIGIT c ↔ (hexDigit c).isSome = true := by
  unfold IS_HEXDIGIT hexDigit
  split
  · simp [*]
  · split
    · simp [*]
    · split <;> simp [*]

/-- A hexadecimal digit is a step of the value, by any of the three formulas. -/
theorem strToHexLoop_digit (digit : hexDigit c = some d) :
    strToHexLoop (.ofInt (v : Nat)) (c :: str) = strToHexLoop (.ofInt (v * 16 + d : Nat)) str := by
  have hex : IS_HEXDIGIT c := isHexdigit_iff.mpr (by rw [digit]; rfl)
  have sum : Int32.ofInt (v : Nat) * 16 + c.toInt32 = .ofInt (v * 16 + c.toInt) := by
    rw [Int32.ofInt_add, Int32.ofInt_mul, Int32.ofInt_int8ToInt]
    rfl
  rw [strToHexLoop, if_neg (not_not_intro hex), sum]
  unfold hexDigit at digit
  split at digit
  · rename_i decimal
    have low := (isDigit_iff.mp decimal).1
    have amount : ((v * 16 + d : Nat) : Int) = v * 16 + c.toInt - 48 := by
      cases digit
      omega
    rw [if_pos decimal, amount, Int32.ofInt_sub]
    rfl
  · rename_i other
    rw [if_neg other]
    split at digit
    · rename_i capital
      have low : 65 ≤ c.toInt := Int8.le_iff_toInt_le.mp capital.1
      have amount : ((v * 16 + d : Nat) : Int) = v * 16 + c.toInt - 65 + 10 := by
        cases digit
        omega
      rw [if_pos capital, amount, Int32.ofInt_add _ 10, Int32.ofInt_sub]
      rfl
    · rename_i noCapital
      rw [if_neg noCapital]
      split at digit
      · rename_i small
        have low : 97 ≤ c.toInt := Int8.le_iff_toInt_le.mp small.1
        have amount : ((v * 16 + d : Nat) : Int) = v * 16 + c.toInt - 97 + 10 := by
          cases digit
          omega
        rw [amount, Int32.ofInt_add _ 10, Int32.ofInt_sub]
        rfl
      · cases digit

theorem strToHexLoop_spec : strToHexLoop (.ofInt (v : Nat)) str =
    match str.mapM hexDigit with
    | some digits => .ofInt (digits.foldl (fun v d => v * 16 + d) v : Nat)
    | none => -1 := by
  induction str generalizing v with
  | nil => rfl
  | cons c str ih =>
    cases digit : hexDigit c with
    | none =>
      have other : ¬ IS_HEXDIGIT c := by
        rw [isHexdigit_iff, digit]
        exact Bool.false_ne_true
      simp [strToHexLoop, other, digit]
    | some d =>
      rw [strToHexLoop_digit digit, ih, List.mapM_cons, digit]
      cases str.mapM hexDigit <;> rfl

/-- The value of the numeral, cut to 32 bits, or the error. -/
theorem strToHex_spec : strToHex str = match hexValue str with
    | some v => .ofInt v
    | none => -1 := by
  have read : strToHex str = strToHexLoop (.ofInt (0 : Nat)) str := rfl
  rw [read, strToHexLoop_spec, hexValue]
  cases str.mapM hexDigit <;> rfl

theorem hexDigit_digitChar (small : d < 16) : hexDigit (digitChar d) = some d := by
  revert d
  decide +kernel

theorem hexValue_digits {digits : List Nat} (below : ∀ d ∈ digits, d < 16) :
    hexValue (digits.map digitChar) = some (value 16 digits) := by
  have read : (digits.map digitChar).mapM hexDigit = some digits := by
    induction digits with
    | nil => rfl
    | cons d digits ih =>
      rw [List.map_cons, List.mapM_cons, hexDigit_digitChar (below d List.mem_cons_self),
        ih fun e member => below e (List.mem_cons_of_mem _ member)]
      rfl
  rw [hexValue, read]
  rfl

/-! ## Both ways -/

/-- **What is printed can be read back.** -/
theorem itoa_roundtrip :
    (∀ num base : UInt64, 2 ≤ base.toNat → base.toNat ≤ 16 →
      ∃ digits, Canonical base.toNat num.toNat digits ∧ _itoa num base = some (digits.map digitChar)) ∧
    (∀ num : UInt64, num.toNat < 2 ^ 63 →
      ∃ str, _itoa num 10 = some str ∧ (_atoi str).toInt = num.toNat ∧ (satoi (some str)).toInt = num.toNat) ∧
    ∀ num : UInt64, num.toNat < 2 ^ 31 → ∃ str, _itoa num 16 = some str ∧ (strToHex str).toInt = num.toNat := by
  have ten : (10 : UInt64).toNat = 10 := rfl
  have sixteen : (16 : UInt64).toNat = 16 := rfl
  refine ⟨?_, ?_, ?_⟩
  · intro num base two most
    exact ⟨numeral base.toNat num.toNat, numeral_canonical two, itoa_text two most⟩
  · intro num small
    have below : ∀ d ∈ numeral 10 num.toNat, d < 10 := fun d => numeral_below (by decide)
    have same : (Int64.ofInt num.toNat).toInt = num.toNat := Int64.toInt_ofInt_of_le (by omega) (by omega)
    refine ⟨text 10 num.toNat, itoa_text (by decide) (by decide), ?_, ?_⟩
    · rw [text, atoi_digits below, value_numeral, same]
    · rw [text, satoi_digits below, value_numeral, same]
  · intro num small
    have below : ∀ d ∈ numeral 16 num.toNat, d < 16 := fun d => numeral_below (by decide)
    refine ⟨text 16 num.toNat, itoa_text (by decide) (by decide), ?_⟩
    rw [strToHex_spec, text, hexValue_digits below, value_numeral]
    exact Int32.toInt_ofInt_of_le (by omega) (by omega)

end QuesOs.Userland
