import QuesOs.Numerals

/-! `intToStr` of the kernel's `stdio.c`. The digits are written from the last
one on and then reversed in place. What the functions see of `buffer` is the
characters written to it, which the terminator follows. -/
namespace QuesOs.KernelText
open Numerals

/-- The negation wraps. -/
def abs (num : Int32) : Int32 := if num < 0 then -num else num

/-- Exchanges two of the characters. -/
def swap (buffer : List Int8) (x y : Nat) : List Int8 :=
  let t := buffer.getD x 0
  (buffer.set x (buffer.getD y 0)).set y t

def reverseLoop : Nat → List Int8 → Nat → Nat → List Int8
  | 0, buffer, _, _ => buffer
  | rounds + 1, buffer, i, j => if i < j then reverseLoop rounds (swap buffer i j) (i + 1) (j - 1) else buffer

/-- There are at most as many rounds as places. -/
def reverse (buffer : List Int8) (i j : Nat) : List Int8 := reverseLoop (j - i) buffer i j

/-- The loop that writes the digits, for a number of rounds. -/
def digitLoop (base : Int32) : Nat → Int32 → List Int8 → Option (List Int8)
  | 0, _, _ => none
  | rounds + 1, n, buffer =>
    if n ≠ 0 then
      let r := n % base
      let c := if r ≥ 10 then 65 + (r - 10) else 48 + r
      digitLoop base rounds (n / base) (buffer ++ [c.toInt8])
    else some buffer

/-- The string in the buffer afterwards. The digits of an `int` take 32 rounds
at most, and one more round ends the loop. -/
def intToStr (value : Int32) (buffer : List Int8) (base : Int32) : Option (List Int8) :=
  if base < 2 ∨ base > 32 then some buffer
  else do
    let n := abs value
    let buffer ← digitLoop base 33 n []
    let buffer := if buffer.length = 0 then buffer ++ [48] else buffer
    let buffer := if value < 0 ∧ base = 10 then buffer ++ [45] else buffer
    return reverse buffer 0 (buffer.length - 1)

/-- What should be in the buffer: a signed numeral in base 10, in another base
the numeral of the value as an unsigned number. -/
def numeralOf (value base : Int32) : List Int8 :=
  if base = 10 then (if value < 0 then [45] else []) ++ text 10 value.toInt.natAbs
  else text base.toInt.toNat value.toUInt32.toNat

/-! ## The reversal -/

variable {buffer before middle part after : List Int8}

theorem swap_ends : swap (before ++ x :: (middle ++ y :: after)) before.length (before.length + (middle.length + 1)) =
    before ++ y :: (middle ++ x :: after) := by
  simp [swap, List.getD_eq_getElem?_getD, List.set_append_right]

theorem reverse_short (short : part.length ≤ 1) : part.reverse = part := by
  cases part with
  | nil => rfl
  | cons x rest =>
    rw [List.length_eq_zero_iff.mp (Nat.le_zero.mp (Nat.le_of_succ_le_succ short))]
    rfl

/-- The places between are exchanged from the outside to the middle. -/
theorem reverseLoop_part (enough : part.length ≤ rounds + 1) :
    reverseLoop rounds (before ++ (part ++ after)) before.length (before.length + part.length - 1) =
      before ++ (part.reverse ++ after) := by
  induction rounds generalizing before part after with
  | zero =>
    have short : part.reverse = part := reverse_short enough
    rw [short, reverseLoop]
  | succ rounds ih =>
    by_cases short : part.length ≤ 1
    · have crossed : ¬ before.length < before.length + part.length - 1 := by omega
      rw [reverse_short short, reverseLoop, if_neg crossed]
    · obtain ⟨x, middle, y, rfl⟩ : ∃ x middle y, part = x :: (middle ++ [y]) := by
        cases part with
        | nil => exact absurd (Nat.zero_le 1) short
        | cons x rest =>
          rcases List.eq_nil_or_concat rest with rfl | ⟨middle, y, rfl⟩
          · exact absurd (Nat.le_refl 1) short
          · exact ⟨x, middle, y, by rw [List.concat_eq_append]⟩
      have long : (x :: (middle ++ [y])).length = middle.length + 2 := by simp
      have last : before.length + (x :: (middle ++ [y])).length - 1 = before.length + (middle.length + 1) := by omega
      have shape : before ++ (x :: (middle ++ [y]) ++ after) = before ++ x :: (middle ++ y :: after) := by simp
      have inner : (before ++ [y]).length = before.length + 1 := List.length_append
      have next : reverseLoop rounds (before ++ [y] ++ (middle ++ x :: after)) (before ++ [y]).length
          ((before ++ [y]).length + middle.length - 1) = before ++ [y] ++ (middle.reverse ++ x :: after) :=
        ih (by omega)
      have place : (before ++ [y]).length + middle.length - 1 = before.length + (middle.length + 1) - 1 := by omega
      rw [last, shape, reverseLoop, if_pos (by omega), swap_ends]
      rw [place, inner] at next
      simpa using next

theorem reverse_all : reverse buffer 0 (buffer.length - 1) = buffer.reverse := by
  have whole : reverseLoop (buffer.length - 1) ([] ++ (buffer ++ [])) 0 (0 + buffer.length - 1) =
      [] ++ (buffer.reverse ++ []) := reverseLoop_part (by omega)
  simpa [reverse] using whole

/-! ## The digits -/

/-- The character of a remainder. -/
def digitOf (r : Int32) : Int8 := (if r ≥ 10 then 65 + (r - 10) else 48 + r).toInt8

theorem digitOf_nat (small : d < 32) : digitOf (.ofNat d) = digitChar d := by
  revert d
  decide +kernel

/-- A negative remainder gives a character below the digits. -/
theorem digitOf_negative {r : Int32} (low : -32 < r.toInt) (negative : r.toInt < 0) : (digitOf r).toInt < 48 := by
  have below : ∀ d : Nat, d < 32 → 0 < d → (digitOf (.ofInt (-d))).toInt < 48 := by decide +kernel
  have amount : r = .ofInt (-(r.toInt.natAbs : Int)) := by
    rw [show (-(r.toInt.natAbs : Int)) = r.toInt by omega, Int32.ofInt_toInt]
  rw [amount]
  exact below _ (by omega) (by omega)

theorem digitLoop_step (more : n ≠ 0) :
    digitLoop base (rounds + 1) n buffer = digitLoop base rounds (n / base) (buffer ++ [digitOf (n % base)]) := by
  rw [digitLoop, if_pos more]
  rfl

section bases
variable {base : Int32} (two : 2 ≤ base.toInt)
include two

theorem nat_mod (small : k < 2 ^ 31) : Int32.ofNat k % base = .ofNat (k % base.toInt.toNat) := by
  have base_nat : base.toInt = (base.toInt.toNat : Int) := by omega
  have fewer : k % base.toInt.toNat < 2 ^ 31 := Nat.lt_of_le_of_lt (Nat.mod_le _ _) small
  rw [← Int32.toInt_inj, Int32.toInt_mod, Int32.toInt_ofNat_of_lt small, Int32.toInt_ofNat_of_lt fewer, base_nat]
  rfl

theorem nat_div (small : k < 2 ^ 31) : Int32.ofNat k / base = .ofNat (k / base.toInt.toNat) := by
  have base_nat : base.toInt = (base.toInt.toNat : Int) := by omega
  have fewer : k / base.toInt.toNat < 2 ^ 31 := Nat.lt_of_le_of_lt (Nat.div_le_self _ _) small
  have positive : base ≠ -1 := by
    rintro rfl
    exact absurd two (by decide)
  rw [← Int32.toInt_inj, Int32.toInt_div_of_ne_right _ _ positive, Int32.toInt_ofNat_of_lt small,
    Int32.toInt_ofNat_of_lt fewer, base_nat]
  rfl

/-- A number that is not negative leaves its digits, the last one first. -/
theorem digitLoop_digits (most : base.toInt ≤ 32) (small : k < 2 ^ 31) (fits : k < base.toInt.toNat ^ rounds) :
    digitLoop base (rounds + 1) (.ofNat k) buffer =
      some (buffer ++ (Nat.digits base.toInt.toNat k).map digitChar) := by
  induction rounds generalizing k buffer with
  | zero =>
    obtain rfl : k = 0 := Nat.lt_one_iff.mp fits
    simp [digitLoop]
  | succ rounds ih =>
    by_cases zero : k = 0
    · subst zero
      simp [digitLoop]
    · have more : Int32.ofNat k ≠ 0 := by
        intro none
        have := congrArg Int32.toInt none
        rw [Int32.toInt_ofNat_of_lt small] at this
        exact zero (Int.natCast_eq_zero.mp this)
      have quotient : k / base.toInt.toNat < base.toInt.toNat ^ rounds :=
        Nat.div_lt_of_lt_mul (by rwa [Nat.pow_succ'] at fits)
      have digit : k % base.toInt.toNat < 32 := Nat.lt_of_lt_of_le (Nat.mod_lt _ (by omega)) (by omega)
      rw [digitLoop_step more, nat_mod two small, nat_div two small, digitOf_nat digit,
        ih (Nat.lt_of_le_of_lt (Nat.div_le_self _ _) small) quotient,
        Nat.digits_def' (b := base.toInt.toNat) (by omega) (Nat.pos_of_ne_zero zero), List.map_cons, List.append_assoc]
      rfl

/-- A negative number leaves a character below the digits: its last remainder
is negative too. -/
theorem digitLoop_negative (most : base.toInt ≤ 32) (negative : n.toInt < 0)
    (ends : digitLoop base rounds n buffer = some written) : ∃ c ∈ written, c.toInt < 48 := by
  induction rounds generalizing n buffer with
  | zero => cases ends
  | succ rounds ih =>
    have more : n ≠ 0 := by
      rintro rfl
      exact absurd negative (by decide)
    have positive : base ≠ -1 := by
      rintro rfl
      exact absurd two (by decide)
    have quotient : (n / base).toInt = n.toInt.tdiv base.toInt := Int32.toInt_div_of_ne_right n base positive
    have remainder : (n % base).toInt = n.toInt.tmod base.toInt := Int32.toInt_mod n base
    have opposite : n.toInt = -(-n.toInt) := (Int.neg_neg _).symm
    rw [opposite, Int.neg_tdiv] at quotient
    rw [opposite, Int.neg_tmod] at remainder
    rw [digitLoop_step more] at ends
    by_cases single : -n.toInt < base.toInt
    · have last : n / base = 0 := by
        rw [← Int32.toInt_inj, quotient, Int.tdiv_eq_zero_of_lt (by omega) single]
        rfl
      rw [Int.tmod_eq_of_lt (by omega) single] at remainder
      rw [last] at ends
      cases rounds with
      | zero => cases ends
      | succ rounds =>
        cases ends
        refine ⟨_, List.mem_append_right _ (List.mem_singleton_self _), ?_⟩
        apply digitOf_negative <;> omega
    · refine ih ?_ ends
      have positive : 0 < -n.toInt / base.toInt := (Int.le_ediv_iff_mul_le (by omega)).mpr (by omega)
      rw [quotient, Int.tdiv_eq_ediv_of_nonneg (by omega)]
      omega

end bases

/-! ## The string -/

/-- What the loop leaves of a number is its numeral backwards, once zero has a digit. -/
theorem text_reverse : (text base k).reverse =
    let digits := (Nat.digits base k).map digitChar
    if digits.length = 0 then digits ++ [48] else digits := by
  by_cases zero : k = 0
  · subst zero
    simp [text, numeral]
    decide +kernel
  · have nonempty : Nat.digits base k ≠ [] := Nat.digits_ne_nil_iff_ne_zero.mpr zero
    simp [text, numeral, zero, nonempty]

theorem unsigned_positive {value : Int32} (positive : 0 ≤ value) : value.toUInt32.toNat = value.toInt.natAbs := by
  have above : 0 ≤ value.toInt := Int32.le_iff_toInt_le.mp positive
  rw [Int32.toNat_toUInt32_of_le positive, Int32.toNatClampNeg]
  omega

theorem unsigned_negative {value : Int32} (negative : value < 0) : 2 ^ 31 ≤ value.toUInt32.toNat := by
  have below : value.toBitVec.toInt < 0 := Int32.lt_iff_toInt_lt.mp negative
  have same : value.toBitVec.toNat = value.toUInt32.toNat := rfl
  have large := BitVec.toInt_neg_iff.mp below
  omega

section strings
variable {value base : Int32} (two : 2 ≤ base.toInt) (most : base.toInt ≤ 32)
include two most

theorem base_valid : ¬ (base < 2 ∨ base > 32) := by
  rintro (low | high)
  · have : base.toInt < 2 := Int32.lt_iff_toInt_lt.mp low
    omega
  · have : 32 < base.toInt := Int32.lt_iff_toInt_lt.mp high
    omega

omit two most in
theorem abs_nat (representable : value ≠ Int32.minValue) :
    value.toInt.natAbs < 2 ^ 31 ∧ abs value = .ofNat value.toInt.natAbs := by
  have low := value.le_toInt
  have high := value.toInt_lt
  have other : value.toInt ≠ -2 ^ 31 := fun same => representable (Int32.toInt_inj.mp same)
  have small : value.toInt.natAbs < 2 ^ 31 := by omega
  refine ⟨small, ?_⟩
  rw [← Int32.toInt_inj, Int32.toInt_ofNat_of_lt small, abs]
  split
  · rename_i negative
    have below : value.toInt < 0 := Int32.lt_iff_toInt_lt.mp negative
    rw [Int32.toInt_neg, Int.bmod_def]
    omega
  · rename_i positive
    have above : ¬ value.toInt < 0 := fun below => positive (Int32.lt_iff_toInt_lt.mpr below)
    omega

/-- Where the negation does not overflow, the numeral is that of the absolute value. -/
theorem intToStr_abs (representable : value ≠ Int32.minValue) :
    intToStr value buffer base =
      some ((if value < 0 ∧ base = 10 then [45] else []) ++ text base.toInt.toNat value.toInt.natAbs) := by
  obtain ⟨small, absolute⟩ := abs_nat representable
  have fits : value.toInt.natAbs < base.toInt.toNat ^ 32 := calc
    value.toInt.natAbs < 2 ^ 32 := by omega
    _ ≤ base.toInt.toNat ^ 32 := Nat.pow_le_pow_left (by omega) 32
  have digits : digitLoop base 33 (abs value) [] =
      some ((Nat.digits base.toInt.toNat value.toInt.natAbs).map digitChar) := by
    rw [absolute]
    exact digitLoop_digits two most small fits
  have backwards := @text_reverse base.toInt.toNat value.toInt.natAbs
  dsimp only at backwards
  simp only [intToStr, base_valid two most, if_false, digits, Option.bind_eq_bind, Option.bind_some, reverse_all,
    ← backwards, Option.pure_def]
  split <;> simp

/-- The least number has no absolute value; what is written has a character below the digits. -/
theorem intToStr_least (other : base ≠ 10) (writes : intToStr Int32.minValue buffer base = some written) :
    ∃ c ∈ written, c.toInt < 48 := by
  have absolute : abs Int32.minValue = Int32.minValue := by decide
  simp only [intToStr, base_valid two most, if_false, absolute, other, and_false, Option.bind_eq_bind,
    Option.bind_eq_some_iff, reverse_all, Option.pure_def, Option.some.injEq] at writes
  obtain ⟨digits, ends, rfl⟩ := writes
  obtain ⟨c, member, low⟩ := digitLoop_negative two most (by decide) ends
  refine ⟨c, ?_, low⟩
  rw [List.mem_reverse]
  split
  · exact List.mem_append_left _ member
  · exact member

/-- **When `intToStr` writes the right numeral**: the value is not negative, or
the base is 10 and the negation does not overflow. -/
theorem intToStr_iff : intToStr value buffer base = some (numeralOf value base) ↔
    0 ≤ value ∨ base = 10 ∧ value ≠ Int32.minValue := by
  by_cases positive : 0 ≤ value
  · have representable : value ≠ Int32.minValue := by
      rintro rfl
      exact absurd positive (by decide)
    have unsigned : ¬ value < 0 := Int32.not_lt.mpr positive
    rw [intToStr_abs two most representable, numeralOf, unsigned_positive positive]
    simp only [unsigned, false_and, if_false, List.nil_append, positive, true_or, iff_true]
    split
    · rename_i ten
      subst ten
      rfl
    · rfl
  · have negative : value < 0 := Int32.not_le.mp positive
    by_cases ten : base = 10
    · subst ten
      by_cases least : value = Int32.minValue
      · subst least
        have wrong : intToStr Int32.minValue [] 10 ≠ some (numeralOf Int32.minValue 10) := by decide +kernel
        have fresh : intToStr Int32.minValue buffer 10 = intToStr Int32.minValue [] 10 := by
          simp only [intToStr, base_valid two most, if_false]
        rw [fresh]
        simp [positive, wrong]
      · rw [intToStr_abs two most least, numeralOf]
        simp only [negative, positive, true_and, if_true, ne_eq, least, not_false_eq_true, false_or, iff_true]
        rfl
    · simp only [positive, ten, false_and, or_self, iff_false]
      intro writes
      rw [numeralOf, if_neg ten] at writes
      by_cases least : value = Int32.minValue
      · subst least
        obtain ⟨c, member, low⟩ := intToStr_least two most ten writes
        have := text_digits (by omega) (by omega) member
        omega
      · rw [intToStr_abs two most least, if_neg (fun both => ten both.2), List.nil_append, Option.some.injEq] at writes
        have same := text_injective (by omega) (by omega) writes
        have small := (abs_nat least).1
        have large := unsigned_negative negative
        omega

end strings

/-- -255 in base 10. -/
theorem intToStr_negative : intToStr (-255) [] 10 = some [45, 50, 53, 53] :=
  (intToStr_iff (by decide) (by decide)).mpr (.inr ⟨rfl, by decide⟩)

/-- -1 in base 16 is written as 1. -/
theorem intToStr_signed : ¬ ∀ value base buffer, 2 ≤ base.toInt → base.toInt ≤ 32 →
    intToStr value buffer base = some (numeralOf value base) := by
  intro always
  have wrong : intToStr (-1) [] 16 ≠ some (numeralOf (-1) 16) := by decide +kernel
  exact wrong (always (-1) 16 [] (by decide) (by decide))

end QuesOs.KernelText
