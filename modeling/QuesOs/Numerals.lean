import Mathlib.Data.Nat.Digits.Lemmas
import Mathlib.Data.List.Induction
import Mathlib.Data.List.TakeWhile

/-! Positional numerals. A number has one canonical numeral in every base: its
digits from the most significant one on, without a zero in front unless it is
the only digit. It is built by dividing, from its end, and read by
multiplying, from its beginning. -/
namespace QuesOs.Numerals

/-- The digits of the number, most significant first. -/
def numeral (base n : Nat) : List Nat :=
  if n = 0 then [0] else (Nat.digits base n).reverse

/-- What the digits amount to, read from the left. -/
def value (base : Nat) (digits : List Nat) : Nat := digits.foldl (fun v d => v * base + d) 0

/-- A numeral of `n` with no zero in front. -/
structure Canonical (base n : Nat) (digits : List Nat) : Prop where
  nonempty : digits ≠ []
  below : ∀ d ∈ digits, d < base
  leading : digits.head? = some 0 → digits = [0]
  amounts : value base digits = n

variable {base n : Nat} {digits : List Nat}

@[simp] theorem value_nil : value base [] = 0 := rfl

@[simp] theorem value_append : value base (digits ++ [d]) = value base digits * base + d := by
  simp [value]

/-- The same number with the digits written the other way round. -/
theorem value_eq_ofDigits : value base digits = Nat.ofDigits base digits.reverse := by
  induction digits using List.reverseRecOn with
  | nil => rfl
  | append_singleton digits d ih =>
    rw [value_append, List.reverse_append, List.reverse_singleton, List.singleton_append, Nat.ofDigits_cons, ih,
      Nat.mul_comm, Nat.add_comm]

/-- With `k` digits one gets below `base ^ k`. -/
theorem value_lt (two : 2 ≤ base) (below : ∀ d ∈ digits, d < base) : value base digits < base ^ digits.length := by
  rw [value_eq_ofDigits, ← List.length_reverse]
  exact Nat.ofDigits_lt_base_pow_length two fun d member => below d (List.mem_reverse.mp member)

@[simp] theorem value_numeral : value base (numeral base n) = n := by
  unfold numeral
  split
  · rename_i zero
    simp [value, zero]
  · rw [value_eq_ofDigits, List.reverse_reverse, Nat.ofDigits_digits]

theorem numeral_small (small : n < base) : numeral base n = [n] := by
  unfold numeral
  split
  · rename_i zero
    rw [zero]
  · rename_i positive
    rw [Nat.digits_of_lt base n positive small, List.reverse_singleton]

/-- The last digit is the remainder, those before it are the quotient's. -/
theorem numeral_step (two : 2 ≤ base) (large : base ≤ n) :
    numeral base n = numeral base (n / base) ++ [n % base] := by
  have positive : n ≠ 0 := by omega
  have quotient : n / base ≠ 0 := Nat.ne_of_gt (Nat.div_pos large (by omega))
  rw [numeral, if_neg positive, numeral, if_neg quotient, Nat.digits_def' two (Nat.pos_of_ne_zero positive),
    List.reverse_cons]

theorem numeral_ne_nil : numeral base n ≠ [] := by
  unfold numeral
  split
  · exact List.cons_ne_nil _ _
  · rename_i positive
    rw [Ne, List.reverse_eq_nil_iff]
    exact Nat.digits_ne_nil_iff_ne_zero.mpr positive

theorem numeral_below (two : 2 ≤ base) (member : d ∈ numeral base n) : d < base := by
  unfold numeral at member
  split at member
  · rw [List.mem_singleton] at member
    omega
  · exact Nat.digits_lt_base two (List.mem_reverse.mp member)

/-- A number below `base ^ k` takes at most `k` digits. -/
theorem numeral_length (two : 2 ≤ base) (small : n < base ^ (k + 1)) : (numeral base n).length ≤ k + 1 := by
  unfold numeral
  split
  · simp
  · rw [List.length_reverse]
    exact (Nat.digits_length_le_iff two n).mpr small

/-- A number from `base ^ k` on takes more than `k`. -/
theorem numeral_longer (two : 2 ≤ base) (large : base ^ k ≤ n) : k < (numeral base n).length := by
  have power : 0 < base ^ k := Nat.pow_pos (by omega)
  rw [numeral, if_neg (by omega), List.length_reverse]
  exact (Nat.lt_digits_length_iff two n).mpr large

/-- A larger number takes no fewer digits. -/
theorem numeral_length_mono (more : n ≤ m) : (numeral base n).length ≤ (numeral base m).length := by
  unfold numeral
  split
  · exact List.length_pos_of_ne_nil numeral_ne_nil
  · rename_i positive
    rw [if_neg (by omega), List.length_reverse, List.length_reverse]
    exact Nat.le_length_digits_le base n m more

theorem numeral_canonical (two : 2 ≤ base) : Canonical base n (numeral base n) := by
  refine ⟨numeral_ne_nil, fun d => numeral_below two, ?_, value_numeral⟩
  intro leading
  unfold numeral at leading ⊢
  split
  · rfl
  · rename_i positive
    rw [if_neg positive, List.head?_reverse] at leading
    have nonempty : Nat.digits base n ≠ [] := Nat.digits_ne_nil_iff_ne_zero.mpr positive
    rw [List.getLast?_eq_some_getLast nonempty, Option.some.injEq] at leading
    exact absurd leading (Nat.getLast_digit_ne_zero base positive)

/-! ## As text -/

/-- The ASCII character of a digit: `0` to `9`, and the capitals from `A` on. -/
def digitChar (d : Nat) : Int8 := if d < 10 then .ofNat (48 + d) else .ofNat (55 + d)

/-- The canonical numeral in characters. -/
def text (base n : Nat) : List Int8 := (numeral base n).map digitChar

theorem digitChar_toInt (small : d < 36) : (digitChar d).toInt = if d < 10 then 48 + (d : Int) else 55 + d := by
  unfold digitChar
  split
  · exact Int8.toInt_ofNat_of_lt (by omega)
  · exact Int8.toInt_ofNat_of_lt (by omega)

theorem text_step (two : 2 ≤ base) (large : base ≤ n) :
    text base n = text base (n / base) ++ [digitChar (n % base)] := by
  rw [text, numeral_step two large, List.map_append]
  rfl

theorem text_small (small : n < base) : text base n = [digitChar n] := by
  rw [text, numeral_small small]
  rfl

theorem text_length : (text base n).length = (numeral base n).length := List.length_map digitChar

theorem digitChar_ended (small : d < 36) : digitChar d ≠ 0 := by
  intro zero
  have := digitChar_toInt small
  rw [zero] at this
  have none : (0 : Int8).toInt = 0 := rfl
  split at this <;> omega

/-- The characters of a numeral are digits of its base. -/
theorem mem_text (two : 2 ≤ base) (member : c ∈ text base n) : ∃ d < base, digitChar d = c := by
  obtain ⟨d, digit, rfl⟩ := List.mem_map.mp member
  exact ⟨d, numeral_below two digit, rfl⟩

/-- None of them is the terminator of a string. -/
theorem text_ended (two : 2 ≤ base) (most : base ≤ 36) : 0 ∉ text base n := by
  intro member
  obtain ⟨d, small, zero⟩ := mem_text two member
  exact digitChar_ended (by omega) zero

/-- A number below `base ^ k` takes at most `k` characters. -/
theorem text_short (two : 2 ≤ base) (small : n < 2 ^ (k + 1)) : (text base n).length ≤ k + 1 := by
  have fits : n < base ^ (k + 1) := Nat.lt_of_lt_of_le small (Nat.pow_le_pow_left two (k + 1))
  rw [text_length]
  exact numeral_length two fits

theorem map_digitChar_injective {first second : List Nat} (small : ∀ d ∈ first, d < 36) (small' : ∀ d ∈ second, d < 36)
    (same : first.map digitChar = second.map digitChar) : first = second := by
  induction first generalizing second with
  | nil =>
    cases second with
    | nil => rfl
    | cons e second => cases same
  | cons d first ih =>
    cases second with
    | nil => cases same
    | cons e second =>
      rw [List.map_cons, List.map_cons, List.cons.injEq] at same
      have value := congrArg Int8.toInt same.1
      have low := small d List.mem_cons_self
      have low' := small' e List.mem_cons_self
      rw [digitChar_toInt low, digitChar_toInt low'] at value
      have head : d = e := by
        split at value <;> split at value <;> omega
      rw [head, ih (fun d member => small d (List.mem_cons_of_mem _ member))
        (fun d member => small' d (List.mem_cons_of_mem _ member)) same.2]

/-- Different numbers have different texts. -/
theorem text_injective (two : 2 ≤ base) (most : base ≤ 36) (same : text base n = text base m) : n = m := by
  have digits : ∀ k, ∀ d ∈ numeral base k, d < 36 := fun k d member =>
    Nat.lt_of_lt_of_le (numeral_below two member) most
  have numerals := map_digitChar_injective (digits n) (digits m) same
  rw [← @value_numeral base n, numerals, value_numeral]

theorem text_digits (two : 2 ≤ base) (most : base ≤ 36) (member : c ∈ text base n) : 48 ≤ c.toInt := by
  obtain ⟨d, small, rfl⟩ := mem_text two member
  rw [digitChar_toInt (by omega)]
  split <;> omega

/-- Only a terminator ends a text before its end. -/
theorem takeWhile_ended {str : List Int8} (ended : 0 ∉ str) : str.takeWhile (· ≠ 0) = str := by
  rw [List.takeWhile_eq_self_iff]
  intro c member
  have other : c ≠ 0 := by
    rintro rfl
    exact ended member
  simp [other]

end QuesOs.Numerals
