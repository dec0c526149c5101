import Mathlib.Data.Nat.Digits.Lemmas
import Mathlib.Logic.Function.Basic

/-! Bytes at their addresses, in a memory or on a disk: what is read where something was
written, and elsewhere, and numbers of a fixed number of bytes, the lowest first. -/
namespace QuesOs.Image

variable {m m' : Nat → UInt8} {a b i k n x : Nat} {bytes more : List UInt8}

/-- The bytes from `a` on. -/
def read (m : Nat → UInt8) (a : Nat) : Nat → List UInt8
  | 0 => []
  | n + 1 => m a :: read m (a + 1) n

/-- One byte after the other. -/
def write (m : Nat → UInt8) (a : Nat) : List UInt8 → Nat → UInt8
  | [] => m
  | byte :: bytes => write (Function.update m a byte) (a + 1) bytes

/-- `n` bytes of another place. -/
def blit (m : Nat → UInt8) (a n : Nat) (source : Nat → UInt8) : Nat → UInt8 := fun i =>
  if a ≤ i ∧ i < a + n then source (i - a) else m i

@[simp] theorem length_read : (read m a n).length = n := by
  induction n generalizing a with
  | zero => rfl
  | succ n ih => simp [read, ih]

theorem read_congr (same : ∀ i, a ≤ i → i < a + n → m i = m' i) : read m a n = read m' a n := by
  induction n generalizing a with
  | zero => rfl
  | succ n ih =>
    unfold read
    rw [same a (Nat.le_refl a) (by omega), ih fun i low high => same i (by omega) (by omega)]

theorem read_add : read m a (n + k) = read m a n ++ read m (a + n) k := by
  induction n generalizing a with
  | zero => simp [read]
  | succ n ih => rw [Nat.succ_add, read, read, ih, List.cons_append, Nat.add_assoc, Nat.add_comm 1 n]

theorem getElem_read (inside : i < (read m a n).length) : (read m a n)[i] = m (a + i) := by
  induction n generalizing a i with
  | zero => exact absurd inside (by simp [read])
  | succ n ih =>
    cases i with
    | zero => rfl
    | succ i =>
      simp only [read, List.getElem_cons_succ]
      rw [ih, Nat.add_assoc, Nat.add_comm 1 i]

theorem write_other (other : i < a ∨ a + bytes.length ≤ i) : write m a bytes i = m i := by
  induction bytes generalizing m a with
  | nil => rfl
  | cons byte bytes ih =>
    rw [List.length_cons] at other
    rw [write, ih (by omega), Function.update_of_ne (by omega)]

theorem write_here (inside : i < bytes.length) : write m a bytes (a + i) = bytes[i] := by
  induction bytes generalizing m a i with
  | nil => exact absurd inside (Nat.not_lt_zero i)
  | cons byte bytes ih =>
    rw [write]
    cases i with
    | zero => rw [write_other (.inl (by omega)), Nat.add_zero, Function.update_self, List.getElem_cons_zero]
    | succ i =>
      have rest := ih (m := Function.update m a byte) (a := a + 1) (Nat.lt_of_succ_lt_succ inside)
      rw [List.getElem_cons_succ, ← rest, Nat.add_assoc, Nat.add_comm 1 i]

/-- What was written is read. -/
theorem read_write : read (write m a bytes) a bytes.length = bytes := by
  refine List.ext_getElem length_read fun i inside _ => ?_
  rw [getElem_read, write_here]

/-- What is written elsewhere leaves it. -/
theorem read_write_other (apart : a + bytes.length ≤ b ∨ b + n ≤ a) : read (write m a bytes) b n = read m b n :=
  read_congr fun i low high => write_other (by omega)

theorem read_write_append : read (write m a bytes) a (bytes.length + k) = bytes ++ read m (a + bytes.length) k := by
  rw [read_add, read_write, read_write_other (.inl (Nat.le_refl _))]

theorem read_blit_other (apart : a + k ≤ b ∨ b + n ≤ a) : read (blit m a k m') b n = read m b n :=
  read_congr fun i low high => if_neg (by omega)

theorem read_blit (within : b + n ≤ k) : read (blit m a k m') (a + b) n = read m' b n := by
  refine List.ext_getElem (by simp) fun i inside _ => ?_
  rw [length_read] at inside
  rw [getElem_read, getElem_read]
  unfold blit
  rw [if_pos (by omega), Nat.add_assoc, Nat.add_sub_cancel_left]

/-! ## Numbers -/

/-- The lowest byte comes first. -/
def number (bytes : List UInt8) : Nat := Nat.ofDigits 256 (bytes.map UInt8.toNat)

/-- The lowest `k` bytes of a number. -/
def bytesOf : Nat → Nat → List UInt8
  | 0, _ => []
  | k + 1, x => UInt8.ofNat x :: bytesOf k (x / 256)

@[simp] theorem length_bytesOf : (bytesOf k x).length = k := by
  induction k generalizing x with
  | zero => rfl
  | succ k ih => simp [bytesOf, ih]

theorem number_cons (byte : UInt8) : number (byte :: bytes) = byte.toNat + 256 * number bytes := by
  simp [number, Nat.ofDigits_cons]

theorem number_bytesOf : number (bytesOf k x) = x % 256 ^ k := by
  induction k generalizing x with
  | zero => simp [bytesOf, number, Nat.mod_one]
  | succ k ih => rw [bytesOf, number_cons, ih, Nat.pow_succ', Nat.mod_mul, UInt8.toNat_ofNat']

/-- A number that fits comes back. -/
theorem number_bytesOf_small (small : x < 256 ^ k) : number (bytesOf k x) = x := by
  rw [number_bytesOf, Nat.mod_eq_of_lt small]

end QuesOs.Image
