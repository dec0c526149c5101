import Mathlib.Data.UInt
import Mathlib.Logic.Function.Basic
import Mathlib.Tactic.Abel

/-! `getMem` of `syscalls.c`, what the system call `SYS_PRINTMEM` does. It
copies byte by byte, upwards, in the one memory that source and buffer are
both in; an address is 64 bits wide and wraps. The counter of its loop has
8 bits, and nothing checks the number of bytes asked for. -/
namespace QuesOs.MemoryRead

abbrev Memory := UInt64 → UInt8

def _getMem (m : Memory) (direc : UInt64) : UInt8 := m direc

/-- The loop of `getMem`, for a number of rounds: `none` if it has not ended by then. -/
def getMemLoop (direc buffer bytes : UInt64) : Nat → UInt8 → Memory → Option Memory
  | 0, _, _ => none
  | rounds + 1, i, m =>
    if i.toUInt64 < bytes then
      getMemLoop direc buffer bytes rounds (i + 1)
        (Function.update m (buffer + i.toUInt64) (_getMem m (direc + i.toUInt64)))
    else some m

def getMem (rounds : Nat) (direc buffer bytes : UInt64) (m : Memory) : Option Memory :=
  getMemLoop direc buffer bytes rounds 0 m

/-- The case `SYS_PRINTMEM` of `syscallHandler`, with what it returns. -/
def sysPrintMem (rounds : Nat) (arg0 arg1 arg2 : UInt64) (m : Memory) : Option (Memory × UInt64) := do
  let m' ← getMem rounds arg0 arg1 arg2 m
  return (m', 0)

/-- The call returns, with the bytes that were at `direc` now in `buffer` and
no other byte changed. -/
def Copies (direc buffer bytes : UInt64) (m : Memory) : Prop :=
  ∃ rounds m', sysPrintMem rounds direc buffer bytes m = some (m', 0) ∧
    (∀ i < bytes.toNat, m' (buffer + .ofNat i) = m (direc + .ofNat i)) ∧
    ∀ p, (∀ i < bytes.toNat, p ≠ buffer + .ofNat i) → m' p = m p

/-! ## What the loop has written -/

variable {direc buffer bytes : UInt64} {m m' : Memory}

/-- How far into the source the buffer begins; past the end of it when the
buffer begins below. -/
def lag (direc buffer : UInt64) : Nat := (buffer - direc).toNat

/-- The memory after `count` bytes. From `lag` on, the bytes that are read
are ones written before. -/
def written (m : Memory) (direc buffer : UInt64) (count : Nat) : Memory := fun p =>
  if (p - buffer).toNat < count then m (direc + .ofNat ((p - buffer).toNat % lag direc buffer)) else m p

theorem written_zero : written m direc buffer 0 = m := by
  funext p
  exact if_neg (Nat.not_lt_zero _)

/-- Where a byte of the source lies, counted from the buffer. -/
theorem source_place (small : n < 2 ^ 64) :
    (direc + .ofNat n - buffer).toNat = if lag direc buffer ≤ n then n - lag direc buffer
      else 2 ^ 64 + n - lag direc buffer := by
  have shift : direc + .ofNat n - buffer = .ofNat n - (buffer - direc) := by abel
  have bound := (buffer - direc).toNat_lt
  rw [shift, UInt64.toNat_sub, UInt64.toNat_ofNat_of_lt' small]
  unfold lag
  split <;> omega

/-- The byte read in a round is one of the source's first `lag`. -/
theorem written_source (small : n < 2 ^ 64) :
    written m direc buffer n (direc + .ofNat n) = m (direc + .ofNat (n % lag direc buffer)) := by
  have bound : lag direc buffer < 2 ^ 64 := (buffer - direc).toNat_lt
  unfold written
  rw [source_place small]
  by_cases reached : lag direc buffer ≤ n
  · rw [if_pos reached]
    by_cases apart : n - lag direc buffer < n
    · rw [if_pos apart, ← Nat.mod_eq_sub_mod reached]
    · have none : lag direc buffer = 0 := by omega
      rw [if_neg apart, none, Nat.mod_zero]
  · rw [if_neg reached, if_neg (by omega), Nat.mod_eq_of_lt (by omega)]

theorem written_succ (small : n < 2 ^ 64) :
    Function.update (written m direc buffer n) (buffer + .ofNat n) (written m direc buffer n (direc + .ofNat n)) =
      written m direc buffer (n + 1) := by
  funext p
  rw [written_source small]
  by_cases here : p = buffer + .ofNat n
  · have place : (p - buffer).toNat = n := by
      rw [here, add_sub_cancel_left, UInt64.toNat_ofNat_of_lt' small]
    rw [here, Function.update_self, written, ← here, place, if_pos (Nat.lt_succ_self n)]
  · have other : (p - buffer).toNat ≠ n := by
      intro place
      apply here
      rw [← place, UInt64.ofNat_toNat]
      abel
    have same : (p - buffer).toNat < n + 1 ↔ (p - buffer).toNat < n := by omega
    rw [Function.update_of_ne here]
    simp only [written, same]

/-! ## Which calls return -/

/-- A round of the loop, while there is one. -/
theorem getMemLoop_step (inside : i.toNat < bytes.toNat) :
    getMemLoop direc buffer bytes (rounds + 1) i (written m direc buffer i.toNat) =
      getMemLoop direc buffer bytes rounds (i + 1) (written m direc buffer (i.toNat + 1)) := by
  have small : i.toNat < 2 ^ 64 := lt_trans i.toNat_lt (by decide)
  have wide : i.toUInt64 = .ofNat i.toNat := by
    apply UInt64.toNat_inj.mp
    rw [UInt8.toNat_toUInt64, UInt64.toNat_ofNat_of_lt' small]
  have test : i.toUInt64 < bytes := by
    rw [UInt64.lt_iff_toNat_lt, UInt8.toNat_toUInt64]
    exact inside
  rw [getMemLoop, if_pos test, wide, _getMem, written_succ small]

theorem getMemLoop_done (past : bytes.toNat ≤ i.toNat) :
    getMemLoop direc buffer bytes (rounds + 1) i m = some m := by
  have test : ¬ i.toUInt64 < bytes := by
    rw [UInt64.lt_iff_toNat_lt, UInt8.toNat_toUInt64]
    omega
  rw [getMemLoop, if_neg test]

/-- Up to 255 bytes the loop ends with all of them written. -/
theorem getMemLoop_written (few : bytes.toNat < 256) (left : bytes.toNat = i.toNat + n) :
    getMemLoop direc buffer bytes (n + 1) i (written m direc buffer i.toNat) =
      some (written m direc buffer bytes.toNat) := by
  induction n generalizing i with
  | zero => rw [getMemLoop_done (by omega), left, Nat.add_zero]
  | succ n ih =>
    have next : (i + 1).toNat = i.toNat + 1 := by
      rw [UInt8.toNat_add, UInt8.toNat_one, Nat.mod_eq_of_lt (by omega)]
    rw [getMemLoop_step (by omega), ← next]
    exact ih (by omega)

/-- From 256 bytes on the counter never gets there. -/
theorem getMemLoop_endless (many : 256 ≤ bytes.toNat) : getMemLoop direc buffer bytes rounds i m = none := by
  induction rounds generalizing i m with
  | zero => rfl
  | succ rounds ih =>
    have test : i.toUInt64 < bytes := by
      rw [UInt64.lt_iff_toNat_lt, UInt8.toNat_toUInt64]
      exact lt_of_lt_of_le i.toNat_lt many
    rw [getMemLoop, if_pos test]
    exact ih

/-- More rounds change nothing once the loop has ended. -/
theorem getMemLoop_mono (ends : getMemLoop direc buffer bytes rounds i m = some m') (more : rounds ≤ rounds') :
    getMemLoop direc buffer bytes rounds' i m = some m' := by
  induction rounds generalizing rounds' i m with
  | zero => cases ends
  | succ rounds ih =>
    cases rounds' with
    | zero => cases more
    | succ rounds' =>
      rw [getMemLoop] at ends ⊢
      split at ends
      · rename_i test
        rw [if_pos test]
        exact ih ends (Nat.le_of_succ_le_succ more)
      · rename_i test
        rw [if_neg test]
        exact ends

theorem sysPrintMem_returns (few : bytes.toNat < 256) :
    ∃ rounds, sysPrintMem rounds direc buffer bytes m = some (written m direc buffer bytes.toNat, 0) := by
  have start : written m direc buffer (0 : UInt8).toNat = m := written_zero
  have ends : getMemLoop direc buffer bytes (bytes.toNat + 1) 0 (written m direc buffer (0 : UInt8).toNat) =
      some (written m direc buffer bytes.toNat) := getMemLoop_written few (by simp)
  rw [start] at ends
  exact ⟨bytes.toNat + 1, by simp [sysPrintMem, getMem, ends]⟩

theorem sysPrintMem_unique (first : sysPrintMem rounds direc buffer bytes m = some result)
    (second : sysPrintMem rounds' direc buffer bytes m = some result') : result = result' := by
  simp only [sysPrintMem, getMem, Option.bind_eq_bind, Option.bind_eq_some_iff, Option.pure_def,
    Option.some.injEq] at first second
  obtain ⟨m₁, ends, rfl⟩ := first
  obtain ⟨m₂, ends', rfl⟩ := second
  have one := getMemLoop_mono ends (Nat.le_max_left rounds rounds')
  have two := getMemLoop_mono ends' (Nat.le_max_right rounds rounds')
  rw [one] at two
  cases two
  rfl

/-! ## Which calls copy -/

/-- **When `getMem` copies.** It returns for fewer than 256 bytes only. The
buffer may begin inside the source, after its first byte, only if the source
repeats itself from there. -/
theorem getMem_copies_iff : Copies direc buffer bytes m ↔
    bytes.toNat < 256 ∧
      ∀ i < bytes.toNat, m (direc + .ofNat i) = m (direc + .ofNat (i % lag direc buffer)) := by
  have placed : ∀ i < bytes.toNat, (buffer + .ofNat i - buffer : UInt64).toNat = i := by
    intro i inside
    have small : i < 2 ^ 64 := lt_trans inside bytes.toNat_lt
    rw [add_sub_cancel_left, UInt64.toNat_ofNat_of_lt' small]
  have copy : ∀ i < bytes.toNat, written m direc buffer bytes.toNat (buffer + .ofNat i) =
      m (direc + .ofNat (i % lag direc buffer)) := by
    intro i inside
    rw [written, placed i inside, if_pos inside]
  constructor
  · rintro ⟨rounds, m', returns, inside, -⟩
    have few : bytes.toNat < 256 := by
      by_contra many
      simp [sysPrintMem, getMem, getMemLoop_endless (Nat.le_of_not_lt many)] at returns
    obtain ⟨rounds', returns'⟩ := @sysPrintMem_returns direc buffer bytes m few
    cases sysPrintMem_unique returns returns'
    exact ⟨few, fun i below => (inside i below).symm.trans (copy i below)⟩
  · rintro ⟨few, repeats⟩
    obtain ⟨rounds, returns⟩ := @sysPrintMem_returns direc buffer bytes m few
    refine ⟨rounds, _, returns, fun i below => (copy i below).trans (repeats i below).symm, ?_⟩
    intro p outside
    apply if_neg
    intro inside
    apply outside _ inside
    rw [UInt64.ofNat_toNat]
    abel

/-- A call for 256 bytes never returns. -/
theorem getMem_endless : ¬ ∀ direc buffer bytes m, Copies direc buffer bytes m := by
  intro always
  obtain ⟨rounds, m', returns, -⟩ := always 0 4096 256 fun _ => 0
  have none : getMemLoop 0 4096 256 rounds 0 (fun _ => 0) = none := getMemLoop_endless (by decide)
  simp [sysPrintMem, getMem, none] at returns

end QuesOs.MemoryRead
