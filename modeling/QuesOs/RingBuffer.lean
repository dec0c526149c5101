import Mathlib.Logic.Function.Basic
import Mathlib.Data.Nat.ModEq

/-! First in, first out through a ring of cells. What went in and what came out is told
apart from the cells: as long as nothing is written where all of them are taken, and
nothing is read where none is, what comes out is what went in, in order. -/
namespace QuesOs.Ring

variable {α : Type} {n writeIndex readIndex : Nat} {cells : Nat → α} {puts takes : List α}

/-- From `start` on, the cells round the ring hold the list. -/
def Holds (n : Nat) (cells : Nat → α) (start : Nat) (rest : List α) : Prop :=
  ∀ i (inside : i < rest.length), cells ((start + i) % n) = rest[i]

/-- The ring when `puts` went in and `takes` came out. -/
structure Carries (n : Nat) (cells : Nat → α) (writeIndex readIndex : Nat) (puts takes : List α) : Prop where
  write : writeIndex = puts.length % n
  read : readIndex = takes.length % n
  order : ∃ rest, puts = takes ++ rest ∧ Holds n cells takes.length rest

theorem carries_empty (n : Nat) (cells : Nat → α) : Carries n cells 0 0 [] [] :=
  ⟨(Nat.zero_mod n).symm, (Nat.zero_mod n).symm, [], rfl, fun _ inside => absurd inside (Nat.not_lt_zero _)⟩

/-- Cells less than a round apart are different cells. -/
theorem mod_ne_mod (before : i < j) (near : j < i + n) : i % n ≠ j % n := by
  intro same
  have apart : (i : Nat) ≡ j [MOD n] := same
  have distance := (Nat.modEq_iff_dvd' (Nat.le_of_lt before)).mp apart
  have := Nat.le_of_dvd (by omega) distance
  omega

namespace Carries

theorem put (carries : Carries n cells writeIndex readIndex puts takes)
    (room : puts.length < takes.length + n) (a : α) :
    Carries n (Function.update cells writeIndex a) ((writeIndex + 1) % n) readIndex (puts ++ [a]) takes := by
  obtain ⟨write, read, rest, rfl, holds⟩ := carries
  rw [List.length_append] at room write
  refine ⟨?_, read, rest ++ [a], List.append_assoc .., fun i inside => ?_⟩
  · rw [write, Nat.mod_add_mod, List.length_append, List.length_append]
    rfl
  · rw [List.length_append, List.length_singleton] at inside
    by_cases older : i < rest.length
    · have other : (takes.length + i) % n ≠ writeIndex := by
        rw [write]
        exact mod_ne_mod (by omega) (by omega)
      rw [Function.update_of_ne other, List.getElem_append_left older]
      exact holds i older
    · obtain rfl : i = rest.length := by omega
      rw [← write, Function.update_self]
      simp

theorem take (carries : Carries n cells writeIndex readIndex puts takes) (unread : takes.length < puts.length) :
    Carries n cells writeIndex ((readIndex + 1) % n) puts (takes ++ [cells readIndex]) := by
  obtain ⟨write, read, rest, rfl, holds⟩ := carries
  cases rest with
  | nil => simp at unread
  | cons a rest =>
    have first : cells readIndex = a := by
      rw [read]
      exact holds 0 (Nat.succ_pos _)
    refine ⟨write, ?_, rest, ?_, fun i inside => ?_⟩
    · rw [read, Nat.mod_add_mod, List.length_append]
      rfl
    · rw [first, List.append_assoc]
      rfl
    · have later := holds (i + 1) (Nat.succ_lt_succ inside)
      rw [List.length_append, List.length_singleton, Nat.add_right_comm]
      exact later

/-- What is still in the ring, and where. -/
theorem unread (carries : Carries n cells writeIndex readIndex puts takes) : ∃ rest, puts = takes ++ rest ∧
    writeIndex = (readIndex + rest.length) % n ∧ Holds n cells readIndex rest := by
  obtain ⟨write, read, rest, rfl, holds⟩ := carries
  refine ⟨rest, rfl, ?_, fun i inside => ?_⟩
  · rw [write, read, Nat.mod_add_mod, List.length_append]
  · rw [read, Nat.mod_add_mod]
    exact holds i inside

end Carries

end QuesOs.Ring
