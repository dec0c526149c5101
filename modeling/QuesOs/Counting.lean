import Mathlib.Data.List.Basic

/-! Counting semaphores whose units are handed on first come, first served. A unit that
is given goes to the first in line, past those who cannot take it, and only counts up
when nobody is left. What the books say about the value and the line holds of any
such semaphore; nothing here knows who waits. -/
namespace QuesOs.Counting

variable {ι : Type}

/-- What is noted down at a semaphore. -/
inductive Note (ι : Type) where
  | took (who : ι)
  | arrived (who : ι)
  | handed (who : ι)
  | skipped (who : ι)
  | raised
  deriving DecidableEq

structure Counter (ι : Type) where
  value : Int
  line : List ι

namespace Note

/-- Who was given a unit. -/
def grant : Note ι → Option ι
  | took who | handed who => some who
  | _ => none

def arrival : Note ι → Option ι
  | arrived who => some who
  | _ => none

/-- Who left the line. -/
def departure : Note ι → Option ι
  | handed who | skipped who => some who
  | _ => none

/-- Somebody gave a unit. -/
def isPost : Note ι → Bool
  | handed _ | raised => true
  | _ => false

end Note

namespace Counter

inductive Step : Counter ι → Note ι → Counter ι → Prop
  | took (positive : 0 < units) : Step ⟨units, waiters⟩ (.took who) ⟨units - 1, waiters⟩
  | arrived (empty : units ≤ 0) : Step ⟨units, waiters⟩ (.arrived who) ⟨units, waiters ++ [who]⟩
  | handed : Step ⟨units, who :: waiters⟩ (.handed who) ⟨units, waiters⟩
  | skipped : Step ⟨units, who :: waiters⟩ (.skipped who) ⟨units, waiters⟩
  | raised : Step ⟨units, []⟩ .raised ⟨units + 1, []⟩

inductive Steps (start : Counter ι) : List (Note ι) → Counter ι → Prop
  | refl : Steps start [] start
  | tail (steps : Steps start notes c) (step : c.Step note c') : Steps start (notes ++ [note]) c'

namespace Steps
variable {start c c' : Counter ι} {notes notes' : List (Note ι)}

theorem single (step : c.Step note c') : Steps c [note] c' := .tail .refl step

theorem trans (first : Steps start notes c) (second : Steps c notes' c') : Steps start (notes ++ notes') c' := by
  induction second with
  | refl => rwa [List.append_nil]
  | tail _ step ih =>
    rw [← List.append_assoc]
    exact ih.tail step

/-- Those at the front of the line are passed over. -/
theorem skip (units : Int) (skipped rest : List ι) :
    Steps ⟨units, skipped ++ rest⟩ (skipped.map .skipped) ⟨units, rest⟩ := by
  induction skipped with
  | nil => exact .refl
  | cons who skipped ih => exact (single .skipped).trans ih

/-- **Units are neither lost nor made up.** -/
theorem value_add_grants (steps : Steps start notes c) :
    c.value + (notes.filterMap Note.grant).length = start.value + (notes.filter Note.isPost).length := by
  induction steps with
  | refl => simp
  | tail _ step ih =>
    rw [List.filterMap_append, List.filter_append, List.length_append, List.length_append]
    cases step <;> simp only [List.filterMap_cons, List.filter_cons, Note.grant, Note.isPost] <;> simp at ih ⊢ <;> omega

/-- **First come, first served.** -/
theorem line_append_arrivals (steps : Steps start notes c) :
    start.line ++ notes.filterMap Note.arrival = notes.filterMap Note.departure ++ c.line := by
  induction steps with
  | refl => simp
  | tail _ step ih =>
    rw [List.filterMap_append, List.filterMap_append, ← List.append_assoc, ih]
    cases step <;> simp [List.filterMap_cons, Note.arrival, Note.departure]

/-- The value goes below zero only where it began there. -/
theorem min_le_value (steps : Steps start notes c) : min start.value 0 ≤ c.value := by
  induction steps with
  | refl => exact Int.min_le_left _ _
  | tail _ step ih => cases step <;> simp only at ih ⊢ <;> omega

/-- Nobody waits for a unit that is there. -/
theorem line_eq_nil (steps : Steps start notes c) (nobody : start.line = []) (positive : 0 < c.value) :
    c.line = [] := by
  induction steps with
  | refl => exact nobody
  | tail _ step ih =>
    cases step with
    | took before => exact ih before
    | arrived empty => exact absurd positive (Int.not_lt.mpr empty)
    | handed => exact absurd (ih positive) (List.cons_ne_nil _ _)
    | skipped => exact absurd (ih positive) (List.cons_ne_nil _ _)
    | raised => rfl

end Steps

end Counter

end QuesOs.Counting
