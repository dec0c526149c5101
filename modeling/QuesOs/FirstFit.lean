import Mathlib.Tactic.Common

/-! The first gap of a row of extents that is wide enough. A search that goes along the
row finds one if there is one, and the lowest. -/
namespace QuesOs.FirstFit

/-- Consecutive places. -/
structure Extent where
  start : Nat
  length : Nat
  deriving DecidableEq

namespace Extent

def stop (e : Extent) : Nat := e.start + e.length

/-- The two have no place in common. -/
def Apart (e f : Extent) : Prop := e.stop ≤ f.start ∨ f.stop ≤ e.start

theorem Apart.symm {e f : Extent} (apart : e.Apart f) : f.Apart e := Or.symm apart

instance (e f : Extent) : Decidable (e.Apart f) := inferInstanceAs (Decidable (_ ∨ _))

end Extent

variable {row : List Extent} {low limit want a : Nat}

/-- From `low` on, one after the other, and no further than the limit. -/
def Row (limit : Nat) : Nat → List Extent → Prop
  | low, [] => low ≤ limit
  | low, e :: row => low ≤ e.start ∧ Row limit e.stop row

/-- The search for `want` places. -/
def firstFit (limit want : Nat) : Nat → List Extent → Option Nat
  | low, [] => if low + want ≤ limit then some low else none
  | low, e :: row => if low + want ≤ e.start then some low else firstFit limit want e.stop row

theorem Row.low_le (inRow : Row limit low row) : low ≤ limit := by
  induction row generalizing low with
  | nil => exact inRow
  | cons e row ih =>
    have le : e.start ≤ e.stop := Nat.le_add_right _ _
    exact Nat.le_trans inRow.1 (Nat.le_trans le (ih inRow.2))

theorem Row.inside (inRow : Row limit low row) {e : Extent} (member : e ∈ row) : low ≤ e.start ∧ e.stop ≤ limit := by
  induction row generalizing low with
  | nil => cases member
  | cons f row ih =>
    rcases List.mem_cons.mp member with rfl | later
    · exact ⟨inRow.1, inRow.2.low_le⟩
    · have le : f.start ≤ f.stop := Nat.le_add_right _ _
      obtain ⟨after, stops⟩ := ih inRow.2 later
      exact ⟨Nat.le_trans inRow.1 (Nat.le_trans le after), stops⟩

/-- What is sorted, inside and apart is a row. -/
theorem row_of_sorted (sorted : row.Pairwise fun e f => e.start ≤ f.start) (apart : row.Pairwise Extent.Apart)
    (inside : ∀ e ∈ row, low ≤ e.start ∧ 0 < e.length ∧ e.stop ≤ limit) (within : low ≤ limit) : Row limit low row := by
  induction row generalizing low with
  | nil => exact within
  | cons e row ih =>
    obtain ⟨before, sorted⟩ := List.pairwise_cons.mp sorted
    obtain ⟨away, apart⟩ := List.pairwise_cons.mp apart
    obtain ⟨starts, positive, stops⟩ := inside e (List.mem_cons_self ..)
    refine ⟨starts, ih sorted apart (fun f member => ?_) stops⟩
    obtain ⟨-, wide, ends⟩ := inside f (List.mem_cons_of_mem _ member)
    refine ⟨(away f member).resolve_right fun reversed => ?_, wide, ends⟩
    -- Two that start in this order cannot lie the other way round.
    have order := before f member
    unfold Extent.stop at reversed
    omega

/-- What is found is free. -/
theorem firstFit_some (inRow : Row limit low row) (found : firstFit limit want low row = some a) :
    low ≤ a ∧ a + want ≤ limit ∧ ∀ e ∈ row, Extent.Apart ⟨a, want⟩ e := by
  induction row generalizing low with
  | nil =>
    simp only [firstFit, Option.ite_none_right_eq_some, Option.some.injEq] at found
    obtain ⟨fits, rfl⟩ := found
    exact ⟨Nat.le_refl _, fits, nofun⟩
  | cons e row ih =>
    unfold firstFit at found
    split at found
    · obtain rfl := Option.some.inj found
      rename_i fits
      have stops := (inRow.inside (List.mem_cons_self ..)).2
      refine ⟨Nat.le_refl _, Nat.le_trans fits (Nat.le_trans (Nat.le_add_right _ _) stops), fun f member => .inl ?_⟩
      rcases List.mem_cons.mp member with rfl | later
      · exact fits
      · exact Nat.le_trans fits (Nat.le_trans (Nat.le_add_right _ _) (inRow.2.inside later).1)
    · obtain ⟨after, fits, apart⟩ := ih inRow.2 found
      have le : e.start ≤ e.stop := Nat.le_add_right _ _
      refine ⟨Nat.le_trans inRow.1 (Nat.le_trans le after), fits, fun f member => ?_⟩
      rcases List.mem_cons.mp member with rfl | later
      · exact .inr after
      · exact apart f later

/-- Whatever is free lies no lower than what is found. -/
theorem le_of_free (inRow : Row limit low row) (starts : low ≤ a) (fits : a + want ≤ limit)
    (apart : ∀ e ∈ row, Extent.Apart ⟨a, want⟩ e) : ∃ b, firstFit limit want low row = some b ∧ b ≤ a := by
  induction row generalizing low with
  | nil => exact ⟨low, if_pos (by omega), starts⟩
  | cons e row ih =>
    unfold firstFit
    split
    · exact ⟨low, rfl, starts⟩
    · rename_i narrow
      rcases apart e (List.mem_cons_self ..) with before | after
      · simp only [Extent.stop] at before
        omega
      · exact ih inRow.2 after fun f member => apart f (List.mem_cons_of_mem _ member)

/-- **The search finds room if there is any.** -/
theorem firstFit_none_iff (inRow : Row limit low row) : firstFit limit want low row = none ↔
    ∀ a, low ≤ a → a + want ≤ limit → ∃ e ∈ row, ¬Extent.Apart ⟨a, want⟩ e := by
  constructor
  · intro none a starts fits
    by_contra free
    push Not at free
    obtain ⟨b, found, -⟩ := le_of_free inRow starts fits free
    exact Option.some_ne_none b (found.symm.trans none)
  · intro crowded
    by_contra some
    obtain ⟨a, found⟩ := Option.ne_none_iff_exists'.mp some
    obtain ⟨starts, fits, apart⟩ := firstFit_some inRow found
    obtain ⟨e, member, meets⟩ := crowded a starts fits
    exact meets (apart e member)

end QuesOs.FirstFit
