import Mathlib.Data.List.Basic
import Mathlib.Order.Basic

/-! A region cut into consecutive pieces. Each piece has a start and a stop;
a row of pieces from `lo` to `hi` leaves no gap and no overlap, so two
pieces at different places of the row never share a position. Pieces are cut
and joined in place without touching the rest of the row. -/
namespace QuesOs.BlockRow

variable {β : Type*} {start stop : β → Nat} {lo hi : Nat} {b c : β} {l m : List β}

/-- `l` covers `[lo, hi)` exactly, piece after piece. -/
def Row (start stop : β → Nat) : Nat → List β → Nat → Prop
  | lo, [], hi => lo = hi
  | lo, b :: rest, hi => start b = lo ∧ lo < stop b ∧ Row start stop (stop b) rest hi

@[simp] theorem row_nil : Row start stop lo [] hi ↔ lo = hi := Iff.rfl

@[simp] theorem row_cons : Row start stop lo (b :: l) hi ↔
    start b = lo ∧ lo < stop b ∧ Row start stop (stop b) l hi := Iff.rfl

theorem row_append : Row start stop lo (l ++ m) hi ↔
    ∃ mid, Row start stop lo l mid ∧ Row start stop mid m hi := by
  induction l generalizing lo with
  | nil => simp
  | cons b l ih =>
    simp only [List.cons_append, row_cons, ih]
    tauto

theorem row_le (row : Row start stop lo l hi) : lo ≤ hi := by
  induction l generalizing lo with
  | nil => exact Nat.le_of_eq row
  | cons b l ih => exact Nat.le_trans (Nat.le_of_lt row.2.1) (ih row.2.2)

/-- A piece lies inside the region. -/
theorem row_within (row : Row start stop lo l hi) (member : b ∈ l) :
    lo ≤ start b ∧ start b < stop b ∧ stop b ≤ hi := by
  induction l generalizing lo with
  | nil => cases member
  | cons c l ih =>
    obtain ⟨first, wide, rest⟩ := row
    rcases List.mem_cons.mp member with rfl | member
    · exact ⟨Nat.le_of_eq first.symm, first ▸ wide, row_le rest⟩
    · have inside := ih rest member
      exact ⟨by omega, inside.2⟩

/-- Pieces stand in the order of their positions, each after the end of every
piece before it. -/
theorem row_ordered (row : Row start stop lo l hi) : l.Pairwise (fun b c => stop b ≤ start c) := by
  induction l generalizing lo with
  | nil => exact .nil
  | cons b l ih =>
    obtain ⟨-, -, rest⟩ := row
    exact .cons (fun c member => (row_within rest member).1) (ih rest)

/-- The end of one piece is the start of the next. -/
theorem row_adjacent (row : Row start stop lo (l ++ b :: c :: m) hi) : stop b = start c := by
  obtain ⟨mid, -, rest⟩ := row_append.mp row
  exact rest.2.2.1.symm

theorem row_before (row : Row start stop lo (l ++ b :: m) hi) (member : c ∈ l) : stop c ≤ start b :=
  (List.pairwise_append.mp (row_ordered row)).2.2 c member b (by simp)

theorem row_after (row : Row start stop lo (l ++ b :: m) hi) (member : c ∈ m) : stop b ≤ start c :=
  (List.pairwise_cons.mp (List.pairwise_append.mp (row_ordered row)).2.1).1 c member

/-- Different places of a row have different starts. -/
theorem row_starts_nodup (row : Row start stop lo l hi) : (l.map start).Nodup := by
  rw [List.Nodup, List.pairwise_map]
  refine (row_ordered row).imp_of_mem ?_
  intro b c bMember _ ordered same
  have := (row_within row bMember).2.1
  omega

/-! ## Completing a row -/

section Fill
variable (start stop) (gap : Nat → Nat → β)

/-- One piece for the positions in between, if there are any. -/
def between (lo hi : Nat) : List β := if lo < hi then [gap lo hi] else []

/-- The pieces of `l` with a piece for every stretch they leave. -/
def fill : Nat → List β → Nat → List β
  | lo, [], hi => between gap lo hi
  | lo, b :: rest, hi => between gap lo (start b) ++ b :: fill (stop b) rest hi

/-- Gaps are cut at the marks, where pieces may begin and end. -/
def CutsAt (mark : Nat → Prop) : Prop := ∀ x y, mark x → mark y → x < y → start (gap x y) = x ∧ stop (gap x y) = y

variable {start stop gap} {mark : Nat → Prop}

theorem row_between (cuts : CutsAt start stop gap mark) (low : mark lo) (high : mark hi) (le : lo ≤ hi) :
    Row start stop lo (between gap lo hi) hi := by
  unfold between
  split
  · next less =>
    obtain ⟨first, last⟩ := cuts lo hi low high less
    refine ⟨first, ?_, last⟩
    rw [last]
    exact less
  · exact Nat.le_antisymm le (Nat.not_lt.mp ‹_›)

/-- Ordered pieces inside a region are completed to a row. -/
theorem row_fill (cuts : CutsAt start stop gap mark) (low : mark lo) (high : mark hi) (le : lo ≤ hi)
    (ordered : l.Pairwise fun b c => stop b ≤ start c)
    (inside : ∀ b ∈ l, lo ≤ start b ∧ start b < stop b ∧ stop b ≤ hi)
    (marked : ∀ b ∈ l, mark (start b) ∧ mark (stop b)) : Row start stop lo (fill start stop gap lo l hi) hi := by
  induction l generalizing lo with
  | nil => exact row_between cuts low high le
  | cons b l ih =>
    obtain ⟨above, wide, within⟩ := inside b (by simp)
    obtain ⟨first, last⟩ := marked b (by simp)
    obtain ⟨after, ordered⟩ := List.pairwise_cons.mp ordered
    refine row_append.mpr ⟨start b, row_between cuts low first above, rfl, wide, ?_⟩
    refine ih last within ordered (fun c member => ?_) fun c member => marked c (List.mem_cons_of_mem _ member)
    exact ⟨after c member, (inside c (List.mem_cons_of_mem _ member)).2⟩

/-- Sorting the gaps out leaves the pieces. -/
theorem filter_fill {keep : β → Bool} (gaps : ∀ x y, keep (gap x y) = false) (kept : ∀ b ∈ l, keep b = true) :
    (fill start stop gap lo l hi).filter keep = l := by
  have none : ∀ x y, (between gap x y).filter keep = [] := by
    intro x y
    unfold between
    split <;> simp [gaps]
  induction l generalizing lo with
  | nil => exact none lo hi
  | cons b l ih =>
    rw [fill, List.filter_append, none, List.nil_append, List.filter_cons_of_pos (kept b (by simp)),
      ih fun c member => kept c (List.mem_cons_of_mem _ member)]

/-- Pieces that leave room between them have gaps for neighbours. -/
theorem chain_fill {related : β → β → Prop} (before : ∀ b x y, related b (gap x y))
    (after : ∀ b x y, related (gap x y) b) (apart : l.Pairwise fun b c => stop b < start c) :
    (fill start stop gap lo l hi).IsChain related := by
  have led : ∀ lo b rest, (b :: rest).IsChain related → (between gap lo (start b) ++ b :: rest).IsChain related := by
    intro lo b rest chain
    unfold between
    split
    · exact .cons_cons (after b _ _) chain
    · exact chain
  have ends : ∀ b, (b :: between gap (stop b) hi).IsChain related := by
    intro b
    unfold between
    split
    · exact .cons_cons (before b _ _) (.singleton _)
    · exact .singleton b
  induction l generalizing lo with
  | nil =>
    unfold fill between
    split
    · exact .singleton _
    · exact .nil
  | cons b l ih =>
    obtain ⟨room, apart⟩ := List.pairwise_cons.mp apart
    refine led lo b _ ?_
    cases l with
    | nil => exact ends b
    | cons c l =>
      have wide := room c (by simp)
      have rest := @ih (stop b) apart
      simp only [fill, between, wide, if_true, List.singleton_append] at rest ⊢
      exact .cons_cons (before b _ _) rest

end Fill

end QuesOs.BlockRow
