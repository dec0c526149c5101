import Mathlib.Algebra.Order.BigOperators.Group.Finset
import Mathlib.Data.Nat.Bitwise
import Mathlib.Data.Set.Basic
import Mathlib.Order.Interval.Finset.Nat
import Mathlib.Order.WellFounded
import Mathlib.Tactic.Ring

/-! Tilings of `[0, 2 ^ top)` by pieces whose length is a power of two and
whose offset is a multiple of their length. Every piece below the top has a
buddy, the other half of its parent; where the buddy's region begins, some
piece begins, and it is no longer than the buddy. Splitting a piece into its
halves and joining two buddies keep the tiling, and a tiling without two
buddies is the single top piece. -/
namespace QuesOs.DyadicTiling

/-- The positions from `offset` on, `2 ^ exponent` of them. -/
@[ext] structure Piece where
  offset : Nat
  exponent : Nat
  deriving DecidableEq

namespace Piece

def Covers (p : Piece) (x : Nat) : Prop := p.offset ≤ x ∧ x < p.offset + 2 ^ p.exponent

def Aligned (p : Piece) : Prop := 2 ^ p.exponent ∣ p.offset

/-- The other half of the parent, found by flipping one bit of the offset. -/
def buddy (p : Piece) : Piece := ⟨p.offset ^^^ 2 ^ p.exponent, p.exponent⟩

/-- The lower half. -/
def lower (p : Piece) : Piece := ⟨p.offset, p.exponent - 1⟩

/-- The upper half. -/
def upper (p : Piece) : Piece := ⟨p.offset + 2 ^ (p.exponent - 1), p.exponent - 1⟩

/-- The positions it covers. -/
def positions (p : Piece) : Finset Nat := Finset.Ico p.offset (p.offset + 2 ^ p.exponent)

@[simp] theorem mem_positions : x ∈ positions p ↔ p.Covers x := Finset.mem_Ico

@[simp] theorem card_positions (p : Piece) : p.positions.card = 2 ^ p.exponent := by
  rw [positions, Nat.card_Ico, Nat.add_sub_cancel_left]

theorem covers_offset (p : Piece) : p.Covers p.offset := ⟨Nat.le_refl _, by simp⟩

end Piece

open Piece

variable {pieces : Set Piece} {p q : Piece} {top x : Nat}

/-- Multiples of `m` are at least `m` apart. -/
theorem multiple_unique {m a b : Nat} (first : m ∣ a) (second : m ∣ b) (above : a ≤ b) (below : b < a + m) :
    a = b := by
  obtain ⟨i, rfl⟩ := first
  obtain ⟨j, rfl⟩ := second
  have room : m * j < m * (i + 1) := by rwa [Nat.mul_add, Nat.mul_one]
  have : j < i + 1 := Nat.lt_of_mul_lt_mul_left room
  have : i ≤ j := by
    by_contra less
    have := Nat.mul_le_mul_left m (show j + 1 ≤ i by omega)
    rw [Nat.mul_add] at this
    omega
  rw [show i = j by omega]

/-- A multiple of `m` below another one leaves room for `m`. -/
theorem multiple_room {m a b : Nat} (first : m ∣ a) (second : m ∣ b) (below : a < b) : a + m ≤ b := by
  by_contra more
  exact absurd (multiple_unique first second (Nat.le_of_lt below) (by omega)) (Nat.ne_of_lt below)

/-- An aligned piece is the lower or the upper half of its parent, and its
buddy is the other. -/
theorem halves (aligned : p.Aligned) : ∃ parent, 2 ^ (p.exponent + 1) ∣ parent ∧
    ((p.offset = parent ∧ p.buddy.offset = parent + 2 ^ p.exponent) ∨
      (p.offset = parent + 2 ^ p.exponent ∧ p.buddy.offset = parent)) := by
  obtain ⟨k, at'⟩ := aligned
  have flipped : p.buddy.offset = 2 ^ p.exponent * (k ^^^ 1) := by
    have := Nat.shiftLeft_xor_distrib (a := k) (b := 1) (i := p.exponent)
    simp only [Nat.shiftLeft_eq, Nat.one_mul] at this
    rw [buddy, at', Nat.mul_comm _ k, ← this, Nat.mul_comm]
  rcases Nat.even_or_odd k with even | odd
  · refine ⟨p.offset, ?_, .inl ⟨rfl, ?_⟩⟩
    · obtain ⟨j, rfl⟩ := even
      exact ⟨j, by rw [at', pow_succ]; ring⟩
    · rw [flipped, Nat.xor_one_of_even even, at']
      ring
  · obtain ⟨j, same⟩ := id odd
    refine ⟨2 ^ (p.exponent + 1) * j, Nat.dvd_mul_right .., .inr ⟨?_, ?_⟩⟩
    · rw [at', same, pow_succ]
      ring
    · rw [flipped, Nat.xor_one_of_odd odd, same, Nat.add_sub_cancel, pow_succ]
      ring

theorem buddy_aligned (aligned : p.Aligned) : p.buddy.Aligned := by
  obtain ⟨parent, wide, here | here⟩ := halves aligned
  all_goals
    have half : 2 ^ p.exponent ∣ parent := Dvd.dvd.trans (pow_dvd_pow 2 (Nat.le_succ _)) wide
    unfold Aligned
    rw [here.2]
  · exact (Nat.dvd_add_right half).mpr (Nat.dvd_refl _)
  · exact half

@[simp] theorem buddy_buddy (p : Piece) : p.buddy.buddy = p := by
  ext <;> simp [buddy]

theorem buddy_ne (p : Piece) : p.buddy.offset ≠ p.offset := by
  intro same
  have zero : 2 ^ p.exponent = 0 := by
    have := congrArg (p.offset ^^^ ·) same
    simp only [buddy, ← Nat.xor_assoc, Nat.xor_self, Nat.zero_xor] at this
    exact this
  exact absurd zero (Nat.pos_iff_ne_zero.mp (Nat.pow_pos (by decide)))

/-- The halves of an aligned piece are buddies. -/
theorem lower_buddy (aligned : p.Aligned) (positive : 0 < p.exponent) : p.lower.buddy = p.upper := by
  have exponent : p.exponent - 1 + 1 = p.exponent := by omega
  have room : 0 < 2 ^ (p.exponent - 1) := Nat.pow_pos (by decide)
  have half : p.lower.Aligned := Dvd.dvd.trans (pow_dvd_pow 2 (Nat.sub_le ..)) aligned
  obtain ⟨parent, wide, here | here⟩ := halves half
  · exact Piece.ext (by rw [here.2, ← here.1]; rfl) rfl
  · -- The offset of the upper half is no multiple of the whole length.
    have offset : p.offset = parent + 2 ^ (p.exponent - 1) := here.1
    rw [show p.lower.exponent + 1 = p.exponent from exponent] at wide
    have again : 2 ^ p.exponent ∣ 2 ^ (p.exponent - 1) := (Nat.dvd_add_right wide).mp (offset ▸ aligned)
    have := Nat.le_of_dvd room again
    rw [← exponent, pow_succ, Nat.add_sub_cancel] at this
    omega

/-- Clearing one bit of the offset finds the lower of two buddies. -/
theorem clear_bit {width : Nat} (aligned : p.Aligned) (narrow : p.offset < 2 ^ width) (small : p.exponent < width) :
    p.offset &&& (2 ^ width - 1 - 2 ^ p.exponent) = min p.offset p.buddy.offset := by
  obtain ⟨parent, ⟨j, wide⟩, here⟩ := halves aligned
  have bits : ∀ i, (2 ^ width - 1 - 2 ^ p.exponent).testBit i = (decide (i < width) && !decide (p.exponent = i)) := by
    intro i
    rw [Nat.sub_sub, Nat.add_comm 1, Nat.testBit_two_pow_sub_succ (Nat.pow_lt_pow_right (by decide) small),
      Nat.testBit_two_pow]
  have clear : parent.testBit p.exponent = false := by simp [wide, Nat.testBit_two_pow_mul]
  have room : 0 < 2 ^ p.exponent := Nat.pow_pos (by decide)
  have least : min p.offset p.buddy.offset = parent := by omega
  have low : parent < 2 ^ width := by omega
  have high : ∀ i, width ≤ i → parent.testBit i = false := fun i above =>
    Nat.testBit_lt_two_pow (Nat.lt_of_lt_of_le low (Nat.pow_le_pow_right (by decide) above))
  have offset : p.offset = parent ∨ p.offset = parent ^^^ 2 ^ p.exponent := by
    cases here with
    | inl lower => exact .inl lower.1
    | inr upper =>
      right
      have back := congrArg Piece.offset (buddy_buddy p)
      rw [← back, buddy, upper.2]
      rfl
  rw [least]
  apply Nat.eq_of_testBit_eq
  intro i
  have above := high i
  rcases offset with same | same
  all_goals
    rw [same, Nat.testBit_and, bits]
    try rw [Nat.testBit_xor, Nat.testBit_two_pow]
    by_cases here : p.exponent = i
    · simp [← here, clear]
    · by_cases inside : i < width
      · simp [here, inside]
      · simp [inside, above (by omega)]

/-- Aligned pieces that tile `[0, 2 ^ top)`. -/
structure Tiling (top : Nat) (pieces : Set Piece) : Prop where
  aligned : ∀ p ∈ pieces, p.Aligned
  within : ∀ p ∈ pieces, p.offset + 2 ^ p.exponent ≤ 2 ^ top
  cover : ∀ x < 2 ^ top, ∃ p ∈ pieces, p.Covers x
  apart : ∀ p ∈ pieces, ∀ q ∈ pieces, ∀ x, p.Covers x → q.Covers x → p = q

theorem tiling_whole (top : Nat) : Tiling top {⟨0, top⟩} where
  aligned := by rintro p rfl; exact Nat.dvd_zero _
  within := by rintro p rfl; simp
  cover := fun x below => ⟨_, rfl, Nat.zero_le _, by simpa using below⟩
  apart := by rintro p rfl q rfl; simp

namespace Tiling

theorem exponent_le (tiling : Tiling top pieces) (member : p ∈ pieces) : p.exponent ≤ top := by
  have := tiling.within p member
  exact (Nat.pow_le_pow_iff_right (by decide : 1 < 2)).mp (by omega)

/-- A piece is told from the others by where it begins. -/
theorem begins_unique (tiling : Tiling top pieces) (first : p ∈ pieces) (second : q ∈ pieces)
    (same : p.offset = q.offset) : p = q :=
  tiling.apart p first q second p.offset p.covers_offset (same ▸ q.covers_offset)

/-- Positions strictly inside a piece begin no piece. -/
theorem inside_not_begin (tiling : Tiling top pieces) (outer : p ∈ pieces) (other : q ∈ pieces)
    (above : p.offset < x) (below : x < p.offset + 2 ^ p.exponent) : x ≠ q.offset := by
  rintro rfl
  have same := tiling.apart p outer q other q.offset ⟨Nat.le_of_lt above, below⟩ q.covers_offset
  exact absurd (congrArg Piece.offset same) (Nat.ne_of_lt above)

/-- The parent of a piece below the top lies inside the region. -/
theorem parent_within (tiling : Tiling top pieces) (member : p ∈ pieces) (below : p.exponent < top)
    (wide : 2 ^ (p.exponent + 1) ∣ parent) (inside : parent ≤ p.offset) : parent + 2 ^ (p.exponent + 1) ≤ 2 ^ top := by
  have bound := tiling.within p member
  have positive : 0 < 2 ^ p.exponent := Nat.pow_pos (by decide)
  exact multiple_room wide (pow_dvd_pow 2 below) (by omega)

/-- Where the buddy's region begins, a piece begins, and it is no longer. -/
theorem begins_at_buddy (tiling : Tiling top pieces) (member : p ∈ pieces) (below : p.exponent < top) :
    ∃ q ∈ pieces, q.offset = p.buddy.offset ∧ q.exponent ≤ p.exponent := by
  have aligned := tiling.aligned p member
  have positive : 0 < 2 ^ p.exponent := Nat.pow_pos (by decide)
  obtain ⟨parent, wide, here⟩ := halves aligned
  have room := tiling.parent_within member below wide (by omega)
  rw [pow_succ] at room
  obtain ⟨q, found, covers⟩ := tiling.cover p.buddy.offset (by omega)
  refine ⟨q, found, ?_⟩
  have qAligned := tiling.aligned q found
  by_cases short : q.exponent ≤ p.exponent
  · have : 2 ^ q.exponent ∣ p.buddy.offset :=
      Dvd.dvd.trans (pow_dvd_pow 2 short) (buddy_aligned aligned)
    exact ⟨multiple_unique qAligned this covers.1 covers.2, short⟩
  · -- A longer piece would contain the whole parent, and so `p` itself.
    exfalso
    have longer : 2 ^ (p.exponent + 1) ∣ 2 ^ q.exponent := pow_dvd_pow 2 (by omega)
    have ends : 2 ^ (p.exponent + 1) ∣ q.offset + 2 ^ q.exponent :=
      (Nat.dvd_add_right (Dvd.dvd.trans longer qAligned)).mpr longer
    have starts : q.offset ≤ parent := by
      by_contra more
      have := multiple_room wide (Dvd.dvd.trans longer qAligned) (by omega)
      rw [pow_succ] at this
      have := covers.1
      omega
    have stops : parent + 2 ^ (p.exponent + 1) ≤ q.offset + 2 ^ q.exponent := by
      have := covers.2
      exact multiple_room wide ends (by omega)
    rw [pow_succ] at stops
    have same := tiling.apart p member q found p.offset p.covers_offset ⟨by omega, by omega⟩
    rw [same] at short
    omega

/-- Two buddies join into their parent. -/
theorem join (tiling : Tiling top pieces) (first : p ∈ pieces) (second : p.buddy ∈ pieces) :
    ∃ parent : Nat, parent = min p.offset p.buddy.offset ∧
      Tiling top (insert ⟨parent, p.exponent + 1⟩ (pieces \ {p, p.buddy})) := by
  obtain ⟨parent, wide, here⟩ := halves (tiling.aligned p first)
  have positive : 0 < 2 ^ p.exponent := Nat.pow_pos (by decide)
  have within := tiling.within p first
  have within' := tiling.within p.buddy second
  have length : p.buddy.exponent = p.exponent := rfl
  rw [length] at within'
  have covers : ∀ x, (⟨parent, p.exponent + 1⟩ : Piece).Covers x ↔ p.Covers x ∨ p.buddy.Covers x := by
    intro x
    unfold Covers
    simp only [length]
    rw [pow_succ]
    omega
  refine ⟨parent, by omega, ?_, ?_, ?_, ?_⟩
  · rintro q (rfl | ⟨old, -⟩)
    · exact wide
    · exact tiling.aligned q old
  · rintro q (rfl | ⟨old, -⟩)
    · simp only
      rw [pow_succ]
      omega
    · exact tiling.within q old
  · intro x below
    obtain ⟨q, member, at'⟩ := tiling.cover x below
    by_cases joined : q = p ∨ q = p.buddy
    · refine ⟨_, .inl rfl, (covers x).mpr ?_⟩
      rcases joined with rfl | rfl
      · exact .inl at'
      · exact .inr at'
    · exact ⟨q, .inr ⟨member, joined⟩, at'⟩
  · have outside : ∀ q ∈ pieces \ {p, p.buddy}, ∀ x, q.Covers x →
        ¬(⟨parent, p.exponent + 1⟩ : Piece).Covers x := by
      rintro q ⟨member, other⟩ x at' both
      rcases (covers x).mp both with here | here
      · exact other (.inl (tiling.apart q member p first x at' here))
      · exact other (.inr (tiling.apart q member p.buddy second x at' here))
    rintro q (rfl | old) r (rfl | old') x atQ atR
    · rfl
    · exact absurd atQ (outside r old' x atR)
    · exact absurd atR (outside q old x atQ)
    · exact tiling.apart q old.1 r old'.1 x atQ atR

/-- A piece splits into its halves. -/
theorem split (tiling : Tiling top pieces) (member : p ∈ pieces) (positive : 0 < p.exponent) :
    Tiling top (insert p.lower (insert p.upper (pieces \ {p}))) := by
  obtain ⟨e, size⟩ : ∃ e, p.exponent = e + 1 := ⟨p.exponent - 1, by omega⟩
  have half : 0 < 2 ^ e := Nat.pow_pos (by decide)
  have within := tiling.within p member
  have aligned : 2 ^ e ∣ p.offset :=
    Dvd.dvd.trans (pow_dvd_pow 2 (by omega : e ≤ p.exponent)) (tiling.aligned p member)
  have lowerIs : p.lower = ⟨p.offset, e⟩ := by simp [lower, size]
  have upperIs : p.upper = ⟨p.offset + 2 ^ e, e⟩ := by simp [upper, size]
  rw [size, pow_succ] at within
  have covers : ∀ x, p.Covers x ↔ p.lower.Covers x ∨ p.upper.Covers x := by
    intro x
    unfold Covers
    rw [lowerIs, upperIs, size]
    simp only
    rw [pow_succ]
    omega
  have halvesApart : ∀ x, p.lower.Covers x → ¬p.upper.Covers x := by
    intro x
    unfold Covers
    rw [lowerIs, upperIs]
    simp only
    omega
  have outside : ∀ q ∈ pieces \ {p}, ∀ x, q.Covers x → ¬p.Covers x :=
    fun q old x at' here => old.2 (tiling.apart q old.1 p member x at' here)
  refine ⟨?_, ?_, ?_, ?_⟩
  · rintro q (rfl | rfl | old)
    · rw [lowerIs]
      exact aligned
    · rw [upperIs]
      exact (Nat.dvd_add_right aligned).mpr (Nat.dvd_refl _)
    · exact tiling.aligned q old.1
  · rintro q (rfl | rfl | old)
    · rw [lowerIs]
      simp only
      omega
    · rw [upperIs]
      simp only
      omega
    · exact tiling.within q old.1
  · intro x below
    obtain ⟨q, found, at'⟩ := tiling.cover x below
    by_cases same : q = p
    · subst same
      rcases (covers x).mp at' with here | here
      · exact ⟨_, .inl rfl, here⟩
      · exact ⟨_, .inr (.inl rfl), here⟩
    · exact ⟨q, .inr (.inr ⟨found, same⟩), at'⟩
  · rintro q (rfl | rfl | old) r (rfl | rfl | old') x atQ atR
    · rfl
    · exact absurd atR (halvesApart x atQ)
    · exact absurd ((covers x).mpr (.inl atQ)) (outside r old' x atR)
    · exact absurd atQ (halvesApart x atR)
    · rfl
    · exact absurd ((covers x).mpr (.inr atQ)) (outside r old' x atR)
    · exact absurd ((covers x).mpr (.inl atR)) (outside q old x atQ)
    · exact absurd ((covers x).mpr (.inr atR)) (outside q old x atQ)
    · exact tiling.apart q old.1 r old'.1 x atQ atR

/-- The top piece, when it is there, is alone. -/
theorem top_alone (tiling : Tiling top pieces) (member : p ∈ pieces) (full : p.exponent = top) :
    pieces = {⟨0, top⟩} := by
  have within := tiling.within p member
  have start : p.offset = 0 := by
    rw [full] at within
    omega
  have is : p = ⟨0, top⟩ := by ext <;> assumption
  subst is
  ext q
  refine ⟨fun other => ?_, fun same => same ▸ member⟩
  have positive : 0 < 2 ^ q.exponent := Nat.pow_pos (by decide)
  have bound := tiling.within q other
  exact (tiling.apart _ member q other q.offset ⟨Nat.zero_le _, by simp only; omega⟩ q.covers_offset).symm

/-- A tiling in which no two buddies are both whole is the top piece: its
shortest piece would have a buddy of the same length. -/
theorem settled_whole (tiling : Tiling top pieces)
    (settled : ∀ p ∈ pieces, p.exponent < top → p.buddy ∉ pieces) : pieces = {⟨0, top⟩} := by
  obtain ⟨some, member, -⟩ := tiling.cover 0 (Nat.pow_pos (by decide))
  obtain ⟨p, shortest, least⟩ := WellFounded.has_min (measure Piece.exponent).wf pieces ⟨some, member⟩
  by_cases below : p.exponent < top
  · obtain ⟨q, found, begins, short⟩ := tiling.begins_at_buddy shortest below
    have long : ¬q.exponent < p.exponent := least q found
    have is : q = p.buddy := by
      ext
      · exact begins
      · show q.exponent = p.exponent
        omega
    exact absurd (is ▸ found) (settled p shortest below)
  · exact tiling.top_alone shortest (Nat.le_antisymm (tiling.exponent_le shortest) (by omega))

/-- No more fits than the whole. -/
theorem sum_le (tiling : Tiling top pieces) (some : Finset Piece) (inside : ∀ p ∈ some, p ∈ pieces) :
    ∑ p ∈ some, 2 ^ p.exponent ≤ 2 ^ top := by
  have apart : (some : Set Piece).PairwiseDisjoint Piece.positions := by
    intro p first q second other
    refine Finset.disjoint_left.mpr fun x here there => other ?_
    exact tiling.apart p (inside p first) q (inside q second) x (Piece.mem_positions.mp here)
      (Piece.mem_positions.mp there)
  have within : some.biUnion Piece.positions ⊆ Finset.range (2 ^ top) := by
    intro x covered
    obtain ⟨p, member, here⟩ := Finset.mem_biUnion.mp covered
    have room := tiling.within p (inside p member)
    exact Finset.mem_range.mpr (Nat.lt_of_lt_of_le (Piece.mem_positions.mp here).2 room)
  calc ∑ p ∈ some, 2 ^ p.exponent
      = ∑ p ∈ some, p.positions.card := Finset.sum_congr rfl fun p _ => p.card_positions.symm
    _ = (some.biUnion Piece.positions).card := (Finset.card_biUnion apart).symm
    _ ≤ 2 ^ top := by simpa using Finset.card_le_card within

end Tiling

end QuesOs.DyadicTiling
