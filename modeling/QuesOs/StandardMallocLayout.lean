import QuesOs.LinkedRing
import QuesOs.BlockRow
import QuesOs.StandardMalloc
import Mathlib.Data.List.Chain
import Mathlib.Data.List.Perm.Basic

/-! What the heap looks like between calls: one row of blocks from the heap
base to the end of the region, whose free blocks are threaded on the circular
list and whose other blocks are what the client holds. `malloc` and `free`
are each one local change of that row, except in the two degenerate cases of
a one-node free list that `Detached` names. -/
namespace QuesOs.StandardMalloc
open LinkedRing BlockRow Heap

/-- A block of the row: its header's address, its units with the header, and
whether it is on the free list. -/
structure Block where
  start : Nat
  units : Nat
  free : Bool
  deriving DecidableEq

def Block.stop (b : Block) : Nat := plus b.start b.units

/-- The row covers the region. -/
abbrev Region (lo : Nat) (row : List Block) (hi : Nat) : Prop := Row Block.start Block.stop lo row hi

/-- The free list in address order. -/
def freeStarts (row : List Block) : List Nat := (row.filter (·.free)).map (·.start)

/-- What the client holds, in address order. -/
def heldBlocks (row : List Block) : List Held :=
  (row.filter (!·.free)).map fun b => ⟨plus b.start 1, b.units⟩

/-- Neighbours are not both free. -/
def Apart (a b : Block) : Prop := ¬(a.free = true ∧ b.free = true)

/-- The allocator's memory shows exactly this row. -/
structure Layout (h : Heap) (row : List Block) : Prop where
  tiles : Region h.base row (plus h.base h.headerBlocks)
  sizes : ∀ b ∈ row, h.size b.start = b.units
  ring : Threaded h.next (freeStarts row)
  node : h.freeNode ∈ freeStarts row
  apart : row.IsChain Apart
  narrow : h.headerBlocks < 2 ^ 32

/-! ## Memory writes -/

section Writes
variable (h : Heap) (a b v : Nat)

@[simp] theorem next_setNext : (h.setNext a v).next b = if b = a then v else h.next b := by
  unfold Heap.next Heap.setNext
  by_cases same : b = a <;> simp [same]

@[simp] theorem size_setNext : (h.setNext a v).size b = h.size b := by
  unfold Heap.size Heap.setNext
  by_cases same : b = a <;> simp [same]

@[simp] theorem next_setSize : (h.setSize a v).next b = h.next b := by
  unfold Heap.next Heap.setSize
  by_cases same : b = a <;> simp [same]

@[simp] theorem size_setSize : (h.setSize a v).size b = if b = a then v % 2 ^ 32 else h.size b := by
  unfold Heap.size Heap.setSize
  by_cases same : b = a <;> simp [same]

@[simp] theorem base_setNext : (h.setNext a v).base = h.base := rfl
@[simp] theorem base_setSize : (h.setSize a v).base = h.base := rfl
@[simp] theorem headerBlocks_setNext : (h.setNext a v).headerBlocks = h.headerBlocks := rfl
@[simp] theorem headerBlocks_setSize : (h.setSize a v).headerBlocks = h.headerBlocks := rfl
@[simp] theorem next_setFreeNode : (h.setFreeNode v).next b = h.next b := rfl
@[simp] theorem size_setFreeNode : (h.setFreeNode v).size b = h.size b := rfl
@[simp] theorem base_setFreeNode : (h.setFreeNode v).base = h.base := rfl
@[simp] theorem headerBlocks_setFreeNode : (h.setFreeNode v).headerBlocks = h.headerBlocks := rfl
@[simp] theorem freeNode_setFreeNode : (h.setFreeNode v).freeNode = v := rfl

end Writes

/-! ## Rows and their parts -/

@[simp] theorem freeStarts_nil : freeStarts [] = [] := rfl

@[simp] theorem freeStarts_append (A B : List Block) : freeStarts (A ++ B) = freeStarts A ++ freeStarts B := by
  simp [freeStarts]

@[simp] theorem freeStarts_cons_free (s n : Nat) (B : List Block) :
    freeStarts (⟨s, n, true⟩ :: B) = s :: freeStarts B := rfl

@[simp] theorem freeStarts_cons_held (s n : Nat) (B : List Block) :
    freeStarts (⟨s, n, false⟩ :: B) = freeStarts B := rfl

@[simp] theorem heldBlocks_append (A B : List Block) : heldBlocks (A ++ B) = heldBlocks A ++ heldBlocks B := by
  simp [heldBlocks]

@[simp] theorem heldBlocks_cons_free (s n : Nat) (B : List Block) :
    heldBlocks (⟨s, n, true⟩ :: B) = heldBlocks B := rfl

@[simp] theorem heldBlocks_cons_held (s n : Nat) (B : List Block) :
    heldBlocks (⟨s, n, false⟩ :: B) = ⟨plus s 1, n⟩ :: heldBlocks B := rfl

theorem mem_freeStarts : x ∈ freeStarts row ↔ ∃ n, (⟨x, n, true⟩ : Block) ∈ row := by
  simp only [freeStarts, List.mem_map, List.mem_filter]
  constructor
  · rintro ⟨⟨s, n, f⟩, ⟨member, isFree⟩, rfl⟩
    exact ⟨n, by simpa [← isFree] using member⟩
  · rintro ⟨n, member⟩
    exact ⟨_, ⟨member, rfl⟩, rfl⟩

theorem mem_heldBlocks {held : Held} :
    held ∈ heldBlocks row ↔ ∃ s, (⟨s, held.units, false⟩ : Block) ∈ row ∧ held.pointer = plus s 1 := by
  simp only [heldBlocks, List.mem_map, List.mem_filter]
  constructor
  · rintro ⟨⟨s, n, f⟩, ⟨member, isHeld⟩, rfl⟩
    exact ⟨s, by simpa [show f = false by simpa using isHeld] using member, rfl⟩
  · rintro ⟨s, member, same⟩
    exact ⟨_, ⟨member, rfl⟩, by cases held; simp_all⟩

theorem freeStarts_sublist : (freeStarts row).Sublist (row.map Block.start) :=
  List.filter_sublist.map _

/-- Handing a block over leaves the region covered. -/
theorem region_flag : Region lo (A ++ ⟨s, n, f⟩ :: B) hi ↔ Region lo (A ++ ⟨s, n, g⟩ :: B) hi := by
  rw [Region, row_append, Region, row_append]
  exact Iff.rfl

/-- Two neighbours make one block. -/
theorem region_join (tiles : Region lo (A ++ ⟨s, n, f⟩ :: ⟨t, k, g⟩ :: B) hi) :
    Region lo (A ++ ⟨s, n + k, i⟩ :: B) hi := by
  obtain ⟨mid, left, first, wide, second, wide', right⟩ := row_append.mp tiles
  have same : (⟨s, n + k, i⟩ : Block).stop = (⟨t, k, g⟩ : Block).stop := by
    simp only [Block.stop, plus, sizeofHeader] at second ⊢
    omega
  refine row_append.mpr ⟨mid, left, first, ?_, same ▸ right⟩
  rw [same]
  exact Nat.lt_trans wide wide'

/-- Blocks start a whole number of units from the base. -/
theorem start_aligned (tiles : Region lo row hi) (member : b ∈ row) :
    ∃ units, b.start = plus lo units := by
  induction row generalizing lo with
  | nil => cases member
  | cons c row ih =>
    obtain ⟨first, -, rest⟩ := tiles
    rcases List.mem_cons.mp member with rfl | member
    · exact ⟨0, by simp [plus, first]⟩
    · obtain ⟨units, at'⟩ := ih rest member
      refine ⟨c.units + units, ?_⟩
      simp only [at', Block.stop, plus, sizeofHeader, first]
      omega

/-- Free blocks are listed in ascending order of address. -/
theorem freeStarts_sorted (tiles : Region lo row hi) : (freeStarts row).Pairwise (· < ·) := by
  refine List.Pairwise.sublist freeStarts_sublist (List.pairwise_map.mpr ?_)
  refine (row_ordered tiles).imp_of_mem ?_
  intro a b member _ ordered
  have wide := (row_within tiles member).2.1
  omega

theorem freeStarts_nodup (tiles : Region lo row hi) : (freeStarts row).Nodup :=
  (freeStarts_sorted tiles).imp Nat.ne_of_lt

/-- No more blocks than units. -/
theorem row_length_le (tiles : Region lo row hi) : row.length * sizeofHeader ≤ hi - lo := by
  induction row generalizing lo with
  | nil => simp
  | cons b row ih =>
    obtain ⟨first, wide, rest⟩ := tiles
    have := ih rest
    have := row_le rest
    have := row_le (show Region lo (b :: row) hi from ⟨first, wide, rest⟩)
    simp only [Block.stop, plus, sizeofHeader, List.length_cons] at *
    have : 1 ≤ b.units := by
      rcases Nat.eq_zero_or_pos b.units with none | some
      · simp [none, first] at wide
      · exact some
    omega

theorem freeStarts_length_le (layout : Layout h row) : (freeStarts row).length ≤ h.headerBlocks := by
  have blocks := row_length_le layout.tiles
  have listed := List.Sublist.length_le ((@freeStarts_sublist row))
  simp only [plus, sizeofHeader, List.length_map] at blocks listed
  omega

theorem units_le (layout : Layout h row) (member : b ∈ row) : 1 ≤ b.units ∧ b.units ≤ h.headerBlocks := by
  have inside := row_within layout.tiles member
  simp only [Block.stop, plus, sizeofHeader] at inside
  omega

/-- A block of the row is told from the others by its header's address. -/
theorem start_injective (tiles : Region lo row hi) (first : a ∈ row) (second : b ∈ row)
    (same : a.start = b.start) : a = b :=
  List.inj_on_of_nodup_map (row_starts_nodup tiles) first second same

/-- No block starts strictly inside another. -/
theorem inside_not_start (tiles : Region lo row hi) (outer : a ∈ row) (other : b ∈ row)
    (above : a.start < x) (below : x < a.stop) : x ≠ b.start := by
  rintro rfl
  obtain ⟨before, after, rfl⟩ := List.append_of_mem outer
  rcases List.mem_append.mp other with earlier | later
  · have ended := row_before tiles earlier
    have wide := (row_within tiles other).2.1
    omega
  · rcases List.mem_cons.mp later with rfl | later
    · omega
    · have ended := row_after tiles later
      omega

end QuesOs.StandardMalloc
