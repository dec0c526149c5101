import QuesOs.StandardMallocLayout

/-! `malloc` against the row of blocks. The walk over the list visits every
free block once and stops at the first that is large enough; taking it either
hands the whole block over or cuts its last units off. -/
namespace QuesOs.StandardMalloc
open LinkedRing BlockRow Heap

/-- What one successful request does to the row. -/
inductive Taken (blocks : Nat) : List Block → List Block → Nat → Prop where
  | whole {A B : List Block} {c : Nat} :
      Taken blocks (A ++ ⟨c, blocks, true⟩ :: B) (A ++ ⟨c, blocks, false⟩ :: B) (plus c 1)
  | tail {A B : List Block} {c n : Nat} : blocks < n →
      Taken blocks (A ++ ⟨c, n, true⟩ :: B)
        (A ++ ⟨c, n - blocks, true⟩ :: ⟨plus c (n - blocks), blocks, false⟩ :: B)
        (plus (plus c (n - blocks)) 1)

theorem requestBlocks_pos : 1 ≤ requestBlocks mem := by
  exact Nat.le_add_left _ _

/-- The loop stops at a block that fits, found through the node before it, or
comes back to `free_node` with every block too small. -/
theorem mallocLoop_walk (todo : List Nat) (steps prev : Nat) (room : todo.length < steps)
    (path : List.IsChain (fun a b => h.next a = b) (prev :: (todo ++ [h.freeNode])))
    (once : h.freeNode ∉ todo) :
    (∃ p ∈ prev :: todo, blocks ≤ h.size (h.next p) ∧
      mallocLoop h blocks steps prev (h.next prev) = some (take h blocks p (h.next p))) ∨
    ((∀ c ∈ todo ++ [h.freeNode], h.size c < blocks) ∧
      mallocLoop h blocks steps prev (h.next prev) = some (h, 0)) := by
  induction todo generalizing prev steps with
  | nil =>
    obtain ⟨steps, rfl⟩ : ∃ n, steps = n + 1 := ⟨steps - 1, by simp at room; omega⟩
    rw [List.nil_append, List.isChain_cons_cons] at path
    rw [mallocLoop, path.1]
    by_cases fits : blocks ≤ h.size h.freeNode
    · exact .inl ⟨prev, by simp, path.1 ▸ fits, by simp [fits, path.1]⟩
    · exact .inr ⟨by simpa using fits, by simp [fits]⟩
  | cons c todo ih =>
    obtain ⟨steps, rfl⟩ : ∃ n, steps = n + 1 := ⟨steps - 1, by simp at room; omega⟩
    rw [List.cons_append, List.isChain_cons_cons] at path
    obtain ⟨link, path⟩ := path
    have other : c ≠ h.freeNode := fun same => once (by simp [same])
    rw [mallocLoop, link]
    by_cases fits : blocks ≤ h.size c
    · exact .inl ⟨prev, by simp, link ▸ fits, by simp [fits, link]⟩
    · simp only [fits, ↓reduceIte, other]
      rcases ih steps c (by simpa using room) path (fun member => once (by simp [member])) with
        ⟨p, member, large, found⟩ | ⟨small, exhausted⟩
      · exact .inl ⟨p, by simp [List.mem_cons.mp member], large, found⟩
      · refine .inr ⟨?_, exhausted⟩
        intro d member
        rcases List.mem_cons.mp member with rfl | member
        · omega
        · exact small d member

/-- `malloc` answers from one lap of the list. -/
theorem mallocLoop_spec (blocks : Nat) (layout : Layout h row) :
    (∃ p ∈ freeStarts row, blocks ≤ h.size (h.next p) ∧
      mallocLoop h blocks (h.headerBlocks + 1) h.freeNode (h.next h.freeNode) =
        some (take h blocks p (h.next p))) ∨
    ((∀ c ∈ freeStarts row, h.size c < blocks) ∧
      mallocLoop h blocks (h.headerBlocks + 1) h.freeNode (h.next h.freeNode) = some (h, 0)) := by
  obtain ⟨before, after, split, ring⟩ := threaded_from layout.ring layout.node
  have nodup := freeStarts_nodup layout.tiles
  have short := freeStarts_length_le layout
  rw [split] at nodup short
  have once : h.freeNode ∉ after ++ before := by
    simp only [List.nodup_append, List.nodup_cons, List.mem_append, List.mem_cons] at nodup ⊢
    grind
  have room : (after ++ before).length < h.headerBlocks + 1 := by
    simp only [List.length_append, List.length_cons] at short ⊢
    omega
  have members : ∀ c, c ∈ freeStarts row ↔ c ∈ after ++ before ++ [h.freeNode] := by
    intro c
    rw [split]
    simp only [List.mem_append, List.mem_cons]
    grind
  rw [threaded_cons] at ring
  rcases mallocLoop_walk (after ++ before) _ _ room ring once with ⟨p, member, found⟩ | ⟨small, exhausted⟩
  · refine .inl ⟨p, (members p).mpr ?_, found⟩
    simp only [List.mem_cons, List.mem_append] at member ⊢
    tauto
  · exact .inr ⟨fun c member => small c ((members c).mp member), exhausted⟩

private theorem apart_taken {A B : List Block} {b b' : Block}
    (apart : (A ++ b :: B).IsChain Apart) (held : b'.free = false) : (A ++ b' :: B).IsChain Apart := by
  rw [List.isChain_append] at apart ⊢
  obtain ⟨left, right, -⟩ := apart
  refine ⟨left, ?_, by simp [Apart, held]⟩
  exact right.tail.cons (by simp [Apart, held])

/-- A whole block leaves the list, unless it was the only one there. -/
theorem take_whole (layout : Layout h (A ++ ⟨c, blocks, true⟩ :: B))
    (member : p ∈ freeStarts (A ++ ⟨c, blocks, true⟩ :: B)) (link : h.next p = c) (other : p ≠ c) :
    Layout (take h blocks p c).1 (A ++ ⟨c, blocks, false⟩ :: B) := by
  have size := layout.sizes ⟨c, blocks, true⟩ (by simp)
  simp only at size
  have nodup := freeStarts_nodup layout.tiles
  have ring := layout.ring
  simp only [freeStarts_append, freeStarts_cons_free] at ring member nodup
  have rotated : Threaded h.next (c :: (freeStarts B ++ freeStarts A)) := by
    rwa [threaded_swap, List.cons_append] at ring
  -- The node before `c` is the last of the lap that starts at `c`.
  obtain ⟨lap, last, around⟩ : ∃ lap last, freeStarts B ++ freeStarts A = lap ++ [last] := by
    rcases List.eq_nil_or_concat (freeStarts B ++ freeStarts A) with none | ⟨lap, last, some⟩
    · simp only [List.append_eq_nil_iff] at none
      simp_all
    · exact ⟨lap, last, by simpa using some⟩
  rw [around] at rotated
  have before : p = last := by
    refine threaded_injective ring nodup (by simpa using member) ?_ (link.trans (threaded_close rotated).symm)
    have : last ∈ freeStarts B ++ freeStarts A := by simp [around]
    simp only [List.mem_append, List.mem_cons] at this ⊢
    tauto
  subst before
  have unlinked : Threaded (take h blocks p c).1.next (p :: lap) := by
    have fromLast : Threaded h.next (p :: c :: lap) := by
      have := (threaded_swap (l := c :: lap) (m := [p])).mp (by simpa using rotated)
      simpa using this
    refine threaded_unlink fromLast (by simp [take, size]) ?_
    intro a inside
    have : a ≠ p := by
      rintro rfl
      have twice : (freeStarts B ++ freeStarts A).Nodup := by
        simp only [List.nodup_append, List.nodup_cons, List.mem_cons] at nodup ⊢
        grind
      rw [around, List.nodup_append] at twice
      exact twice.2.2 a inside a (by simp) rfl
    simp [take, size, this]
  refine ⟨?_, ?_, ?_, ?_, apart_taken layout.apart rfl, ?_⟩
  · simpa [take, size] using region_flag.mp layout.tiles
  · intro b inside
    have old : ∃ b' ∈ A ++ ⟨c, blocks, true⟩ :: B, b'.start = b.start ∧ b'.units = b.units := by
      simp only [List.mem_append, List.mem_cons] at inside ⊢
      rcases inside with left | rfl | right
      · exact ⟨b, .inl left, rfl, rfl⟩
      · exact ⟨_, .inr (.inl rfl), rfl, rfl⟩
      · exact ⟨b, .inr (.inr right), rfl, rfl⟩
    obtain ⟨b', inside', start, units⟩ := old
    simpa [take, size, start, units] using layout.sizes b' inside'
  · rw [freeStarts_append, freeStarts_cons_held, threaded_swap, around, threaded_swap]
    simpa using unlinked
  · have : p ∈ freeStarts B ++ freeStarts A := by simp [around]
    simp only [freeStarts_append, freeStarts_cons_held, List.mem_append] at this ⊢
    simpa [take, size, or_comm] using this
  · simpa [take, size] using layout.narrow

/-- A larger block keeps its place in the list and loses its last units. -/
theorem take_tail (layout : Layout h (A ++ ⟨c, n, true⟩ :: B)) (smaller : blocks < n) (pos : 1 ≤ blocks)
    (member : p ∈ freeStarts (A ++ ⟨c, n, true⟩ :: B)) :
    Layout (take h blocks p c).1
      (A ++ ⟨c, n - blocks, true⟩ :: ⟨plus c (n - blocks), blocks, false⟩ :: B) ∧
    (take h blocks p c).2 = plus (plus c (n - blocks)) 1 := by
  have size := layout.sizes ⟨c, n, true⟩ (by simp)
  have bound : n ≤ h.headerBlocks := (units_le layout (b := ⟨c, n, true⟩) (by simp)).2
  have narrow := layout.narrow
  have larger : n ≠ blocks := by omega
  have fits : (n - blocks) % 2 ^ 32 = n - blocks := Nat.mod_eq_of_lt (by omega)
  have fits' : blocks % 2 ^ 32 = blocks := Nat.mod_eq_of_lt (by omega)
  simp only at size
  have result : take h blocks p c =
      (((h.setSize c (n - blocks)).setSize (plus c (n - blocks)) blocks).setFreeNode p,
        plus (plus c (n - blocks)) 1) := by
    simp only [take, size, larger, ↓reduceIte, size_setSize, fits]
  rw [result]
  have carvedInside : ∀ b ∈ A ++ ⟨c, n, true⟩ :: B, plus c (n - blocks) ≠ b.start := by
    intro b inside
    refine inside_not_start layout.tiles (a := ⟨c, n, true⟩) (by simp) inside ?_ ?_ <;>
      simp only [plus, Block.stop, sizeofHeader] <;> omega
  refine ⟨⟨?_, ?_, ?_, ?_, ?_, layout.narrow⟩, rfl⟩
  · obtain ⟨mid, left, first, wide, right⟩ := row_append.mp layout.tiles
    refine row_append.mpr ⟨mid, left, first, ?_, rfl, ?_, ?_⟩
    · simp only [Block.stop, plus, sizeofHeader] at first ⊢
      omega
    · simp only [Block.stop, plus, sizeofHeader] at first ⊢
      omega
    · have same : (⟨plus c (n - blocks), blocks, false⟩ : Block).stop = (⟨c, n, true⟩ : Block).stop := by
        simp only [Block.stop, plus, sizeofHeader]
        omega
      rwa [same]
  · intro b inside
    simp only [List.mem_append, List.mem_cons] at inside
    rcases inside with left | rfl | rfl | right
    · have old : b ∈ A ++ ⟨c, n, true⟩ :: B := by simp [left]
      have apart : b.start ≠ c := by
        have ended := row_before layout.tiles left
        have wide := (row_within layout.tiles old).2.1
        simp only at ended
        omega
      simp [apart, (carvedInside b old).symm, layout.sizes b old]
    · have : c ≠ plus c (n - blocks) := carvedInside ⟨c, n, true⟩ (by simp) |>.symm
      simp only [size_setFreeNode, size_setSize, this, ↓reduceIte, fits]
    · simp only [size_setFreeNode, size_setSize, ↓reduceIte, fits']
    · have old : b ∈ A ++ ⟨c, n, true⟩ :: B := by simp [right]
      have apart : b.start ≠ c := by
        have ended := row_after layout.tiles right
        simp only [Block.stop, plus, sizeofHeader] at ended
        omega
      simp [apart, (carvedInside b old).symm, layout.sizes b old]
  · have ring := layout.ring
    simp only [freeStarts_append, freeStarts_cons_free, freeStarts_cons_held] at ring ⊢
    exact threaded_agree ring (fun a _ => by simp)
  · simpa using member
  · have apart := layout.apart
    rw [List.isChain_append] at apart ⊢
    obtain ⟨left, right, seam⟩ := apart
    refine ⟨left, ?_, by simpa [Apart] using seam⟩
    exact .cons_cons (by simp [Apart]) (right.tail.cons (by simp [Apart]))

/-- A node that links to itself is the whole list. -/
theorem self_linked (layout : Layout h row) (member : p ∈ freeStarts row) (self : h.next p = p) :
    freeStarts row = [p] := by
  obtain ⟨before, after, split, ring⟩ := threaded_from layout.ring member
  have nodup := freeStarts_nodup layout.tiles
  rw [split] at nodup
  rw [threaded_cons] at ring
  cases rest : after ++ before with
  | nil =>
    rw [List.append_eq_nil_iff] at rest
    simp [split, rest]
  | cons z others =>
    rw [rest, List.cons_append, List.isChain_cons_cons] at ring
    have : p ∈ after ++ before := by simp [rest, ← ring.1, self]
    simp only [List.nodup_append, List.nodup_cons, List.mem_append, List.mem_cons] at nodup this
    grind

/-- The request that would hand out the only free block and leave it listed. -/
def TakesOnlyBlock (h : Heap) (mem : Nat) : Prop :=
  h.next h.freeNode = h.freeNode ∧ h.size h.freeNode = requestBlocks mem

/-- `malloc` always answers. It returns `NULL` and changes nothing, exactly
when every free block is too small, or it takes a block of the row. -/
theorem malloc_spec (layout : Layout h row) (asked : mem ≠ 0) :
    ((∀ c ∈ freeStarts row, h.size c < requestBlocks mem) ∧ malloc h mem = some (h, 0)) ∨
    ∃ h' p row', malloc h mem = some (h', p) ∧ Taken (requestBlocks mem) row row' p ∧
      (¬TakesOnlyBlock h mem → Layout h' row') := by
  simp only [malloc, asked, ↓reduceIte]
  rcases mallocLoop_spec (requestBlocks mem) layout with
    ⟨p, member, large, found⟩ | ⟨small, exhausted⟩
  · right
    obtain ⟨n, inside⟩ := mem_freeStarts.mp (threaded_closed layout.ring member)
    have size := layout.sizes _ inside
    obtain ⟨A, B, rfl⟩ := List.append_of_mem inside
    simp only at size
    rcases Nat.lt_or_eq_of_le (size ▸ large) with smaller | exact
    · have cut := take_tail layout smaller requestBlocks_pos member
      exact ⟨_, _, _, found, cut.2 ▸ .tail smaller, fun _ => cut.1⟩
    · subst exact
      refine ⟨(take h (requestBlocks mem) p (h.next p)).1, plus (h.next p) 1, _, found.trans ?_, .whole,
        fun attached => take_whole layout member rfl ?_⟩
      · simp only [take, size, ↓reduceIte]
      · intro self
        have only := self_linked layout member self.symm
        have node := layout.node
        rw [only, List.mem_singleton] at node
        exact attached ⟨node ▸ self.symm, by rw [node, self]; exact size⟩
  · exact .inl ⟨small, exhausted⟩

end QuesOs.StandardMalloc
