import QuesOs.StandardMallocSearches
import Mathlib.Data.Set.Insert

/-! `free` against the free list alone. Whatever lies between the free blocks
counts as held, so that list and block complete to a row, and the release of
the block from that row is its release from the list: the code reads no size
but those of the list's nodes and of the block. -/
namespace QuesOs.StandardMalloc
open LinkedRing BlockRow Heap

/-- A free list: circular, ascending in address with one wrap, its blocks in
the region, each with room left before the next one. -/
structure FreeList (h : Heap) (nodes : List Nat) : Prop where
  ring : Threaded h.next nodes
  node : h.freeNode ∈ nodes
  parted : nodes.Pairwise fun a b => plus a (h.size a) < b
  positive : ∀ a ∈ nodes, 1 ≤ h.size a
  inside : ∀ a ∈ nodes, h.base ≤ a ∧ plus a (h.size a) ≤ plus h.base h.headerBlocks
  aligned : ∀ a ∈ nodes, ∃ units, a = plus h.base units
  narrow : h.headerBlocks < 2 ^ 32

/-- A block of the region, of the units its header records, disjoint from the free ones. -/
structure LiveBlock (h : Heap) (nodes : List Nat) (f : Nat) : Prop where
  positive : 1 ≤ h.size f
  inside : h.base ≤ f ∧ plus f (h.size f) ≤ plus h.base h.headerBlocks
  aligned : ∃ units, f = plus h.base units
  disjoint : ∀ a ∈ nodes, plus a (h.size a) ≤ f ∨ plus f (h.size f) ≤ a

/-- The units of the block at `a`. -/
def blockUnits (h : Heap) (a : Nat) : Set Nat := {x | a ≤ x ∧ x < plus a (h.size a)}

/-- The units of all blocks of a list. -/
def freeUnits (h : Heap) (nodes : List Nat) : Set Nat := {x | ∃ a ∈ nodes, x ∈ blockUnits h a}

/-- Freeing the block at `f` leaves a free list of the old free units and the block's. -/
def Restores (h : Heap) (nodes : List Nat) (f : Nat) : Prop :=
  ∃ h' nodes', free h (plus f 1) = some h' ∧ FreeList h' nodes' ∧
    freeUnits h' nodes' = freeUnits h nodes ∪ blockUnits h f

/-! ## Reading the list as a row -/

/-- Positions a whole number of units above the base. -/
def Mark (origin x : Nat) : Prop := ∃ units, x = plus origin units

/-- A held block for a stretch that is not free. -/
def stretch (lo hi : Nat) : Block := ⟨lo, (hi - lo) / sizeofHeader, false⟩

/-- The free blocks at the given nodes. -/
def freeBlocks (h : Heap) (nodes : List Nat) : List Block := nodes.map fun a => ⟨a, h.size a, true⟩

/-- The nodes' blocks between two marks, with held blocks for the rest. -/
abbrev completed (h : Heap) (lo : Nat) (nodes : List Nat) (hi : Nat) : List Block :=
  fill Block.start Block.stop stretch lo (freeBlocks h nodes) hi

theorem mark_plus (mark : Mark origin x) : Mark origin (plus x n) := by
  obtain ⟨units, rfl⟩ := mark
  exact ⟨units + n, by simp only [plus, sizeofHeader]; omega⟩

theorem stretch_cuts : CutsAt Block.start Block.stop stretch (Mark origin) := by
  rintro x y ⟨m, rfl⟩ ⟨n, rfl⟩ less
  refine ⟨rfl, ?_⟩
  simp only [stretch, Block.stop, plus, sizeofHeader] at less ⊢
  omega

theorem filter_completed : (completed h lo nodes hi).filter (·.free) = freeBlocks h nodes :=
  filter_fill (fun _ _ => rfl) (by simp [freeBlocks])

theorem freeStarts_completed : freeStarts (completed h lo nodes hi) = nodes := by
  rw [freeStarts, filter_completed, freeBlocks, List.map_map]
  exact List.map_id nodes

theorem mem_completed (node : a ∈ nodes) : (⟨a, h.size a, true⟩ : Block) ∈ completed h lo nodes hi := by
  have member : (⟨a, h.size a, true⟩ : Block) ∈ freeBlocks h nodes := List.mem_map_of_mem node
  rw [← @filter_completed h lo nodes hi] at member
  exact List.mem_of_mem_filter member

theorem completed_region {h : Heap} {nodes : List Nat} (low : Mark origin lo) (high : Mark origin hi) (le : lo ≤ hi)
    (parted : nodes.Pairwise fun a b => plus a (h.size a) < b) (positive : ∀ a ∈ nodes, 1 ≤ h.size a)
    (inside : ∀ a ∈ nodes, lo ≤ a ∧ plus a (h.size a) ≤ hi) (aligned : ∀ a ∈ nodes, Mark origin a) :
    Region lo (completed h lo nodes hi) hi := by
  refine row_fill stretch_cuts low high le ?_ ?_ ?_
  · exact List.pairwise_map.mpr (parted.imp fun less => Nat.le_of_lt less)
  · intro b member
    obtain ⟨a, node, rfl⟩ := List.mem_map.mp member
    have units := positive a node
    have within := inside a node
    refine ⟨within.1, ?_, within.2⟩
    simp only [Block.stop, plus, sizeofHeader]
    omega
  · intro b member
    obtain ⟨a, node, rfl⟩ := List.mem_map.mp member
    exact ⟨aligned a node, mark_plus (aligned a node)⟩

theorem completed_apart {h : Heap} {nodes : List Nat} (parted : nodes.Pairwise fun a b => plus a (h.size a) < b) :
    (completed h lo nodes hi).IsChain Apart :=
  chain_fill (by simp [Apart, stretch]) (by simp [Apart, stretch]) (List.pairwise_map.mpr parted)

/-- The heap with the headers of the row's blocks recording their units. -/
def resized (h : Heap) (row : List Block) : Heap :=
  { h with header := fun a => ⟨h.next a, ((row.find? (·.start = a)).map (·.units)).getD (h.size a)⟩ }

theorem resized_sizes (tiles : Region lo row hi) (member : b ∈ row) : (resized h row).size b.start = b.units := by
  have found : row.find? (·.start = b.start) = some b := by
    obtain ⟨c, here⟩ := Option.isSome_iff_exists.mp
      (List.find?_isSome.mpr ⟨b, member, by simp⟩ : (row.find? (·.start = b.start)).isSome)
    have same : c.start = b.start := by simpa using List.find?_some here
    rw [here, start_injective tiles (List.mem_of_find?_eq_some here) member same]
  simp [resized, Heap.size, found]

/-- Nodes below an address, and nodes above it. -/
theorem nodes_split {h : Heap} {nodes : List Nat} (parted : nodes.Pairwise fun a b => plus a (h.size a) < b)
    (disjoint : ∀ a ∈ nodes, plus a (h.size a) ≤ f ∨ plus f (h.size f) ≤ a) (positive : ∀ a ∈ nodes, 1 ≤ h.size a) :
    ∃ below above, nodes = below ++ above ∧ (∀ a ∈ below, plus a (h.size a) ≤ f) ∧
      ∀ a ∈ above, plus f (h.size f) ≤ a := by
  induction nodes with
  | nil => exact ⟨[], [], rfl, by simp, by simp⟩
  | cons a nodes ih =>
    obtain ⟨after, parted⟩ := List.pairwise_cons.mp parted
    rcases disjoint a (by simp) with low | high
    · obtain ⟨below, above, rfl, under, past⟩ := ih parted
        (fun b member => disjoint b (List.mem_cons_of_mem _ member))
        fun b member => positive b (List.mem_cons_of_mem _ member)
      exact ⟨a :: below, above, rfl, List.forall_mem_cons.mpr ⟨low, under⟩, past⟩
    · refine ⟨[], a :: nodes, rfl, by simp, List.forall_mem_cons.mpr ⟨high, fun b member => ?_⟩⟩
      have less := after b member
      simp only [plus, sizeofHeader] at less high ⊢
      omega

/-- List and block complete to a row; the completed heap differs in sizes that
belong to neither. -/
theorem freeList_row (list : FreeList h nodes) (live : LiveBlock h nodes f) :
    ∃ A B h₂, Layout h₂ (A ++ ⟨f, h.size f, false⟩ :: B) ∧ freeStarts A ++ freeStarts B = nodes ∧
      h₂.next = h.next ∧ h₂.base = h.base ∧ h₂.freeNode = h.freeNode ∧ h₂.headerBlocks = h.headerBlocks ∧
      ∀ a, a ∈ nodes ∨ a = f → h₂.size a = h.size a := by
  obtain ⟨below, above, rfl, under, past⟩ := nodes_split list.parted live.disjoint list.positive
  obtain ⟨left, right, -⟩ := List.pairwise_append.mp list.parted
  have bottom : Mark h.base h.base := ⟨0, by simp [plus]⟩
  have top : Mark h.base (plus h.base h.headerBlocks) := mark_plus bottom
  have first : Mark h.base f := live.aligned
  have inLeft : ∀ a ∈ below, a ∈ below ++ above := fun a member => List.mem_append_left _ member
  have inRight : ∀ a ∈ above, a ∈ below ++ above := fun a member => List.mem_append_right _ member
  have tiles : Region h.base (completed h h.base below f ++ ⟨f, h.size f, false⟩ ::
      completed h (plus f (h.size f)) above (plus h.base h.headerBlocks)) (plus h.base h.headerBlocks) := by
    refine row_append.mpr ⟨f, ?_, rfl, ?_, ?_⟩
    · exact completed_region bottom first live.inside.1 left (fun a member => list.positive a (inLeft a member))
        (fun a member => ⟨(list.inside a (inLeft a member)).1, under a member⟩)
        fun a member => list.aligned a (inLeft a member)
    · have units := live.positive
      simp only [Block.stop, plus, sizeofHeader]
      omega
    · exact completed_region (mark_plus first) top live.inside.2 right
        (fun a member => list.positive a (inRight a member))
        (fun a member => ⟨past a member, (list.inside a (inRight a member)).2⟩)
        fun a member => list.aligned a (inRight a member)
  refine ⟨_, _, resized h _, ⟨tiles, fun b member => resized_sizes tiles member, ?_, ?_, ?_, list.narrow⟩,
    ?_, rfl, rfl, rfl, rfl, ?_⟩
  · simp only [freeStarts_append, freeStarts_cons_held, freeStarts_completed]
    exact list.ring
  · simp only [freeStarts_append, freeStarts_cons_held, freeStarts_completed]
    exact list.node
  · refine List.isChain_append.mpr ⟨completed_apart left, ?_, by simp [Apart]⟩
    exact (completed_apart right).cons (by simp [Apart])
  · rw [freeStarts_completed, freeStarts_completed]
  · rintro a (node | rfl)
    · refine resized_sizes tiles (b := ⟨a, h.size a, true⟩) ?_
      rcases List.mem_append.mp node with low | high
      · exact List.mem_append_left _ (mem_completed low)
      · exact List.mem_append_right _ (List.mem_cons_of_mem _ (mem_completed high))
    · exact resized_sizes tiles (b := ⟨a, h.size a, false⟩) (by simp)

/-! ## What `free` reads -/

theorem search_congr {h h₂ : Heap} (links : h₂.next = h.next) : search h₂ f steps x = search h f steps x := by
  induction steps generalizing x with
  | zero => rfl
  | succ steps ih => rw [search, search, links, ih]

/-- The search ends at a node of the ring. -/
theorem search_member {h : Heap} (ring : Threaded h.next nodes) (node : x ∈ nodes)
    (found : search h f steps x = some position) :
    position = .listed ∨ ∃ cur ∈ nodes, position = .between cur ∨ position = .outside cur := by
  induction steps generalizing x with
  | zero => cases found
  | succ steps ih =>
    rw [search] at found
    split at found
    · cases found
      exact .inr ⟨x, node, .inl rfl⟩
    · split at found
      · cases found
        exact .inl rfl
      · split at found
        · cases found
          exact .inr ⟨x, node, .inr rfl⟩
        · exact ih (threaded_closed ring node) found

/-- Two heaps with the same links, whose sizes agree on the listed nodes and the block. -/
structure Agrees (h h₂ : Heap) (nodes : List Nat) (f : Nat) : Prop where
  next : h₂.next = h.next
  base : h₂.base = h.base
  freeNode : h₂.freeNode = h.freeNode
  headerBlocks : h₂.headerBlocks = h.headerBlocks
  size : ∀ a, a ∈ nodes ∨ a = f → h₂.size a = h.size a

theorem link_agrees (agrees : Agrees h h₂ nodes f) (ring : Threaded h.next nodes) (inside : cur ∈ nodes)
    (fresh : f ∉ nodes) : Agrees (link h f cur) (link h₂ f cur) nodes f := by
  have other : cur ≠ f := fun same => fresh (same ▸ inside)
  have here := agrees.size cur (.inl inside)
  have after := agrees.size (h.next cur) (.inl (threaded_closed ring inside))
  have block := agrees.size f (.inr rfl)
  have linked : linkAfter h₂ f cur = linkAfter h f cur := by
    simp only [linkAfter, agrees.next, block]
  have sized : sizeAfter h₂ f cur = sizeAfter h f cur := by
    simp only [sizeAfter, agrees.next, block, after]
  refine ⟨funext fun x => ?_, ?_, rfl, ?_, fun a listed => ?_⟩
  · simp only [next_link other, agrees.next, here, linked]
  · rw [region_link.1, region_link.1, agrees.base]
  · rw [region_link.2, region_link.2, agrees.headerBlocks]
  · simp only [size_link other, here, sized, agrees.size a listed]

/-- `free` goes the same way over both. -/
theorem free_agrees (agrees : Agrees h h₂ nodes f) (ring : Threaded h.next nodes) (node : h.freeNode ∈ nodes)
    (fresh : f ∉ nodes) (freed : free h₂ (plus f 1) = some h₂') :
    ∃ h', free h (plus f 1) = some h' ∧ Agrees h' h₂' nodes f := by
  have back : plus f 1 - sizeofHeader = f := by simp [plus, sizeofHeader]
  have block := agrees.size f (.inr rfl)
  unfold free at freed ⊢
  simp only [back, agrees.base, agrees.headerBlocks, agrees.freeNode, agrees.next, block] at freed ⊢
  rw [search_congr agrees.next] at freed
  split at freed
  · next early =>
    cases freed
    exact ⟨h, if_pos early, agrees⟩
  · next late =>
    rw [if_neg late]
    split at freed
    · next outside =>
      cases freed
      exact ⟨h, if_pos outside, agrees⟩
    · next accepted =>
      rw [if_neg accepted]
      cases found : search h f (h.headerBlocks + 1) h.freeNode with
      | none => simp [found] at freed
      | some position =>
        rw [found] at freed
        rcases search_member ring node found with rfl | ⟨cur, inside, rfl | rfl⟩
        · cases freed
          exact ⟨h, rfl, agrees⟩
        · simp only [agrees.size cur (.inl inside)] at freed ⊢
          split at freed
          · next overlaps =>
            cases freed
            exact ⟨h, if_pos overlaps, agrees⟩
          · next clear =>
            cases freed
            exact ⟨_, if_neg clear, link_agrees agrees ring inside fresh⟩
        · cases freed
          exact ⟨_, rfl, link_agrees agrees ring inside fresh⟩

/-! ## Back from the row to the list -/

/-- Free blocks of a row leave room between each other. -/
theorem row_parted (tiles : Region lo row hi) (apart : row.IsChain Apart) :
    (row.filter (·.free)).Pairwise fun a b => a.stop < b.start := by
  induction row generalizing lo with
  | nil => exact .nil
  | cons a row ih =>
    obtain ⟨first, wide, rest⟩ := tiles
    have tail := ih rest apart.tail
    by_cases free : a.free
    · rw [List.filter_cons_of_pos free]
      refine .cons (fun b member => ?_) tail
      obtain ⟨inside, isFree⟩ := List.mem_filter.mp member
      cases row with
      | nil => cases inside
      | cons c row =>
        obtain ⟨next, broad, others⟩ := rest
        rcases List.mem_cons.mp inside with rfl | later
        · exact absurd ⟨free, isFree⟩ (List.isChain_cons_cons.mp apart).1
        · have := (row_within others later).1
          omega
    · rw [List.filter_cons_of_neg free]
      exact tail

/-- The row's free blocks make a free list. -/
theorem layout_freeList (layout : Layout h row) : FreeList h (freeStarts row) where
  ring := layout.ring
  node := layout.node
  parted := by
    refine List.pairwise_map.mpr ((row_parted layout.tiles layout.apart).imp_of_mem ?_)
    intro a b member _ room
    rwa [layout.sizes a (List.mem_of_mem_filter member)]
  positive := by
    intro a member
    obtain ⟨n, inside⟩ := mem_freeStarts.mp member
    rw [layout.sizes ⟨a, n, true⟩ inside]
    exact (units_le layout inside).1
  inside := by
    intro a member
    obtain ⟨n, inside⟩ := mem_freeStarts.mp member
    rw [layout.sizes ⟨a, n, true⟩ inside]
    have within := row_within layout.tiles inside
    exact ⟨within.1, within.2.2⟩
  aligned := by
    intro a member
    obtain ⟨n, inside⟩ := mem_freeStarts.mp member
    exact start_aligned layout.tiles inside
  narrow := layout.narrow

/-- A heap that agrees on the nodes has the same free list. -/
theorem freeList_agrees (list : FreeList h₂ nodes') (agrees : Agrees h h₂ nodes f)
    (within : ∀ a ∈ nodes', a ∈ nodes ∨ a = f) : FreeList h nodes' where
  ring := agrees.next ▸ list.ring
  node := agrees.freeNode ▸ list.node
  parted := by
    refine list.parted.imp_of_mem fun member _ room => ?_
    rwa [agrees.size _ (within _ member)] at room
  positive := by
    intro a member
    rw [← agrees.size a (within a member)]
    exact list.positive a member
  inside := by
    intro a member
    rw [← agrees.size a (within a member), ← agrees.base, ← agrees.headerBlocks]
    exact list.inside a member
  aligned := agrees.base ▸ list.aligned
  narrow := agrees.headerBlocks ▸ list.narrow

theorem freeUnits_agrees (agrees : Agrees h h₂ nodes f) (within : ∀ a ∈ nodes', a ∈ nodes ∨ a = f) :
    freeUnits h nodes' = freeUnits h₂ nodes' := by
  ext x
  simp only [freeUnits, blockUnits, Set.mem_ofPred_eq]
  constructor
  · rintro ⟨a, member, inside⟩
    exact ⟨a, member, by rwa [agrees.size a (within a member)]⟩
  · rintro ⟨a, member, inside⟩
    exact ⟨a, member, by rwa [← agrees.size a (within a member)]⟩

/-- The units of a row's free blocks. -/
def rowUnits (row : List Block) : Set Nat := {x | ∃ b ∈ row, b.free = true ∧ b.start ≤ x ∧ x < b.stop}

theorem freeUnits_row (layout : Layout h row) : freeUnits h (freeStarts row) = rowUnits row := by
  ext x
  simp only [freeUnits, blockUnits, rowUnits, Set.mem_ofPred_eq]
  constructor
  · rintro ⟨a, member, inside⟩
    obtain ⟨n, block⟩ := mem_freeStarts.mp member
    rw [layout.sizes ⟨a, n, true⟩ block] at inside
    exact ⟨_, block, rfl, inside⟩
  · rintro ⟨⟨a, n, free⟩, block, rfl, inside⟩
    refine ⟨a, mem_freeStarts.mpr ⟨n, block⟩, ?_⟩
    rwa [layout.sizes ⟨a, n, true⟩ block]

theorem rowUnits_append : rowUnits (A ++ B) = rowUnits A ∪ rowUnits B := by
  ext x
  simp only [rowUnits, List.mem_append, Set.mem_ofPred_eq, Set.mem_union]
  constructor
  · rintro ⟨b, left | right, inside⟩
    · exact .inl ⟨b, left, inside⟩
    · exact .inr ⟨b, right, inside⟩
  · rintro (⟨b, left, inside⟩ | ⟨b, right, inside⟩)
    · exact ⟨b, .inl left, inside⟩
    · exact ⟨b, .inr right, inside⟩

theorem rowUnits_cons : rowUnits (⟨a, n, true⟩ :: B) = {x | a ≤ x ∧ x < plus a n} ∪ rowUnits B := by
  ext x
  simp [rowUnits, Block.stop]

theorem rowUnits_held : rowUnits (⟨a, n, false⟩ :: B) = rowUnits B := by
  ext x
  simp [rowUnits]

/-- A release frees the units of the block. -/
theorem released_units (tiles : Region lo (A ++ ⟨f, n, false⟩ :: B) hi) (released : Released f n A B row) :
    rowUnits row = rowUnits (A ++ ⟨f, n, false⟩ :: B) ∪ {x | f ≤ x ∧ x < plus f n} := by
  cases released with
  | alone ends begins =>
    rw [rowUnits_append, rowUnits_append, rowUnits_cons, rowUnits_held, Set.union_assoc,
      Set.union_comm (rowUnits B)]
  | @next A B s k ends =>
    have adjacent : plus f n = s := row_adjacent tiles
    ext x
    simp only [rowUnits_append, rowUnits_cons, rowUnits_held, Set.mem_union, Set.mem_ofPred_eq]
    simp only [plus, sizeofHeader] at adjacent ⊢
    have parts : (f ≤ x ∧ x < f + (n + k) * 16) ↔ (s ≤ x ∧ x < s + k * 16) ∨ (f ≤ x ∧ x < f + n * 16) := by omega
    tauto
  | @prev A B a m begins =>
    rw [List.append_assoc] at tiles
    have adjacent : plus a m = f := row_adjacent tiles
    ext x
    simp only [rowUnits_append, rowUnits_cons, rowUnits_held, Set.mem_union, Set.mem_ofPred_eq]
    simp only [plus, sizeofHeader] at adjacent ⊢
    have parts : (a ≤ x ∧ x < a + (m + n) * 16) ↔ (a ≤ x ∧ x < a + m * 16) ∨ (f ≤ x ∧ x < f + n * 16) := by omega
    simp only [rowUnits, List.not_mem_nil, false_and, exists_false, Set.ofPred_false, Set.mem_empty_iff_false]
    tauto
  | @both A B a m s k =>
    rw [List.append_assoc] at tiles
    have before : plus a m = f := row_adjacent tiles
    have after : plus f n = s := row_adjacent (l := A ++ [⟨a, m, true⟩]) (by simpa using tiles)
    ext x
    simp only [rowUnits_append, rowUnits_cons, rowUnits_held, Set.mem_union, Set.mem_ofPred_eq]
    simp only [plus, sizeofHeader] at before after ⊢
    have parts : (a ≤ x ∧ x < a + (m + (n + k)) * 16) ↔
        (a ≤ x ∧ x < a + m * 16) ∨ (s ≤ x ∧ x < s + k * 16) ∨ (f ≤ x ∧ x < f + n * 16) := by omega
    simp only [rowUnits, List.not_mem_nil, false_and, exists_false, Set.ofPred_false, Set.mem_empty_iff_false]
    tauto

/-- After a release the free blocks begin where free blocks began, or at the block. -/
theorem released_starts (released : Released f n A B row) (member : a ∈ freeStarts row) :
    a ∈ freeStarts A ++ freeStarts B ∨ a = f := by
  cases released <;> simp at member ⊢ <;> tauto

/-! ## Releasing -/

theorem live_fresh (list : FreeList h nodes) (live : LiveBlock h nodes f) : f ∉ nodes := by
  intro member
  have block := live.positive
  have units := list.positive f member
  have apart := live.disjoint f member
  simp only [plus, sizeofHeader] at apart
  omega

/-- Away from the one bad position the list is restored. -/
theorem restores_of_apart (list : FreeList h nodes) (live : LiveBlock h nodes f)
    (attached : ¬JoinsOnlyBlock h (plus f 1) (h.size f)) : Restores h nodes f := by
  obtain ⟨A, B, h₂, layout, listed, next, base, freeNode, headerBlocks, size⟩ := freeList_row list live
  have agrees : Agrees h h₂ nodes f := ⟨next, base, freeNode, headerBlocks, size⟩
  obtain ⟨h₂', row, freed, released, linked⟩ := free_spec layout
  have layout' : Layout h₂' row := by
    refine linked fun joins => attached ?_
    unfold JoinsOnlyBlock at joins ⊢
    rwa [next, freeNode] at joins
  obtain ⟨h', found, agrees'⟩ := free_agrees agrees list.ring list.node (live_fresh list live) freed
  have within : ∀ a ∈ freeStarts row, a ∈ nodes ∨ a = f := fun a member => listed ▸ released_starts released member
  have whole : freeStarts (A ++ ⟨f, h.size f, false⟩ :: B) = nodes := by simp [listed]
  refine ⟨h', freeStarts row, found, freeList_agrees (layout_freeList layout') agrees' within, ?_⟩
  calc freeUnits h' (freeStarts row) = freeUnits h₂' (freeStarts row) := freeUnits_agrees agrees' within
    _ = rowUnits row := freeUnits_row layout'
    _ = rowUnits (A ++ ⟨f, h.size f, false⟩ :: B) ∪ blockUnits h f := released_units layout.tiles released
    _ = freeUnits h₂ nodes ∪ blockUnits h f := by rw [← freeUnits_row layout, whole]
    _ = freeUnits h nodes ∪ blockUnits h f := by rw [freeUnits_agrees agrees fun a member => .inl member]

/-- A block that ends where the only free block begins is linked before it. -/
theorem free_joins (live : LiveBlock h nodes f)
    (joins : JoinsOnlyBlock h (plus f 1) (h.size f)) : free h (plus f 1) = some (link h f h.freeNode) := by
  have back : plus f 1 - sizeofHeader = f := by simp [plus, sizeofHeader]
  obtain ⟨alone, ends⟩ := joins
  rw [back] at ends
  have units := live.positive
  have below : f < h.freeNode := by
    simp only [plus, sizeofHeader] at ends
    omega
  have aligned : ¬(plus f 1 = 0 ∨ ((plus f 1 : Nat) - sizeofHeader - h.base : Int) % sizeofHeader ≠ 0) := by
    obtain ⟨n, first⟩ := live.aligned
    simp only [plus, sizeofHeader] at first ⊢
    omega
  have inside : ¬(f < h.base ∨ f ≥ plus h.base (h.headerBlocks * sizeofHeader)) := by
    have within := live.inside
    simp only [plus, sizeofHeader] at within ⊢
    omega
  have found : search h f (h.headerBlocks + 1) h.freeNode = some (.outside h.freeNode) := by
    rw [search, alone, if_neg (by omega), if_neg (by omega), if_pos (by omega)]
  rw [free, if_neg aligned]
  simp only [back]
  rw [if_neg inside, found]

/-- In that position the absorbed header stays on the list. -/
theorem joins_not_restores (list : FreeList h nodes) (live : LiveBlock h nodes f)
    (joins : JoinsOnlyBlock h (plus f 1) (h.size f)) : ¬Restores h nodes f := by
  rintro ⟨h', nodes', freed, after, -⟩
  rw [free_joins live joins] at freed
  have back : plus f 1 - sizeofHeader = f := by simp [plus, sizeofHeader]
  obtain ⟨alone, ends⟩ := joins
  rw [back] at ends
  have units := live.positive
  have room := (list.inside h.freeNode list.node).2
  have low := live.inside.1
  have narrow := list.narrow
  have other : h.freeNode ≠ f := by
    simp only [plus, sizeofHeader] at ends
    omega
  have apart : plus h.freeNode (h.size h.freeNode) ≠ f := by
    simp only [plus, sizeofHeader] at ends ⊢
    omega
  have above : h.freeNode ∈ nodes' := by
    have node := after.node
    rwa [← Option.some.inj freed] at node
  have linked : h'.next h.freeNode = f := by
    rw [← Option.some.inj freed, next_link other, if_pos rfl, if_neg apart]
  have sized : h'.size f = h.size f + h.size h.freeNode := by
    rw [← Option.some.inj freed, size_link other, if_neg other.symm, if_pos rfl, sizeAfter, alone, if_pos ends]
    refine Nat.mod_eq_of_lt ?_
    simp only [plus, sizeofHeader] at ends room
    omega
  have below : f ∈ nodes' := linked ▸ threaded_closed after.ring above
  have disjoint : plus f (h'.size f) < h.freeNode ∨ plus h.freeNode (h'.size h.freeNode) < f := by
    obtain ⟨before, later, split⟩ := List.append_of_mem below
    have parted := after.parted
    rw [split] at parted above
    obtain ⟨-, right, across⟩ := List.pairwise_append.mp parted
    rcases List.mem_append.mp above with earlier | here
    · exact .inr (across _ earlier f (by simp))
    · rcases List.mem_cons.mp here with same | behind
      · exact absurd same other
      · exact .inl ((List.pairwise_cons.mp right).1 _ behind)
  rw [sized] at disjoint
  simp only [plus, sizeofHeader] at disjoint ends
  omega

/-- **Freeing restores the free list** unless the list is one node and the block
ends where that node begins. -/
theorem free_restores_iff (list : FreeList h nodes) (live : LiveBlock h nodes f) :
    Restores h nodes f ↔ ¬JoinsOnlyBlock h (plus f 1) (h.size f) :=
  ⟨fun restores joins => joins_not_restores list live joins restores, restores_of_apart list live⟩

/-- The kernel's heap after its first request, for 16 bytes. -/
def oneTaken : Heap := (take kernelHeap.heap 2 0x600000 0x600000).1

theorem oneTaken_freeList : FreeList oneTaken [0x600000] where
  ring := threaded_singleton.mpr (by decide)
  node := by decide
  parted := List.pairwise_singleton _ _
  positive := by decide
  inside := by decide
  aligned := by simpa using ⟨0, rfl⟩
  narrow := by decide

theorem oneTaken_liveBlock : LiveBlock oneTaken [0x600000] 0x6ffff0 where
  positive := by decide
  inside := by decide
  aligned := ⟨0xffff, rfl⟩
  disjoint := by decide

theorem free_restores_iff_kernel :
    Restores oneTaken [0x600000] 0x6ffff0 ↔ ¬JoinsOnlyBlock oneTaken (plus 0x6ffff0 1) (oneTaken.size 0x6ffff0) :=
  free_restores_iff oneTaken_freeList oneTaken_liveBlock

/-- Two small blocks, the upper one given back, and all of the lower free block
taken: the other small block ends where the only free block begins. -/
theorem lone_block_absorbed : ∃ s held nodes, Run (fun _ _ => True) kernelHeap s ∧ held ∈ s.live ∧
    FreeList s.heap nodes ∧ LiveBlock s.heap nodes (held.pointer - sizeofHeader) ∧
    ¬Restores s.heap nodes (held.pointer - sizeofHeader) := by
  have run : Run (fun _ _ => True) kernelHeap _ :=
    .tail (.tail (.tail (.tail .refl ⟨.malloc 16, trivial, rfl⟩) ⟨.malloc 16, trivial, rfl⟩)
      ⟨.free ⟨0x700000, 2⟩, trivial, rfl⟩) ⟨.malloc 0xfffc0, trivial, rfl⟩
  obtain ⟨s, run, held, self, node, upper, lower, low, units⟩ : ∃ s, Run (fun _ _ => True) kernelHeap s ∧
      ⟨0x6fffe0, 2⟩ ∈ s.live ∧ s.heap.next 0x6ffff0 = 0x6ffff0 ∧ s.heap.freeNode = 0x6ffff0 ∧
      s.heap.size 0x6ffff0 = 2 ∧ s.heap.size 0x6fffd0 = 2 ∧ s.heap.base = 0x600000 ∧ s.heap.headerBlocks = 0x10001 :=
    ⟨_, run, by decide⟩
  have list : FreeList s.heap [0x6ffff0] := {
    ring := threaded_singleton.mpr self
    node := by simp [node]
    parted := List.pairwise_singleton _ _
    positive := by simp [upper]
    inside := by simp [upper, low, units, plus, sizeofHeader]
    aligned := by simpa [low] using ⟨0xffff, rfl⟩
    narrow := by simp [units] }
  have live : LiveBlock s.heap [0x6ffff0] 0x6fffd0 := {
    positive := by simp [lower]
    inside := by simp [lower, low, units, plus, sizeofHeader]
    aligned := ⟨0xfffd, by simp [low, plus, sizeofHeader]⟩
    disjoint := by simp [lower, plus, sizeofHeader] }
  have joins : JoinsOnlyBlock s.heap (plus 0x6fffd0 1) (s.heap.size 0x6fffd0) := by
    simp [JoinsOnlyBlock, node, self, lower, plus, sizeofHeader]
  exact ⟨s, _, [0x6ffff0], run, held, list, live, joins_not_restores list live joins⟩

end QuesOs.StandardMalloc
