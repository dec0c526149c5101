import QuesOs.StandardMallocFreeList

/-! `free` of an address that is not a live block. Misaligned addresses, those
outside a range sixteen times too long, nodes of the list and what overlaps a
lower neighbour or reaches past an upper one are turned away. An address
beyond the highest or below the lowest free block is not compared with
anything: that is where a second `free` of a joined block arrives. -/
namespace QuesOs.StandardMalloc
open LinkedRing BlockRow Heap

/-- On the free list: met on the way from `free_node`. -/
def Listed (h : Heap) (x : Nat) : Prop := ∃ k, h.next^[k] h.freeNode = x

/-- The free list and `free_node` are as before. -/
def Unmoved (h h' : Heap) : Prop :=
  h'.freeNode = h.freeNode ∧ ∀ x, Listed h x → h'.next x = h.next x ∧ h'.size x = h.size x

/-- The tests before the search. -/
def Excluded (h : Heap) (memory : Nat) : Prop :=
  (memory = 0 ∨ ((memory : Int) - sizeofHeader - h.base) % sizeofHeader ≠ 0) ∨
    memory - sizeofHeader < h.base ∨ memory - sizeofHeader ≥ plus h.base (h.headerBlocks * sizeofHeader)

/-- Between two nodes, with the lower block reaching into it or its own size past the upper one. -/
def Overlaps (h : Heap) (f : Nat) : Prop :=
  ∃ x, Listed h x ∧ x < f ∧ f < h.next x ∧ (plus x (h.size x) > f ∨ plus f (h.size f) > h.next x)

/-- Right behind the block of `free_node`, with no other node in between and a size of 0: there is
nothing to join. -/
def Idle (h : Heap) (f : Nat) : Prop :=
  f = plus h.freeNode (h.size h.freeNode) ∧ h.size f = 0 ∧ (f < h.next h.freeNode ∨ h.next h.freeNode ≤ h.freeNode)

/-- Where `free` leaves the list alone. -/
def Refused (h : Heap) (memory : Nat) : Prop :=
  Excluded h memory ∨ Listed h (memory - sizeofHeader) ∨ Overlaps h (memory - sizeofHeader) ∨
    Idle h (memory - sizeofHeader)

/-! ## Order on the ring -/

theorem listed_iff (list : FreeList h nodes) : Listed h x ↔ x ∈ nodes :=
  (mem_orbit list.ring list.node).symm

/-- The node after a node is the next higher one, or the lowest one after the highest. -/
theorem ring_order {h : Heap} (ring : Threaded h.next nodes) (ascending : nodes.Pairwise (· < ·)) (node : x ∈ nodes) :
    (x < h.next x ∧ ∀ y ∈ nodes, y ≤ x ∨ h.next x ≤ y) ∨ (h.next x ≤ x ∧ ∀ y ∈ nodes, h.next x ≤ y ∧ y ≤ x) := by
  obtain ⟨before, after, rfl⟩ := List.append_of_mem node
  obtain ⟨left, right, across⟩ := List.pairwise_append.mp ascending
  obtain ⟨above, right⟩ := List.pairwise_cons.mp right
  cases after with
  | cons y after =>
    left
    have link := threaded_link ring
    refine ⟨link ▸ above y (by simp), fun z member => ?_⟩
    rw [link]
    rcases List.mem_append.mp member with low | high
    · exact .inl (Nat.le_of_lt (across z low x (by simp)))
    · rcases List.mem_cons.mp high with rfl | high
      · exact .inl (Nat.le_refl _)
      · rcases List.mem_cons.mp high with rfl | high
        · exact .inr (Nat.le_refl _)
        · exact .inr (Nat.le_of_lt ((List.pairwise_cons.mp right).1 z high))
  | nil =>
    right
    cases before with
    | nil =>
      have self := threaded_singleton.mp ring
      simp [self]
    | cons y before =>
      have wrap := threaded_close ring
      rw [wrap]
      refine ⟨Nat.le_of_lt (across y (by simp) x (by simp)), fun z member => ?_⟩
      rcases List.mem_append.mp member with low | here
      · refine ⟨?_, Nat.le_of_lt (across z low x (by simp))⟩
        rcases List.mem_cons.mp low with rfl | later
        · exact Nat.le_refl _
        · exact Nat.le_of_lt ((List.pairwise_cons.mp left).1 z later)
      · obtain rfl := List.mem_singleton.mp here
        exact ⟨Nat.le_of_lt (across y (by simp) z (by simp)), Nat.le_refl _⟩

/-! ## Where the search ends -/

/-- What the answer of the search tells about the address. -/
def Located (h : Heap) (nodes : List Nat) (f : Nat) : Position → Prop
  | .listed => f ∈ nodes
  | .between cur => cur ∈ nodes ∧ cur < f ∧ f < h.next cur
  | .outside cur => cur ∈ nodes ∧ h.next cur ≤ cur ∧ (cur < f ∨ f < h.next cur)

theorem search_located {h : Heap} (ring : Threaded h.next nodes) (node : x ∈ nodes)
    (found : search h f steps x = some position) : Located h nodes f position := by
  induction steps generalizing x with
  | zero => cases found
  | succ steps ih =>
    rw [search] at found
    split at found
    · next between =>
      cases found
      exact ⟨node, between⟩
    · split at found
      · next here =>
        cases found
        rcases here with rfl | rfl
        · exact node
        · exact threaded_closed ring node
      · split at found
        · next outside =>
          cases found
          exact ⟨node, outside⟩
        · exact ih (threaded_closed ring node) found

theorem ascending (list : FreeList h nodes) : nodes.Pairwise (· < ·) := by
  refine list.parted.imp fun room => ?_
  simp only [plus, sizeofHeader] at room
  omega

/-- Blocks with room between them are no more than the units of the region. -/
theorem nodes_fit {h : Heap} {nodes : List Nat} (parted : nodes.Pairwise fun a b => plus a (h.size a) < b)
    (positive : ∀ a ∈ nodes, 1 ≤ h.size a) (inside : ∀ a ∈ nodes, lo ≤ a ∧ plus a (h.size a) ≤ plus lo units) :
    nodes.length ≤ units := by
  induction nodes generalizing lo units with
  | nil => exact Nat.zero_le _
  | cons a nodes ih =>
    obtain ⟨after, parted⟩ := List.pairwise_cons.mp parted
    have first := inside a (by simp)
    have some := positive a (by simp)
    simp only [plus, sizeofHeader] at first
    have rest := @ih (lo + 16) (units - 1) parted (fun b member => positive b (List.mem_cons_of_mem _ member)) ?_
    · simp only [List.length_cons]
      omega
    · intro b member
      have above := after b member
      have within := inside b (List.mem_cons_of_mem _ member)
      simp only [plus, sizeofHeader] at above within ⊢
      omega

theorem search_answers (list : FreeList h nodes) (f : Nat) :
    ∃ position, search h f (h.headerBlocks + 1) h.freeNode = some position ∧ Located h nodes f position := by
  have fits := nodes_fit list.parted list.positive list.inside
  have ends := search_ends list.ring (ascending list) list.node (Nat.le_succ_of_le fits) f
  obtain ⟨position, found⟩ := Option.ne_none_iff_exists'.mp ends
  exact ⟨position, found, search_located list.ring list.node found⟩

/-- An address between neighbours or off the span is no node. -/
theorem located_apart (list : FreeList h nodes) (located : Located h nodes f position) (linked : position ≠ .listed) :
    f ∉ nodes := by
  intro member
  cases position with
  | listed => exact linked rfl
  | between cur =>
    obtain ⟨node, above, below⟩ := located
    rcases ring_order list.ring (ascending list) node with ⟨-, order⟩ | ⟨wraps, -⟩
    · have := order f member
      omega
    · omega
  | outside cur =>
    obtain ⟨node, wraps, off⟩ := located
    rcases ring_order list.ring (ascending list) node with ⟨climbs, -⟩ | ⟨-, order⟩
    · omega
    · have := order f member
      omega

/-! ## What linking moves -/

/-- Linking behind `cur` moves something, unless there is nothing to join. -/
theorem unmoved_idle (list : FreeList h nodes) (typed : Typed h) (inside : cur ∈ nodes) (fresh : f ∉ nodes)
    (unmoved : Unmoved h (link h f cur)) : h.freeNode = cur ∧ f = plus cur (h.size cur) ∧ h.size f = 0 := by
  have other : cur ≠ f := fun same => fresh (same ▸ inside)
  obtain ⟨node, same⟩ := unmoved
  obtain ⟨next, size⟩ := same cur ((listed_iff list).mpr inside)
  have after := threaded_closed list.ring inside
  rw [next_link other, if_pos rfl] at next
  rw [size_link other, if_pos rfl] at size
  by_cases joins : plus cur (h.size cur) = f
  · rw [if_pos joins] at next size
    have units := list.positive cur inside
    have apart : plus f (h.size f) ≠ h.next cur := by
      intro joined
      rw [linkAfter, if_pos joined] at next
      -- The node after `cur` links to itself, so it is `cur`.
      have self : h.next cur = cur := by
        rcases ring_order list.ring (ascending list) after with ⟨climbs, -⟩ | ⟨-, order⟩
        · omega
        · have := order cur inside
          omega
      simp only [plus, sizeofHeader] at joined joins
      omega
    rw [sizeAfter, if_neg apart] at size
    have narrow := typed cur
    have narrow' := typed f
    exact ⟨node.symm, joins.symm, by omega⟩
  · rw [if_neg joins] at next
    exact absurd (next ▸ after) fresh

/-- With nothing to join the list stays as it is. -/
theorem link_idle (list : FreeList h nodes) (typed : Typed h) (inside : cur ∈ nodes) (fresh : f ∉ nodes)
    (behind : f = plus cur (h.size cur)) (none : h.size f = 0) :
    (∀ x, (link h f cur).size x = h.size x) ∧ ∀ x, x ≠ f → (link h f cur).next x = h.next x := by
  have other : cur ≠ f := fun same => fresh (same ▸ inside)
  have after := threaded_closed list.ring inside
  have apart : plus f (h.size f) ≠ h.next cur := by
    intro joined
    rw [none] at joined
    simp only [plus, Nat.zero_mul, Nat.add_zero] at joined
    exact fresh (joined ▸ after)
  have narrow := typed cur
  refine ⟨fun x => ?_, fun x elsewhere => ?_⟩
  · rw [size_link other, if_pos behind.symm, sizeAfter, if_neg apart, none]
    by_cases here : x = cur
    · rw [if_pos here, here]
      exact Nat.mod_eq_of_lt narrow
    · rw [if_neg here]
      split
      · next block => rw [block, none]
      · rfl
  · rw [next_link other, if_pos behind.symm, linkAfter, if_neg apart, if_neg elsewhere]
    split
    · next here => rw [here]
    · rfl

/-! ## What is refused -/

/-- A refused address changes nothing at all, or is linked where there is nothing to join. -/
theorem free_refused (list : FreeList h nodes) (refused : Refused h memory) :
    free h memory = some h ∨ (Idle h (memory - sizeofHeader) ∧ memory - sizeofHeader ∉ nodes ∧
      free h memory = some (link h (memory - sizeofHeader) h.freeNode)) := by
  obtain ⟨f, block⟩ : ∃ f, f = memory - sizeofHeader := ⟨_, rfl⟩
  unfold free
  by_cases early : memory = 0 ∨ ((memory : Int) - sizeofHeader - h.base) % sizeofHeader ≠ 0
  · exact .inl (if_pos early)
  rw [if_neg early]
  simp only [← block]
  by_cases out : f < h.base ∨ f ≥ plus h.base (h.headerBlocks * sizeofHeader)
  · exact .inl (if_pos out)
  rw [if_neg out]
  obtain ⟨position, found, located⟩ := search_answers list f
  rw [found]
  unfold Refused Excluded at refused
  rw [← block] at refused
  have order := fun {x} => @ring_order nodes x h list.ring (ascending list)
  rcases refused with (early' | out') | member | overlaps | idle
  · exact absurd early' early
  · exact absurd out' out
  · have inside := (listed_iff list).mp member
    cases position with
    | listed => exact .inl rfl
    | between cur => exact absurd inside (located_apart list located (by simp))
    | outside cur => exact absurd inside (located_apart list located (by simp))
  · obtain ⟨x, listed, above, below, reaches⟩ := overlaps
    have inside := (listed_iff list).mp listed
    cases position with
    | listed => exact .inl rfl
    | between cur =>
      obtain ⟨node, beyond, under⟩ := located
      have same : cur = x := by
        rcases order node with ⟨-, neighbours⟩ | ⟨wraps, -⟩
        · rcases order inside with ⟨-, neighbours'⟩ | ⟨wraps, -⟩
          · have := neighbours x inside
            have := neighbours' cur node
            omega
          · omega
        · omega
      subst same
      exact .inl (if_pos reaches)
    | outside cur =>
      obtain ⟨node, wraps, off⟩ := located
      rcases order node with ⟨climbs, -⟩ | ⟨-, span⟩
      · omega
      · have := span x inside
        have := span (h.next x) (threaded_closed list.ring inside)
        omega
  · have behind := idle.1
    have units := list.positive _ list.node
    have past : h.freeNode < f := by
      rw [behind]
      simp only [plus, sizeofHeader]
      omega
    cases position with
    | listed => exact .inl rfl
    | between cur =>
      have fresh := located_apart list located (by simp)
      obtain ⟨node, lower, upper⟩ := located
      have same : cur = h.freeNode := by
        rcases order node with ⟨-, neighbours⟩ | ⟨wraps, -⟩
        · have := neighbours _ list.node
          rcases order list.node with ⟨climbs, neighbours'⟩ | ⟨-, span⟩
          · have := neighbours' cur node
            have := idle.2.2
            omega
          · have := span _ (threaded_closed list.ring node)
            omega
        · omega
      subst same
      have clear : ¬(plus h.freeNode (h.size h.freeNode) > f ∨ plus f (h.size f) > h.next h.freeNode) := by
        rw [← behind, idle.2.1]
        simp only [plus, sizeofHeader]
        omega
      exact .inr ⟨idle, fresh, if_neg clear⟩
    | outside cur =>
      have fresh := located_apart list located (by simp)
      obtain ⟨node, wraps, off⟩ := located
      have same : cur = h.freeNode := by
        rcases order node with ⟨climbs, -⟩ | ⟨-, span⟩
        · omega
        · have := span _ list.node
          rcases order list.node with ⟨climbs, neighbours⟩ | ⟨-, span'⟩
          · have := neighbours cur node
            have := idle.2.2
            omega
          · have := span' cur node
            omega
      subst same
      exact .inr ⟨idle, fresh, rfl⟩

/-- `free` leaves the list alone exactly where the address is refused. -/
theorem free_unmoved_iff (list : FreeList h nodes) (typed : Typed h) :
    (∃ h', free h memory = some h' ∧ Unmoved h h') ↔ Refused h memory := by
  constructor
  · rintro ⟨h', freed, unmoved⟩
    by_contra served
    simp only [Refused, not_or] at served
    obtain ⟨included, unlisted, clear, busy⟩ := served
    obtain ⟨early, out⟩ := not_or.mp included
    obtain ⟨position, found, located⟩ := search_answers list (memory - sizeofHeader)
    have fresh : memory - sizeofHeader ∉ nodes := fun member => unlisted ((listed_iff list).mpr member)
    rw [free, if_neg early] at freed
    dsimp only at freed
    rw [if_neg out, found] at freed
    cases position with
    | listed => exact fresh located
    | between cur =>
      obtain ⟨node, lower, upper⟩ := located
      have apart : ¬(plus cur (h.size cur) > memory - sizeofHeader ∨
          plus (memory - sizeofHeader) (h.size (memory - sizeofHeader)) > h.next cur) :=
        fun reaches => clear ⟨cur, (listed_iff list).mpr node, lower, upper, reaches⟩
      simp only [if_neg apart] at freed
      rw [← Option.some.inj freed] at unmoved
      obtain ⟨same, behind, none⟩ := unmoved_idle list typed node fresh unmoved
      exact busy ⟨same ▸ behind, none, .inl (same ▸ upper)⟩
    | outside cur =>
      obtain ⟨node, wraps, off⟩ := located
      rw [← Option.some.inj freed] at unmoved
      obtain ⟨same, behind, none⟩ := unmoved_idle list typed node fresh unmoved
      exact busy ⟨same ▸ behind, none, .inr (same ▸ wraps)⟩
  · intro refused
    rcases free_refused list refused with unchanged | ⟨idle, fresh, linked⟩
    · exact ⟨h, unchanged, rfl, fun x _ => ⟨rfl, rfl⟩⟩
    · obtain ⟨sizes, links⟩ := link_idle list typed list.node fresh idle.1 idle.2.1
      refine ⟨_, linked, rfl, fun x listed => ⟨links x ?_, sizes x⟩⟩
      rintro rfl
      exact fresh ((listed_iff list).mp listed)

/-! ## Runs -/

/-- A call of the client that the one-node list survives, or `free` of any address that is refused. -/
def CarefulStep (s s' : State) : Prop :=
  (∃ call, (KeepsFreeList s call ∧ TypedCall call) ∧ perform s call = some s') ∨
    ∃ memory h', Refused s.heap memory ∧ free s.heap memory = some h' ∧ s' = ⟨h', s.live⟩

/-- A refused address leaves the row as it is. -/
theorem refused_layout (layout : Layout h row) (typed : Typed h) (refused : Refused h memory)
    (freed : free h memory = some h') : Layout h' row := by
  have list := layout_freeList layout
  rcases free_refused list refused with unchanged | ⟨idle, fresh, linked⟩
  · rw [unchanged] at freed
    exact Option.some.inj freed ▸ layout
  · obtain ⟨sizes, links⟩ := link_idle list typed list.node fresh idle.1 idle.2.1
    rw [linked] at freed
    rw [← Option.some.inj freed]
    refine ⟨?_, fun b inside => (sizes _).trans (layout.sizes b inside), ?_, layout.node, layout.apart, ?_⟩
    · rw [region_link.1, region_link.2]
      exact layout.tiles
    · refine threaded_agree layout.ring fun a listed => links a ?_
      rintro rfl
      exact fresh listed
    · rw [region_link.2]
      exact layout.narrow

theorem careful_good (good : Good s) (typed : Typed s.heap) (step : CarefulStep s s') : Good s' ∧ Typed s'.heap := by
  rcases step with ⟨call, ⟨keeps, typedCall⟩, ran⟩ | ⟨memory, h', refused, freed, rfl⟩
  · exact ⟨perform_good good keeps ran, perform_typed typed typedCall ran⟩
  · obtain ⟨row, layout, held⟩ := good
    exact ⟨⟨row, refused_layout layout typed refused freed, held⟩, free_typed typed freed⟩

theorem careful_run (good : Good s) (typed : Typed s.heap) (run : Relation.ReflTransGen CarefulStep s s') :
    Good s' ∧ Typed s'.heap := by
  induction run with
  | refl => exact ⟨good, typed⟩
  | tail _ step ih => exact careful_good ih.1 ih.2 step

/-- **`free` rejects an address exactly when it is refused**, in every state that such calls lead to. -/
theorem free_rejects_iff (origin : heapBase ≠ 0) (narrow : heapSize < 2 ^ 32) (typed : Typed h)
    (run : Relation.ReflTransGen CarefulStep (start h heapBase heapSize) s) (memory : Nat) :
    (∃ h', free s.heap memory = some h' ∧ Unmoved s.heap h') ↔ Refused s.heap memory := by
  obtain ⟨⟨row, layout, -⟩, typed'⟩ := careful_run (start_good origin narrow) (start_typed typed) run
  exact free_unmoved_iff (layout_freeList layout) typed'

/-- A pointer that was never handed out, half a unit off one that was. -/
theorem free_rejects_iff_kernel : ∃ s, Relation.ReflTransGen CarefulStep kernelHeap s ∧ s.live = [⟨0x6fffa0, 8⟩] ∧
    ((∃ h', free s.heap 0x6fffa8 = some h' ∧ Unmoved s.heap h') ↔ Refused s.heap 0x6fffa8) := by
  have run : Relation.ReflTransGen CarefulStep kernelHeap _ :=
    .single (.inl ⟨.malloc 100, ⟨by decide, trivial⟩, rfl⟩)
  have typed : Typed blank := fun _ => Nat.two_pow_pos 32
  exact ⟨_, run, rfl, free_rejects_iff (by decide) (by decide) typed run 0x6fffa8⟩

/-- A block freed twice in a row is listed inside the free block it was joined with. -/
theorem double_free_listed : ∃ s, Run (fun _ _ => True) kernelHeap s ∧ s.live = [] ∧
    ¬∃ h', free s.heap 0x700000 = some h' ∧ Unmoved s.heap h' := by
  have run : Run (fun _ _ => True) kernelHeap _ :=
    .tail (.tail .refl ⟨.malloc 16, trivial, rfl⟩) ⟨.free ⟨0x700000, 2⟩, trivial, rfl⟩
  obtain ⟨s, run, none, self, moved⟩ : ∃ s, Run (fun _ _ => True) kernelHeap s ∧ s.live = [] ∧
      s.heap.next s.heap.freeNode = s.heap.freeNode ∧
      (free s.heap 0x700000).map (fun h => decide (h.next s.heap.freeNode = s.heap.freeNode)) = some false :=
    ⟨_, run, rfl, rfl, by decide⟩
  refine ⟨s, run, none, ?_⟩
  rintro ⟨h', freed, -, same⟩
  have kept := (same s.heap.freeNode ⟨0, rfl⟩).1.trans self
  rw [freed] at moved
  simp [kept] at moved

end QuesOs.StandardMalloc
