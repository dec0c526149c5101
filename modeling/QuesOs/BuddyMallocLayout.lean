import QuesOs.BuddyMallocLists
import QuesOs.DyadicTiling
import Mathlib.Tactic.Tauto

/-! The shape of the BUDDY heap. The free blocks, those the client holds and
those in the hand of the running operation tile the region; every header
tells the order of its block, every free block is on the list of its order and
nowhere else, and no two free blocks could be merged. The lemmas are the
single steps the operations are made of. -/
namespace QuesOs.BuddyMalloc
open LinkedRing DyadicTiling Memory

/-- The block of order `order` at `offset`. -/
@[match_pattern] def block (offset order : Nat) : Piece := ⟨offset, minAllocLog2 + order⟩

@[simp] theorem block_inj : block a j = block b k ↔ a = b ∧ j = k := by simp [block]

theorem buddy_block : (block o k).buddy = block (o ^^^ 2 ^ (minAllocLog2 + k)) k := rfl

/-- The blocks on the first `count` lists. -/
def freePieces (count : Nat) (listed : Nat → List Nat) : Set Piece :=
  {p | ∃ order offset, order < count ∧ offset ∈ listed order ∧ p = block offset order}

/-- All blocks: the free ones and the taken ones. -/
def whole (count : Nat) (listed : Nat → List Nat) (taken : List Piece) : Set Piece :=
  freePieces count listed ∪ {p | p ∈ taken}

@[simp] theorem mem_freePieces : block o k ∈ freePieces count listed ↔ k < count ∧ o ∈ listed k := by
  constructor
  · rintro ⟨order, offset, small, inside, same⟩
    obtain ⟨rfl, rfl⟩ := block_inj.mp same
    exact ⟨small, inside⟩
  · exact fun here => ⟨k, o, here.1, here.2, rfl⟩

structure Layout (m : Memory) (count : Nat) (listed : Nat → List Nat) (hand held : List Piece) : Prop where
  few : count ≤ maxBlockCount
  lists : ∀ k < count, Listed m (.orders k) ((listed k).map .heap)
  beyond : (m (.orders count)).prev = .null ∧ (m (.orders count)).next = .null
  tiles : Tiling (count + 3) (whole count listed (hand ++ held))
  header : ∀ p ∈ whole count listed (hand ++ held), p.exponent = minAllocLog2 + (m (.heap p.offset)).order
  roomy : ∀ p ∈ whole count listed (hand ++ held), 5 ≤ p.exponent
  flagged : ∀ p ∈ freePieces count listed, (m (.heap p.offset)).free = 1
  inUse : ∀ p ∈ held, (m (.heap p.offset)).free = 0
  once : (hand ++ held).Nodup
  apart : ∀ p ∈ hand ++ held, p ∉ freePieces count listed
  settled : ∀ p ∈ freePieces count listed, p.exponent < count + 3 → p.buddy ∉ freePieces count listed

namespace Layout

theorem same (layout : Layout m count listed hand held) (first : p ∈ whole count listed (hand ++ held))
    (second : q ∈ whole count listed (hand ++ held)) (offset : p.offset = q.offset) : p = q :=
  layout.tiles.begins_unique first second offset

theorem order_eq (layout : Layout m count listed hand held) (member : block o k ∈ whole count listed (hand ++ held)) :
    (m (.heap o)).order = k := by
  simpa [block] using (layout.header _ member).symm

theorem order_lt (layout : Layout m count listed hand held) (member : block o k ∈ whole count listed (hand ++ held)) :
    k < count := by
  have top := layout.tiles.exponent_le member
  simp only [block, minAllocLog2] at top
  omega

/-- No node is on two lists. -/
theorem lists_apart (layout : Layout m count listed hand held) (j_lt : j < count) (k_lt : k < count)
    (other : j ≠ k) (member : p ∈ Ptr.orders j :: (listed j).map .heap) :
    p ∉ Ptr.orders k :: (listed k).map .heap := by
  simp only [List.mem_cons, List.mem_map] at member ⊢
  rintro (rfl | ⟨o, inside, rfl⟩)
  · simp_all
  · obtain ⟨o', inside', same⟩ : ∃ o', o' ∈ listed j ∧ Ptr.heap o' = Ptr.heap o := by simpa using member
    obtain rfl := Ptr.heap.inj same
    have equal := layout.same (.inl (mem_freePieces.mpr ⟨j_lt, inside'⟩))
      (.inl (mem_freePieces.mpr ⟨k_lt, inside⟩)) rfl
    exact other (block_inj.mp equal).2

/-- A node that begins no free block is on no list. -/
theorem not_listed (layout : Layout m count listed hand held) (member : p ∈ hand ++ held) (k_lt : k < count) :
    Ptr.heap p.offset ∉ Ptr.orders k :: (listed k).map .heap := by
  intro inside
  obtain ⟨o, here, same⟩ : ∃ o, o ∈ listed k ∧ Ptr.heap o = Ptr.heap p.offset := by simpa using inside
  have listedHere := mem_freePieces.mpr ⟨k_lt, here⟩
  have equal := layout.same (.inr member) (.inl listedHere) (Ptr.heap.inj same).symm
  exact layout.apart p member (equal ▸ listedHere)

theorem free_nodup (layout : Layout m count listed hand held) (k_lt : k < count) : (listed k).Nodup :=
  (List.nodup_cons.mp (layout.lists k k_lt).nodup).2.of_map

/-- Blocks pass between the hand and the client without a change of the heap. -/
theorem retake (layout : Layout m count listed hand held) (both : (hand ++ held).Perm (hand' ++ held'))
    (used : ∀ p ∈ held', (m (.heap p.offset)).free = 0) : Layout m count listed hand' held' := by
  have equal : whole count listed (hand ++ held) = whole count listed (hand' ++ held') := by
    ext p
    simp only [whole, Set.mem_union, Set.mem_ofPred_eq, both.mem_iff]
  exact {
    few := layout.few
    lists := layout.lists
    beyond := layout.beyond
    tiles := equal ▸ layout.tiles
    header := equal ▸ layout.header
    roomy := equal ▸ layout.roomy
    flagged := layout.flagged
    inUse := used
    once := both.nodup_iff.mp layout.once
    apart := fun p member => layout.apart p (both.mem_iff.mpr member)
    settled := layout.settled }

/-- The order of the hand does not matter. -/
theorem perm (layout : Layout m count listed hand held) (same : hand.Perm hand') :
    Layout m count listed hand' held :=
  layout.retake (same.append_right held) layout.inUse

/-- Handing the block in hand to the client. -/
theorem keep (layout : Layout m count listed (p :: hand) held) (used : (m (.heap p.offset)).free = 0) :
    Layout m count listed hand (p :: held) :=
  layout.retake (by simpa using List.perm_middle.symm) (List.forall_mem_cons.mpr ⟨used, layout.inUse⟩)

/-- Taking a block back from the client. -/
theorem takeBack (layout : Layout m count listed hand held) (taken : held.Perm (p :: rest)) :
    Layout m count listed (p :: hand) rest := by
  refine layout.retake ((taken.append_left hand).trans List.perm_middle) fun q member => ?_
  exact layout.inUse q (taken.mem_iff.mpr (List.mem_cons_of_mem _ member))

/-- The flag of a block in hand may be anything. -/
theorem flag (layout : Layout m count listed (p :: hand) held) (value : Nat) :
    Layout (setFree m (.heap p.offset) value) count listed (p :: hand) held where
  few := layout.few
  lists := fun k small => listed_setFree (layout.lists k small)
  beyond := by simpa using layout.beyond
  tiles := layout.tiles
  header := by simpa using layout.header
  roomy := layout.roomy
  flagged := by
    intro q free
    have other : q.offset ≠ p.offset := by
      intro same
      have equal := layout.same (.inl free) (.inr (by simp)) same
      exact layout.apart p (by simp) (equal ▸ free)
    simpa [other] using layout.flagged q free
  inUse := by
    intro q used
    have other : q.offset ≠ p.offset := by
      intro same
      have equal := layout.same (.inr (List.mem_append_right _ used)) (.inr (by simp)) same
      have := layout.once
      rw [List.cons_append, List.nodup_cons] at this
      exact this.1 (List.mem_append_right _ (equal ▸ used))
    simpa [other] using layout.inUse q used
  once := layout.once
  apart := layout.apart
  settled := layout.settled

/-- A write inside a held block, after its beginning, reaches no header. -/
theorem write (layout : Layout m count listed hand held) (member : p ∈ held) (above : p.offset < x)
    (below : x < p.offset + 2 ^ p.exponent) (value : ListT) :
    Layout (Function.update m (.heap x) value) count listed hand held := by
  have inside : p ∈ whole count listed (hand ++ held) := .inr (List.mem_append_right _ member)
  have elsewhere : ∀ q ∈ whole count listed (hand ++ held), Ptr.heap q.offset ≠ Ptr.heap x := by
    intro q other same
    exact layout.tiles.inside_not_begin inside other above below (Ptr.heap.inj same).symm
  have header : ∀ q ∈ whole count listed (hand ++ held),
      Function.update m (.heap x) value (.heap q.offset) = m (.heap q.offset) :=
    fun q other => Function.update_of_ne (elsewhere q other) ..
  exact {
    few := layout.few
    lists := by
      intro k k_lt
      refine listed_agree (layout.lists k k_lt) fun q onList => ?_
      have other : q ≠ Ptr.heap x := by
        rintro rfl
        obtain ⟨o, here, same⟩ : ∃ o, o ∈ listed k ∧ Ptr.heap o = Ptr.heap x := by simpa using onList
        exact elsewhere (block o k) (.inl (mem_freePieces.mpr ⟨k_lt, here⟩)) same
      rw [Function.update_of_ne other]
      exact ⟨rfl, rfl⟩
    beyond := by simpa using layout.beyond
    tiles := layout.tiles
    header := fun q other => by
      rw [header q other]
      exact layout.header q other
    roomy := layout.roomy
    flagged := fun q free => by
      rw [header q (.inl free)]
      exact layout.flagged q free
    inUse := fun q used => by
      rw [header q (.inr (List.mem_append_right _ used))]
      exact layout.inUse q used
    once := layout.once
    apart := layout.apart
    settled := layout.settled }

end Layout

/-! ## The lists change -/

theorem freePieces_remove (count : Nat) (split : listed k = before ++ o :: after) (nodup : (listed k).Nodup) :
    freePieces count (Function.update listed k (before ++ after)) = freePieces count listed \ {block o k} := by
  have away : o ∉ before ++ after := by
    rw [split] at nodup
    exact (List.nodup_cons.mp (List.perm_middle.nodup_iff.mp nodup)).1
  ext p
  constructor
  · rintro ⟨j, q, small, inside, rfl⟩
    by_cases same : j = k
    · subst same
      rw [Function.update_self] at inside
      refine ⟨mem_freePieces.mpr ⟨small, ?_⟩, ?_⟩
      · rw [split]
        simp only [List.mem_append, List.mem_cons] at inside ⊢
        tauto
      · intro equal
        exact away ((block_inj.mp equal).1 ▸ inside)
    · rw [Function.update_of_ne same] at inside
      exact ⟨mem_freePieces.mpr ⟨small, inside⟩, fun equal => same (block_inj.mp equal).2⟩
  · rintro ⟨⟨j, q, small, inside, rfl⟩, other⟩
    refine mem_freePieces.mpr ⟨small, ?_⟩
    by_cases same : j = k
    · subst same
      rw [Function.update_self]
      rw [split] at inside
      simp only [List.mem_append, List.mem_cons] at inside ⊢
      have : q ≠ o := fun equal => other (equal ▸ rfl)
      tauto
    · rwa [Function.update_of_ne same]

theorem freePieces_push (small : k < count) :
    freePieces count (Function.update listed k (listed k ++ [o])) = insert (block o k) (freePieces count listed) := by
  ext p
  constructor
  · rintro ⟨j, q, j_lt, inside, rfl⟩
    by_cases same : j = k
    · subst same
      rw [Function.update_self, List.mem_append, List.mem_singleton] at inside
      cases inside with
      | inl old => exact .inr (mem_freePieces.mpr ⟨j_lt, old⟩)
      | inr new => exact .inl (new ▸ rfl)
    · rw [Function.update_of_ne same] at inside
      exact .inr (mem_freePieces.mpr ⟨j_lt, inside⟩)
  · rintro (rfl | ⟨j, q, j_lt, inside, rfl⟩)
    · exact mem_freePieces.mpr ⟨small, by simp⟩
    · refine mem_freePieces.mpr ⟨j_lt, ?_⟩
      by_cases same : j = k
      · subst same
        simp [inside]
      · rwa [Function.update_of_ne same]

namespace Layout

/-- Taking a free block off its list. -/
theorem lift (layout : Layout m count listed hand held) (k_lt : k < count) (split : listed k = before ++ o :: after) :
    Layout (removeFromList m (.heap o)) count (Function.update listed k (before ++ after))
    (block o k :: hand) held := by
  have nodup := layout.free_nodup k_lt
  have fewer := freePieces_remove count split nodup
  have here : block o k ∈ freePieces count listed := mem_freePieces.mpr ⟨k_lt, by simp [split]⟩
  have onList := layout.lists k k_lt
  have member : Ptr.heap o ∈ (listed k).map Ptr.heap := by simp [split]
  have equal : whole count (Function.update listed k (before ++ after)) (block o k :: hand ++ held) =
      whole count listed (hand ++ held) := by
    ext p
    simp only [whole, fewer, Set.mem_union, Set.mem_sdiff, Set.mem_singleton_iff, Set.mem_ofPred_eq,
      List.cons_append, List.mem_cons]
    by_cases same : p = block o k
    · simp [same, here]
    · simp [same]
  exact {
    few := layout.few
    lists := by
      intro j j_lt
      by_cases same : j = k
      · subst same
        rw [Function.update_self, List.map_append]
        refine removeFromList_listed ?_
        rw [split, List.map_append, List.map_cons] at onList
        exact onList
      · rw [Function.update_of_ne same]
        refine listed_agree (layout.lists j j_lt) fun p inside => ?_
        rw [removeFromList_elsewhere onList member (layout.lists_apart j_lt k_lt same inside)]
        exact ⟨rfl, rfl⟩
    beyond := by
      rw [removeFromList_elsewhere onList member]
      · exact layout.beyond
      · have : count ≠ k := Nat.ne_of_gt k_lt
        simp [this]
    tiles := equal ▸ layout.tiles
    header := by
      rw [equal]
      simpa using layout.header
    roomy := equal ▸ layout.roomy
    flagged := by
      intro p free
      rw [fewer] at free
      simpa using layout.flagged p free.1
    inUse := by simpa using layout.inUse
    once := by
      rw [List.cons_append, List.nodup_cons]
      exact ⟨fun taken => layout.apart _ taken here, layout.once⟩
    apart := by
      intro p taken
      rw [fewer]
      rw [List.cons_append, List.mem_cons] at taken
      cases taken with
      | inl same => exact fun free => free.2 same
      | inr old => exact fun free => layout.apart p old free.1
    settled := by
      rw [fewer]
      exact fun p free below both => layout.settled p free.1 below both.1 }

/-- Putting the block in hand on its list, when its buddy is not free. -/
theorem put (layout : Layout m count listed (block o k :: hand) held) (flag : (m (.heap o)).free = 1)
    (alone : k + 1 < count → (block o k).buddy ∉ freePieces count listed) :
    Layout (pushToList m (.orders k) (.heap o)) count (Function.update listed k (listed k ++ [o])) hand held := by
  have inHand : block o k ∈ block o k :: hand ++ held := by simp
  have k_lt := layout.order_lt (.inr inHand)
  have more := @freePieces_push _ _ listed o k_lt
  have onList := layout.lists k k_lt
  have fresh := layout.not_listed inHand k_lt
  have equal : whole count (Function.update listed k (listed k ++ [o])) (hand ++ held) =
      whole count listed (block o k :: hand ++ held) := by
    ext p
    simp only [whole, more, Set.mem_union, Set.mem_insert_iff, Set.mem_ofPred_eq, List.cons_append, List.mem_cons]
    tauto
  have once := layout.once
  rw [List.cons_append, List.nodup_cons] at once
  exact {
    few := layout.few
    lists := by
      intro j j_lt
      by_cases same : j = k
      · subst same
        rw [Function.update_self, List.map_append]
        exact pushToList_listed onList fresh
      · rw [Function.update_of_ne same]
        refine listed_agree (layout.lists j j_lt) fun p inside => ?_
        rw [pushToList_elsewhere onList (layout.lists_apart j_lt k_lt same inside)]
        · exact ⟨rfl, rfl⟩
        · exact fun equal => layout.not_listed inHand j_lt (equal ▸ inside)
    beyond := by
      rw [pushToList_elsewhere onList]
      · exact layout.beyond
      · have : count ≠ k := Nat.ne_of_gt k_lt
        simp [this]
      · simp
    tiles := equal ▸ layout.tiles
    header := by
      rw [equal]
      simpa using layout.header
    roomy := equal ▸ layout.roomy
    flagged := by
      intro p free
      rw [more] at free
      rw [pushToList_free]
      cases free with
      | inl new => exact new ▸ flag
      | inr old => exact layout.flagged p old
    inUse := by simpa using layout.inUse
    once := once.2
    apart := by
      intro p taken
      rw [more]
      rintro (rfl | free)
      · exact once.1 taken
      · exact layout.apart p (List.mem_cons_of_mem _ taken) free
    settled := by
      rw [more]
      have below : ∀ j, (block o j).exponent < count + 3 → j + 1 < count := by
        intro j
        simp only [block, minAllocLog2]
        omega
      rintro p (rfl | free) small (same | both)
      · exact absurd (congrArg Piece.offset same) (DyadicTiling.buddy_ne _)
      · exact alone (below k small) both
      · rw [← same, buddy_buddy] at alone
        refine alone ?_ free
        have := congrArg Piece.exponent same
        simp only [Piece.buddy, block, minAllocLog2] at this
        omega
      · exact layout.settled p free small both }

/-- Halving the block in hand writes the order of both halves. -/
theorem halve (layout : Layout m count listed (block o (k + 1) :: hand) held) (roomy : 1 ≤ k) :
    Layout (setOrder (setOrder m (.heap o) k) (.heap (o + 2 ^ (minAllocLog2 + k))) k) count listed
      (block o k :: block (o + 2 ^ (minAllocLog2 + k)) k :: hand) held := by
  have inHand : block o (k + 1) ∈ block o (k + 1) :: hand ++ held := by simp
  have member : block o (k + 1) ∈ whole count listed (block o (k + 1) :: hand ++ held) := .inr inHand
  have top := layout.tiles.exponent_le member
  have few := layout.few
  have notFree := layout.apart _ inHand
  have once := layout.once
  rw [List.cons_append, List.nodup_cons] at once
  have byte : k % 2 ^ 8 = k := by
    simp only [block, minAllocLog2, maxBlockCount, maxAllocLog2] at top few
    omega
  have room : 0 < 2 ^ (minAllocLog2 + k) := Nat.pow_pos (by decide)
  have equal : whole count listed (block o k :: block (o + 2 ^ (minAllocLog2 + k)) k :: hand ++ held) =
      insert (block o k) (insert (block (o + 2 ^ (minAllocLog2 + k)) k)
        (whole count listed (block o (k + 1) :: hand ++ held) \ {block o (k + 1)})) := by
    ext p
    simp only [whole, Set.mem_union, Set.mem_insert_iff, Set.mem_sdiff, Set.mem_singleton_iff, Set.mem_ofPred_eq,
      List.cons_append, List.mem_cons]
    by_cases same : p = block o (k + 1)
    · subst same
      simp [notFree, once.1]
    · simp only [same]
      tauto
  -- No other block begins where one of the halves does.
  have lower : ∀ p ∈ whole count listed (block o (k + 1) :: hand ++ held), p ≠ block o (k + 1) → p.offset ≠ o :=
    fun p inside other same => other (layout.same inside member same)
  have upper : ∀ p ∈ whole count listed (block o (k + 1) :: hand ++ held), p.offset ≠ o + 2 ^ (minAllocLog2 + k) := by
    intro p inside same
    refine layout.tiles.inside_not_begin member inside ?_ ?_ same.symm
    · simp only [block]
      omega
    · simp only [block, ← Nat.add_assoc, pow_succ]
      omega
  have taken : ∀ p ∈ hand ++ held, p.offset ≠ o := fun p inside =>
    lower p (.inr (List.mem_cons_of_mem _ inside)) fun same => once.1 (same ▸ inside)
  have taken' : ∀ p ∈ hand ++ held, p.offset ≠ o + 2 ^ (minAllocLog2 + k) := fun p inside =>
    upper p (.inr (List.mem_cons_of_mem _ inside))
  exact {
    few := layout.few
    lists := fun j small => listed_setOrder (listed_setOrder (layout.lists j small))
    beyond := by simpa using layout.beyond
    tiles := by
      rw [equal]
      exact layout.tiles.split member (by simp [block, minAllocLog2])
    header := by
      rw [equal]
      rintro p (rfl | rfl | ⟨old, other⟩)
      · have : o ≠ o + 2 ^ (minAllocLog2 + k) := by omega
        simp only [block, order_setOrder, Ptr.heap.injEq, this, if_true, if_false, byte]
      · simp only [block, order_setOrder, if_true, byte]
      · have first := lower p old other
        have second := upper p old
        simpa [first, second] using layout.header p old
    roomy := by
      rw [equal]
      rintro p (rfl | rfl | ⟨old, -⟩)
      · simp only [block, minAllocLog2]
        omega
      · simp only [block, minAllocLog2]
        omega
      · exact layout.roomy p old
    flagged := by simpa using layout.flagged
    inUse := by simpa using layout.inUse
    once := by
      simp only [List.cons_append, List.nodup_cons, List.mem_cons, not_or]
      refine ⟨⟨?_, fun inside => taken _ inside rfl⟩, fun inside => taken' _ inside rfl, once.2⟩
      intro same
      have := congrArg Piece.offset same
      simp only [block] at this
      omega
    apart := by
      intro p inside free
      simp only [List.cons_append, List.mem_cons] at inside
      rcases inside with rfl | rfl | old
      · have same := layout.same (.inl free) member rfl
        exact notFree (same ▸ free)
      · exact upper _ (.inl free) rfl
      · exact layout.apart p (List.mem_cons_of_mem _ old) free
    settled := layout.settled }

/-- Joining the two buddies in hand writes the order of the lower one. -/
theorem join (layout : Layout m count listed (block o k :: (block o k).buddy :: hand) held) :
    Layout (setOrder m (.heap (min o (block o k).buddy.offset)) (k + 1)) count listed
      (block (min o (block o k).buddy.offset) (k + 1) :: hand) held := by
  have once := layout.once
  simp only [List.cons_append, List.nodup_cons, List.mem_cons, not_or] at once
  have first : block o k ∈ whole count listed (block o k :: (block o k).buddy :: hand ++ held) := .inr (by simp)
  have second : (block o k).buddy ∈ whole count listed (block o k :: (block o k).buddy :: hand ++ held) :=
    .inr (by simp)
  obtain ⟨parent, lower, tiles⟩ := layout.tiles.join first second
  rw [show min o (block o k).buddy.offset = parent from lower.symm]
  have longer : ∀ x, ¬block x k = block parent (k + 1) := by simp
  have notFree := layout.apart (block o k) (by simp)
  have notFree' := layout.apart (block o k).buddy (by simp)
  have equal : whole count listed (block parent (k + 1) :: hand ++ held) =
      insert (block parent (k + 1))
        (whole count listed (block o k :: (block o k).buddy :: hand ++ held) \ {block o k, (block o k).buddy}) := by
    ext p
    simp only [whole, Set.mem_union, Set.mem_insert_iff, Set.mem_sdiff, Set.mem_singleton_iff, Set.mem_ofPred_eq,
      List.cons_append, List.mem_cons]
    by_cases same : p = block o k
    · subst same
      simp [notFree, once.1, longer]
    · by_cases same' : p = (block o k).buddy
      · subst same'
        simp [notFree', once.2]
      · simp only [same, same']
        tauto
  have top := (equal ▸ tiles).exponent_le (.inr (show block parent (k + 1) ∈ _ by simp))
  have few := layout.few
  have byte : (k + 1) % 2 ^ 8 = k + 1 := by
    simp only [block, minAllocLog2, maxBlockCount, maxAllocLog2] at top few
    omega
  -- The parent begins where one of the two did, so no other block does.
  have begins : ∀ p ∈ whole count listed (block o k :: (block o k).buddy :: hand ++ held),
      p ≠ block o k → p ≠ (block o k).buddy → p.offset ≠ parent := by
    intro p inside other other' same
    rcases min_choice (block o k).offset (block o k).buddy.offset with here | here
    · exact other (layout.same inside first (by rw [same, lower, here]))
    · exact other' (layout.same inside second (by rw [same, lower, here]))
  have taken : ∀ p ∈ hand ++ held, p.offset ≠ parent := by
    intro p inside
    refine begins p (.inr (List.mem_cons_of_mem _ (List.mem_cons_of_mem _ inside))) ?_ ?_
    · rintro rfl
      exact once.1.2 inside
    · rintro rfl
      exact once.2.1 inside
  exact {
    few := layout.few
    lists := fun j small => listed_setOrder (layout.lists j small)
    beyond := by simpa using layout.beyond
    tiles := equal ▸ tiles
    header := by
      rw [equal]
      rintro p (rfl | ⟨old, other⟩)
      · simp only [block, order_setOrder, if_true, byte]
      · simp only [Set.mem_insert_iff, Set.mem_singleton_iff, not_or] at other
        have away := begins p old other.1 other.2
        simpa [away] using layout.header p old
    roomy := by
      rw [equal]
      rintro p (rfl | ⟨old, -⟩)
      · exact Nat.le_succ_of_le (layout.roomy _ first)
      · exact layout.roomy p old
    flagged := by simpa using layout.flagged
    inUse := by simpa using layout.inUse
    once := by
      rw [List.cons_append, List.nodup_cons]
      exact ⟨fun inside => taken _ inside rfl, once.2.2⟩
    apart := by
      intro p inside free
      rw [List.cons_append, List.mem_cons] at inside
      cases inside with
      | inl same =>
        subst same
        rcases min_choice (block o k).offset (block o k).buddy.offset with here | here
        · have same := layout.same (.inl free) first (by rw [block, lower, here])
          exact notFree (same ▸ free)
        · have same := layout.same (.inl free) second (by rw [block, lower, here])
          exact notFree' (same ▸ free)
      | inr old => exact layout.apart p (List.mem_cons_of_mem _ (List.mem_cons_of_mem _ old)) free
    settled := layout.settled }

end Layout

end QuesOs.BuddyMalloc
