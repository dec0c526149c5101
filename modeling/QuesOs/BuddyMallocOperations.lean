import QuesOs.BuddyMallocLayout

/-! The operations of the BUDDY allocator on a tiled heap. A request lifts a
free block off its list and halves it down to the order that fits; a release
joins the block with its buddy as long as the buddy is free. -/
namespace QuesOs.BuddyMalloc
open LinkedRing DyadicTiling Memory

/-! ## Orders -/

theorem log2Loop_eq (positive : n ≠ 0) (fits : n < 2 ^ steps) (result : Int) :
    log2Loop (steps + 1) n result = result + Nat.log2 n + 1 := by
  induction steps generalizing n result with
  | zero => simp at fits; omega
  | succ steps ih =>
    rw [log2Loop, if_neg positive, Nat.log2_def]
    by_cases one : n / 2 = 0
    · have : ¬2 ≤ n := by omega
      simp [one, this, log2Loop]
    · have : 2 ≤ n := by omega
      rw [ih one (by omega), if_pos this]
      push_cast
      omega

theorem log2_eq (positive : n ≠ 0) (narrow : n < 2 ^ 32) : log2 n = Nat.log2 n := by
  rw [log2, Nat.mod_eq_of_lt narrow, if_neg positive, log2Loop_eq positive narrow]
  omega

/-- The order found, from the place of the highest bit and whether it is the only one. -/
theorem getMinimumFittingOrder_eq (large : 16 ≤ n) (narrow : n < 2 ^ 32) :
    4 ≤ Nat.log2 n ∧ ((n = 2 ^ Nat.log2 n ∧ getMinimumFittingOrder n = Nat.log2 n - 4) ∨
      (2 ^ Nat.log2 n < n ∧ getMinimumFittingOrder n = Nat.log2 n - 4 + 1)) := by
  have positive : n ≠ 0 := by omega
  have least := Nat.log2_self_le positive
  have small : Nat.log2 n < 32 := (Nat.log2_lt positive).mpr narrow
  have enough : 4 ≤ Nat.log2 n := (Nat.le_log2 positive).mpr large
  have minOrder : (log2 n % 2 ^ 64).toNat = Nat.log2 n := by
    have := log2_eq positive narrow
    omega
  have above : ¬Nat.log2 n < minAllocLog2 := by simpa [minAllocLog2] using enough
  refine ⟨enough, ?_⟩
  unfold getMinimumFittingOrder
  rw [minOrder]
  simp only [if_neg above, Nat.and_sub_one_eq_zero_iff_isPowerOfTwo positive]
  split
  · next power =>
    obtain ⟨-, e, rfl⟩ := power
    left
    simp [minAllocLog2]
  · next other =>
    have strict : n ≠ 2 ^ Nat.log2 n := fun same => other ⟨positive, Nat.log2 n, same⟩
    right
    exact ⟨by omega, rfl⟩

/-- The order found holds the request, and no order that is much too large is found. -/
theorem getMinimumFittingOrder_spec (header : sizeofListT < n) (narrow : n < 2 ^ 32) :
    1 ≤ getMinimumFittingOrder n ∧ n ≤ 2 ^ (minAllocLog2 + getMinimumFittingOrder n) ∧
      getMinimumFittingOrder n + 3 ≤ Nat.log2 n := by
  have most : n < 2 ^ (Nat.log2 n + 1) := Nat.lt_log2_self
  simp only [minAllocLog2, sizeofListT] at header ⊢
  obtain ⟨enough, ⟨power, order⟩ | ⟨strict, order⟩⟩ := getMinimumFittingOrder_eq (by omega) (by omega : n < 2 ^ 32)
  · have other : Nat.log2 n ≠ 4 := by
      intro same
      rw [same] at power
      omega
    refine ⟨by omega, ?_, by omega⟩
    rw [order, show 4 + (Nat.log2 n - 4) = Nat.log2 n by omega]
    exact power.le
  · refine ⟨by omega, ?_, by omega⟩
    rw [order, show 4 + (Nat.log2 n - 4 + 1) = Nat.log2 n + 1 by omega]
    exact Nat.le_of_lt most

/-- No lower order holds the request. -/
theorem getMinimumFittingOrder_least (header : sizeofListT < n) (narrow : n < 2 ^ 30)
    (lower : j < getMinimumFittingOrder n) : 2 ^ (minAllocLog2 + j) < n := by
  simp only [minAllocLog2, sizeofListT] at header ⊢
  obtain ⟨enough, ⟨power, order⟩ | ⟨strict, order⟩⟩ := getMinimumFittingOrder_eq (by omega) (by omega : n < 2 ^ 32)
  · have below : 2 ^ (4 + j) < 2 ^ Nat.log2 n := Nat.pow_lt_pow_right (by decide) (by omega)
    omega
  · have below : 2 ^ (4 + j) ≤ 2 ^ Nat.log2 n := Nat.pow_le_pow_right (by decide) (by omega)
    omega

theorem getFreeBlockLoop_spec (steps : Nat) (fits : f ≤ b.currentBlocks) (enough : b.currentBlocks < f + steps) :
    f ≤ getFreeBlockLoop b steps f ∧ getFreeBlockLoop b steps f ≤ b.currentBlocks ∧
      (∀ j, f ≤ j → j < getFreeBlockLoop b steps f → listIsEmpty b.memory (.orders j) = true) ∧
      (getFreeBlockLoop b steps f < b.currentBlocks →
        listIsEmpty b.memory (.orders (getFreeBlockLoop b steps f)) = false) := by
  induction steps generalizing f with
  | zero => omega
  | succ steps ih =>
    rw [getFreeBlockLoop]
    split
    · next here =>
      obtain ⟨above, below, passed, rest⟩ := ih (f := f + 1) (by omega) (by omega)
      refine ⟨by omega, below, fun j least most => ?_, rest⟩
      by_cases first : j = f
      · rw [first]
        exact here.2
      · exact passed j (by omega) most
    · next here =>
      refine ⟨Nat.le_refl _, fits, by omega, fun below => ?_⟩
      simpa [below] using here

/-- The first list that is not empty is found; without one, the order past the last is. -/
theorem getFreeBlock_spec (layout : Layout b.memory b.currentBlocks listed hand held) (fits : k ≤ b.currentBlocks) :
    ∃ f : Nat, getFreeBlock b k = f ∧ k ≤ f ∧ f ≤ b.currentBlocks ∧ (∀ j, k ≤ j → j < f → listed j = []) ∧
      (f < b.currentBlocks → listed f ≠ []) := by
  obtain ⟨above, below, passed, found⟩ := getFreeBlockLoop_spec (b.currentBlocks + 1) fits (by omega)
  refine ⟨_, ?_, above, below, fun j least most => ?_, fun inside none => ?_⟩
  · rw [getFreeBlock, if_neg (by omega)]
  · have empty := (listIsEmpty_iff (layout.lists j (by omega))).mp (passed j least most)
    simpa using empty
  · have := (listIsEmpty_iff (layout.lists _ inside)).mpr (by simp [none])
    simp [found inside] at this

/-! ## `malloc` -/

theorem setOrder_byte : setOrder m p (k + 1 + 2 ^ 8 - 1) = setOrder m p k := by
  unfold setOrder
  rw [show k + 1 + 2 ^ 8 - 1 = k + 2 ^ 8 by omega, Nat.add_mod_right]

/-- The buddy of the lower half is the upper half. -/
theorem upper_offset (layout : Layout m count listed (block o (k + 1) :: hand) held) :
    o ^^^ 2 ^ (minAllocLog2 + k) = o + 2 ^ (minAllocLog2 + k) := by
  have aligned := layout.tiles.aligned (block o (k + 1)) (.inr (by simp))
  exact congrArg Piece.offset (lower_buddy aligned (by simp [block, minAllocLog2]))

/-- One round halves the block in hand and lists the upper half. -/
theorem splitRound_spec (layout : Layout m count listed [block o (k + 1)] held) (roomy : 1 ≤ k) :
    Layout (addNodeToOrder (setOrder m (.heap o) k) (.orders k) (.heap (o + 2 ^ (minAllocLog2 + k))) k) count
      (Function.update listed k (listed k ++ [o + 2 ^ (minAllocLog2 + k)])) [block o k] held := by
  have halves := layout.halve roomy
  have swapped := (halves.perm (List.Perm.swap ..)).flag 1
  refine swapped.put (by simp [block]) fun _ free => ?_
  refine halves.apart (block o k) (by simp) ?_
  have above := upper_offset layout
  rw [buddy_block, ← above, Nat.xor_assoc, Nat.xor_self, Nat.xor_zero] at free
  exact free

/-- The lists after the block at `o` was halved from order `f` down to order
`k`: its upper half on every order passed. -/
def halved (listed : Nat → List Nat) (o k f : Nat) : Nat → List Nat :=
  fun j => if k ≤ j ∧ j < f then listed j ++ [o + 2 ^ (minAllocLog2 + j)] else listed j

/-- Splitting leaves a block of the order asked for in hand. -/
theorem splitLoop_spec (rounds : Nat) (layout : Layout m count listed [block o (k + rounds)] held) (roomy : 1 ≤ k) :
    Layout (splitLoop m o rounds (k + rounds)) count (halved listed o k (k + rounds)) [block o k] held := by
  induction rounds generalizing m listed with
  | zero =>
    have same : halved listed o k (k + 0) = listed := by
      funext j
      exact if_neg (by omega)
    rw [same]
    exact layout
  | succ rounds ih =>
    obtain ⟨middle, sum⟩ : ∃ middle, middle = k + rounds := ⟨_, rfl⟩
    rw [← sum] at ih
    rw [← Nat.add_assoc, ← sum] at layout ⊢
    have roomy' : 1 ≤ middle := by omega
    have done := ih (splitRound_spec layout roomy')
    have lists :
      halved (Function.update listed middle (listed middle ++ [o + 2 ^ (minAllocLog2 + middle)])) o k middle =
        halved listed o k (middle + 1) := by
      funext j
      rcases Nat.lt_trichotomy j middle with below | rfl | above
      · simp [halved, below.ne, below, Nat.lt_succ_of_lt below]
      · have least : k ≤ j := by omega
        simp [halved, least]
      · simp [halved, above.ne', Nat.not_lt.mpr above.le, Nat.not_lt.mpr (Nat.succ_le_of_lt above)]
    rw [lists] at done
    have order := layout.order_eq (.inr (List.mem_cons_self ..))
    have small := (layout.halve roomy').order_lt (.inr (List.mem_cons_self ..))
    have byte : middle % 2 ^ 8 = middle := by
      have few := layout.few
      simp only [maxBlockCount, maxAllocLog2, minAllocLog2] at few
      omega
    rw [splitLoop, order, setOrder_byte]
    simp only [Nat.add_sub_cancel, getBuddyBlock, order_setOrder, if_true, byte, upper_offset layout]
    exact done

/-- What stays of the set-up: the region is the largest power of two in the heap. -/
structure Sized (b : Buddy) : Prop where
  narrow : b.blockMaxSize < 2 ^ 30
  region : b.blockMaxSize < 2 ^ (minAllocLog2 + b.currentBlocks)

/-- The order an accepted request asks for is one of the lists', or the one past the last. -/
theorem lowestFittingOrder_spec (sized : Sized b) (few : b.currentBlocks ≤ maxBlockCount)
    (accepted : ¬(size = 0 ∨ size + sizeofListT > b.blockMaxSize)) :
    ∃ k, getMinimumFittingOrder (size + sizeofListT) = k ∧
      getMinimumFittingOrder (size + sizeofListT) % 2 ^ 8 = k ∧ 1 ≤ k ∧ k ≤ b.currentBlocks ∧
      size + sizeofListT ≤ 2 ^ (minAllocLog2 + k) := by
  have narrow := sized.narrow
  have region := sized.region
  obtain ⟨roomy, holds, low⟩ := getMinimumFittingOrder_spec (show sizeofListT < size + sizeofListT by omega) (by omega)
  have top : Nat.log2 (size + sizeofListT) < minAllocLog2 + b.currentBlocks :=
    (Nat.log2_lt (by omega)).mpr (by omega)
  simp only [maxBlockCount, maxAllocLog2, minAllocLog2] at few top
  have byte : getMinimumFittingOrder (size + sizeofListT) % 2 ^ 8 = getMinimumFittingOrder (size + sizeofListT) := by
    omega
  exact ⟨_, rfl, byte, roomy, by omega, holds⟩

/-- From a list that is not empty, a block is cut down to the order asked for. -/
theorem malloc_cuts {b : Buddy} (layout : Layout b.memory b.currentBlocks listed [] held)
    (inside : k + rounds < b.currentBlocks)
    (split : listed (k + rounds) = before ++ [o]) (roomy : 1 ≤ k) :
    (b.memory (.orders (k + rounds))).prev ≠ .null ∧
      popFromList b.memory (.orders (k + rounds)) = (removeFromList b.memory (.heap o), .heap o) ∧
      Layout (setFree (splitLoop (removeFromList b.memory (.heap o)) o rounds (k + rounds)) (.heap o) 0)
        b.currentBlocks (halved (Function.update listed (k + rounds) before) o k (k + rounds))
        [] (block o k :: held) := by
  have onList := layout.lists (k + rounds) inside
  have lifted := layout.lift inside split
  rw [List.append_nil] at lifted
  refine ⟨?_, ?_, ((splitLoop_spec rounds lifted roomy).flag 0).keep (by simp [block])⟩
  · have back := listed_prev_mem onList
    intro null
    simp [null] at back
  · rw [split, List.map_append] at onList
    exact popFromList_eq onList

/-- A request is served from the list that was found. -/
theorem malloc_serves {b : Buddy} (layout : Layout b.memory b.currentBlocks listed [] held)
    (accepted : ¬(size = 0 ∨ size + sizeofListT > b.blockMaxSize)) (fits : size + sizeofListT < 2 ^ 64)
    (order : getMinimumFittingOrder (size + sizeofListT) % 2 ^ 8 = k) (roomy : 1 ≤ k)
    (found : getFreeBlock b k = (f : Nat))
    (above : k ≤ f) (inside : f < b.currentBlocks) (nonempty : listed f ≠ []) :
    ∃ before o m, listed f = before ++ [o] ∧ malloc b size = ({ b with memory := m }, some (o + sizeofListT)) ∧
      Layout m b.currentBlocks (halved (Function.update listed f before) o k f) [] (block o k :: held) := by
  obtain ⟨before, o, split⟩ : ∃ before o, listed f = before ++ [o] :=
    ⟨_, _, (List.dropLast_append_getLast nonempty).symm⟩
  obtain ⟨rounds, rfl⟩ : ∃ rounds, f = k + rounds := ⟨f - k, by omega⟩
  obtain ⟨linked, popped, done⟩ := malloc_cuts layout inside split roomy
  refine ⟨before, o, _, split, ?_, done⟩
  unfold malloc
  rw [Nat.mod_eq_of_lt fits]
  simp only [accepted, if_false, order, found]
  simp [linked, popped]

/-- What a request that is not refused at once comes to: the least order that
fits, the first list from there on that is not empty, and the block cut from it. -/
theorem malloc_exact (layout : Layout b.memory b.currentBlocks listed [] held) (sized : Sized b)
    (accepted : ¬(size = 0 ∨ size + sizeofListT > b.blockMaxSize)) :
    ∃ k f, getMinimumFittingOrder (size + sizeofListT) = k ∧ 1 ≤ k ∧ size + sizeofListT ≤ 2 ^ (minAllocLog2 + k) ∧
      k ≤ f ∧ (∀ j, k ≤ j → j < f → listed j = []) ∧
      ((f = b.currentBlocks ∧ malloc b size = (b, none)) ∨
        f < b.currentBlocks ∧ ∃ before o m, listed f = before ++ [o] ∧
          malloc b size = ({ b with memory := m }, some (o + sizeofListT)) ∧
          Layout m b.currentBlocks (halved (Function.update listed f before) o k f) [] (block o k :: held)) := by
  have narrow := sized.narrow
  obtain ⟨k, least, order, roomy, low, holds⟩ := lowestFittingOrder_spec sized layout.few accepted
  obtain ⟨f, found, above, below, passed, nonempty⟩ := getFreeBlock_spec layout low
  refine ⟨k, f, least, roomy, holds, above, passed, ?_⟩
  have fits : size + sizeofListT < 2 ^ 64 := by omega
  by_cases inside : f < b.currentBlocks
  · exact .inr ⟨inside, malloc_serves layout accepted fits order roomy found above inside (nonempty inside)⟩
  · left
    obtain rfl : f = b.currentBlocks := by omega
    unfold malloc
    rw [Nat.mod_eq_of_lt fits]
    simp only [accepted, if_false, order, found]
    simp [layout.beyond]

/-- A request fails, or hands out a block that holds the header and the bytes asked for. -/
theorem malloc_spec (layout : Layout b.memory b.currentBlocks listed [] held) (sized : Sized b)
    (fits : size + sizeofListT < 2 ^ 64) :
    malloc b size = (b, none) ∨ ∃ m listed' o k, malloc b size = ({ b with memory := m }, some (o + sizeofListT)) ∧
      Layout m b.currentBlocks listed' [] (block o k :: held) ∧ size + sizeofListT ≤ 2 ^ (minAllocLog2 + k) := by
  by_cases refused : size = 0 ∨ size + sizeofListT > b.blockMaxSize
  · left
    simp only [malloc, Nat.mod_eq_of_lt fits, refused, if_true]
  · obtain ⟨k, f, -, -, holds, -, -, none | ⟨-, before, o, m, -, found, done⟩⟩ := malloc_exact layout sized refused
    · exact .inl none.2
    · exact .inr ⟨m, _, o, k, found, done, holds⟩

/-! ## `free` -/

/-- The header found where the buddy begins is the buddy's, or that of a
shorter block, which has a lower order. -/
theorem buddy_found (layout : Layout m count listed [block o k] held) (below : k + 1 < count)
    (order : (m (.heap (o ^^^ 2 ^ (minAllocLog2 + k)))).order = k)
    (free : (m (.heap (o ^^^ 2 ^ (minAllocLog2 + k)))).free ≠ 0) :
    (block o k).buddy ∈ freePieces count listed := by
  have top : (block o k).exponent < count + 3 := by
    simp only [block, minAllocLog2]
    omega
  obtain ⟨q, member, begins, -⟩ := layout.tiles.begins_at_buddy (.inr (List.mem_cons_self ..)) top
  have exponent := layout.header q member
  have same : q = (block o k).buddy := by
    ext
    · exact begins
    · rw [exponent, begins]
      exact congrArg (minAllocLog2 + ·) order
  subst same
  rcases member with listedThere | taken
  · exact listedThere
  · simp only [List.cons_append, List.nil_append, Set.mem_ofPred_eq, List.mem_cons] at taken
    cases taken with
    | inl itself => exact absurd (congrArg Piece.offset itself) (buddy_ne _)
    | inr used => exact absurd (layout.inUse _ used) free

theorem getBlockAddress_eq (m' : Memory) (layout : Layout m count listed [block o k] held)
    (order : (m' (.heap o)).order = k) : getBlockAddress m' o = min o (block o k).buddy.offset := by
  have member : block o k ∈ whole count listed ([block o k] ++ held) := .inr (List.mem_cons_self ..)
  have within := layout.tiles.within _ member
  have few := layout.few
  have small := layout.order_lt member
  simp only [maxBlockCount, maxAllocLog2, minAllocLog2] at few
  have width : 2 ^ (count + 3) ≤ 2 ^ 64 := Nat.pow_le_pow_right (by decide) (by omega)
  have room : 0 < 2 ^ (block o k).exponent := Nat.pow_pos (by decide)
  rw [getBlockAddress, order]
  refine clear_bit (layout.tiles.aligned _ member) ?_ ?_
  · simp only [block] at within room ⊢
    omega
  · simp only [block, minAllocLog2]
    omega

/-- The condition of the merging loop. -/
abbrev Merges (b : Buddy) (m : Memory) (o k : Nat) : Prop :=
  k ≠ b.currentBlocks - 1 ∧ (m (.heap (o ^^^ 2 ^ (minAllocLog2 + k)))).order = k ∧
    (m (.heap (o ^^^ 2 ^ (minAllocLog2 + k)))).free ≠ 0

/-- One round takes the buddy off its list and leaves the parent in hand. -/
theorem mergeRound_spec (layout : Layout m b.currentBlocks listed [block o k] held) (flag : (m (.heap o)).free = 1)
    (merges : Merges b m o k) :
    ∃ parent listed', getBlockAddress (removeFromList m (.heap (o ^^^ 2 ^ (minAllocLog2 + k)))) o = parent ∧
      (m (.heap parent)).order = k ∧ (m (.heap parent)).free = 1 ∧
      Layout (setOrder (removeFromList m (.heap (o ^^^ 2 ^ (minAllocLog2 + k)))) (.heap parent) (k + 1))
        b.currentBlocks listed' [block parent (k + 1)] held := by
  have inHand : block o k ∈ whole b.currentBlocks listed ([block o k] ++ held) := .inr (List.mem_cons_self ..)
  have small := layout.order_lt inHand
  have order := layout.order_eq inHand
  have free := buddy_found layout (by have := merges.1; omega) merges.2.1 merges.2.2
  obtain ⟨before, after, split⟩ := List.append_of_mem (mem_freePieces.mp free).2
  have both := (layout.lift small split).perm (List.Perm.swap ..)
  have parent := getBlockAddress_eq (removeFromList m (.heap (o ^^^ 2 ^ (minAllocLog2 + k)))) layout (by simp [order])
  refine ⟨_, _, parent, ?_, ?_, both.join⟩
  · rcases min_choice o (block o k).buddy.offset with here | here
    · rw [here, order]
    · rw [here]
      exact merges.2.1
  · rcases min_choice o (block o k).buddy.offset with here | here
    · rw [here, flag]
    · rw [here]
      exact layout.flagged _ free

/-- Merging ends with a block whose buddy is not free. -/
theorem mergeLoop_spec (b : Buddy) (rounds : Nat) (layout : Layout m b.currentBlocks listed [block o k] held)
    (flag : (m (.heap o)).free = 1) (enough : b.currentBlocks ≤ k + rounds) :
    ∃ m' o' k' listed', mergeLoop b rounds m o = some (m', o') ∧
      Layout m' b.currentBlocks listed' [block o' k'] held ∧ (m' (.heap o')).free = 1 ∧
      (k' + 1 < b.currentBlocks → (block o' k').buddy ∉ freePieces b.currentBlocks listed') := by
  have inHand : block o k ∈ whole b.currentBlocks listed ([block o k] ++ held) := .inr (List.mem_cons_self ..)
  induction rounds generalizing m o k listed with
  | zero =>
    have := layout.order_lt inHand
    omega
  | succ rounds ih =>
    have small := layout.order_lt inHand
    have order := layout.order_eq inHand
    rw [mergeLoop]
    simp only [getBuddyBlock, order]
    by_cases merges : Merges b m o k
    · rw [if_pos merges]
      obtain ⟨parent, listed', address, headed, flagged, joined⟩ := mergeRound_spec layout flag merges
      rw [address]
      simp only [removeFromList_order, headed]
      exact ih joined (by simpa using flagged) (by omega) (.inr (List.mem_cons_self ..))
    · rw [if_neg merges]
      refine ⟨m, o, k, listed, rfl, layout, flag, fun below free => merges ⟨by omega, ?_, ?_⟩⟩
      · exact layout.order_eq (.inl free)
      · have flagged : (m (.heap (o ^^^ 2 ^ (minAllocLog2 + k)))).free = 1 := layout.flagged _ free
        omega

/-- A release takes back exactly the released block. -/
theorem free_spec (layout : Layout b.memory b.currentBlocks listed [] held) (released : held.Perm (block o k :: rest)) :
    ∃ m listed', free b (some (o + sizeofListT)) = some { b with memory := m } ∧
      Layout m b.currentBlocks listed' [] rest := by
  have taken : Layout (setFree b.memory (.heap o) 1) b.currentBlocks listed [block o k] rest :=
    (layout.takeBack released).flag 1
  have flagged : (setFree b.memory (.heap o) 1 (.heap o)).free = 1 := by simp
  have enough : b.currentBlocks ≤ k + (b.currentBlocks + 1) := by omega
  obtain ⟨m, o', k', listed', merged, inHand, flag, alone⟩ :=
    mergeLoop_spec b (b.currentBlocks + 1) taken flagged enough
  have order := inHand.order_eq (.inr (List.mem_cons_self ..))
  refine ⟨_, _, ?_, inHand.put flag alone⟩
  unfold free
  dsimp only
  rw [Nat.add_sub_cancel, merged]
  simp only [order]

end QuesOs.BuddyMalloc
