import QuesOs.BuddyMallocRequests

/-! Which order lists the BUDDY allocator looks at. The search for a free block tells
that there is none by an order past the last one, but compares it with the number
of lists the wrong way round: the order right after the last is taken for a list.
With 27 lists that is a place behind the array. -/
namespace QuesOs.BuddyMalloc
open LinkedRing DyadicTiling Memory

/-! ## The indices -/

/-- The lists that the loop of `getFreeBlock` looks at. -/
def searchedOrders (b : Buddy) : Nat → Nat → List Nat
  | 0, _ => []
  | steps + 1, freeBlock =>
    if freeBlock < b.currentBlocks then
      freeBlock :: if listIsEmpty b.memory (.orders freeBlock) then searchedOrders b steps (freeBlock + 1) else []
    else []

/-- The lists that the splitting loop puts halves on. -/
def splitOrders : Nat → Nat → List Nat
  | 0, _ => []
  | rounds + 1, freeBlock => (freeBlock - 1) :: splitOrders rounds (freeBlock - 1)

/-- Every index into `orders` that `malloc` uses. -/
def mallocOrders (b : Buddy) (size : Nat) : List Nat :=
  let memNeeded := (size + sizeofListT) % 2 ^ 64
  if size = 0 ∨ memNeeded > b.blockMaxSize then []
  else
    let lowestFittingOrder := getMinimumFittingOrder memNeeded % 2 ^ 8
    searchedOrders b (b.currentBlocks + 1) lowestFittingOrder ++
      match getFreeBlock b lowestFittingOrder with
      | .negSucc _ => []
      | .ofNat freeBlock =>
        freeBlock :: if (b.memory (.orders freeBlock)).prev ≠ .null ∨ (b.memory (.orders freeBlock)).next ≠ .null then
          splitOrders (freeBlock - lowestFittingOrder) freeBlock
        else []

/-- The index into `orders` that `free` uses. -/
def freeOrders (b : Buddy) (pointer : Nat) : List Nat :=
  let freeNode := pointer - sizeofListT
  match mergeLoop b (b.currentBlocks + 1) (setFree b.memory (.heap freeNode) 1) freeNode with
  | none => []
  | some (m, freeNode) => [(m (.heap freeNode)).order]

/-- The order is past all lists by more than one, or there is a block on a list from there on. -/
def Available (b : Buddy) (k : Nat) : Prop :=
  b.currentBlocks < k ∨ ∃ j, k ≤ j ∧ j < b.currentBlocks ∧ listIsEmpty b.memory (.orders j) = false

/-- The request is refused before the search, or there is a block for it, or its order is far past all lists. -/
def Admitted (b : Buddy) (size : Nat) : Prop :=
  size = 0 ∨ (size + sizeofListT) % 2 ^ 64 > b.blockMaxSize ∨
    Available b (getMinimumFittingOrder ((size + sizeofListT) % 2 ^ 64) % 2 ^ 8)

/-- The sum with the header does not wrap to more than zero, and the request is admitted. -/
def Careful (s : State) (call : Call) : Prop :=
  ∀ size, call = .malloc size → size + sizeofListT ≤ 2 ^ 64 ∧ Admitted s.buddy size

instance (b : Buddy) (k : Nat) : Decidable (Available b k) :=
  decidable_of_iff (b.currentBlocks < k ∨ ∃ j < b.currentBlocks, k ≤ j ∧ listIsEmpty b.memory (.orders j) = false)
    (or_congr_right (exists_congr fun _ => and_left_comm))

instance (b : Buddy) (size : Nat) : Decidable (Admitted b size) := inferInstanceAs (Decidable (_ ∨ _ ∨ _))

instance (s : State) : (call : Call) → Decidable (Careful s call)
  | .malloc size => decidable_of_iff (size + sizeofListT ≤ 2 ^ 64 ∧ Admitted s.buddy size)
      ⟨fun careful _ same => Call.malloc.inj same ▸ careful, fun careful => careful size rfl⟩
  | .free _ | .write .. => .isTrue fun _ other => Call.noConfusion other

/-- Runs of careful requests, and of anything else a client may do. -/
def CarefulRun : State → State → Prop :=
  Relation.ReflTransGen fun s s' => ∃ call, Careful s call ∧ request s call = some s'

/-! ## The search -/

/-- `getFreeBlock` tells that there is nothing exactly when it should. -/
theorem getFreeBlock_exact (b : Buddy) (k : Nat) :
    (getFreeBlock b k = -1 ↔ ∀ j, k ≤ j → j < b.currentBlocks → listIsEmpty b.memory (.orders j) = true) ↔
    Available b k := by
  unfold Available
  by_cases far : b.currentBlocks < k
  · rw [getFreeBlock_beyond far]
    refine iff_of_true (iff_of_true rfl fun j above below => ?_) (.inl far)
    omega
  · obtain ⟨above, below, passed, found⟩ := getFreeBlockLoop_spec (b.currentBlocks + 1) (Nat.not_lt.mp far) (by omega)
    have served : getFreeBlock b k ≠ -1 := by
      unfold getFreeBlock
      dsimp only
      rw [if_neg (by omega)]
      omega
    constructor
    · intro exact
      by_contra nothing
      simp only [not_or, not_exists, not_and] at nothing
      refine served (exact.mpr fun j least inside => ?_)
      exact Bool.not_eq_false _ ▸ nothing.2 j least inside
    · rintro (beyond | ⟨j, least, inside, nonempty⟩)
      · exact absurd beyond far
      · refine iff_of_false served fun empty => ?_
        rw [empty j least inside] at nonempty
        cases nonempty

/-- What is found, unless it is the order past the last, is one of the lists. -/
theorem getFreeBlock_inside (b : Buddy) (k : Nat) : Available b k ↔ ∀ f : Nat, getFreeBlock b k = f →
    f < b.currentBlocks := by
  unfold Available
  by_cases far : b.currentBlocks < k
  · rw [getFreeBlock_beyond far]
    exact iff_of_true (.inl far) fun f same => by omega
  · obtain ⟨above, below, passed, found⟩ := getFreeBlockLoop_spec (b.currentBlocks + 1) (Nat.not_lt.mp far) (by omega)
    have served : getFreeBlock b k = getFreeBlockLoop b (b.currentBlocks + 1) k := by
      unfold getFreeBlock
      dsimp only
      rw [if_neg (by omega)]
    rw [served]
    constructor
    · rintro (beyond | ⟨j, least, inside, nonempty⟩) f same
      · exact absurd beyond far
      · by_contra past
        have last : j < getFreeBlockLoop b (b.currentBlocks + 1) k := by omega
        rw [passed j least last] at nonempty
        cases nonempty
    · intro inside
      have small := inside _ rfl
      exact .inr ⟨_, above, small, found small⟩

theorem searchedOrders_inside (steps k : Nat) (member : i ∈ searchedOrders b steps k) : i < b.currentBlocks := by
  induction steps generalizing k with
  | zero => cases member
  | succ steps ih =>
    unfold searchedOrders at member
    split at member
    · next inside =>
      split at member
      · cases List.mem_cons.mp member with
        | inl here => exact here ▸ inside
        | inr later => exact ih _ later
      · exact List.mem_singleton.mp member ▸ inside
    · cases member

theorem splitOrders_inside (rounds f : Nat) (inside : f < n) (member : i ∈ splitOrders rounds f) : i < n := by
  induction rounds generalizing f with
  | zero => cases member
  | succ rounds ih =>
    have lower : f - 1 < n := Nat.lt_of_le_of_lt (Nat.sub_le ..) inside
    cases List.mem_cons.mp member with
    | inl here => exact here ▸ lower
    | inr later => exact ih _ lower later

/-- `malloc` uses lists that there are exactly when the request is admitted. -/
theorem mallocOrders_inside (b : Buddy) (size : Nat) :
    (∀ i ∈ mallocOrders b size, i < b.currentBlocks) ↔ Admitted b size := by
  unfold mallocOrders Admitted
  dsimp only
  by_cases refused : size = 0 ∨ (size + sizeofListT) % 2 ^ 64 > b.blockMaxSize
  · rw [if_pos refused, ← or_assoc]
    exact iff_of_true (fun i member => by cases member) (.inl refused)
  · rw [if_neg refused, ← or_assoc, or_iff_right refused, getFreeBlock_inside]
    generalize getMinimumFittingOrder ((size + sizeofListT) % 2 ^ 64) % 2 ^ 8 = k
    constructor
    · intro all f found
      refine all f (List.mem_append_right _ ?_)
      rw [found]
      exact List.mem_cons_self ..
    · intro inside i member
      cases List.mem_append.mp member with
      | inl searched => exact searchedOrders_inside _ _ searched
      | inr taken =>
        cases found : getFreeBlock b k with
        | negSucc n =>
          rw [found] at taken
          cases taken
        | ofNat f =>
          rw [found] at taken
          have small := inside f found
          cases List.mem_cons.mp taken with
          | inl here => exact here ▸ small
          | inr split =>
            split at split
            · exact splitOrders_inside _ _ small split
            · cases split

/-- `free` puts a live block on a list that there is. -/
theorem freeOrders_inside (shaped : Shaped s) (member : held ∈ s.live) (used : i ∈ freeOrders s.buddy held.pointer) :
    i < s.buddy.currentBlocks := by
  obtain ⟨listed, blocks, layout, serves⟩ := shaped
  obtain ⟨o', k', rest, pointer, -, split, -⟩ := served_block layout serves member
  have taken : Layout (setFree s.buddy.memory (.heap o') 1) s.buddy.currentBlocks listed [block o' k'] rest :=
    (layout.takeBack split).flag 1
  have flagged : (setFree s.buddy.memory (.heap o') 1 (.heap o')).free = 1 := by simp
  obtain ⟨m, o, k, listed', merged, layout', -, -⟩ :=
    mergeLoop_spec s.buddy (s.buddy.currentBlocks + 1) taken flagged (by omega)
  have index : freeOrders s.buddy held.pointer = [(m (.heap o)).order] := by
    unfold freeOrders
    dsimp only
    rw [pointer, Nat.add_sub_cancel, merged]
  have inHand : block o k ∈ whole s.buddy.currentBlocks listed' ([block o k] ++ rest) := .inr (by simp)
  rw [index, List.mem_singleton, layout'.order_eq inHand] at used
  exact used ▸ layout'.order_lt inHand

/-! ## Runs -/

/-- An admitted request is refused without a change, or is given a block. -/
theorem malloc_admitted {b : Buddy} (layout : Layout b.memory b.currentBlocks listed [] held)
    (word : b.blockMaxSize < 2 ^ 32)
    (fits : size + sizeofListT ≤ 2 ^ 64) (admitted : Admitted b size) :
    malloc b size = (b, none) ∨ ∃ m listed' o k, malloc b size = ({ b with memory := m }, some (o + sizeofListT)) ∧
      Layout m b.currentBlocks listed' [] (block o k :: held) ∧ size + sizeofListT ≤ 2 ^ (minAllocLog2 + k) := by
  by_cases wraps : size + sizeofListT = 2 ^ 64
  · exact .inl (malloc_zero layout.few wraps)
  · have low : size + sizeofListT < 2 ^ 64 := Nat.lt_of_le_of_ne fits wraps
    unfold Admitted at admitted
    rw [Nat.mod_eq_of_lt low, ← or_assoc] at admitted
    by_cases refused : size = 0 ∨ size + sizeofListT > b.blockMaxSize
    · left
      simp only [malloc, Nat.mod_eq_of_lt low, refused, if_true]
    · have available := admitted.resolve_left refused
      obtain ⟨roomy, holds, least⟩ :=
        getMinimumFittingOrder_spec (show sizeofListT < size + sizeofListT by omega) (by omega)
      have top : Nat.log2 (size + sizeofListT) < 32 := (Nat.log2_lt (by omega)).mpr (by omega)
      have byte : getMinimumFittingOrder (size + sizeofListT) % 2 ^ 8 =
        getMinimumFittingOrder (size + sizeofListT) := by omega
      rw [byte] at available
      rcases available with far | ⟨j, above, inside, nonempty⟩
      · left
        unfold malloc
        simp only [Nat.mod_eq_of_lt low, refused, if_false, byte, getFreeBlock_beyond far]
        rfl
      · obtain ⟨f, found, least', below, passed, filled⟩ :=
          getFreeBlock_spec layout (k := getMinimumFittingOrder (size + sizeofListT))
          (Nat.le_of_lt (Nat.lt_of_le_of_lt above inside))
        have inRange : f < b.currentBlocks :=
          (getFreeBlock_inside b _).mp (.inr ⟨j, above, inside, nonempty⟩) f found
        obtain ⟨before, o, m, -, served, done⟩ :=
          malloc_serves layout refused low byte roomy found least' inRange (filled inRange)
        exact .inr ⟨m, _, o, _, served, done, holds⟩

/-- A careful call keeps the region tiled. -/
theorem request_shaped (shaped : Shaped s) (word : s.buddy.blockMaxSize < 2 ^ 32) (careful : Careful s call)
    (ran : request s call = some s') : Shaped s' ∧ Steps s s' := by
  cases call with
  | malloc size =>
    obtain ⟨listed, blocks, layout, serves⟩ := shaped
    obtain ⟨fits, admitted⟩ := careful size rfl
    simp only [request] at ran
    split at ran
    · rcases malloc_admitted layout word fits admitted with refused | ⟨m, listed', o, k, served, layout', room⟩
      · rw [refused] at ran
        cases ran
        exact ⟨⟨listed, blocks, layout, serves⟩, _, _, rfl⟩
      · rw [served] at ran
        cases ran
        exact ⟨⟨listed', _, layout', .cons ⟨rfl, room⟩ serves⟩, m, _, rfl⟩
    · cases ran
  | free held => exact free_shaped shaped ran
  | write held byte value => exact write_shaped shaped ran

theorem carefulRun_shaped (large : 32 ≤ heapSize) (word : heapSize < 2 ^ 32)
    (run : CarefulRun (start heap heapSize) s) :
    Shaped s ∧ Steps (start heap heapSize) s := by
  induction run with
  | refl =>
    obtain ⟨listed, layout⟩ := @start_layout _ heap large word
    exact ⟨⟨listed, [], layout, .nil⟩, _, _, rfl⟩
  | tail _ last ih =>
    obtain ⟨call, careful, ran⟩ := last
    obtain ⟨shaped, m, live, rfl⟩ := ih
    obtain ⟨shaped', m', live', rfl⟩ := request_shaped shaped word careful ran
    exact ⟨shaped', m', live', rfl⟩

/-- **The order lists that are used**, in every state that careful requests lead to: the search tells that there
is nothing exactly when it should if what is asked for is available or far past all lists, and then only are all
the lists that `malloc` uses there; those that `free` uses always are. -/
theorem orders_inside (large : 32 ≤ heapSize) (word : heapSize < 2 ^ 32) (run : CarefulRun (start heap heapSize) s) :
    (∀ k, (getFreeBlock s.buddy k = -1 ↔
      ∀ j, k ≤ j → j < s.buddy.currentBlocks → listIsEmpty s.buddy.memory (.orders j) = true) ↔ Available s.buddy k) ∧
    (∀ size, (∀ i ∈ mallocOrders s.buddy size, i < s.buddy.currentBlocks) ↔ Admitted s.buddy size) ∧
    (∀ held ∈ s.live, ∀ i ∈ freeOrders s.buddy held.pointer, i < s.buddy.currentBlocks) ∧
    s.buddy.currentBlocks ≤ maxBlockCount := by
  have shaped := (carefulRun_shaped large word run).1
  refine ⟨getFreeBlock_exact s.buddy, mallocOrders_inside s.buddy, fun held member i used => ?_, ?_⟩
  · exact freeOrders_inside shaped member used
  · obtain ⟨listed, blocks, layout, -⟩ := shaped
    exact layout.few

/-- The largest heap, where one block was given back and another is held. -/
theorem orders_inside_largest : ∃ s, CarefulRun (start blank (2 ^ 32 - 1)) s ∧ s.live = [⟨152, 8⟩] ∧
    ((getFreeBlock s.buddy 26 = -1 ↔ ∀ j, 26 ≤ j → j < s.buddy.currentBlocks →
      listIsEmpty s.buddy.memory (.orders j) = true) ↔
      Available s.buddy 26) := by
  have final :
    ([.malloc 100, .malloc 8, .free ⟨24, 100⟩].foldlM (requestIf Careful) (start blank (2 ^ 32 - 1))).map State.live =
      some [⟨152, 8⟩] := by decide +kernel
  obtain ⟨s, runs, live⟩ := Option.map_eq_some_iff.mp final
  have run : CarefulRun (start blank (2 ^ 32 - 1)) s := run_of_allowed runs
  exact ⟨s, run, live, (orders_inside (by decide) (by decide) run).1 26⟩

/-- The kernel's heap is used up by one request; the next one looks at `orders[17]`, of 17 lists. -/
theorem exhausted_order_used : ∃ s, Relation.ReflTransGen (fun s s' => ∃ call, request s call = some s')
    (start blank 0x100000) s ∧ (∀ j, 1 ≤ j → j < s.buddy.currentBlocks →
      listIsEmpty s.buddy.memory (.orders j) = true) ∧
      getFreeBlock s.buddy 1 ≠ -1 ∧ s.buddy.currentBlocks ∈ mallocOrders s.buddy 8 := by
  have final : ([.malloc (0x100000 - 24)].foldlM request (start blank 0x100000)).map (fun s =>
      (decide (∀ j < s.buddy.currentBlocks, 1 ≤ j → listIsEmpty s.buddy.memory (.orders j) = true),
        getFreeBlock s.buddy 1, decide (s.buddy.currentBlocks ∈ mallocOrders s.buddy 8))) = some (true, 17, true) := by
    decide +kernel
  obtain ⟨s, runs, shown⟩ := Option.map_eq_some_iff.mp final
  obtain ⟨empty, found, used⟩ : _ ∧ _ ∧ _ := by simpa only [Prod.mk.injEq, decide_eq_true_iff] using shown
  refine ⟨s, run_of_calls runs, fun j above below => empty j below above, ?_, used⟩
  rw [found]
  decide

end QuesOs.BuddyMalloc
