import QuesOs.BuddyMallocOperations
import Mathlib.Data.List.Forall2

/-! Runs of the BUDDY allocator. After every call the free and the live
blocks tile the region, and no two free blocks are buddies; when nothing is
live, the one free block is the whole region. -/
namespace QuesOs.BuddyMalloc
open LinkedRing DyadicTiling Memory

/-- The block begins with the header before the pointer and has the bytes asked for. -/
def Serves (held : Held) (p : Piece) : Prop :=
  held.pointer = p.offset + sizeofListT ∧ held.size + sizeofListT ≤ 2 ^ p.exponent

/-- The held pointers are served by the taken blocks. -/
def Good (s : State) : Prop :=
  ∃ listed blocks, Layout s.buddy.memory s.buddy.currentBlocks listed [] blocks ∧ Sized s.buddy ∧
    List.Forall₂ Serves s.live blocks

/-! ## The start -/

theorem initializeOrders_elsewhere (n : Nat) (outside : ∀ k < n, p ≠ .orders k) : initializeOrders m n p = m p := by
  induction n with
  | zero => rfl
  | succ n ih =>
    have other := outside n (Nat.lt_succ_self n)
    have earlier := ih fun k below => outside k (Nat.lt_succ_of_lt below)
    simp [initializeOrders, initializeList, setOrder, setFree, setNext, setPrev, other, earlier]

theorem initializeOrders_listed (n : Nat) (below : k < n) : Listed (initializeOrders m n) (.orders k) [] := by
  induction n with
  | zero => omega
  | succ n ih =>
    rw [initializeOrders]
    refine listed_setOrder (listed_setFree ?_)
    by_cases last : k = n
    · exact last ▸ initializeList_listed
    · refine listed_agree (ih (by omega)) fun p member => ?_
      obtain rfl := List.mem_singleton.mp member
      simp [initializeList, last]

/-- The orders of the largest power of two in the heap, as far as there are lists. -/
theorem initializeMemoryManager_blocks (large : 32 ≤ heapSize) (word : heapSize < 2 ^ 32) :
    (initializeMemoryManager m heapSize).currentBlocks = min maxBlockCount (Nat.log2 heapSize - 3) := by
  have top : Nat.log2 heapSize < 32 := (Nat.log2_lt (by omega)).mpr word
  have bottom : 5 ≤ Nat.log2 heapSize := (Nat.le_log2 (by omega)).mpr large
  have logarithm := log2_eq (show heapSize ≠ 0 by omega) word
  simp only [initializeMemoryManager, logarithm, minAllocLog2, maxBlockCount, maxAllocLog2]
  split <;> omega

/-- The loop counts the orders of the largest power of two in the heap. -/
theorem initializeMemoryManager_count (large : 32 ≤ heapSize) (small : heapSize < 2 ^ 30) :
    (initializeMemoryManager m heapSize).currentBlocks + 3 = Nat.log2 heapSize := by
  have top : Nat.log2 heapSize < 30 := (Nat.log2_lt (by omega)).mpr small
  have bottom : 5 ≤ Nat.log2 heapSize := (Nat.le_log2 (by omega)).mpr large
  rw [initializeMemoryManager_blocks large (by omega)]
  simp only [maxBlockCount, maxAllocLog2, minAllocLog2]
  omega

/-- The manager starts with the one block that there is on the last list. -/
theorem start_layout (large : 32 ≤ heapSize) (word : heapSize < 2 ^ 32) :
    ∃ listed, Layout (start heap heapSize).buddy.memory (start heap heapSize).buddy.currentBlocks listed [] [] := by
  have bottom : 5 ≤ Nat.log2 heapSize := (Nat.le_log2 (by omega)).mpr large
  have counted := initializeMemoryManager_blocks (m := zeroed heap) large word
  simp only [maxBlockCount, maxAllocLog2, minAllocLog2] at counted
  obtain ⟨order, count⟩ : ∃ order, (initializeMemoryManager (zeroed heap) heapSize).currentBlocks = order + 1 :=
    ⟨min 27 (Nat.log2 heapSize - 3) - 1, by omega⟩
  rw [count] at counted
  have memory : (start heap heapSize).buddy.memory =
      addNodeToOrder (initializeOrders (zeroed heap) (order + 1)) (.orders order) (.heap 0) order := by
    have := count
    simp only [initializeMemoryManager] at this
    simp only [start, initializeMemoryManager, this, Nat.add_sub_cancel]
  have byte : order % 2 ^ 8 = order := by omega
  have none : ∀ n, freePieces n (fun _ => []) = ∅ := by
    intro n
    ext p
    constructor
    · rintro ⟨_, _, _, inside, _⟩
      exact absurd inside (by simp)
    · exact fun impossible => absurd impossible (by simp)
  -- The whole region in hand, its order already written.
  have before : Layout (setOrder (initializeOrders (zeroed heap) (order + 1)) (.heap 0) order) (order + 1)
      (fun _ => []) [block 0 order] [] := by
    have only : whole (order + 1) (fun _ => []) ([block 0 order] ++ []) = {⟨0, order + 1 + 3⟩} := by
      ext p
      simp [whole, none, block, minAllocLog2, show 4 + order = order + 1 + 3 by omega]
    exact {
      few := by
        simp only [maxBlockCount, maxAllocLog2, minAllocLog2]
        omega
      lists := fun k below => listed_setOrder (initializeOrders_listed _ below)
      beyond := by
        have outside : ∀ k < order + 1, Ptr.orders (order + 1) ≠ .orders k := by
          intro k below same
          have := Ptr.orders.inj same
          omega
        simp [initializeOrders_elsewhere _ outside, zeroed]
      tiles := by
        rw [only]
        exact tiling_whole _
      header := by
        rw [only]
        rintro p rfl
        simp only [order_setOrder, if_true, byte, minAllocLog2]
        omega
      roomy := by
        rw [only]
        rintro p rfl
        simp only
        omega
      flagged := by simp [none]
      inUse := by simp
      once := by simp
      apart := by simp [none]
      settled := by simp [none] }
  have region : (start heap heapSize).buddy.currentBlocks = order + 1 := count
  rw [memory, region]
  exact ⟨_, (before.flag 1).put (by simp [block]) (by omega)⟩

theorem start_good (large : 32 ≤ heapSize) (small : heapSize < 2 ^ 30) : Good (start heap heapSize) := by
  obtain ⟨listed, layout⟩ := @start_layout _ heap large (by omega)
  have fits : heapSize < 2 ^ (Nat.log2 heapSize + 1) := Nat.lt_log2_self
  have counted := initializeMemoryManager_count (m := zeroed heap) large small
  have region : (start heap heapSize).buddy.currentBlocks + 3 = Nat.log2 heapSize := counted
  refine ⟨listed, [], layout, ⟨small, ?_⟩, .nil⟩
  rw [minAllocLog2, show 4 + (start heap heapSize).buddy.currentBlocks = Nat.log2 heapSize + 1 by omega]
  exact fits

/-! ## One call -/

theorem sized_memory (sized : Sized b) : Sized { b with memory := m } := ⟨sized.narrow, sized.region⟩

/-- Giving up one held pointer gives up the block that serves it. -/
theorem serves_erase (serves : List.Forall₂ Serves live blocks) (member : held ∈ live) :
    ∃ p rest, Serves held p ∧ blocks.Perm (p :: rest) ∧ List.Forall₂ Serves (live.erase held) rest := by
  induction serves with
  | nil => cases member
  | @cons first p live blocks here rest ih =>
    by_cases same : first = held
    · subst same
      exact ⟨p, blocks, here, .refl _, by simpa using rest⟩
    · have later : held ∈ live := by simpa [Ne.symm same] using member
      obtain ⟨q, others, serves, split, left⟩ := ih later
      refine ⟨q, p :: others, serves, (split.cons p).trans (.swap ..), ?_⟩
      rw [List.erase_cons_tail (by simpa using same)]
      exact .cons here left

/-- The held pointers are served by the taken blocks, whatever the size of the heap. -/
def Shaped (s : State) : Prop :=
  ∃ listed blocks, Layout s.buddy.memory s.buddy.currentBlocks listed [] blocks ∧ List.Forall₂ Serves s.live blocks

/-- From one state to the other only memory and the held pointers change. -/
def Steps (s s' : State) : Prop := ∃ m live, s' = ⟨{ s.buddy with memory := m }, live⟩

/-- A held pointer follows the header of a taken block. -/
theorem served_block (layout : Layout m count listed hand blocks)
    (serves : List.Forall₂ Serves live blocks) (member : held ∈ live) :
    ∃ o k rest, held.pointer = o + sizeofListT ∧ held.size + sizeofListT ≤ 2 ^ (minAllocLog2 + k) ∧
      blocks.Perm (block o k :: rest) ∧ List.Forall₂ Serves (live.erase held) rest := by
  obtain ⟨p, rest, ⟨pointer, room⟩, split, left⟩ := serves_erase serves member
  have listed : p ∈ whole count listed (hand ++ blocks) :=
    .inr (List.mem_append_right _ (split.mem_iff.mpr (List.mem_cons_self ..)))
  have shape : p = block p.offset (m (.heap p.offset)).order := Piece.ext rfl (layout.header p listed)
  have size : p.exponent = minAllocLog2 + (m (.heap p.offset)).order := layout.header p listed
  exact ⟨p.offset, _, rest, pointer, size ▸ room, shape ▸ split, left⟩

theorem free_shaped (shaped : Shaped s) (ran : perform s (.free held) = some s') : Shaped s' ∧ Steps s s' := by
  obtain ⟨listed, blocks, layout, serves⟩ := shaped
  simp only [perform] at ran
  split at ran
  · next member =>
    obtain ⟨o, k, rest, pointer, -, split, left⟩ := served_block layout serves member
    obtain ⟨m, listed', freed, layout'⟩ := free_spec layout split
    rw [pointer, freed] at ran
    cases ran
    exact ⟨⟨listed', rest, layout', left⟩, m, _, rfl⟩
  · cases ran

theorem write_shaped (shaped : Shaped s) (ran : perform s (.write held byte value) = some s') :
    Shaped s' ∧ Steps s s' := by
  obtain ⟨listed, blocks, layout, serves⟩ := shaped
  simp only [perform] at ran
  split at ran
  · next allowed =>
    cases ran
    obtain ⟨o, k, rest, pointer, room, split, -⟩ := served_block layout serves allowed.1
    refine ⟨⟨listed, blocks, ?_, serves⟩, _, _, rfl⟩
    refine layout.write (split.mem_iff.mpr (List.mem_cons_self ..)) ?_ ?_ value
    · simp only [sizeofListT] at pointer
      simp only [block]
      omega
    · simp only [block]
      omega
  · cases ran

theorem good_of_shaped (sized : Sized s.buddy) (shaped : Shaped s' ∧ Steps s s') : Good s' := by
  obtain ⟨⟨listed, blocks, layout, serves⟩, m, live, rfl⟩ := shaped
  exact ⟨listed, blocks, layout, sized_memory sized, serves⟩

/-- One call keeps the region tiled. -/
theorem perform_good (good : Good s) (ran : perform s call = some s') : Good s' := by
  obtain ⟨listed, blocks, layout, sized, serves⟩ := good
  cases call with
  | malloc size =>
    simp only [perform] at ran
    split at ran
    · next fits =>
      rcases malloc_spec layout sized fits with refused | ⟨m, listed', o, k, found, layout', room⟩
      · rw [refused] at ran
        cases ran
        exact ⟨listed, blocks, layout, sized, serves⟩
      · rw [found] at ran
        cases ran
        exact ⟨listed', _, layout', sized_memory sized, .cons ⟨rfl, room⟩ serves⟩
    · cases ran
  | free held => exact good_of_shaped sized (free_shaped ⟨listed, blocks, layout, serves⟩ ran)
  | write held byte value => exact good_of_shaped sized (write_shaped ⟨listed, blocks, layout, serves⟩ ran)

theorem run_good (good : Good s) (run : Run s s') : Good s' := by
  induction run with
  | refl => exact good
  | tail _ last ih =>
    obtain ⟨call, ran⟩ := last
    exact perform_good ih ran

/-- Calls that all succeed make a run. -/
theorem run_of_calls {perform : σ → κ → Option σ} {calls : List κ} (runs : calls.foldlM perform s = some s') :
    Relation.ReflTransGen (fun s s' => ∃ call, perform s call = some s') s s' := by
  induction calls generalizing s with
  | nil =>
    cases runs
    exact .refl
  | cons call calls ih =>
    rw [List.foldlM_cons, Option.bind_eq_bind, Option.bind_eq_some_iff] at runs
    obtain ⟨middle, first, rest⟩ := runs
    exact .head ⟨call, first⟩ (ih rest)

/-! ## What a run keeps -/

/-- The block behind a held pointer, of the order its header tells. -/
def liveBlock (m : Memory) (held : Held) : Piece :=
  block (held.pointer - sizeofListT) (m (.heap (held.pointer - sizeofListT))).order

/-- The free blocks on the lists and the live blocks partition the region. -/
structure Tiled (s : State) (listed : Nat → List Nat) : Prop where
  lists : ∀ k < s.buddy.currentBlocks, Listed s.buddy.memory (.orders k) ((listed k).map .heap)
  tiles : Tiling (s.buddy.currentBlocks + 3)
    (whole s.buddy.currentBlocks listed (s.live.map (liveBlock s.buddy.memory)))
  once : (s.live.map (liveBlock s.buddy.memory)).Nodup
  apart : ∀ held ∈ s.live, liveBlock s.buddy.memory held ∉ freePieces s.buddy.currentBlocks listed
  roomy : ∀ o k, block o k ∈ whole s.buddy.currentBlocks listed (s.live.map (liveBlock s.buddy.memory)) → 1 ≤ k
  free : ∀ k < s.buddy.currentBlocks, ∀ o ∈ listed k,
    (s.buddy.memory (.heap o)).order = k ∧ (s.buddy.memory (.heap o)).free = 1
  live : ∀ held ∈ s.live, ∃ o, held.pointer = o + sizeofListT ∧ (s.buddy.memory (.heap o)).free = 0 ∧
    held.size + sizeofListT ≤ 2 ^ (minAllocLog2 + (s.buddy.memory (.heap o)).order)

/-- No two free blocks below the top order are buddies. -/
def Merged (b : Buddy) (listed : Nat → List Nat) : Prop :=
  ∀ k, k + 1 < b.currentBlocks → ∀ o ∈ listed k, o ^^^ 2 ^ (minAllocLog2 + k) ∉ listed k

/-- One free block at `base`, on the last list; the other lists are empty. -/
def Initial (b : Buddy) : Prop :=
  ∀ k < b.currentBlocks, Listed b.memory (.orders k) (if k + 1 = b.currentBlocks then [.heap 0] else [])

theorem serves_liveBlock (serves : List.Forall₂ Serves live blocks)
    (header : ∀ p ∈ blocks, p.exponent = minAllocLog2 + (m (.heap p.offset)).order) :
    live.map (liveBlock m) = blocks := by
  induction serves with
  | nil => rfl
  | @cons held p live blocks here _ ih =>
    have known := header p (List.mem_cons_self ..)
    have same : liveBlock m held = p := by
      unfold liveBlock
      rw [here.1, Nat.add_sub_cancel]
      exact Piece.ext rfl known.symm
    rw [List.map_cons, same, ih fun q member => header q (List.mem_cons_of_mem _ member)]

theorem good_tiled (good : Good s) : ∃ listed, Tiled s listed ∧ Merged s.buddy listed := by
  obtain ⟨listed, blocks, layout, sized, serves⟩ := good
  have same : s.live.map (liveBlock s.buddy.memory) = blocks :=
    serves_liveBlock serves fun p member => layout.header p (.inr member)
  refine ⟨listed, ⟨layout.lists, ?_, ?_, ?_, ?_, ?_, ?_⟩, ?_⟩
  · rw [same]
    exact layout.tiles
  · rw [same]
    exact layout.once
  · intro held member
    exact layout.apart _ (same ▸ List.mem_map_of_mem member)
  · intro o k member
    rw [same] at member
    have := layout.roomy _ member
    simp only [block, minAllocLog2] at this
    omega
  · intro k below o inside
    have free := mem_freePieces.mpr ⟨below, inside⟩
    exact ⟨layout.order_eq (.inl free), layout.flagged _ free⟩
  · intro held member
    obtain ⟨p, rest, ⟨pointer, room⟩, split, -⟩ := serves_erase serves member
    have taken : p ∈ blocks := split.mem_iff.mpr (List.mem_cons_self ..)
    rw [layout.header p (.inr taken)] at room
    exact ⟨p.offset, pointer, layout.inUse p taken, room⟩
  · intro k below o inside buddy
    refine layout.settled (block o k) (mem_freePieces.mpr ⟨by omega, inside⟩) ?_ (mem_freePieces.mpr ⟨by omega, buddy⟩)
    simp only [block, minAllocLog2]
    omega

/-- With nothing live, the free blocks are the one block of the top order. -/
theorem initial_of_released (tiled : Tiled s listed) (merged : Merged s.buddy listed) (released : s.live = []) :
    Initial s.buddy := by
  have only : freePieces s.buddy.currentBlocks listed = {⟨0, s.buddy.currentBlocks + 3⟩} := by
    have tiles := tiled.tiles
    rw [released] at tiles
    have free : whole s.buddy.currentBlocks listed ([].map (liveBlock s.buddy.memory)) =
        freePieces s.buddy.currentBlocks listed := by
      ext p
      simp [whole]
    rw [free] at tiles
    refine tiles.settled_whole ?_
    rintro p ⟨k, o, below, inside, rfl⟩ small buddy
    refine merged k ?_ o inside (mem_freePieces.mp buddy).2
    simp only [block, minAllocLog2] at small
    omega
  intro k below
  have nodup : (listed k).Nodup := (List.nodup_cons.mp (tiled.lists k below).nodup).2.of_map
  have members : ∀ o, o ∈ listed k ↔ o = 0 ∧ k + 1 = s.buddy.currentBlocks := by
    intro o
    have here : block o k ∈ freePieces s.buddy.currentBlocks listed ↔ _ := mem_freePieces
    rw [only, Set.mem_singleton_iff] at here
    simp only [block, minAllocLog2, Piece.mk.injEq] at here
    constructor
    · intro inside
      have := here.mpr ⟨below, inside⟩
      omega
    · intro last
      exact (here.mp (by omega)).2
  have contents : (listed k).map Ptr.heap = if k + 1 = s.buddy.currentBlocks then [.heap 0] else [] := by
    by_cases last : k + 1 = s.buddy.currentBlocks
    · have : (listed k).Perm [0] := (List.perm_ext_iff_of_nodup nodup (by simp)).mpr fun o => by simp [members, last]
      rw [if_pos last, List.perm_singleton.mp this]
      rfl
    · have : listed k = [] := List.eq_nil_iff_forall_not_mem.mpr fun o inside => last ((members o).mp inside).2
      rw [if_neg last, this]
      rfl
  rw [← contents]
  exact tiled.lists k below

/-- The allocator begins with the one block. -/
theorem start_initial (large : 32 ≤ heapSize) (small : heapSize < 2 ^ 30) : Initial (start heap heapSize).buddy := by
  obtain ⟨listed, tiled, merged⟩ := good_tiled (@start_good _ heap large small)
  exact initial_of_released tiled merged rfl

/-- **Free and live blocks tile the region** in every reachable state, each
listed free block of its order, each live block with the bytes asked for. -/
theorem blocks_tile_region (large : 32 ≤ heapSize) (small : heapSize < 2 ^ 30) (run : Run (start heap heapSize) s) :
    ∃ listed, Tiled s listed := by
  obtain ⟨listed, tiled, -⟩ := good_tiled (run_good (start_good large small) run)
  exact ⟨listed, tiled⟩

/-- Memory before the first call. -/
def blank : Nat → ListT := fun _ => ⟨.null, .null, 0, 0⟩

/-- Two blocks out of 256 bytes, the first given back. -/
theorem blocks_tile_region_small : ∃ s, Run (start blank 256) s ∧ s.live = [⟨152, 8⟩] ∧ ∃ listed, Tiled s listed := by
  have final : ([.malloc 100, .malloc 8, .free ⟨24, 100⟩].foldlM perform (start blank 256)).map State.live =
      some [⟨152, 8⟩] := by decide +kernel
  obtain ⟨s, runs, live⟩ := Option.map_eq_some_iff.mp final
  exact ⟨s, run_of_calls runs, live, blocks_tile_region (by decide) (by decide) (run_of_calls runs)⟩

/-- **Free buddies are always merged**, so that once everything is released, in
whatever order, the allocator is back where it began. -/
theorem released_returns_initial (large : 32 ≤ heapSize) (small : heapSize < 2 ^ 30)
    (run : Run (start heap heapSize) s) :
    (∃ listed, (∀ k < s.buddy.currentBlocks, Listed s.buddy.memory (.orders k) ((listed k).map .heap)) ∧
      Merged s.buddy listed) ∧ (s.live = [] → Initial s.buddy) := by
  obtain ⟨listed, tiled, merged⟩ := good_tiled (run_good (start_good large small) run)
  exact ⟨⟨listed, tiled.lists, merged⟩, initial_of_released tiled merged⟩

/-- Two blocks out of 256 bytes, given back in the order they were taken. -/
theorem released_returns_initial_small : ∃ s, Run (start blank 256) s ∧ Initial s.buddy := by
  have final : ([.malloc 100, .malloc 8, .free ⟨24, 100⟩, .free ⟨152, 8⟩].foldlM perform (start blank 256)).map
      State.live = some [] := by decide +kernel
  obtain ⟨s, runs, released⟩ := Option.map_eq_some_iff.mp final
  have run := run_of_calls runs
  exact ⟨s, run, (released_returns_initial (by decide) (by decide) run).2 released⟩

end QuesOs.BuddyMalloc
