import QuesOs.BuddyMallocOrders
import Mathlib.Algebra.BigOperators.Intervals
import Mathlib.Algebra.BigOperators.Ring.Finset

/-! What `getMemoryInfo` of the BUDDY allocator reports. It goes through every order
list with an index that counts the blocks of the list, and adds each block as often
as the index says: right only where no list has two blocks. -/
namespace QuesOs.BuddyMalloc
open LinkedRing DyadicTiling Memory

/-! ## `getMemoryInfo` -/

/-- `memoryInfo`. -/
structure MemoryInfo where
  availableMem : Nat
  totalMem : Nat

/-- `sizeof(memoryInfo)`. -/
def sizeofMemoryInfo : Nat := 16

/-- The inner loop, through the list of order `i`; `freeSpace` is a `uint64_t`. `none` when it does not end in
the given number of rounds. -/
def reportLoop (m : Memory) (i : Nat) : Nat → Ptr → Nat → Nat → Option Nat
  | 0, _, _, _ => none
  | rounds + 1, listAux, idx, freeSpace =>
    if listAux ≠ .orders i then
      let freeSpace := if (m listAux).free ≠ 0 then (freeSpace + idx * 2 ^ (minAllocLog2 + i)) % 2 ^ 64 else freeSpace
      reportLoop m i rounds (m listAux).next (idx + 1) freeSpace
    else some freeSpace

/-- The loop over the lists of the orders below `i`, from the highest down. -/
def reportOrders (m : Memory) (rounds : Nat) : Nat → Nat → Option Nat
  | 0, freeSpace => some freeSpace
  | i + 1, freeSpace =>
    if listIsEmpty m (.orders i) then reportOrders m rounds i freeSpace
    else (reportLoop m i rounds (m (.orders i)).next 1 freeSpace).bind (reportOrders m rounds i)

/-- The pointer is `toReturn`, `none` is `NULL`, and what it points to. A list has fewer nodes than the heap bytes. -/
def getMemoryInfo (b : Buddy) : Option (Buddy × Option (Nat × MemoryInfo)) :=
  match malloc b sizeofMemoryInfo with
  | (b, none) => some (b, none)
  | (b, some toReturn) => (reportOrders b.memory b.blockMaxSize b.currentBlocks 0).map fun freeSpace =>
      (b, some (toReturn, ⟨freeSpace, b.blockMaxSize⟩))

/-! ## What is to come of it -/

/-- The bytes of the free blocks, each counted once. -/
def freeBytes (count : Nat) (listed : Nat → List Nat) : Nat :=
  ∑ k ∈ Finset.range count, (listed k).length * 2 ^ (minAllocLog2 + k)

/-- At most one block on a list, or two on the first list that has one, from the order of the report on. -/
def Sparse (count : Nat) (listed : Nat → List Nat) : Prop :=
  ∀ k < count, (listed k).length ≤ 1 ∨ ((listed k).length = 2 ∧ 2 ≤ k ∧ ∀ j, 2 ≤ j → j < k → listed j = [])

/-! ## The loops -/

/-- How often `n` blocks of one list are counted from `idx` on. -/
def counted (idx n : Nat) : Nat := ∑ j ∈ Finset.range n, (idx + j)

theorem counted_succ (idx n : Nat) : counted idx (n + 1) = idx + counted (idx + 1) n := by
  unfold counted
  rw [Finset.sum_range_succ', Nat.add_comm]
  refine congrArg (idx + ·) (Finset.sum_congr rfl fun j _ => ?_)
  omega

theorem le_counted (n : Nat) : n ≤ counted 1 n := by
  unfold counted
  calc n = ∑ j ∈ Finset.range n, 1 := by simp
    _ ≤ ∑ j ∈ Finset.range n, (1 + j) := Finset.sum_le_sum fun j _ => Nat.le_add_right 1 j

theorem counted_le (n : Nat) : counted 1 n ≤ n * n := by
  unfold counted
  calc ∑ j ∈ Finset.range n, (1 + j) ≤ ∑ j ∈ Finset.range n, n := by
        refine Finset.sum_le_sum fun j member => ?_
        have low := Finset.mem_range.mp member
        omega
    _ = n * n := by simp

/-- Each is counted once exactly if there is no second. -/
theorem counted_eq_iff (n : Nat) : counted 1 n = n ↔ n ≤ 1 := by
  rcases n with _ | _ | n
  · exact iff_of_true rfl (by decide)
  · exact iff_of_true rfl (by decide)
  · refine iff_of_false (fun same => ?_) (by omega)
    have more := le_counted (n + 1)
    unfold counted at same more
    rw [Finset.sum_range_succ] at same
    omega

theorem reportLoop_spec (nodes : List Ptr) (path : List.IsChain (fun a b => (m a).next = b) (listAux :: rest))
    (split : listAux :: rest = nodes ++ [.orders i]) (others : Ptr.orders i ∉ nodes)
    (free : ∀ p ∈ nodes, (m p).free ≠ 0)
    (enough : nodes.length < rounds) (word : freeSpace + counted idx nodes.length * 2 ^ (minAllocLog2 + i) < 2 ^ 64) :
    reportLoop m i rounds listAux idx freeSpace =
    some (freeSpace + counted idx nodes.length * 2 ^ (minAllocLog2 + i)) := by
  obtain ⟨rounds, rfl⟩ : ∃ n, rounds = n + 1 := ⟨rounds - 1, by omega⟩
  induction nodes generalizing listAux rest rounds idx freeSpace with
  | nil =>
    obtain ⟨rfl, -⟩ : listAux = .orders i ∧ rest = [] := by simpa using split
    simp [reportLoop, counted]
  | cons p nodes ih =>
    obtain ⟨rfl, rfl⟩ : listAux = p ∧ rest = nodes ++ [.orders i] := by simpa using split
    have other : listAux ≠ .orders i := fun same => others (same ▸ List.mem_cons_self ..)
    have freed := free listAux (List.mem_cons_self ..)
    rw [List.length_cons, counted_succ, Nat.add_mul, ← Nat.add_assoc] at word ⊢
    obtain ⟨q, after, nextSplit⟩ : ∃ q after, nodes ++ [.orders i] = q :: after := by
      cases nodes with
      | nil => exact ⟨_, _, rfl⟩
      | cons q after => exact ⟨_, _, rfl⟩
    rw [nextSplit, List.isChain_cons_cons] at path
    have now : (freeSpace + idx * 2 ^ (minAllocLog2 + i)) % 2 ^ 64 = freeSpace + idx * 2 ^ (minAllocLog2 + i) :=
      Nat.mod_eq_of_lt (by omega)
    obtain ⟨more, rfl⟩ : ∃ n, rounds = n + 1 := ⟨rounds - 1, by simp at enough; omega⟩
    rw [reportLoop, if_pos other, if_pos freed, now, path.1]
    refine ih path.2 nextSplit.symm (fun member => others (List.mem_cons_of_mem _ member))
      (fun p' member => free p' (List.mem_cons_of_mem _ member)) word more ?_
    simp only [List.length_cons] at enough
    omega

/-- The inner loop counts the first block of a list once, the second twice, and so on. -/
theorem reportLoop_listed (listed : Listed m (.orders i) nodes) (free : ∀ p ∈ nodes, (m p).free ≠ 0)
    (enough : nodes.length < rounds)
    (word : freeSpace + counted 1 nodes.length * 2 ^ (minAllocLog2 + i) < 2 ^ 64) :
    reportLoop m i rounds (m (.orders i)).next 1 freeSpace =
      some (freeSpace + counted 1 nodes.length * 2 ^ (minAllocLog2 + i)) := by
  have ring := threaded_cons.mp listed.forward
  have others := (List.nodup_cons.mp listed.nodup).1
  obtain ⟨q, after, split⟩ : ∃ q after, nodes ++ [.orders i] = q :: after := by
    cases nodes with
    | nil => exact ⟨_, _, rfl⟩
    | cons q after => exact ⟨_, _, rfl⟩
  rw [split, List.isChain_cons_cons] at ring
  rw [ring.1]
  exact reportLoop_spec nodes ring.2 split.symm others free enough word

/-- What is reported, if every list is as long as it may be. -/
theorem reportOrders_spec {listed : Nat → List Nat} (n : Nat)
    (lists : ∀ k < n, Listed m (.orders k) ((listed k).map .heap))
    (free : ∀ k < n, ∀ o ∈ listed k, (m (.heap o)).free = 1) (enough : ∀ k < n, (listed k).length < rounds)
    (word : freeSpace + ∑ k ∈ Finset.range n, counted 1 (listed k).length * 2 ^ (minAllocLog2 + k) < 2 ^ 64) :
    reportOrders m rounds n freeSpace =
      some (freeSpace + ∑ k ∈ Finset.range n, counted 1 (listed k).length * 2 ^ (minAllocLog2 + k)) := by
  induction n generalizing freeSpace with
  | zero => rfl
  | succ n ih =>
    rw [Finset.sum_range_succ, Nat.add_comm (∑ _ ∈ _, _), ← Nat.add_assoc] at word ⊢
    have last := lists n (Nat.lt_succ_self n)
    have rest := @ih (freeSpace + counted 1 (listed n).length * 2 ^ (minAllocLog2 + n)) (fun k low =>
      lists k (Nat.lt_succ_of_lt low))
      (fun k low => free k (Nat.lt_succ_of_lt low)) (fun k low => enough k (Nat.lt_succ_of_lt low)) word
    unfold reportOrders
    by_cases empty : listIsEmpty m (.orders n) = true
    · have none : listed n = [] := by simpa using (listIsEmpty_iff last).mp empty
      rw [none] at rest
      rw [if_pos empty, none]
      simpa [counted] using rest
    · have loop := @reportLoop_listed _ _ _ rounds freeSpace last (fun p member => by
        obtain ⟨o, inside, rfl⟩ := List.mem_map.mp member
        rw [free n (Nat.lt_succ_self n) o inside]
        decide) (by simpa using enough n (Nat.lt_succ_self n)) (by rw [List.length_map]; omega)
      rw [List.length_map] at loop
      rw [if_neg empty, loop]
      exact rest

/-! ## How much is free -/

/-- The blocks on one list take no more than all of them. -/
theorem listBytes_le (listed : Nat → List Nat) (low : k < count) :
    (listed k).length * 2 ^ (minAllocLog2 + k) ≤ freeBytes count listed :=
  Finset.single_le_sum (f := fun k => (listed k).length * 2 ^ (minAllocLog2 + k)) (fun _ _ =>
    Nat.zero_le _) (Finset.mem_range.mpr low)

/-- The blocks on one list. -/
def listBlocks (listed : Nat → List Nat) (k : Nat) : Finset Piece := (listed k).toFinset.image fun o => block o k

theorem mem_listBlocks {listed : Nat → List Nat} : p ∈ listBlocks listed k ↔ ∃ o ∈ listed k, block o k = p := by
  simp [listBlocks]

theorem sum_listBlocks {listed : Nat → List Nat} (once : (listed k).Nodup) :
    ∑ p ∈ listBlocks listed k, 2 ^ p.exponent = (listed k).length * 2 ^ (minAllocLog2 + k) := by
  unfold listBlocks
  rw [Finset.sum_image fun o _ o' _ same => (block_inj.mp same).1]
  rw [← List.toFinset_card_of_nodup once]
  exact Finset.sum_const_nat fun o _ => rfl

/-- The free blocks have room in the region. -/
theorem freeBytes_le (layout : Layout m count listed [] held) : freeBytes count listed ≤ 2 ^ (count + 3) := by
  have apart : ((Finset.range count : Finset Nat) : Set Nat).PairwiseDisjoint (listBlocks listed) := by
    intro j _ k _ other
    refine Finset.disjoint_left.mpr fun p here there => other ?_
    obtain ⟨o, -, rfl⟩ := mem_listBlocks.mp here
    obtain ⟨o', -, same⟩ := mem_listBlocks.mp there
    exact (block_inj.mp same).2.symm
  have inside : ∀ p ∈ (Finset.range count).biUnion (listBlocks listed), p ∈ whole count listed ([] ++ held) := by
    intro p member
    obtain ⟨k, low, here⟩ := Finset.mem_biUnion.mp member
    obtain ⟨o, there, rfl⟩ := mem_listBlocks.mp here
    exact .inl (mem_freePieces.mpr ⟨Finset.mem_range.mp low, there⟩)
  calc freeBytes count listed
      = ∑ k ∈ Finset.range count, ∑ p ∈ listBlocks listed k, 2 ^ p.exponent :=
        Finset.sum_congr rfl fun k low => (sum_listBlocks (layout.free_nodup (Finset.mem_range.mp low))).symm
    _ = ∑ p ∈ (Finset.range count).biUnion (listBlocks listed), 2 ^ p.exponent := (Finset.sum_biUnion apart).symm
    _ ≤ 2 ^ (count + 3) := layout.tiles.sum_le _ inside

/-- What is reported is right exactly if no list has two blocks. -/
theorem counted_freeBytes (count : Nat) (listed : Nat → List Nat) :
    ∑ k ∈ Finset.range count, counted 1 (listed k).length * 2 ^ (minAllocLog2 + k) = freeBytes count listed ↔
      ∀ k < count, (listed k).length ≤ 1 := by
  unfold freeBytes
  have more : ∀ k ∈ Finset.range count, (listed k).length * 2 ^ (minAllocLog2 + k) ≤
      counted 1 (listed k).length * 2 ^ (minAllocLog2 + k) := fun k _ => Nat.mul_le_mul_right _ (le_counted _)
  rw [eq_comm, Finset.sum_eq_sum_iff_of_le more]
  refine forall_congr' fun k => ?_
  rw [Finset.mem_range]
  refine imp_congr_right fun low => ?_
  rw [Nat.mul_left_inj (Nat.pow_pos (by decide)).ne', eq_comm, counted_eq_iff]

/-- What is reported is a 64-bit number. -/
theorem counted_lt (layout : Layout m count listed [] held) :
    0 + ∑ k ∈ Finset.range count, counted 1 (listed k).length * 2 ^ (minAllocLog2 + k) < 2 ^ 64 := by
  have few := layout.few
  simp only [maxBlockCount, maxAllocLog2, minAllocLog2] at few
  have region : freeBytes count listed ≤ 2 ^ 30 :=
    (freeBytes_le layout).trans (Nat.pow_le_pow_right (by decide) (by omega))
  have each : ∀ k ∈ Finset.range count, counted 1 (listed k).length * 2 ^ (minAllocLog2 + k) ≤
      2 ^ 30 * ((listed k).length * 2 ^ (minAllocLog2 + k)) := by
    intro k low
    have short : (listed k).length ≤ 2 ^ 30 :=
      (Nat.le_mul_of_pos_right _ (Nat.pow_pos (by decide))).trans
        ((listBytes_le listed (Finset.mem_range.mp low)).trans region)
    rw [← Nat.mul_assoc]
    exact Nat.mul_le_mul_right _ ((counted_le _).trans (Nat.mul_le_mul_right _ short))
  have bound : ∑ k ∈ Finset.range count, counted 1 (listed k).length * 2 ^ (minAllocLog2 + k) ≤
    2 ^ 30 * freeBytes count listed := by
    unfold freeBytes
    rw [Finset.mul_sum]
    exact Finset.sum_le_sum each
  omega

/-! ## The report -/

/-- The allocation of the report takes a block from the first list that has one. -/
theorem malloc_report (layout : Layout b.memory b.currentBlocks listed [] held)
    (succeeds : malloc b sizeofMemoryInfo = (b', some toReturn)) : ∃ f before o m, 2 ≤ f ∧ f < b.currentBlocks ∧
      (∀ j, 2 ≤ j → j < f → listed j = []) ∧ listed f = before ++ [o] ∧ b' = { b with memory := m } ∧
      Layout m b.currentBlocks (halved (Function.update listed f before) o 2 f) [] (block o 2 :: held) := by
  have fits : sizeofMemoryInfo + sizeofListT < 2 ^ 64 := by decide
  have order : getMinimumFittingOrder (sizeofMemoryInfo + sizeofListT) % 2 ^ 8 = 2 := by decide
  have accepted : ¬(sizeofMemoryInfo = 0 ∨ sizeofMemoryInfo + sizeofListT > b.blockMaxSize) := by
    intro refused
    unfold malloc at succeeds
    rw [Nat.mod_eq_of_lt fits] at succeeds
    simp [refused] at succeeds
  by_cases far : b.currentBlocks < 2
  · unfold malloc at succeeds
    simp only [Nat.mod_eq_of_lt fits, accepted, if_false, order, getFreeBlock_beyond far] at succeeds
    cases succeeds
  · obtain ⟨f, found, least, below, passed, filled⟩ := getFreeBlock_spec layout (Nat.not_lt.mp far)
    by_cases inside : f < b.currentBlocks
    · obtain ⟨before, o, m, split, served, done⟩ :=
        malloc_serves layout accepted fits order (by decide) found least inside (filled inside)
      rw [served] at succeeds
      cases succeeds
      exact ⟨f, before, o, m, least, inside, passed, split, rfl, done⟩
    · obtain rfl : f = b.currentBlocks := by omega
      unfold malloc at succeeds
      simp only [Nat.mod_eq_of_lt fits, accepted, if_false, order, found] at succeeds
      simp [layout.beyond] at succeeds

/-- After that allocation no list has two blocks exactly if there were few enough before. -/
theorem sparse_iff {listed : Nat → List Nat} (least : 2 ≤ f) (inside : f < count)
    (passed : ∀ j, 2 ≤ j → j < f → listed j = [])
    (split : listed f = before ++ [o]) :
    (∀ k < count, (halved (Function.update listed f before) o 2 f k).length ≤ 1) ↔ Sparse count listed := by
  have between (k : Nat) (above : 2 ≤ k) (below : k < f) :
    (halved (Function.update listed f before) o 2 f k).length = 1 := by
    simp [halved, above, below, below.ne, passed k above below]
  have found : halved (Function.update listed f before) o 2 f f = before := by simp [halved]
  have other (k : Nat) (outside : ¬(2 ≤ k ∧ k < f)) (apart : k ≠ f) :
      halved (Function.update listed f before) o 2 f k = listed k := by simp [halved, outside, apart]
  have length : (listed f).length = before.length + 1 := by simp [split]
  constructor
  · intro few k low
    have short := few k low
    by_cases inner : 2 ≤ k ∧ k < f
    · exact .inl (by simp [passed k inner.1 inner.2])
    · by_cases here : k = f
      · subst here
        rw [found] at short
        by_cases alone : before.length = 0
        · exact .inl (by omega)
        · exact .inr ⟨by omega, least, passed⟩
      · rw [other k inner here] at short
        exact .inl short
  · intro sparse k low
    by_cases inner : 2 ≤ k ∧ k < f
    · exact (between k inner.1 inner.2).le
    · by_cases here : k = f
      · subst here
        rw [found]
        have few := sparse k low
        omega
      · rw [other k inner here]
        rcases sparse k low with few | ⟨-, above, empty⟩
        · exact few
        · have first := empty f least (by omega)
          rw [first] at length
          cases length

/-- What is reported over any layout, in a heap that has room for all blocks. -/
theorem getMemoryInfo_spec (layout : Layout b.memory b.currentBlocks listed [] held)
    (region : 2 ^ (b.currentBlocks + 3) ≤ b.blockMaxSize) (succeeds : malloc b sizeofMemoryInfo = (b', some toReturn)) :
    ∃ listed' info, Lists b' listed' ∧ getMemoryInfo b = some (b', some (toReturn, info)) ∧
    info.totalMem = b.blockMaxSize ∧
      ((info.availableMem = freeBytes b'.currentBlocks listed' ∧ info.availableMem ≤ info.totalMem) ↔
        Sparse b.currentBlocks listed) := by
  obtain ⟨f, before, o, m, least, inside, passed, split, rfl, done⟩ := malloc_report layout succeeds
  have sparse := sparse_iff (o := o) least inside passed split
  generalize halved (Function.update listed f before) o 2 f = listed' at done sparse
  have bound := freeBytes_le done
  have enough : ∀ k < b.currentBlocks, (listed' k).length < b.blockMaxSize := by
    intro k low
    have some : 2 ^ 1 ≤ 2 ^ (minAllocLog2 + k) := Nat.pow_le_pow_right (by decide) (by simp only [minAllocLog2]; omega)
    have double := Nat.mul_le_mul_left (listed' k).length some
    have here := listBytes_le listed' low
    have positive : 0 < 2 ^ (b.currentBlocks + 3) := Nat.pow_pos (by decide)
    omega
  have free : ∀ k < b.currentBlocks, ∀ o ∈ listed' k, (m (.heap o)).free = 1 :=
    fun k low o member => done.flagged _ (mem_freePieces.mpr ⟨low, member⟩)
  have report := reportOrders_spec _ done.lists free enough (counted_lt done)
  refine ⟨listed', ⟨0 + ∑ k ∈ Finset.range b.currentBlocks, counted 1 (listed' k).length * 2 ^ (minAllocLog2 + k),
    b.blockMaxSize⟩, done.lists, ?_, rfl, ?_⟩
  · unfold getMemoryInfo
    rw [succeeds]
    dsimp only
    rw [report]
    rfl
  · rw [← sparse, ← counted_freeBytes, Nat.zero_add]
    refine and_iff_left_of_imp fun same => ?_
    rw [same]
    exact bound.trans region

/-- The region that the lists divide is not larger than the heap. -/
theorem start_region (heap : Nat → ListT) (large : 32 ≤ heapSize) (word : heapSize < 2 ^ 32) :
    2 ^ ((start heap heapSize).buddy.currentBlocks + 3) ≤ heapSize := by
  have count : (start heap heapSize).buddy.currentBlocks = min maxBlockCount (Nat.log2 heapSize - 3) :=
    initializeMemoryManager_blocks large word
  have bottom : 5 ≤ Nat.log2 heapSize := (Nat.le_log2 (by omega)).mpr large
  exact (Nat.pow_le_pow_right (by decide) (by omega)).trans (Nat.log2_self_le (by omega))

/-- **What `getMemoryInfo` reports**, in every state that careful requests lead to: the bytes that are free after
its own allocation, and then no more than there are, exactly if the lists were sparse. -/
theorem memory_report (large : 32 ≤ heapSize) (word : heapSize < 2 ^ 32) (run : CarefulRun (start heap heapSize) s)
    (succeeds : malloc s.buddy sizeofMemoryInfo = (b', some toReturn)) : ∃ listed listed' info,
      Lists s.buddy listed ∧ Lists b' listed' ∧ getMemoryInfo s.buddy = some (b', some (toReturn, info)) ∧
      info.totalMem = heapSize ∧
      ((info.availableMem = freeBytes b'.currentBlocks listed' ∧ info.availableMem ≤ info.totalMem) ↔
        Sparse s.buddy.currentBlocks listed) := by
  obtain ⟨⟨listed, blocks, layout, -⟩, m, live, rfl⟩ := carefulRun_shaped large word run
  obtain ⟨listed', info, lists', report⟩ := getMemoryInfo_spec layout (start_region heap large word) succeeds
  exact ⟨listed, listed', info, layout.lists, lists', report⟩

/-- The kernel's heap, where one block was given back and another is held. -/
theorem memory_report_kernel : ∃ s, CarefulRun (start blank 0x100000) s ∧ s.live = [⟨152, 8⟩] ∧
    ∃ b' toReturn listed listed' info, Lists s.buddy listed ∧ Lists b' listed' ∧
      getMemoryInfo s.buddy = some (b', some (toReturn, info)) ∧ info.totalMem = 0x100000 ∧
      ((info.availableMem = freeBytes b'.currentBlocks listed' ∧ info.availableMem ≤ info.totalMem) ↔
        Sparse s.buddy.currentBlocks listed) := by
  have final :
    ([.malloc 100, .malloc 8, .free ⟨24, 100⟩].foldlM (requestIf Careful) (start blank 0x100000)).map (fun s =>
      (s.live, (malloc s.buddy sizeofMemoryInfo).2)) = some ([⟨152, 8⟩], some 216) := by decide +kernel
  obtain ⟨s, runs, shown⟩ := Option.map_eq_some_iff.mp final
  obtain ⟨live, served⟩ := Prod.mk.inj shown
  have run : CarefulRun (start blank 0x100000) s := run_of_allowed runs
  exact ⟨s, run, live, _, _, memory_report (by decide) (by decide) run (Prod.ext rfl served)⟩

/-- A list with one node at most begins where it ends. -/
theorem listed_short (listed : Listed m list nodes) (short : nodes.length ≤ 1) : (m list).next = (m list).prev := by
  rcases nodes with _ | ⟨p, _ | ⟨q, rest⟩⟩
  · rw [listed.alone]
    exact threaded_singleton.mp listed.forward
  · have next := (List.isChain_cons_cons.mp (threaded_cons.mp listed.forward)).1
    rw [next, listed_prev listed]
    rfl
  · simp at short

/-- Two free blocks of 32 bytes: the second is counted twice. -/
theorem two_blocks_counted_thrice : ∃ s, Run (start blank 0x100000) s ∧ ∃ b' toReturn listed' info, Lists b' listed' ∧
    getMemoryInfo s.buddy = some (b', some (toReturn, info)) ∧
    ¬(info.availableMem = freeBytes b'.currentBlocks listed' ∧ info.availableMem ≤ info.totalMem) := by
  have final : ([.malloc 8, .malloc 8, .malloc 8, .malloc 8, .free ⟨24, 8⟩, .free ⟨88, 8⟩].foldlM perform
      (start blank 0x100000)).map (fun s => (s.buddy.currentBlocks, s.buddy.blockMaxSize,
        (malloc s.buddy sizeofMemoryInfo).2,
        decide ((s.buddy.memory (.orders 1)).next ≠ (s.buddy.memory (.orders 1)).prev))) =
        some (17, 0x100000, some 152, true) := by decide +kernel
  obtain ⟨s, runs, shown⟩ := Option.map_eq_some_iff.mp final
  obtain ⟨count, size, served, apart⟩ : _ ∧ _ ∧ _ ∧ _ := by simpa only [Prod.mk.injEq, decide_eq_true_iff] using shown
  have run := run_of_calls runs
  obtain ⟨listed, blocks, layout, -⟩ := run_good (start_good (by decide) (by decide)) run
  have region : 2 ^ (s.buddy.currentBlocks + 3) ≤ s.buddy.blockMaxSize := by
    rw [count, size]
    decide
  obtain ⟨listed', info, lists', report, -, right⟩ := getMemoryInfo_spec layout region (Prod.ext rfl served)
  refine ⟨s, run, _, _, listed', info, lists', report, fun correct => apart ?_⟩
  have few : (listed 1).length ≤ 1 := by
    rcases right.mp correct 1 (by rw [count]; decide) with few | ⟨-, none, -⟩
    · exact few
    · omega
  refine listed_short (layout.lists 1 (by rw [count]; decide)) ?_
  rwa [List.length_map]

end QuesOs.BuddyMalloc
