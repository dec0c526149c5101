import QuesOs.BuddyMallocRuns

/-! What a request to the BUDDY allocator is given. The size comes unchecked
from a system call, and `size + sizeof(list_t)` wraps: from `2 ^ 64 - 23` on a
request for nearly all of the address space is served with a block of order 0
or 1. As long as no request of that kind is served, a block has the bytes asked
for and is the best fit. -/
namespace QuesOs.BuddyMalloc
open LinkedRing DyadicTiling Memory

/-- One call, whatever the request. -/
def request (s : State) : Call → Option State
  | .malloc size =>
    if size < 2 ^ 64 then
      match malloc s.buddy size with
      | (b, none) => some ⟨b, s.live⟩
      | (b, some pointer) => some ⟨b, ⟨pointer, size⟩ :: s.live⟩
    else none
  | call => perform s call

/-- A call that is made only where it is allowed. -/
def requestIf (allowed : State → Call → Prop) [∀ s call, Decidable (allowed s call)] (s : State)
    (call : Call) : Option State :=
  if allowed s call then request s call else none

theorem run_of_allowed {allowed : State → Call → Prop} [∀ s call, Decidable (allowed s call)] {calls : List Call}
    (runs : calls.foldlM (requestIf allowed) s = some s') :
    Relation.ReflTransGen (fun s s' => ∃ call, allowed s call ∧ request s call = some s') s s' := by
  refine Relation.ReflTransGen.mono (fun s s' ran => ?_) _ _ (run_of_calls runs)
  obtain ⟨call, ran⟩ := ran
  unfold requestIf at ran
  split at ran
  · exact ⟨call, ‹_›, ran⟩
  · cases ran

/-- The sum with the header does not wrap to more than zero, or there is nothing to hand out. -/
def Bounded (b : Buddy) (size : Nat) : Prop :=
  size + sizeofListT ≤ 2 ^ 64 ∨ ∀ k < b.currentBlocks, listIsEmpty b.memory (.orders k) = true

/-- The requests among the calls are bounded. -/
def Tame (s : State) (call : Call) : Prop := ∀ size, call = .malloc size → Bounded s.buddy size

instance (b : Buddy) (size : Nat) : Decidable (Bounded b size) := inferInstanceAs (Decidable (_ ∨ _))

instance (s : State) : (call : Call) → Decidable (Tame s call)
  | .malloc size => decidable_of_iff (Bounded s.buddy size)
      ⟨fun bounded _ same => Call.malloc.inj same ▸ bounded, fun tame => tame size rfl⟩
  | .free _ | .write .. => .isTrue fun _ other => Call.noConfusion other

/-- Runs of bounded requests, and of anything else a client may do. -/
def TameRun : State → State → Prop :=
  Relation.ReflTransGen fun s s' => ∃ call, Tame s call ∧ request s call = some s'

/-- What is handed out follows the header of a block, of one of the lists'
orders, that has the bytes asked for. -/
def Ample (b : Buddy) (size : Nat) : Prop :=
  ∀ b' pointer, malloc b size = (b', some pointer) → ∃ o k, pointer = o + sizeofListT ∧ k < b.currentBlocks ∧
    (b'.memory (.heap o)).order = k ∧ size + sizeofListT ≤ 2 ^ (minAllocLog2 + k)

/-! ## Requests that wrap -/

/-- Less than a header is taken for a request of order 0 or 1, nothing at all
for one of an order no heap has. -/
theorem getMinimumFittingOrder_wrapped (little : n < sizeofListT) :
    (n = 0 ∧ getMinimumFittingOrder n % 2 ^ 8 = 252) ∨ (n ≠ 0 ∧ getMinimumFittingOrder n % 2 ^ 8 ≤ 1) := by
  have all : ∀ n < 24, (n = 0 ∧ getMinimumFittingOrder n % 2 ^ 8 = 252) ∨
      (n ≠ 0 ∧ getMinimumFittingOrder n % 2 ^ 8 ≤ 1) := by decide
  exact all n little

/-- The search from an order no heap has finds nothing. -/
theorem getFreeBlock_beyond (above : b.currentBlocks < k) : getFreeBlock b k = -1 := by
  have still : ∀ steps, getFreeBlockLoop b steps k = k := by
    intro steps
    cases steps with
    | zero => rfl
    | succ steps => simp [getFreeBlockLoop, Nat.not_lt.mpr above.le]
  simp [getFreeBlock, still, above]

/-- A sum that wraps to zero is refused. -/
theorem malloc_zero (few : b.currentBlocks ≤ maxBlockCount) (sum : size + sizeofListT = 2 ^ 64) :
    malloc b size = (b, none) := by
  have order : getMinimumFittingOrder 0 % 2 ^ 8 = 252 := by decide
  have found : getFreeBlock b 252 = -1 := by
    apply getFreeBlock_beyond
    simp only [maxBlockCount, maxAllocLog2, minAllocLog2] at few
    omega
  unfold malloc
  simp only [sum, Nat.mod_self, order, found]
  split <;> rfl

/-- A sum that wraps to more is served exactly when anything is free. -/
theorem malloc_wrapped (layout : Layout b.memory b.currentBlocks listed [] held) (large : 32 ≤ b.blockMaxSize)
    (some : 1 ≤ b.currentBlocks) (sum : size + sizeofListT = 2 ^ 64 + n) (positive : n ≠ 0) (little : n < sizeofListT) :
    (malloc b size = (b, none) ∧ ∀ k < b.currentBlocks, listed k = []) ∨
      (∃ pointer, (malloc b size).2 = .some pointer) ∧ ∃ k < b.currentBlocks, listed k ≠ [] := by
  have wraps : (size + sizeofListT) % 2 ^ 64 = n := by
    simp only [sizeofListT] at little
    rw [sum]
    omega
  have header : n ≤ b.blockMaxSize := by
    simp only [sizeofListT] at little
    omega
  have asked : size ≠ 0 := by
    simp only [sizeofListT] at sum
    omega
  have accepted : ¬(size = 0 ∨ n > b.blockMaxSize) := by omega
  obtain ⟨k, order, low⟩ : ∃ k, getMinimumFittingOrder n % 2 ^ 8 = k ∧ k ≤ 1 := by
    rcases getMinimumFittingOrder_wrapped little with zero | other
    · exact absurd zero.1 positive
    · exact ⟨_, rfl, other.2⟩
  obtain ⟨f, found, above, below, passed, nonempty⟩ := getFreeBlock_spec layout (k := k) (by omega)
  -- A block of order 0 has no room for its header: that list stays empty.
  have bottom : ∀ j < b.currentBlocks, j < 1 → listed j = [] := by
    intro j inside zero
    apply List.eq_nil_iff_forall_not_mem.mpr
    intro o member
    have roomy := layout.roomy (block o j) (.inl (mem_freePieces.mpr ⟨inside, member⟩))
    simp only [block, minAllocLog2] at roomy
    omega
  unfold malloc
  simp only [wraps, accepted, if_false, order, found]
  by_cases inside : f < b.currentBlocks
  · right
    have onList := layout.lists f inside
    obtain ⟨before, o, split⟩ : ∃ before o, listed f = before ++ [o] :=
      ⟨_, _, (List.dropLast_append_getLast (nonempty inside)).symm⟩
    have linked : (b.memory (.orders f)).prev ≠ .null := by
      have back := listed_prev_mem onList
      intro null
      simp [null] at back
    have popped : popFromList b.memory (.orders f) = (removeFromList b.memory (.heap o), .heap o) := by
      rw [split, List.map_append] at onList
      exact popFromList_eq onList
    refine ⟨⟨o + sizeofListT, ?_⟩, f, inside, nonempty inside⟩
    simp only [linked, popped, ne_eq, not_false_eq_true, true_or, if_true]
  · left
    obtain rfl : f = b.currentBlocks := by omega
    refine ⟨by simp [layout.beyond], fun j small => ?_⟩
    by_cases least : k ≤ j
    · exact passed j least small
    · exact bottom j small (by omega)

/-! ## Runs of bounded requests -/

/-- A good state has at least the one list. -/
theorem good_lists (good : Good s) (large : 32 ≤ s.buddy.blockMaxSize) : 1 ≤ s.buddy.currentBlocks := by
  obtain ⟨listed, blocks, layout, sized, serves⟩ := good
  have region := sized.region
  simp only [minAllocLog2] at region
  by_contra none
  have zero : s.buddy.currentBlocks = 0 := by omega
  rw [zero] at region
  omega

/-- A bounded request that wraps leaves everything as it is. -/
theorem malloc_bounded (good : Good s) (large : 32 ≤ s.buddy.blockMaxSize) (word : size < 2 ^ 64)
    (bounded : Bounded s.buddy size) (wraps : 2 ^ 64 ≤ size + sizeofListT) : malloc s.buddy size = (s.buddy, none) := by
  have some := good_lists good large
  obtain ⟨listed, blocks, layout, sized, serves⟩ := good
  obtain ⟨n, sum⟩ := Nat.exists_eq_add_of_le wraps
  by_cases zero : n = 0
  · rw [zero] at sum
    exact malloc_zero layout.few sum
  · have little : n < sizeofListT := by omega
    rcases malloc_wrapped layout large some sum zero little with refused | ⟨-, k, inside, nonempty⟩
    · exact refused.1
    · rcases bounded with small | empty
      · omega
      · have := (listIsEmpty_iff (layout.lists k inside)).mp (empty k inside)
        exact absurd (by simpa using this) nonempty

/-- A call with a bounded request is one without wrapping, or changes nothing. -/
theorem request_perform (good : Good s) (large : 32 ≤ s.buddy.blockMaxSize) (tame : Tame s call)
    (ran : request s call = some s') : perform s call = some s' ∨ s' = s := by
  cases call with
  | malloc size =>
    simp only [request] at ran
    split at ran
    · next word =>
      by_cases fits : size + sizeofListT < 2 ^ 64
      · left
        simp only [perform, fits, if_true]
        exact ran
      · right
        rw [malloc_bounded good large word (tame size rfl) (by omega)] at ran
        cases ran
        rfl
    · cases ran
  | free held => exact .inl ran
  | write held byte value => exact .inl ran

theorem malloc_blockMaxSize (b : Buddy) (size : Nat) : (malloc b size).1.blockMaxSize = b.blockMaxSize := by
  unfold malloc
  dsimp only
  split
  · rfl
  · split
    · rfl
    · split
      · split <;> rfl
      · rfl

theorem free_blockMaxSize (freed : free b pointer = some b') : b'.blockMaxSize = b.blockMaxSize := by
  cases pointer with
  | none =>
    cases freed
    rfl
  | some pointer =>
    unfold free at freed
    dsimp only at freed
    cases merged : mergeLoop b (b.currentBlocks + 1) (setFree b.memory (.heap (pointer - sizeofListT)) 1)
        (pointer - sizeofListT) with
    | none => simp [merged] at freed
    | some joined =>
      rw [merged] at freed
      rw [← Option.some.inj freed]

/-- No call changes the size of the heap. -/
theorem perform_blockMaxSize (ran : perform s call = some s') : s'.buddy.blockMaxSize = s.buddy.blockMaxSize := by
  cases call with
  | malloc size =>
    simp only [perform] at ran
    split at ran
    · have kept := malloc_blockMaxSize s.buddy size
      split at ran
      · next same =>
        cases ran
        rwa [same] at kept
      · next same =>
        cases ran
        rwa [same] at kept
    · cases ran
  | free held =>
    simp only [perform] at ran
    split at ran
    · obtain ⟨b, freed, rfl⟩ := Option.map_eq_some_iff.mp ran
      exact free_blockMaxSize freed
    · cases ran
  | write held byte value =>
    simp only [perform] at ran
    split at ran
    · cases ran
      rfl
    · cases ran

/-- Bounded requests keep the region tiled, and its size. -/
theorem tameRun_good (good : Good s) (large : 32 ≤ s.buddy.blockMaxSize) (run : TameRun s s') :
    Good s' ∧ s'.buddy.blockMaxSize = s.buddy.blockMaxSize := by
  induction run with
  | refl => exact ⟨good, rfl⟩
  | tail _ last ih =>
    obtain ⟨call, tame, ran⟩ := last
    obtain ⟨good, size⟩ := ih
    rcases request_perform good (size ▸ large) tame ran with performed | rfl
    · exact ⟨perform_good good performed, (perform_blockMaxSize performed).trans size⟩
    · exact ⟨good, size⟩

/-! ## Enough bytes -/

/-- **A block has the bytes asked for exactly when the request is bounded**, in
every state that bounded requests lead to. -/
theorem ample_iff_bounded (large : 32 ≤ heapSize) (small : heapSize < 2 ^ 30) (run : TameRun (start heap heapSize) s)
    (word : size < 2 ^ 64) : Ample s.buddy size ↔ Bounded s.buddy size := by
  obtain ⟨good, heapSized⟩ := tameRun_good (start_good large small) large run
  have large' : 32 ≤ s.buddy.blockMaxSize := heapSized ▸ large
  constructor
  · intro ample
    by_contra unbounded
    obtain ⟨wraps, served⟩ := not_or.mp unbounded
    have some := good_lists good large'
    obtain ⟨listed, blocks, layout, sized, serves⟩ := good
    obtain ⟨n, sum⟩ := Nat.exists_eq_add_of_le (Nat.le_of_not_le wraps)
    have little : n < sizeofListT := by omega
    rcases malloc_wrapped layout large' some sum (by omega) little with ⟨-, empty⟩ | ⟨⟨pointer, found⟩, -⟩
    · exact served fun k inside => (listIsEmpty_iff (layout.lists k inside)).mpr (by simp [empty k inside])
    · -- No block is as large as that.
      obtain ⟨-, k, -, inside, -, holds⟩ := ample _ _ (Prod.ext rfl found)
      have few := layout.few
      simp only [maxBlockCount, maxAllocLog2, minAllocLog2] at few holds
      have : 2 ^ (4 + k) ≤ 2 ^ 31 := Nat.pow_le_pow_right (by decide) (by omega)
      omega
  · intro bounded b' pointer found
    by_cases fits : size + sizeofListT < 2 ^ 64
    · obtain ⟨listed, blocks, layout, sized, serves⟩ := good
      rcases malloc_spec layout sized fits with none | ⟨m, listed', o, k, served, layout', holds⟩
      · rw [none] at found
        cases found
      · rw [served] at found
        cases found
        have inHand : block o k ∈ whole s.buddy.currentBlocks listed' ([] ++ block o k :: blocks) := .inr (by simp)
        exact ⟨o, k, rfl, layout'.order_lt inHand, layout'.order_eq inHand, holds⟩
    · rw [malloc_bounded good large' word bounded (by omega)] at found
      cases found

/-- The kernel's heap, where one block was given back and another is held. -/
theorem ample_iff_bounded_kernel : ∃ s, TameRun (start blank 0x100000) s ∧ s.live = [⟨152, 8⟩] ∧
    (Ample s.buddy 1 ↔ Bounded s.buddy 1) := by
  have final :
    ([.malloc 100, .malloc 8, .free ⟨24, 100⟩].foldlM (requestIf Tame) (start blank 0x100000)).map State.live =
      some [⟨152, 8⟩] := by decide +kernel
  obtain ⟨s, runs, live⟩ := Option.map_eq_some_iff.mp final
  have run : TameRun (start blank 0x100000) s := run_of_allowed runs
  exact ⟨s, run, live, ample_iff_bounded (by decide) (by decide) run (by decide)⟩

/-- The largest request of all is served from the empty heap. -/
theorem largest_request_served : ∃ s, Relation.ReflTransGen (fun s s' => ∃ call, request s call = some s')
    (start blank 0x100000) s ∧ ¬Ample s.buddy (2 ^ 64 - 1) := by
  refine ⟨_, .refl, fun ample => ?_⟩
  have served : (malloc (start blank 0x100000).buddy (2 ^ 64 - 1)).2 = some 24 := by decide +kernel
  have count : (start blank 0x100000).buddy.currentBlocks = 17 := by decide +kernel
  obtain ⟨-, k, -, inside, -, holds⟩ := ample _ _ (Prod.ext rfl served)
  rw [count] at inside
  simp only [sizeofListT, minAllocLog2] at holds
  have : 2 ^ (4 + k) ≤ 2 ^ 21 := Nat.pow_le_pow_right (by decide) (by omega)
  omega

/-! ## The best fit -/

/-- Order `k` is the least one whose blocks hold the header and the bytes asked for. -/
def LeastOrder (size k : Nat) : Prop :=
  size + sizeofListT ≤ 2 ^ (minAllocLog2 + k) ∧ ∀ j < k, 2 ^ (minAllocLog2 + j) < size + sizeofListT

/-- The contents of the order lists. -/
def Lists (b : Buddy) (listed : Nat → List Nat) : Prop :=
  ∀ k < b.currentBlocks, Listed b.memory (.orders k) ((listed k).map .heap)

/-- From `b` to `b'` the block at `o` of the list of order `f`, the smallest from
order `k` on that is not empty, was cut down to order `k`. -/
structure Cut (b b' : Buddy) (k f o : Nat) (listed listed' : Nat → List Nat) : Prop where
  before : Lists b listed
  after : Lists b' listed'
  count : b'.currentBlocks = b.currentBlocks
  least : k ≤ f
  inside : f < b.currentBlocks
  smallest : ∀ j, k ≤ j → j < f → listed j = []
  taken : listed f = listed' f ++ [o]
  added : ∀ j, k ≤ j → j < f → listed' j = [o + 2 ^ (minAllocLog2 + j)] ∧
    (b'.memory (.heap (o + 2 ^ (minAllocLog2 + j)))).order = j ∧
    (b'.memory (.heap (o + 2 ^ (minAllocLog2 + j)))).free = 1
  kept : ∀ j < b.currentBlocks, j < k ∨ f < j → listed' j = listed j
  order : (b'.memory (.heap o)).order = k
  used : (b'.memory (.heap o)).free = 0

/-- A request for order `k` fails only where nothing is free from that order
on, and is served by the best fit otherwise. -/
def BestFit (b : Buddy) (size k : Nat) : Prop :=
  match malloc b size with
  | (b', none) => b' = b ∧ ∀ f, k ≤ f → f < b.currentBlocks → listIsEmpty b.memory (.orders f) = true
  | (b', some pointer) => ∃ f o listed listed', pointer = o + sizeofListT ∧ Cut b b' k f o listed listed'

/-- The exact effect of a request, read as a cut. -/
theorem cut_of_layout {b : Buddy} (layout : Layout b.memory b.currentBlocks listed [] held) (least : k ≤ f)
    (inside : f < b.currentBlocks) (smallest : ∀ j, k ≤ j → j < f → listed j = []) (taken : listed f = rest ++ [o])
    (done : Layout m b.currentBlocks (halved (Function.update listed f rest) o k f) [] (block o k :: held)) :
    Cut b { b with memory := m } k f o listed (halved (Function.update listed f rest) o k f) := by
  have inHand : block o k ∈ whole b.currentBlocks (halved (Function.update listed f rest) o k f)
      ([] ++ block o k :: held) := .inr (by simp)
  have halves : ∀ j, k ≤ j → j < f →
      halved (Function.update listed f rest) o k f j = [o + 2 ^ (minAllocLog2 + j)] := by
    intro j above below
    simp [halved, above, below, below.ne, smallest j above below]
  refine {
    before := layout.lists
    after := done.lists
    count := rfl
    least
    inside
    smallest
    taken := by simp [halved, taken]
    added := fun j above below => ?_
    kept := fun j _ outside => ?_
    order := done.order_eq inHand
    used := done.inUse _ (List.mem_cons_self ..) }
  · have free : block (o + 2 ^ (minAllocLog2 + j)) j ∈
        freePieces b.currentBlocks (halved (Function.update listed f rest) o k f) :=
      mem_freePieces.mpr ⟨by omega, by simp [halves j above below]⟩
    exact ⟨halves j above below, done.order_eq (.inl free), done.flagged _ free⟩
  · have other : j ≠ f := by omega
    have between : ¬(k ≤ j ∧ j < f) := by omega
    simp [halved, between, other]

/-- **A request is served by the best fit**, in every state that bounded requests lead to. -/
theorem malloc_best_fit (large : 32 ≤ heapSize) (small : heapSize < 2 ^ 30) (run : TameRun (start heap heapSize) s)
    (positive : 1 ≤ size) (fits : size + sizeofListT ≤ heapSize) : ∃ k, LeastOrder size k ∧ BestFit s.buddy size k := by
  obtain ⟨⟨listed, blocks, layout, sized, serves⟩, heapSized⟩ := tameRun_good (start_good large small) large run
  have region : s.buddy.blockMaxSize = heapSize := heapSized
  have accepted : ¬(size = 0 ∨ size + sizeofListT > s.buddy.blockMaxSize) := by omega
  obtain ⟨k, f, order, roomy, holds, least, smallest, outcome⟩ := malloc_exact layout sized accepted
  have lowest : ∀ j < k, 2 ^ (minAllocLog2 + j) < size + sizeofListT := by
    intro j below
    have header : sizeofListT < size + sizeofListT := by omega
    exact getMinimumFittingOrder_least header (by omega) (order ▸ below)
  refine ⟨k, ⟨holds, lowest⟩, ?_⟩
  rcases outcome with ⟨last, none⟩ | ⟨inside, rest, o, m, taken, served, done⟩
  · unfold BestFit
    rw [none]
    refine ⟨rfl, fun j above below => (listIsEmpty_iff (layout.lists j below)).mpr ?_⟩
    simp [smallest j above (by omega)]
  · unfold BestFit
    rw [served]
    exact ⟨f, o, listed, _, rfl, cut_of_layout layout least inside smallest taken done⟩

/-- A byte out of the kernel's heap, where one block was given back and another is held. -/
theorem malloc_best_fit_kernel : ∃ s, TameRun (start blank 0x100000) s ∧ s.live = [⟨152, 8⟩] ∧
    ∃ k, LeastOrder 1 k ∧ BestFit s.buddy 1 k := by
  have final :
    ([.malloc 100, .malloc 8, .free ⟨24, 100⟩].foldlM (requestIf Tame) (start blank 0x100000)).map State.live =
      some [⟨152, 8⟩] := by decide +kernel
  obtain ⟨s, runs, live⟩ := Option.map_eq_some_iff.mp final
  have run : TameRun (start blank 0x100000) s := run_of_allowed runs
  exact ⟨s, run, live, malloc_best_fit (by decide) (by decide) run (by decide) (by decide)⟩

/-- The header of the second block of order 1, as a client of the first overwrites it. -/
def overwritten : ListT := ⟨.orders 1, .orders 1, 5, 1⟩

/-- A client that was given the largest request of all owns, by what it asked
for, the headers of the blocks behind. With one of them overwritten, the next
request is served by a block of another order. -/
theorem largest_request_misfits : ∃ s, Relation.ReflTransGen (fun s s' => ∃ call, request s call = some s')
    (start blank 0x100000) s ∧ ¬∃ k, LeastOrder 1 k ∧ BestFit s.buddy 1 k := by
  have final : ([.malloc (2 ^ 64 - 1), .write ⟨24, 2 ^ 64 - 1⟩ 8 overwritten].foldlM request
      (start blank 0x100000)).map (fun s => ((malloc s.buddy 1).2, ((malloc s.buddy 1).1.memory (.heap 32)).order)) =
        some (some 56, 5) := by decide +kernel
  obtain ⟨s, runs, shown⟩ := Option.map_eq_some_iff.mp final
  obtain ⟨served, header⟩ := Prod.mk.inj shown
  refine ⟨s, run_of_calls runs, ?_⟩
  rintro ⟨k, ⟨holds, lowest⟩, fit⟩
  have first : k = 1 := by
    have below := lowest 1
    have above : k ≠ 0 := by
      rintro rfl
      exact absurd holds (by decide)
    simp only [sizeofListT, minAllocLog2] at below
    omega
  unfold BestFit at fit
  rw [show malloc s.buddy 1 = ((malloc s.buddy 1).1, some 56) from Prod.ext rfl served] at fit
  obtain ⟨f, o, listed, listed', pointer, cut⟩ := fit
  obtain rfl : o = 32 := by
    simp only [sizeofListT] at pointer
    omega
  rw [cut.order, first] at header
  omega

end QuesOs.BuddyMalloc
