import QuesOs.BuddyMallocBytes
import QuesOs.BuddyMallocRuns

/-! What the BUDDY allocator writes. Over the bytes it does what it does over
the headers, and every header it writes lies outside the bytes behind the
header of each live block: those keep their values through any request and
through the release of any other block. -/
namespace QuesOs.BuddyMalloc
open LinkedRing DyadicTiling

/-- Headers do not overlap. -/
def Ptr.Aligned : Ptr → Prop
  | .heap o => 32 ∣ o
  | _ => True

/-- The bytes show these headers. -/
def Shows (b : Bytes) (m : Memory) : Prop := ∀ p, p.Aligned → b.header p = m p

/-- The header there keeps clear of the bytes behind the headers of the held blocks. -/
def Safe (held : List Piece) : Ptr → Prop
  | .heap o => 32 ∣ o ∧ ∀ p ∈ held, o + 18 ≤ p.offset + sizeofListT ∨ p.offset + 2 ^ p.exponent ≤ o
  | _ => True

/-- The bytes behind the headers of the held blocks are the same. -/
def Spares (held : List Piece) (b b' : Bytes) : Prop :=
  ∀ p ∈ held, ∀ i, p.offset + sizeofListT ≤ i → i < p.offset + 2 ^ p.exponent → b'.heap i = b.heap i

/-- From `b` the bytes have come to show `m`, sparing the held blocks. -/
structure Follows (held : List Piece) (b b' : Bytes) (m : Memory) : Prop where
  shows : Shows b' m
  spares : Spares held b b'

theorem Safe.aligned (safe : Safe held p) : p.Aligned := by
  cases p with
  | heap o => exact safe.1
  | null => trivial
  | orders i => trivial

theorem Follows.header (follows : Follows held b b' m) (safe : Safe held p) : b'.header p = m p :=
  follows.shows p safe.aligned

/-! ## One field -/

namespace Bytes

theorem pointer_congr {b b' : Bytes} (same : ∀ j, i ≤ j → j < i + 8 → b'.heap j = b.heap j) :
    b'.pointer i = b.pointer i := by
  have first := same i (by omega) (by omega)
  have all : ∀ k : Fin 8, b'.heap (i + k) = b.heap (i + k) := fun k => same _ (by omega) (by omega)
  simp only [pointer, first, all]

theorem number_congr {b b' : Bytes} (same : b'.heap i = b.heap i) : b'.number i = b.number i := by
  simp only [number, same]

@[simp] theorem pointer_storePointer (b : Bytes) (i : Nat) (value : Ptr) :
    (b.storePointer i value).pointer i = value := by
  have all : ∀ k : Fin 8, (b.storePointer i value).heap (i + k) = .pointer value k := by
    intro k
    simp [storePointer]
  have first : (b.storePointer i value).heap i = .pointer value 0 := all 0
  simp only [pointer, first]
  simp only [all, implies_true, if_true]

theorem storePointer_apart (apart : j < i ∨ i + 8 ≤ j) : (storePointer b i value).heap j = b.heap j := by
  have outside : ¬(i ≤ j ∧ j < i + 8) := by omega
  simp only [storePointer, outside, if_false]

theorem pointer_storePointer_apart (apart : i + 8 ≤ j ∨ j + 8 ≤ i) :
    (storePointer b i value).pointer j = b.pointer j :=
  pointer_congr fun _ _ _ => storePointer_apart (by omega)

theorem number_storePointer_apart (apart : i + 8 ≤ j ∨ j < i) : (storePointer b i value).number j = b.number j :=
  number_congr (storePointer_apart (by omega))

@[simp] theorem number_storeNumber (b : Bytes) (i value : Nat) : (b.storeNumber i value).number i = value % 2 ^ 8 := by
  simp [storeNumber, number]

theorem storeNumber_apart (apart : j ≠ i) : (storeNumber b i value).heap j = b.heap j :=
  Function.update_of_ne apart ..

theorem pointer_storeNumber_apart (apart : i < j ∨ j + 8 ≤ i) : (storeNumber b i value).pointer j = b.pointer j :=
  pointer_congr fun _ _ _ => storeNumber_apart (by omega)

theorem number_storeNumber_apart (apart : i ≠ j) : (storeNumber b i value).number j = b.number j :=
  number_congr (storeNumber_apart (Ne.symm apart))

end Bytes

/-- A write inside one header of the heap shows in that header only. -/
theorem Follows.write (follows : Follows held b b' m) (safe : Safe held (.heap o))
    (statics : b''.statics = b'.statics) (outside : ∀ j, j < o ∨ o + 18 ≤ j → b''.heap j = b'.heap j)
    (here : b''.header (.heap o) = value) : Follows held b b'' (Function.update m (.heap o) value) where
  shows := by
    intro p aligned
    by_cases same : p = .heap o
    · rw [same, Function.update_self, here]
    · rw [Function.update_of_ne same, ← follows.shows p aligned]
      cases p with
      | null => simp only [Bytes.header, statics]
      | orders i => simp only [Bytes.header, statics]
      | heap other =>
        have different : other ≠ o := fun equal => same (equal ▸ rfl)
        have apart : other + 32 ≤ o ∨ o + 32 ≤ other := by
          rcases Nat.lt_or_gt_of_ne different with below | above
          · exact .inl (multiple_room aligned safe.1 below)
          · exact .inr (multiple_room safe.1 aligned above)
        have unchanged : ∀ j, other ≤ j → j < other + 18 → b''.heap j = b'.heap j :=
          fun j _ _ => outside j (by omega)
        simp only [Bytes.header]
        rw [Bytes.pointer_congr fun j _ _ => unchanged j (by omega) (by omega),
          Bytes.pointer_congr fun j _ _ => unchanged j (by omega) (by omega),
          Bytes.number_congr (unchanged _ (by omega) (by omega)),
          Bytes.number_congr (unchanged _ (by omega) (by omega))]
  spares := by
    intro p member i above below
    have apart := safe.2 p member
    rw [outside i (by omega)]
    exact follows.spares p member i above below

/-- A header outside the heap is written as a whole. -/
theorem Follows.writeStatic (follows : Follows held b b' m) (static : ∀ o, p ≠ .heap o) (edit : ListT → ListT) :
    Follows held b { b' with statics := Function.update b'.statics p (edit (b'.statics p)) }
      (Function.update m p (edit (m p))) where
  shows := by
    have here : b'.statics p = m p := by
      cases p with
      | heap o => exact absurd rfl (static o)
      | null => exact follows.shows .null trivial
      | orders i => exact follows.shows (.orders i) trivial
    intro q aligned
    have before := follows.shows q aligned
    rw [here]
    cases q with
    | heap o =>
      rw [Function.update_of_ne (Ne.symm (static o)), ← before]
      rfl
    | null => by_cases same : Ptr.null = p <;> simp_all [Bytes.header]
    | orders i => by_cases same : Ptr.orders i = p <;> simp_all [Bytes.header]
  spares := follows.spares

section
variable (follows : Follows held b b' m) (safe : Safe held p)
include follows safe

theorem Follows.setPrev (value : Ptr) : Follows held b (b'.setPrev p value) (m.setPrev p value) := by
  cases p with
  | heap o =>
    refine follows.write safe rfl (fun j _ => Bytes.storePointer_apart (by omega)) ?_
    simp (disch := omega) [← follows.header safe, Bytes.header, Bytes.setPrev, Bytes.pointer_storePointer_apart,
      Bytes.number_storePointer_apart]
  | null => exact follows.writeStatic (by simp) fun node => { node with prev := value }
  | orders i => exact follows.writeStatic (by simp) fun node => { node with prev := value }

theorem Follows.setNext (value : Ptr) : Follows held b (b'.setNext p value) (m.setNext p value) := by
  cases p with
  | heap o =>
    refine follows.write safe rfl (fun j _ => Bytes.storePointer_apart (by omega)) ?_
    simp (disch := omega) [← follows.header safe, Bytes.header, Bytes.setNext, Bytes.pointer_storePointer_apart,
      Bytes.number_storePointer_apart]
  | null => exact follows.writeStatic (by simp) fun node => { node with next := value }
  | orders i => exact follows.writeStatic (by simp) fun node => { node with next := value }

theorem Follows.setOrder (value : Nat) : Follows held b (b'.setOrder p value) (m.setOrder p value) := by
  cases p with
  | heap o =>
    refine follows.write safe rfl (fun j _ => Bytes.storeNumber_apart (by omega)) ?_
    simp (disch := omega) [← follows.header safe, Bytes.header, Bytes.setOrder, Bytes.pointer_storeNumber_apart,
      Bytes.number_storeNumber_apart]
  | null => exact follows.writeStatic (by simp) fun node => { node with order := value % 2 ^ 8 }
  | orders i => exact follows.writeStatic (by simp) fun node => { node with order := value % 2 ^ 8 }

theorem Follows.setFree (byte : value < 2 ^ 8) : Follows held b (b'.setFree p value) (m.setFree p value) := by
  cases p with
  | heap o =>
    refine follows.write safe rfl (fun j _ => Bytes.storeNumber_apart (by omega)) ?_
    simpa (disch := omega) [← follows.header safe, Bytes.header, Bytes.setFree, Bytes.pointer_storeNumber_apart,
      Bytes.number_storeNumber_apart] using byte
  | null => exact follows.writeStatic (by simp) fun node => { node with free := value }
  | orders i => exact follows.writeStatic (by simp) fun node => { node with free := value }

end

/-! ## What lies clear of the held blocks -/

/-- Where a block begins there is room for a header. -/
theorem Layout.safe (layout : Layout m count listed hand held) (member : q ∈ whole count listed (hand ++ held)) :
    Safe held (.heap q.offset) := by
  have wide : ∀ p ∈ whole count listed (hand ++ held), 32 ∣ p.offset := fun p inside =>
    Dvd.dvd.trans (pow_dvd_pow 2 (layout.roomy p inside)) (layout.tiles.aligned p inside)
  refine ⟨wide q member, fun p taken => ?_⟩
  have inside : p ∈ whole count listed (hand ++ held) := .inr (List.mem_append_right _ taken)
  by_contra close
  rw [not_or] at close
  have above : p.offset < q.offset := by
    by_contra below
    rcases Nat.lt_or_ge q.offset p.offset with less | more
    · have := multiple_room (wide q member) (wide p inside) less
      omega
    · simp only [sizeofListT] at close
      omega
  exact layout.tiles.inside_not_begin inside member above (by omega) rfl

/-- So it is for all that is on a list. -/
theorem Layout.safe_listed (layout : Layout m count listed hand held) (small : k < count)
    (member : p ∈ Ptr.orders k :: (listed k).map .heap) : Safe held p := by
  rcases List.mem_cons.mp member with rfl | node
  · trivial
  · obtain ⟨o, here, rfl⟩ := List.mem_map.mp node
    exact layout.safe (q := block o k) (.inl (mem_freePieces.mpr ⟨small, here⟩))

/-! ## `buddyBTree.c` -/

theorem Follows.initializeList (follows : Follows held b b' m) :
    Follows held b (b'.initializeList (.orders i)) (initializeList m (.orders i)) :=
  (follows.setPrev (p := .orders i) trivial _).setNext (p := .orders i) trivial _

theorem Follows.pushToList (follows : Follows held b b' m) (list : Safe held (.orders k)) (entry : Safe held node)
    (last : Safe held (m (.orders k)).prev) :
    Follows held b (b'.pushToList (.orders k) node) (pushToList m (.orders k) node) := by
  unfold Bytes.pushToList BuddyMalloc.pushToList
  rw [follows.header list]
  exact (((follows.setPrev entry _).setNext entry _).setNext last _).setPrev list _

theorem Follows.removeFromList (follows : Follows held b b' m) (entry : Safe held node)
    (before : Safe held (m node).prev) (after : Safe held (m node).next) :
    Follows held b (b'.removeFromList node) (removeFromList m node) := by
  unfold Bytes.removeFromList BuddyMalloc.removeFromList
  rw [follows.header entry]
  exact (follows.setNext before _).setPrev after _

/-- Putting the block in hand on its list. -/
theorem Follows.put (follows : Follows held b b' m) (layout : Layout m count listed (block o k :: hand) held) :
    Follows held b (b'.pushToList (.orders k) (.heap o)) (BuddyMalloc.pushToList m (.orders k) (.heap o)) := by
  have inHand : block o k ∈ whole count listed (block o k :: hand ++ held) := .inr (by simp)
  have small := layout.order_lt inHand
  exact follows.pushToList trivial (layout.safe inHand)
    (layout.safe_listed small (listed_prev_mem (layout.lists k small)))

/-- Taking a free block off its list. -/
theorem Follows.lift (follows : Follows held b b' m) (layout : Layout m count listed hand held) (small : k < count)
    (member : o ∈ listed k) :
    Follows held b (b'.removeFromList (.heap o)) (BuddyMalloc.removeFromList m (.heap o)) := by
  have near := listed_near (layout.lists k small) (List.mem_map_of_mem member)
  exact follows.removeFromList (layout.safe (q := block o k) (.inl (mem_freePieces.mpr ⟨small, member⟩)))
    (layout.safe_listed small near.1) (layout.safe_listed small near.2)

/-! ## `malloc` -/

theorem Bytes.setOrder_byte (b : Bytes) (p : Ptr) : b.setOrder p (k + 1 + 2 ^ 8 - 1) = b.setOrder p k := by
  have wraps : UInt8.ofNat (k + 1 + 2 ^ 8 - 1) = UInt8.ofNat k := by
    apply UInt8.toNat_inj.mp
    rw [UInt8.toNat_ofNat', UInt8.toNat_ofNat']
    omega
  cases p with
  | heap o => simp only [setOrder, storeNumber, wraps]
  | null => simp only [setOrder, BuddyMalloc.setOrder_byte]
  | orders i => simp only [setOrder, BuddyMalloc.setOrder_byte]

theorem Follows.splitRound (follows : Follows held b b' m) (layout : Layout m count listed [block o (k + 1)] held)
    (roomy : 1 ≤ k) :
    Follows held b ((b'.setOrder (.heap o) k).addNodeToOrder (.orders k) (.heap (o + 2 ^ (minAllocLog2 + k))) k)
      (addNodeToOrder (m.setOrder (.heap o) k) (.orders k) (.heap (o + 2 ^ (minAllocLog2 + k))) k) := by
  have halves := layout.halve roomy
  have lower := halves.safe (q := block o k) (.inr (by simp))
  have upper := halves.safe (q := block (o + 2 ^ (minAllocLog2 + k)) k) (.inr (by simp))
  have flagged : 1 < 2 ^ 8 := by decide
  exact (((follows.setOrder lower k).setOrder upper k).setFree upper flagged).put
    ((halves.perm (List.Perm.swap ..)).flag 1)

theorem Follows.splitLoop (rounds : Nat) (follows : Follows held b b' m)
    (layout : Layout m count listed [block o (k + rounds)] held) (roomy : 1 ≤ k) :
    Follows held b (b'.splitLoop o rounds (k + rounds)) (splitLoop m o rounds (k + rounds)) := by
  induction rounds generalizing m b' listed with
  | zero => exact follows
  | succ rounds ih =>
    obtain ⟨middle, sum⟩ : ∃ middle, middle = k + rounds := ⟨_, rfl⟩
    rw [← sum] at ih
    rw [← Nat.add_assoc, ← sum] at layout ⊢
    have roomy' : 1 ≤ middle := by omega
    have inHand : block o (middle + 1) ∈ whole count listed ([block o (middle + 1)] ++ held) := .inr (by simp)
    have here : Safe held (.heap o) := layout.safe inHand
    have order := layout.order_eq inHand
    have byte : middle % 2 ^ 8 = middle := by
      have small := layout.order_lt inHand
      have few := layout.few
      simp only [maxBlockCount, maxAllocLog2, minAllocLog2] at few
      omega
    have halved := follows.setOrder here middle
    rw [BuddyMalloc.splitLoop, Bytes.splitLoop, follows.header here, order, Bytes.setOrder_byte, setOrder_byte]
    simp only [Nat.add_sub_cancel, getBuddyBlock, halved.header here, order_setOrder, if_true, byte,
      upper_offset layout]
    exact ih (follows.splitRound layout roomy') (splitRound_spec layout roomy')

theorem getFreeBlockLoop_congr {b b' : Buddy} (count : b.currentBlocks = b'.currentBlocks)
    (same : ∀ i, b.memory (.orders i) = b'.memory (.orders i)) (steps : Nat) :
    getFreeBlockLoop b steps f = getFreeBlockLoop b' steps f := by
  induction steps generalizing f with
  | zero => rfl
  | succ steps ih =>
    rw [getFreeBlockLoop, getFreeBlockLoop, listIsEmpty, listIsEmpty, ← count, same, ih]

/-- The search reads the sentinels only. -/
theorem getFreeBlock_congr {b b' : Buddy} (count : b.currentBlocks = b'.currentBlocks)
    (same : ∀ i, b.memory (.orders i) = b'.memory (.orders i)) (k : Nat) : getFreeBlock b k = getFreeBlock b' k := by
  rw [getFreeBlock, getFreeBlock, getFreeBlockLoop_congr count same, count]

/-- A request over the bytes goes as the one over the headers. -/
theorem malloc_follows (shows : Shows bytes b.memory)
    (layout : Layout b.memory b.currentBlocks listed [] held) (sized : Sized b) (fits : size + sizeofListT < 2 ^ 64) :
    ∃ bytes', (ByteBuddy.malloc ⟨bytes, b.currentBlocks, b.blockMaxSize⟩ size) =
        (⟨bytes', (malloc b size).1.currentBlocks, (malloc b size).1.blockMaxSize⟩, (malloc b size).2) ∧
      Follows held bytes bytes' (malloc b size).1.memory := by
  have stays : Follows held bytes bytes b.memory := ⟨shows, fun _ _ _ _ _ => rfl⟩
  have sentinels : ∀ i, bytes.header (.orders i) = b.memory (.orders i) := fun i => shows _ trivial
  have same : ∀ k, getFreeBlock (ByteBuddy.headers ⟨bytes, b.currentBlocks, b.blockMaxSize⟩) k = getFreeBlock b k :=
    getFreeBlock_congr rfl sentinels
  unfold ByteBuddy.malloc malloc
  rw [Nat.mod_eq_of_lt fits]
  by_cases refused : size = 0 ∨ size + sizeofListT > b.blockMaxSize
  · simp only [refused, if_true]
    exact ⟨bytes, rfl, stays⟩
  obtain ⟨k, -, order, roomy, low, holds⟩ := lowestFittingOrder_spec sized layout.few refused
  obtain ⟨f, found, above, below, -, nonempty⟩ := getFreeBlock_spec layout low
  simp only [refused, if_false, order, same, found, sentinels]
  by_cases inside : f < b.currentBlocks
  · obtain ⟨before, o, split⟩ : ∃ before o, listed f = before ++ [o] :=
      ⟨_, _, (List.dropLast_append_getLast (nonempty inside)).symm⟩
    have onList := layout.lists f inside
    rw [split, List.map_append] at onList
    have back : (b.memory (.orders f)).prev = .heap o := by simpa using listed_prev onList
    have lifted := layout.lift inside split
    obtain ⟨rounds, rfl⟩ : ∃ rounds, f = k + rounds := ⟨f - k, by omega⟩
    have off := stays.lift layout inside (o := o) (by simp [split])
    have divided := off.splitLoop rounds lifted roomy
    have done := splitLoop_spec rounds lifted roomy
    have used : 0 < 2 ^ 8 := by decide
    have taken := divided.setFree (done.safe (q := block o k) (.inr (by simp))) used
    have popped : popFromList b.memory (.orders (k + rounds)) = (removeFromList b.memory (.heap o), .heap o) := by
      simp [popFromList, back]
    have popped' : bytes.popFromList (.orders (k + rounds)) = (bytes.removeFromList (.heap o), .heap o) := by
      simp [Bytes.popFromList, sentinels, back]
    simp only [back, popped, popped', ne_eq, reduceCtorEq, not_false_eq_true, true_or, if_true,
      Nat.add_sub_cancel_left]
    exact ⟨_, rfl, taken⟩
  · obtain rfl : f = b.currentBlocks := by omega
    simpa [layout.beyond] using stays

/-! ## `free` -/

/-- Below the top order a header stands where the buddy begins. -/
theorem Layout.safe_buddy (layout : Layout m count listed [block o k] held) (below : k + 1 < count) :
    Safe held (.heap (o ^^^ 2 ^ (minAllocLog2 + k))) := by
  have top : (block o k).exponent < count + 3 := by
    simp only [block, minAllocLog2]
    omega
  obtain ⟨q, member, begins, -⟩ := layout.tiles.begins_at_buddy (.inr (List.mem_cons_self ..)) top
  have there := layout.safe member
  rwa [begins] at there

/-- Merging over the bytes goes as over the headers. -/
theorem Follows.mergeLoop (rounds : Nat) (follows : Follows held b b' m)
    (layout : Layout m buddy.currentBlocks listed [block o k] held) (flag : (m (.heap o)).free = 1)
    (merged : mergeLoop buddy rounds m o = some (m', o')) :
    ∃ b'', Bytes.mergeLoop buddy.currentBlocks rounds b' o = some (b'', o') ∧ Follows held b b'' m' := by
  induction rounds generalizing m b' o k listed with
  | zero => cases merged
  | succ rounds ih =>
    have inHand : block o k ∈ whole buddy.currentBlocks listed ([block o k] ++ held) := .inr (by simp)
    have here : Safe held (.heap o) := layout.safe inHand
    have order := layout.order_eq inHand
    have small := layout.order_lt inHand
    rw [BuddyMalloc.mergeLoop] at merged
    rw [Bytes.mergeLoop]
    simp only [getBuddyBlock, order, follows.header here] at merged ⊢
    by_cases top : k = buddy.currentBlocks - 1
    · simp only [top, ne_eq, not_true, false_and, if_false, Option.some.injEq, Prod.mk.injEq] at merged ⊢
      obtain ⟨rfl, rfl⟩ := merged
      exact ⟨b', ⟨rfl, rfl⟩, follows⟩
    · rw [follows.header (layout.safe_buddy (by omega))]
      by_cases merges : Merges buddy m o k
      · rw [if_pos merges] at merged ⊢
        obtain ⟨parent, listed', address, headed, flagged, joined⟩ := mergeRound_spec layout flag merges
        have safe : Safe held (.heap parent) := joined.safe (.inr (List.mem_cons_self ..))
        have free := buddy_found layout (by omega) merges.2.1 merges.2.2
        have off : Follows held b (b'.removeFromList (.heap (o ^^^ 2 ^ (minAllocLog2 + k))))
            (BuddyMalloc.removeFromList m (.heap (o ^^^ 2 ^ (minAllocLog2 + k)))) :=
          follows.lift layout small (mem_freePieces.mp free).2
        have address' :
          getBlockAddress (b'.removeFromList (.heap (o ^^^ 2 ^ (minAllocLog2 + k)))).header o = parent := by
          rw [← address, getBlockAddress, off.header here, getBlockAddress]
        rw [address, removeFromList_order, headed] at merged
        rw [address', off.header safe, removeFromList_order, headed]
        exact ih (off.setOrder safe _) joined (by simpa using flagged) merged
      · rw [if_neg merges] at merged ⊢
        cases merged
        exact ⟨b', rfl, follows⟩

/-- A release over the bytes goes as the one over the headers. -/
theorem free_follows (shows : Shows bytes b.memory)
    (layout : Layout b.memory b.currentBlocks listed [] held) (released : held.Perm (block o k :: rest))
    (freed : free b (some (o + sizeofListT)) = some b') :
    ∃ bytes', ByteBuddy.free ⟨bytes, b.currentBlocks, b.blockMaxSize⟩ (some (o + sizeofListT)) =
        some ⟨bytes', b'.currentBlocks, b'.blockMaxSize⟩ ∧ Follows rest bytes bytes' b'.memory := by
  have stays : Follows rest bytes bytes b.memory := ⟨shows, fun _ _ _ _ _ => rfl⟩
  have taken : Layout (b.memory.setFree (.heap o) 1) b.currentBlocks listed [block o k] rest :=
    (layout.takeBack released).flag 1
  have here : Safe rest (.heap o) := taken.safe (.inr (List.mem_cons_self ..))
  have marked : Follows rest bytes (bytes.setFree (.heap o) 1) (b.memory.setFree (.heap o) 1) :=
    stays.setFree here (by decide)
  have flagged : (b.memory.setFree (.heap o) 1 (.heap o)).free = 1 := by simp
  obtain ⟨m, o', k', listed', merged, inHand, -, -⟩ :=
    mergeLoop_spec b (b.currentBlocks + 1) taken flagged (by omega)
  obtain ⟨bytes', merged', done⟩ := marked.mergeLoop _ taken flagged merged
  have order := inHand.order_eq (.inr (List.mem_cons_self ..))
  have last : Safe rest (.heap o') := inHand.safe (.inr (List.mem_cons_self ..))
  unfold free at freed
  dsimp only at freed
  rw [Nat.add_sub_cancel, merged] at freed
  simp only [order, Option.some.injEq] at freed
  rw [← freed]
  have put := done.put inHand
  unfold ByteBuddy.free
  dsimp only
  rw [Nat.add_sub_cancel, merged']
  simp only [done.header last, order]
  exact ⟨_, rfl, put⟩

/-! ## Runs -/

/-- The bytes show the headers of the other state; the rest is the same. -/
inductive Mirrors : ByteState → State → Prop where
  | intro {bytes : Bytes} {b : Buddy} {live : List Held} (shows : Shows bytes b.memory) :
    Mirrors ⟨⟨bytes, b.currentBlocks, b.blockMaxSize⟩, live⟩ ⟨b, live⟩

/-- The bytes that were asked for keep their values. -/
def Untouched (kept : List Held) (b b' : Bytes) : Prop :=
  ∀ held ∈ kept, ∀ i < held.size, b'.heap (held.pointer + i) = b.heap (held.pointer + i)

theorem Spares.untouched (spares : Spares blocks b b') (serves : List.Forall₂ Serves live blocks) :
    Untouched live b b' := by
  intro held member i inside
  obtain ⟨p, rest, ⟨pointer, room⟩, split, -⟩ := serves_erase serves member
  rw [pointer]
  exact spares p (split.mem_iff.mpr (List.mem_cons_self ..)) _ (by omega) (by omega)

theorem malloc_mirrors (mirrors : Mirrors t s) (good : Good s) (ran : t.perform (.malloc size) = some t') :
    ∃ s', perform s (.malloc size) = some s' ∧ Mirrors t' s' ∧ Untouched t.live t.buddy.bytes t'.buddy.bytes := by
  obtain ⟨listed, blocks, layout, sized, serves⟩ := good
  cases mirrors with
  | @intro bytes b live shows =>
    simp only [ByteState.perform] at ran
    simp only [perform]
    by_cases fits : size + sizeofListT < 2 ^ 64
    · rw [if_pos fits] at ran ⊢
      obtain ⟨bytes', same, follows⟩ := malloc_follows shows layout sized fits
      rw [same] at ran
      have untouched := follows.spares.untouched serves
      have shows' := follows.shows
      generalize malloc b size = result at ran shows' ⊢
      obtain ⟨b', pointer⟩ := result
      cases pointer with
      | none =>
        cases ran
        exact ⟨_, rfl, .intro shows', untouched⟩
      | some pointer =>
        cases ran
        exact ⟨_, rfl, .intro shows', untouched⟩
    · rw [if_neg fits] at ran
      cases ran

theorem free_mirrors (mirrors : Mirrors t s) (good : Good s) (ran : t.perform (.free held) = some t') :
    ∃ s', perform s (.free held) = some s' ∧ Mirrors t' s' ∧ Untouched t'.live t.buddy.bytes t'.buddy.bytes := by
  obtain ⟨listed, blocks, layout, sized, serves⟩ := good
  cases mirrors with
  | @intro bytes b live shows =>
    simp only [ByteState.perform] at ran
    simp only [perform]
    by_cases member : held ∈ live
    · rw [if_pos member] at ran ⊢
      obtain ⟨p, rest, ⟨pointer, room⟩, split, left⟩ := serves_erase serves member
      have shape : p = block p.offset (b.memory (.heap p.offset)).order :=
        Piece.ext rfl (layout.header p (.inr (split.mem_iff.mpr (List.mem_cons_self ..))))
      rw [shape] at split
      obtain ⟨m, listed', freed, -⟩ := free_spec layout split
      obtain ⟨bytes', freed', follows⟩ := free_follows shows layout split freed
      rw [pointer, freed'] at ran
      cases ran
      rw [pointer, freed]
      exact ⟨_, rfl, .intro follows.shows, follows.spares.untouched left⟩
    · rw [if_neg member] at ran
      cases ran

/-- A byte in no header shows in none. -/
theorem Shows.gap (shows : Shows b m) (gap : ∀ o, 32 ∣ o → x < o ∨ o + 18 ≤ x) (value : Byte) :
    Shows { b with heap := Function.update b.heap x value } m := by
  intro p aligned
  rw [← shows p aligned]
  cases p with
  | null => rfl
  | orders i => rfl
  | heap o =>
    have outside := gap o aligned
    have same : ∀ j, o ≤ j → j < o + 18 →
      ({ b with heap := Function.update b.heap x value } : Bytes).heap j = b.heap j :=
      fun j _ _ => Function.update_of_ne (by omega) ..
    simp only [Bytes.header]
    rw [Bytes.pointer_congr fun j _ _ => same j (by omega) (by omega),
      Bytes.pointer_congr fun j _ _ => same j (by omega) (by omega),
      Bytes.number_congr (same _ (by omega) (by omega)), Bytes.number_congr (same _ (by omega) (by omega))]

/-- The client's byte shows as a write of the header around it, if there is one. -/
theorem write_mirrors (mirrors : Mirrors t s) (good : Good s) (ran : t.perform (.write held byte value) = some t') :
    ∃ s', Run s s' ∧ Mirrors t' s' := by
  obtain ⟨listed, blocks, layout, sized, serves⟩ := good
  cases mirrors with
  | @intro bytes b live shows =>
    simp only [ByteState.perform] at ran
    by_cases allowed : held ∈ live ∧ byte < held.size
    · rw [if_pos allowed] at ran
      cases ran
      obtain ⟨p, rest, ⟨pointer, room⟩, split, -⟩ := serves_erase serves allowed.1
      have begins : Safe blocks (.heap p.offset) := layout.safe (.inr (split.mem_iff.mpr (List.mem_cons_self ..)))
      obtain ⟨j, aligned⟩ := begins.1
      obtain ⟨x, here⟩ : ∃ x, x = held.pointer + byte := ⟨_, rfl⟩
      simp only [sizeofListT] at pointer room
      rw [← here]
      by_cases inHeader : x < 32 * (x / 32) + 18
      · have follows : Follows [] bytes bytes b.memory := ⟨shows, fun _ _ _ _ _ => rfl⟩
        have around : Safe [] (.heap (32 * (x / 32))) := ⟨Nat.dvd_mul_right .., by simp⟩
        let bytes' : Bytes := { bytes with heap := Function.update bytes.heap x value }
        have outside : ∀ i, i < 32 * (x / 32) ∨ 32 * (x / 32) + 18 ≤ i → bytes'.heap i = bytes.heap i :=
          fun i _ => Function.update_of_ne (by omega) ..
        let shown := bytes'.header (.heap (32 * (x / 32)))
        let m := Function.update b.memory (.heap (32 * (x / 32))) shown
        have written : Follows [] bytes bytes' m := follows.write around rfl outside rfl
        refine ⟨⟨{ b with memory := m }, live⟩, .single ⟨.write held (32 * (x / 32) - held.pointer) shown, ?_⟩,
          .intro (b := { b with memory := m }) written.shows⟩
        simp only [perform]
        rw [if_pos ⟨allowed.1, by omega⟩, Nat.add_sub_of_le (by omega)]
      · refine ⟨_, .refl, .intro (shows.gap ?_ value)⟩
        rintro o ⟨k, rfl⟩
        omega
    · rw [if_neg allowed] at ran
      cases ran

/-- Each call over the bytes is none or one over the headers. -/
theorem perform_mirrors (mirrors : Mirrors t s) (good : Good s) (ran : t.perform call = some t') :
    ∃ s', Run s s' ∧ Mirrors t' s' := by
  cases call with
  | malloc size =>
    obtain ⟨s', called, mirrors', -⟩ := malloc_mirrors mirrors good ran
    exact ⟨s', .single ⟨_, called⟩, mirrors'⟩
  | free held =>
    obtain ⟨s', called, mirrors', -⟩ := free_mirrors mirrors good ran
    exact ⟨s', .single ⟨_, called⟩, mirrors'⟩
  | write held byte value => exact write_mirrors mirrors good ran

theorem run_mirrors (mirrors : Mirrors t s) (good : Good s) (run : ByteState.Run t t') :
    ∃ s', Run s s' ∧ Mirrors t' s' := by
  induction run with
  | refl => exact ⟨s, .refl, mirrors⟩
  | tail _ last ih =>
    obtain ⟨call, ran⟩ := last
    obtain ⟨s', before, mirrors'⟩ := ih
    obtain ⟨s'', after, mirrors''⟩ := perform_mirrors mirrors' (run_good good before) ran
    exact ⟨s'', before.trans after, mirrors''⟩

/-! ## The start -/

theorem Follows.initializeOrders (n : Nat) (follows : Follows held b b' m) :
    Follows held b (b'.initializeOrders n) (initializeOrders m n) := by
  induction n with
  | zero => exact follows
  | succ n ih =>
    have byte : 0 < 2 ^ 8 := by decide
    exact ((ih.initializeList (i := n)).setFree (p := .orders n) trivial byte).setOrder (p := .orders n) trivial n

theorem start_mirrors (large : 32 ≤ heapSize) (small : heapSize < 2 ^ 30) (heap : Nat → Byte) :
    ∃ headers, Mirrors (.start heap heapSize) (start headers heapSize) := by
  let bytes : Bytes := ⟨heap, fun _ => ⟨.null, .null, 0, 0⟩⟩
  let headers : Nat → ListT := fun o => bytes.header (.heap o)
  have stays : Follows [] bytes bytes (zeroed headers) := by
    refine ⟨fun p _ => ?_, fun _ _ _ _ _ => rfl⟩
    cases p <;> rfl
  have counted := initializeMemoryManager_count (m := zeroed headers) large small
  have bottom : 5 ≤ Nat.log2 heapSize := (Nat.le_log2 (by omega)).mpr large
  obtain ⟨n, count⟩ : ∃ n, (initializeMemoryManager (zeroed headers) heapSize).currentBlocks = n + 1 :=
    ⟨Nat.log2 heapSize - 4, by omega⟩
  have ready := stays.initializeOrders (n + 1)
  have first : Safe [] (.heap 0) := ⟨Nat.dvd_zero _, by simp⟩
  have byte : 1 < 2 ^ 8 := by decide
  have last : Safe [] (initializeOrders (zeroed headers) (n + 1) (.orders n)).prev := by
    have alone := listed_prev_mem (initializeOrders_listed (m := zeroed headers) (n + 1) (Nat.lt_succ_self n))
    rw [List.mem_singleton.mp alone]
    trivial
  have listed := ((ready.setOrder first n).setFree first byte).pushToList (k := n) trivial first (by simpa using last)
  have shows : Shows (ByteState.start heap heapSize).buddy.bytes (start headers heapSize).buddy.memory := by
    simp only [initializeMemoryManager] at count
    simp only [start, initializeMemoryManager, ByteState.start, ByteBuddy.initializeMemoryManager, count,
      Nat.add_sub_cancel]
    exact listed.shows
  exact ⟨headers, .intro shows⟩

/-- **A call leaves the live blocks alone**: a request or a release changes no
byte that was asked for in a block live before and after it. -/
theorem calls_spare_live (large : 32 ≤ heapSize) (small : heapSize < 2 ^ 30)
    (run : ByteState.Run (.start heap heapSize) t) (ran : t.perform call = some t')
    (request : ∀ held byte value, call ≠ .write held byte value) (before : held ∈ t.live) (after : held ∈ t'.live)
    (inside : i < held.size) :
    t'.buddy.bytes.heap (held.pointer + i) = t.buddy.bytes.heap (held.pointer + i) := by
  obtain ⟨headers, begins⟩ := start_mirrors large small heap
  have good := @start_good _ headers large small
  obtain ⟨s, reached, mirrors⟩ := run_mirrors begins good run
  have good' := run_good good reached
  cases call with
  | malloc size =>
    obtain ⟨-, -, -, untouched⟩ := malloc_mirrors mirrors good' ran
    exact untouched held before i inside
  | free freed =>
    obtain ⟨-, -, -, untouched⟩ := free_mirrors mirrors good' ran
    exact untouched held after i inside
  | write other byte value => exact absurd rfl (request other byte value)

/-- A heap of zeros. -/
def empty : Nat → Byte := fun _ => .number 0

/-- Out of 256 bytes: a byte written into the first block outlives the request
for the second, which splits the rest. -/
theorem calls_spare_live_small : ∃ t t', ByteState.Run (.start empty 256) t ∧ t.perform (.malloc 8) = some t' ∧
    ⟨24, 100⟩ ∈ t.live ∧ ⟨24, 100⟩ ∈ t'.live ∧ t.buddy.bytes.heap (24 + 99) = .number 7 ∧
    t'.buddy.bytes.heap (24 + 99) = t.buddy.bytes.heap (24 + 99) := by
  have first : ([.malloc 100, .write ⟨24, 100⟩ 99 (.number 7)].foldlM ByteState.perform (.start empty 256)).map
      (fun t => (t.live, t.buddy.bytes.heap (24 + 99))) = some ([⟨24, 100⟩], .number 7) := by decide +kernel
  have second : ([.malloc 100, .write ⟨24, 100⟩ 99 (.number 7)].foldlM ByteState.perform (.start empty 256)).bind
      (fun t => (t.perform (.malloc 8)).map ByteState.live) = some [⟨152, 8⟩, ⟨24, 100⟩] := by decide +kernel
  obtain ⟨t, runs, seen⟩ := Option.map_eq_some_iff.mp first
  rw [runs, Option.bind_some] at second
  obtain ⟨t', ran, live'⟩ := Option.map_eq_some_iff.mp second
  obtain ⟨live, value⟩ := Prod.mk.inj seen
  have before : ⟨24, 100⟩ ∈ t.live := by simp [live]
  have after : ⟨24, 100⟩ ∈ t'.live := by simp [live']
  exact ⟨t, t', run_of_calls runs, ran, before, after, value,
    calls_spare_live (by decide) (by decide) (run_of_calls runs) ran (by simp) before after (by decide)⟩

end QuesOs.BuddyMalloc
