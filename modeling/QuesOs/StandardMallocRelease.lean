import QuesOs.StandardMallocTaking

/-! `free` against the row of blocks. The search stops at the list node that
precedes the block, going round; linking joins the block with whichever
neighbours in the row are free. -/
namespace QuesOs.StandardMalloc
open LinkedRing BlockRow Heap

/-- A list of blocks that does not end, or does not begin, with a free one. -/
def EndsHeld (A : List Block) : Prop := ∀ a ∈ A.getLast?, a.free = false
def BeginsHeld (B : List Block) : Prop := ∀ b ∈ B.head?, b.free = false

/-- What releasing the `n` units at `f`, between `A` and `B`, makes of the row. -/
inductive Released (f n : Nat) : List Block → List Block → List Block → Prop where
  | alone {A B : List Block} : EndsHeld A → BeginsHeld B →
      Released f n A B (A ++ ⟨f, n, true⟩ :: B)
  | next {A B : List Block} {s k : Nat} : EndsHeld A →
      Released f n A (⟨s, k, true⟩ :: B) (A ++ ⟨f, n + k, true⟩ :: B)
  | prev {A B : List Block} {a m : Nat} : BeginsHeld B →
      Released f n (A ++ [⟨a, m, true⟩]) B (A ++ ⟨a, m + n, true⟩ :: B)
  | both {A B : List Block} {a m s k : Nat} :
      Released f n (A ++ [⟨a, m, true⟩]) (⟨s, k, true⟩ :: B) (A ++ ⟨a, m + (n + k), true⟩ :: B)

section Search
variable {h : Heap} {A B : List Block} {f n : Nat}
variable (layout : Layout h (A ++ ⟨f, n, false⟩ :: B))
include layout

theorem below_released (member : a ∈ freeStarts A) : a < f := by
  obtain ⟨k, inside⟩ := mem_freeStarts.mp member
  have ended := row_before layout.tiles inside
  have wide := (row_within layout.tiles (List.mem_append_left _ inside)).2.1
  simp only at ended wide
  omega

theorem above_released (member : b ∈ freeStarts B) : plus f n ≤ b := by
  obtain ⟨k, inside⟩ := mem_freeStarts.mp member
  exact row_after layout.tiles inside

theorem released_positive : 1 ≤ n :=
  (units_le layout (b := ⟨f, n, false⟩) (by simp)).1

/-- Read from the released block, the list climbs above it, wraps, and climbs
up to it from below. -/
theorem lap_released : Threaded h.next (freeStarts B ++ freeStarts A) := by
  have ring := layout.ring
  rwa [freeStarts_append, freeStarts_cons_held, threaded_swap] at ring

theorem lap_nodup : (freeStarts B ++ freeStarts A).Nodup := by
  have nodup := freeStarts_nodup layout.tiles
  rw [freeStarts_append, freeStarts_cons_held] at nodup
  exact List.perm_append_comm.nodup_iff.mp nodup

/-- Along the lap, neighbours lie on one side of the released block in
ascending order, or are the wrap from above it to below it. -/
theorem lap_neighbours (split : freeStarts B ++ freeStarts A = passed ++ x :: y :: left) :
    (f < x ∧ x < y) ∨ (x < y ∧ y < f) ∨ (f < x ∧ y < f) := by
  have positive := released_positive layout
  have sorted := freeStarts_sorted layout.tiles
  rw [freeStarts_append, freeStarts_cons_held, List.pairwise_append] at sorted
  have related : (freeStarts B ++ freeStarts A).Pairwise fun x y =>
      (f < x ∧ x < y) ∨ (x < y ∧ y < f) ∨ (f < x ∧ y < f) := by
    refine List.pairwise_append.mpr ⟨?_, ?_, ?_⟩
    · refine sorted.2.1.imp_of_mem fun inB _ ordered => .inl ⟨?_, ordered⟩
      have := above_released layout inB
      simp only [plus, sizeofHeader] at this
      omega
    · exact sorted.1.imp_of_mem fun _ inA ordered => .inr (.inl ⟨ordered, below_released layout inA⟩)
    · intro b inB a inA
      have := above_released layout inB
      have := below_released layout inA
      simp only [plus, sizeofHeader] at *
      exact .inr (.inr ⟨by omega, by omega⟩)
  rw [split] at related
  exact (List.pairwise_cons.mp (List.pairwise_append.mp related).2.1).1 y (by simp)

/-- The search passes over every node of the lap but the last. -/
theorem search_lap (cur : Nat) (todo passed : List Nat) (x steps : Nat)
    (split : freeStarts B ++ freeStarts A = passed ++ x :: todo)
    (ends : (x :: todo).getLast? = some cur) (room : todo.length < steps)
    (answer : search h f 1 cur = some position) : search h f steps x = some position := by
  obtain ⟨steps, rfl⟩ : ∃ k, steps = k + 1 := ⟨steps - 1, by omega⟩
  induction todo generalizing passed x steps with
  | nil =>
    obtain rfl : x = cur := by simpa using ends
    simp only [search] at answer ⊢
    split_ifs at answer ⊢ <;> simp_all
  | cons y todo ih =>
    have link : h.next x = y := threaded_link (split ▸ lap_released layout)
    have order := lap_neighbours layout split
    have notBetween : ¬(f > x ∧ f < h.next x) := by omega
    have notListed : ¬(x = f ∨ h.next x = f) := by omega
    have notOutside : ¬(x ≥ h.next x ∧ (f > x ∨ f < h.next x)) := by omega
    rw [search, if_neg notBetween, if_neg notListed, if_neg notOutside, link]
    obtain ⟨steps, rfl⟩ : ∃ k, steps = k + 1 := ⟨steps - 1, by simp at room; omega⟩
    refine ih (passed ++ [x]) y (by simpa using split) ?_ steps (by simpa using room)
    simpa using ends

/-- At the last node of the lap the search stops, and stops to link. -/
theorem search_last (split : freeStarts B ++ freeStarts A = lap ++ [cur]) :
    search h f 1 cur = some (.outside cur) ∨
    (search h f 1 cur = some (.between cur) ∧ cur ∈ freeStarts A ∧ h.next cur ∈ freeStarts B) := by
  have positive := released_positive layout
  have apart : ∀ b ∈ freeStarts B, f < b := by
    intro b member
    have := above_released layout member
    simp only [plus, sizeofHeader] at this
    omega
  have sorted := freeStarts_sorted layout.tiles
  rw [freeStarts_append, freeStarts_cons_held, List.pairwise_append] at sorted
  have ring := lap_released layout
  have first : ∀ y rest, lap ++ [cur] = y :: rest → h.next cur = y := by
    intro y rest same
    rw [split] at ring
    cases lap with
    | nil =>
      simp only [List.nil_append, List.cons.injEq] at same ring
      rw [threaded_singleton] at ring
      exact ring.trans same.1
    | cons z lap =>
      simp only [List.cons_append, List.cons.injEq] at same ring
      exact (threaded_close ring).trans same.1
  have inLap : cur ∈ freeStarts B ++ freeStarts A := by simp [split]
  have turned : h.next cur ∈ freeStarts B ++ freeStarts A := threaded_closed ring inLap
  simp only [search]
  rcases List.eq_nil_or_concat (freeStarts A) with noneBelow | ⟨below, last, some⟩
  · -- Every free block lies above: `cur` is the highest, its successor the lowest.
    rw [noneBelow, List.append_nil] at split inLap turned
    have lowest : h.next cur ≤ cur := by
      cases lap with
      | nil => rw [first cur [] rfl]
      | cons z lap =>
        rw [first z (lap ++ [cur]) rfl]
        rw [split, List.cons_append, List.pairwise_cons] at sorted
        exact Nat.le_of_lt (sorted.2.1.1 cur (by simp))
    have := apart _ inLap
    have := apart _ turned
    rw [if_neg (by omega), if_neg (by omega), if_pos (by omega)]
    exact .inl rfl
  · have isLast : last = cur := by
      rw [some, List.concat_eq_append, ← List.append_assoc] at split
      exact (List.append_inj' split rfl).2 |> List.singleton_inj.mp
    subst isLast
    have lastBelow : last ∈ freeStarts A := by simp [some]
    have := below_released layout lastBelow
    cases above : freeStarts B with
    | cons b rest =>
      have next : h.next last = b := by
        refine first b (rest ++ freeStarts A) ?_
        rw [← split, above, List.cons_append]
      have := apart b (by simp [above])
      rw [if_pos (by omega)]
      exact .inr ⟨rfl, lastBelow, by simp [next]⟩
    | nil =>
      rw [above, List.nil_append] at turned split
      have := below_released layout turned
      have lowest : h.next last ≤ last := by
        cases lap with
        | nil => rw [first last [] rfl]
        | cons z lap =>
          rw [first z (lap ++ [last]) rfl]
          rw [split, List.cons_append, List.pairwise_cons] at sorted
          exact Nat.le_of_lt (sorted.1.1 last (by simp))
      rw [if_neg (by omega), if_neg (by omega), if_pos (by omega)]
      exact .inl rfl

end Search

/-! ## Linking -/

section Link
variable {h : Heap} {f cur x : Nat}

/-- What the released block links to after `joinNext`. -/
def linkAfter (h : Heap) (f cur : Nat) : Nat :=
  if plus f (h.size f) = h.next cur then h.next (h.next cur) else h.next cur

/-- The units of the released block after `joinNext`. -/
def sizeAfter (h : Heap) (f cur : Nat) : Nat :=
  if plus f (h.size f) = h.next cur then (h.size f + h.size (h.next cur)) % 2 ^ 32 else h.size f

theorem next_link (other : cur ≠ f) : (link h f cur).next x =
    if x = cur then (if plus cur (h.size cur) = f then linkAfter h f cur else f)
    else if x = f then linkAfter h f cur else h.next x := by
  unfold link joinPrev joinNext linkAfter
  by_cases after : plus f (h.size f) = h.next cur <;>
    by_cases before : plus cur (h.size cur) = f <;> simp [after, before, other]

theorem size_link (other : cur ≠ f) : (link h f cur).size x =
    if x = cur then (if plus cur (h.size cur) = f then (h.size cur + sizeAfter h f cur) % 2 ^ 32 else h.size cur)
    else if x = f then sizeAfter h f cur else h.size x := by
  unfold link joinPrev joinNext sizeAfter
  by_cases after : plus f (h.size f) = h.next cur <;>
    by_cases before : plus cur (h.size cur) = f <;> simp [after, before, other] <;> split_ifs <;>
      simp_all [Ne.symm other]

theorem region_link : (link h f cur).base = h.base ∧ (link h f cur).headerBlocks = h.headerBlocks := by
  have joined : (joinNext h f cur).base = h.base ∧ (joinNext h f cur).headerBlocks = h.headerBlocks := by
    unfold joinNext
    dsimp only
    split_ifs <;> simp
  unfold link joinPrev
  split_ifs <;> simpa using joined

theorem freeNode_link : (link h f cur).freeNode = cur := rfl

end Link

section Rows
variable {h : Heap} {A B : List Block} {f n cur : Nat}
variable (layout : Layout h (A ++ ⟨f, n, false⟩ :: B))
include layout

/-- The lap closes: its last node links to its first. -/
theorem lap_close (rest : List Nat) (lap : freeStarts B ++ freeStarts A = nxt :: rest)
    (ends : (nxt :: rest).getLast? = some cur) : h.next cur = nxt := by
  have ring := lap_released layout
  rw [lap] at ring
  rcases List.eq_nil_or_concat rest with rfl | ⟨middle, last, rfl⟩
  · simp only [List.getLast?_singleton, Option.some.injEq] at ends
    rw [← ends]
    exact threaded_singleton.mp ring
  · simp only [List.concat_eq_append, List.getLast?_cons, List.getLast?_append] at ends
    simp only [List.concat_eq_append] at ring
    have : last = cur := by simpa using ends
    exact this ▸ threaded_close ring

theorem not_released (member : x ∈ freeStarts B ++ freeStarts A) : x ≠ f := by
  rcases List.mem_append.mp member with above | below
  · have := above_released layout above
    have := released_positive layout
    simp only [plus, sizeofHeader] at *
    omega
  · exact Nat.ne_of_lt (below_released layout below)

/-- No free block starts where the released one ends, unless it is next in the row. -/
theorem not_next (held : BeginsHeld B) (member : x ∈ freeStarts B ++ freeStarts A) : plus f n ≠ x := by
  rintro rfl
  rcases List.mem_append.mp member with above | below
  · obtain ⟨k, inside⟩ := mem_freeStarts.mp above
    cases B with
    | nil => cases inside
    | cons b B =>
      have adjacent : plus f n = b.start := row_adjacent layout.tiles
      have same := start_injective layout.tiles (a := ⟨plus f n, k, true⟩) (b := b)
        (by simp [List.mem_cons.mp inside]) (by simp) adjacent
      have := held b (by simp)
      simp [← same] at this
  · have := below_released layout below
    simp only [plus, sizeofHeader] at this
    omega

/-- No free block ends where the released one starts, unless it is just before it in the row. -/
theorem not_prev (held : EndsHeld A) (member : x ∈ freeStarts B ++ freeStarts A) :
    plus x (h.size x) ≠ f := by
  intro ended
  rcases List.mem_append.mp member with above | below
  · have := above_released layout above
    have := released_positive layout
    simp only [plus, sizeofHeader] at *
    omega
  · obtain ⟨k, inside⟩ := mem_freeStarts.mp below
    have size : h.size x = k := layout.sizes ⟨x, k, true⟩ (by simp [inside])
    rw [size] at ended
    rcases List.eq_nil_or_concat A with rfl | ⟨A', a, rfl⟩
    · cases inside
    · have heldLast : a.free = false := held a (by simp)
      rw [List.concat_eq_append] at inside layout
      have row := layout.tiles
      rw [List.append_assoc, List.singleton_append] at row
      have adjacent : a.stop = f := row_adjacent row
      rcases List.mem_append.mp inside with earlier | last
      · have before := row_before row earlier
        have wide := (row_within row (b := a) (by simp)).2.1
        simp only [Block.stop] at before adjacent wide
        omega
      · simp only [List.mem_singleton] at last
        simp [← last] at heldLast

/-- The lap, read from its last node. -/
theorem lap_from_last (lap : freeStarts B ++ freeStarts A = passed ++ [cur]) :
    Threaded h.next (cur :: passed) := by
  have ring := lap_released layout
  rwa [lap, threaded_swap] at ring

theorem last_not_passed (lap : freeStarts B ++ freeStarts A = passed ++ [cur]) (member : x ∈ passed) :
    x ≠ cur := by
  have nodup := lap_nodup layout
  rw [lap, List.nodup_append] at nodup
  exact fun same => nodup.2.2 x member cur (by simp) same

/-- A block that stays in the row keeps its size, unless the list node before
the released block took units in. -/
theorem size_kept (inside : b ∈ A ++ B) (other : cur ≠ f) (kept : b.start ≠ cur ∨ plus cur (h.size cur) ≠ f) :
    (link h f cur).size b.start = b.units := by
  have old : b ∈ A ++ ⟨f, n, false⟩ :: B := by
    simp only [List.mem_append, List.mem_cons] at inside ⊢
    tauto
  have apart : b.start ≠ f := by
    have positive := released_positive layout
    rcases List.mem_append.mp inside with before | after
    · have ended : b.stop ≤ f := row_before layout.tiles before
      have wide := (row_within layout.tiles old).2.1
      omega
    · have started : plus f n ≤ b.start := row_after layout.tiles after
      simp only [plus, sizeofHeader] at started
      omega
  rw [size_link other, if_neg apart, layout.sizes b old]
  rcases kept with different | unmerged
  · rw [if_neg different]
  · by_cases same : b.start = cur
    · rw [if_pos same, if_neg unmerged, ← same, layout.sizes b old]
    · rw [if_neg same]

theorem link_alone (lap : freeStarts B ++ freeStarts A = passed ++ [cur])
    (ends : EndsHeld A) (begins : BeginsHeld B) : Layout (link h f cur) (A ++ ⟨f, n, true⟩ :: B) := by
  have inLap : cur ∈ freeStarts B ++ freeStarts A := by simp [lap]
  have other := not_released layout inLap
  have apartNext : plus f (h.size f) ≠ h.next cur := by
    rw [layout.sizes ⟨f, n, false⟩ (by simp)]
    exact not_next layout begins (threaded_closed (lap_released layout) inLap)
  have apartPrev := not_prev layout ends inLap
  refine ⟨?_, ?_, ?_, ?_, ?_, ?_⟩
  · rw [region_link.1, region_link.2]
    exact region_flag.mp layout.tiles
  · intro b inside
    simp only [List.mem_append, List.mem_cons] at inside
    rcases inside with before | rfl | after
    · exact size_kept layout (by simp [before]) other (.inr apartPrev)
    · rw [size_link other, if_neg other.symm, if_pos rfl, sizeAfter, if_neg apartNext]
      exact layout.sizes ⟨f, n, false⟩ (by simp)
    · exact size_kept layout (by simp [after]) other (.inr apartPrev)
  · rw [freeStarts_append, freeStarts_cons_free, threaded_swap, List.cons_append, lap, ← List.cons_append,
      threaded_swap]
    refine threaded_insert (lap_from_last layout lap) ?_ ?_ ?_
    · rw [next_link other, if_pos rfl, if_neg apartPrev]
    · rw [next_link other, if_neg other.symm, if_pos rfl, linkAfter, if_neg apartNext]
    · intro x member
      have outside : x ∈ freeStarts B ++ freeStarts A := by simp [lap, member]
      rw [next_link other, if_neg (last_not_passed layout lap member), if_neg (not_released layout outside)]
  · rw [freeNode_link]
    simp only [freeStarts_append, freeStarts_cons_free, List.mem_append, List.mem_cons] at inLap ⊢
    tauto
  · have apart := layout.apart
    rw [List.isChain_append] at apart ⊢
    refine ⟨apart.1, apart.2.1.tail.cons fun b first => ?_, fun a last b first => ?_⟩
    · simp [Apart, begins b first]
    · simp [Apart, ends a last]
  · rw [region_link.2]
    exact layout.narrow

end Rows

section Joins
variable {h : Heap} {A B : List Block} {f n a m s k cur : Nat}

/-- The node before the released block in the row is the last of the lap. -/
theorem prev_is_last (layout : Layout h ((A ++ [⟨a, m, true⟩]) ++ ⟨f, n, false⟩ :: B)) :
    plus a m = f ∧ h.size a = m ∧
      (∀ b ∈ A ++ B, b.start ≠ a) ∧
      freeStarts B ++ freeStarts (A ++ [⟨a, m, true⟩]) = (freeStarts B ++ freeStarts A) ++ [a] := by
  have row := layout.tiles
  rw [List.append_assoc, List.singleton_append] at row
  have nodup := row_starts_nodup row
  simp only [List.map_append, List.map_cons, List.nodup_append, List.nodup_cons, List.mem_map,
    List.mem_cons] at nodup
  refine ⟨row_adjacent row, layout.sizes ⟨a, m, true⟩ (by simp), ?_, ?_⟩
  · intro b inside same
    rcases List.mem_append.mp inside with before | after
    · exact nodup.2.2 _ ⟨b, before, rfl⟩ _ (.inl rfl) same
    · exact nodup.2.1.1 (.inr ⟨b, after, same⟩)
  · simp [freeStarts]

/-- The node after the released block in the row is the first of the lap. -/
theorem next_is_first (layout : Layout h (A ++ ⟨f, n, false⟩ :: ⟨s, k, true⟩ :: B))
    (lap : freeStarts (⟨s, k, true⟩ :: B) ++ freeStarts A = passed ++ [cur]) :
    plus f n = s ∧ h.size s = k ∧ h.next cur = s ∧
      linkAfter h f cur = h.next s ∧ sizeAfter h f cur = n + k := by
  have adjacent : plus f n = s := row_adjacent layout.tiles
  have size : h.size s = k := layout.sizes ⟨s, k, true⟩ (by simp)
  have released : h.size f = n := layout.sizes ⟨f, n, false⟩ (by simp)
  have first : h.next cur = s :=
    lap_close layout (freeStarts B ++ freeStarts A) rfl (by rw [← List.cons_append]; simp_all)
  refine ⟨adjacent, size, first, ?_, ?_⟩
  · rw [linkAfter, released, first, if_pos adjacent]
  · rw [sizeAfter, released, first, if_pos adjacent, size]
    refine Nat.mod_eq_of_lt ?_
    have inside := row_within layout.tiles (b := ⟨f, n, false⟩) (by simp)
    have inside' := row_within layout.tiles (b := ⟨s, k, true⟩) (by simp)
    have narrow := layout.narrow
    simp only [Block.stop, plus, sizeofHeader] at inside inside' adjacent
    omega

theorem link_prev (layout : Layout h ((A ++ [⟨a, m, true⟩]) ++ ⟨f, n, false⟩ :: B))
    (begins : BeginsHeld B) : Layout (link h f a) (A ++ ⟨a, m + n, true⟩ :: B) := by
  obtain ⟨ends, size, unique, lap⟩ := prev_is_last layout
  have inLap : a ∈ freeStarts B ++ freeStarts (A ++ [⟨a, m, true⟩]) := by simp
  have other := not_released layout inLap
  have released : h.size f = n := layout.sizes ⟨f, n, false⟩ (by simp)
  have apartNext : plus f (h.size f) ≠ h.next a := by
    rw [released]
    exact not_next layout begins (threaded_closed (lap_released layout) inLap)
  have tiles := layout.tiles
  rw [List.append_assoc, List.singleton_append] at tiles
  have joined := region_join (i := true) tiles
  refine ⟨?_, ?_, ?_, ?_, ?_, ?_⟩
  · rwa [region_link.1, region_link.2]
  · intro b inside
    simp only [List.mem_append, List.mem_cons] at inside
    rcases inside with before | rfl | after
    · exact size_kept layout (by simp [before]) other (.inl (unique b (by simp [before])))
    · have fits := (row_within joined (b := ⟨a, m + n, true⟩) (by simp))
      have narrow := layout.narrow
      rw [size_link other, if_pos rfl, size, if_pos ends, sizeAfter, if_neg apartNext, released]
      refine Nat.mod_eq_of_lt ?_
      simp only [Block.stop, plus, sizeofHeader] at fits
      omega
    · exact size_kept layout (by simp [after]) other (.inl (unique b (by simp [after])))
  · have ring := layout.ring
    simp only [freeStarts_append, freeStarts_cons_held, freeStarts_cons_free,
      List.append_assoc, List.singleton_append] at ring ⊢
    refine threaded_agree ring ?_
    intro x member
    have outside : x ∈ freeStarts B ++ freeStarts (A ++ [⟨a, m, true⟩]) := by
      rw [lap]
      simp only [List.mem_append, List.mem_cons] at member ⊢
      tauto
    rw [next_link other, size, if_pos ends, linkAfter, if_neg apartNext, if_neg (not_released layout outside)]
    split_ifs with same
    · rw [same]
    · rfl
  · rw [freeNode_link]
    simp
  · have apart := layout.apart
    rw [List.append_assoc, List.singleton_append, List.isChain_append] at apart
    rw [List.isChain_append]
    refine ⟨apart.1, apart.2.1.tail.tail.cons fun b first => ?_, fun x last b first => ?_⟩
    · simp [Apart, begins b first]
    · obtain rfl : _ = b := by simpa using first
      exact apart.2.2 x last ⟨a, m, true⟩ (by simp)
  · rw [region_link.2]
    exact layout.narrow

/-- Taking in the next free block needs a third node to close the list. -/
theorem link_next (layout : Layout h (A ++ ⟨f, n, false⟩ :: ⟨s, k, true⟩ :: B))
    (lap : freeStarts (⟨s, k, true⟩ :: B) ++ freeStarts A = passed ++ [cur])
    (ends : EndsHeld A) (attached : ¬(h.next cur = cur ∧ plus f n = cur)) :
    Layout (link h f cur) (A ++ ⟨f, n + k, true⟩ :: B) := by
  obtain ⟨adjacent, size, first, after, units⟩ := next_is_first layout lap
  have inLap : cur ∈ freeStarts (⟨s, k, true⟩ :: B) ++ freeStarts A := by rw [lap]; simp
  have other := not_released layout inLap
  have apartPrev := not_prev layout ends inLap
  have distinct : cur ≠ s := fun same => attached ⟨first.trans same.symm, adjacent.trans same.symm⟩
  obtain ⟨passed, rfl⟩ : ∃ rest, passed = s :: rest := by
    cases passed with
    | nil => exact absurd (by simpa using lap.symm : cur = s ∧ _).1 distinct
    | cons x rest => exact ⟨rest, by simp_all⟩
  have rest : freeStarts B ++ freeStarts A = passed ++ [cur] := by simpa using lap
  refine ⟨?_, ?_, ?_, ?_, ?_, ?_⟩
  · rw [region_link.1, region_link.2]
    exact region_join layout.tiles
  · intro b inside
    simp only [List.mem_append, List.mem_cons] at inside
    rcases inside with before | rfl | later
    · exact size_kept layout (by simp [before]) other (.inr apartPrev)
    · rw [size_link other, if_neg other.symm, if_pos rfl, units]
    · exact size_kept layout (by simp [later]) other (.inr apartPrev)
  · rw [freeStarts_append, freeStarts_cons_free, threaded_swap, List.cons_append, rest, ← List.cons_append,
      threaded_swap]
    have skipped : Threaded (Function.update h.next cur (h.next s)) (cur :: passed) := by
      refine threaded_unlink (lap_from_last layout lap) (by simp) ?_
      intro x member
      have := last_not_passed layout lap (x := x) (by simp [member])
      simp [this]
    refine threaded_insert skipped ?_ ?_ ?_
    · rw [next_link other, if_pos rfl, if_neg apartPrev]
    · rw [next_link other, if_neg other.symm, if_pos rfl, after, Function.update_self]
    · intro x member
      have notLast := last_not_passed layout lap (x := x) (by simp [member])
      have notFreed := not_released layout (x := x) (by rw [lap]; simp [member])
      rw [next_link other, if_neg notLast, if_neg notFreed, Function.update_of_ne notLast]
  · have : cur ∈ freeStarts B ++ freeStarts A := by simp [rest]
    rw [freeNode_link]
    simp only [freeStarts_append, freeStarts_cons_free, List.mem_append, List.mem_cons] at this ⊢
    tauto
  · have apart := layout.apart
    rw [List.isChain_append] at apart ⊢
    obtain ⟨left, right, -⟩ := apart
    refine ⟨left, ?_, fun x last b _ => by simp [Apart, ends x last]⟩
    exact List.IsChain.imp_head (fun related => by simpa [Apart] using related) right.tail
  · rw [region_link.2]
    exact layout.narrow

theorem link_both (layout : Layout h ((A ++ [⟨a, m, true⟩]) ++ ⟨f, n, false⟩ :: ⟨s, k, true⟩ :: B)) :
    Layout (link h f a) (A ++ ⟨a, m + (n + k), true⟩ :: B) := by
  obtain ⟨ends, size, unique, lap⟩ := prev_is_last layout
  obtain ⟨adjacent, size', first, after, units⟩ := next_is_first layout lap
  have inLap : a ∈ freeStarts (⟨s, k, true⟩ :: B) ++ freeStarts (A ++ [⟨a, m, true⟩]) := by simp
  have other := not_released layout inLap
  have tiles := layout.tiles
  rw [List.append_assoc, List.singleton_append] at tiles
  have joined : Region h.base (A ++ ⟨a, m + (n + k), true⟩ :: B) (plus h.base h.headerBlocks) := by
    rw [← Nat.add_assoc]
    exact region_join (region_join (i := true) tiles)
  refine ⟨?_, ?_, ?_, ?_, ?_, ?_⟩
  · rwa [region_link.1, region_link.2]
  · intro b inside
    simp only [List.mem_append, List.mem_cons] at inside
    rcases inside with before | rfl | later
    · exact size_kept layout (by simp [before]) other (.inl (unique b (by simp [before])))
    · have fits := (row_within joined (b := ⟨a, m + (n + k), true⟩) (by simp))
      have narrow := layout.narrow
      rw [size_link other, if_pos rfl, size, if_pos ends, units]
      refine Nat.mod_eq_of_lt ?_
      simp only [Block.stop, plus, sizeofHeader] at fits
      omega
    · exact size_kept layout (by simp [later]) other (.inl (unique b (by simp [later])))
  · rw [freeStarts_append, freeStarts_cons_free, threaded_swap, List.cons_append]
    refine threaded_unlink (lap_from_last layout lap) ?_ ?_
    · rw [next_link other, if_pos rfl, size, if_pos ends, after]
    · intro x member
      have notLast := last_not_passed layout lap (x := x) (by simp_all)
      have notFreed := not_released layout (x := x) (by simp_all)
      rw [next_link other, if_neg notLast, if_neg notFreed]
  · rw [freeNode_link]
    simp
  · have apart := layout.apart
    rw [List.append_assoc, List.singleton_append, List.isChain_append] at apart
    rw [List.isChain_append]
    obtain ⟨left, right, seam⟩ := apart
    refine ⟨left, ?_, fun x last b first => ?_⟩
    · exact List.IsChain.imp_head (fun related => by simpa [Apart] using related) right.tail.tail
    · obtain rfl : _ = b := by simpa using first
      exact seam x last ⟨a, m, true⟩ (by simp)
  · rw [region_link.2]
    exact layout.narrow

/-- Linking releases the block, unless the only free block is the one right
after it: then the list keeps the absorbed header. -/
theorem link_spec (layout : Layout h (A ++ ⟨f, n, false⟩ :: B))
    (lap : freeStarts B ++ freeStarts A = passed ++ [cur]) :
    ∃ row, Released f n A B row ∧ (¬(h.next cur = cur ∧ plus f n = cur) → Layout (link h f cur) row) := by
  have splitA : EndsHeld A ∨ ∃ A' a m, A = A' ++ [⟨a, m, true⟩] := by
    rcases List.eq_nil_or_concat A with rfl | ⟨A', ⟨a, m, free⟩, rfl⟩
    · exact .inl (by simp [EndsHeld])
    · cases free
      · exact .inl (by simp [EndsHeld])
      · exact .inr ⟨A', a, m, by simp⟩
  have splitB : BeginsHeld B ∨ ∃ s k B', B = ⟨s, k, true⟩ :: B' := by
    rcases B with _ | ⟨⟨s, k, free⟩, B'⟩
    · exact .inl (by simp [BeginsHeld])
    · cases free
      · exact .inl (by simp [BeginsHeld])
      · exact .inr ⟨s, k, B', rfl⟩
  have last : ∀ {A' a m}, A = A' ++ [⟨a, m, true⟩] → a = cur := by
    rintro A' a m rfl
    rw [freeStarts_append, freeStarts_cons_free, freeStarts_nil, ← List.append_assoc] at lap
    exact List.singleton_inj.mp (List.append_inj' lap rfl).2
  rcases splitA with ends | ⟨A', a, m, rfl⟩ <;> rcases splitB with begins | ⟨s, k, B', rfl⟩
  · exact ⟨_, .alone ends begins, fun _ => link_alone layout lap ends begins⟩
  · exact ⟨_, .next ends, fun attached => link_next layout lap ends attached⟩
  · exact ⟨_, .prev begins, fun _ => last rfl ▸ link_prev layout begins⟩
  · exact ⟨_, .both, fun _ => last rfl ▸ link_both layout⟩

/-- The release that would join the only free block from below and leave its
old header listed. -/
def JoinsOnlyBlock (h : Heap) (pointer units : Nat) : Prop :=
  h.next h.freeNode = h.freeNode ∧ plus (pointer - sizeofHeader) units = h.freeNode

/-- `free` of a block of the row always answers, and releases it. -/
theorem free_spec (layout : Layout h (A ++ ⟨f, n, false⟩ :: B)) :
    ∃ h' row, free h (plus f 1) = some h' ∧ Released f n A B row ∧
      (¬JoinsOnlyBlock h (plus f 1) n → Layout h' row) := by
  have node := layout.node
  rw [freeStarts_append, freeStarts_cons_held] at node
  obtain ⟨passed, cur, lap⟩ : ∃ passed cur, freeStarts B ++ freeStarts A = passed ++ [cur] := by
    rcases List.eq_nil_or_concat (freeStarts B ++ freeStarts A) with none | ⟨passed, cur, some⟩
    · simp_all
    · exact ⟨passed, cur, by simpa using some⟩
  have inLap : h.freeNode ∈ freeStarts B ++ freeStarts A := by
    rwa [List.mem_append, or_comm, ← List.mem_append]
  obtain ⟨before, todo, split⟩ := List.append_of_mem inLap
  have ends : (h.freeNode :: todo).getLast? = some cur := by
    have := congrArg List.getLast? (split.symm.trans lap)
    simpa using this
  have room : todo.length < h.headerBlocks + 1 := by
    have short := freeStarts_length_le layout
    rw [freeStarts_append, freeStarts_cons_held, List.length_append, Nat.add_comm,
      ← List.length_append, split] at short
    simp only [List.length_append, List.length_cons] at short
    omega
  have aligned : ¬(((plus f 1 : Nat) : Int) - sizeofHeader - h.base) % sizeofHeader ≠ 0 := by
    obtain ⟨units, start⟩ := start_aligned layout.tiles (b := ⟨f, n, false⟩) (by simp)
    simp only [plus, sizeofHeader] at start ⊢
    omega
  have inside := row_within layout.tiles (b := ⟨f, n, false⟩) (by simp)
  have back : plus f 1 - sizeofHeader = f := by simp [plus, sizeofHeader]
  have accepted : ¬(f < h.base ∨ f ≥ plus h.base (h.headerBlocks * sizeofHeader)) := by
    simp only [Block.stop, plus, sizeofHeader] at inside ⊢
    omega
  have present : ¬(plus f 1 = 0) := by simp [plus, sizeofHeader]
  obtain ⟨row, released, linked⟩ := link_spec layout lap
  refine ⟨link h f cur, row, ?_, released, fun attached => linked ?_⟩
  · rw [free, if_neg (by rintro (zero | skewed); exacts [present zero, aligned skewed])]
    simp only [back]
    rw [if_neg accepted]
    rcases search_last layout lap with found | ⟨found, below, above⟩
    · rw [search_lap layout cur todo before _ _ split ends room found]
    · rw [search_lap layout cur todo before _ _ split ends room found]
      -- Free blocks around a held one do not reach into it.
      have clear : ¬(plus cur (h.size cur) > f ∨ plus f (h.size f) > h.next cur) := by
        obtain ⟨k, member⟩ := mem_freeStarts.mp below
        have ended := row_before layout.tiles member
        have started := above_released layout above
        have size : h.size cur = k := layout.sizes ⟨cur, k, true⟩ (by simp [member])
        have size' : h.size f = n := layout.sizes ⟨f, n, false⟩ (by simp)
        simp only [Block.stop] at ended
        rw [size, size']
        omega
      simp only [if_neg clear]
  · rintro ⟨self, joins⟩
    have member : cur ∈ freeStarts (A ++ ⟨f, n, false⟩ :: B) := by
      have : cur ∈ freeStarts B ++ freeStarts A := by rw [lap]; simp
      simpa [or_comm] using this
    have only := self_linked layout member self
    have same : h.freeNode = cur := by simpa [only] using layout.node
    exact attached ⟨by rw [same, self], by rw [back, joins, same]⟩

end Joins

end QuesOs.StandardMalloc
