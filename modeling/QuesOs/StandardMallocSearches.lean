import QuesOs.StandardMallocRuns

/-! The two loops on the free list, and what `malloc` makes of its argument.
Neither loop counts: `malloc` stops where it meets `free_node` again, `free`
where one of four comparisons holds. Here they run on any ring of ascending
addresses, whatever the sizes in it; a request is followed over any heap at
all. -/
namespace QuesOs.StandardMalloc
open LinkedRing Heap

/-- The loop of `malloc`, with the nodes it examines. -/
def visitingLoop (h : Heap) (blocks : Nat) : Nat → Nat → Nat → Option (Heap × Nat) × List Nat
  | 0, _, _ => (none, [])
  | steps + 1, prev, current =>
    if blocks ≤ h.size current then (some (take h blocks prev current), [current])
    else if current = h.freeNode then (some (h, 0), [current])
    else
      let (answer, visits) := visitingLoop h blocks steps current (h.next current)
      (answer, current :: visits)

/-- `malloc` with so many rounds of its loop, and the nodes it examines. -/
def mallocVisits (h : Heap) (mem steps : Nat) : Option (Heap × Nat) × List Nat :=
  if mem = 0 then (some (h, 0), [])
  else visitingLoop h (requestBlocks mem) steps h.freeNode (h.next h.freeNode)

theorem visitingLoop_answer : (visitingLoop h blocks steps prev current).1 =
    mallocLoop h blocks steps prev current := by
  induction steps generalizing prev current with
  | zero => rfl
  | succ steps ih =>
    rw [visitingLoop, mallocLoop]
    split
    · rfl
    · split
      · rfl
      · exact ih

/-- The record changes nothing. -/
theorem mallocVisits_malloc : (mallocVisits h mem (h.headerBlocks + 1)).1 = malloc h mem := by
  unfold mallocVisits malloc
  split
  · rfl
  · exact visitingLoop_answer

/-! ## One lap -/

/-- The nodes examined are the first ones of the lap. -/
theorem visits_lap {h : Heap} (blocks : Nat) (todo : List Nat) (steps prev : Nat)
    (path : List.IsChain (fun a b => h.next a = b) (prev :: (todo ++ [h.freeNode]))) :
    (visitingLoop h blocks steps prev (h.next prev)).2 <+: todo ++ [h.freeNode] := by
  induction todo generalizing prev steps with
  | nil =>
    rw [List.nil_append, List.isChain_cons_cons] at path
    cases steps with
    | zero => exact List.nil_prefix
    | succ steps =>
      rw [visitingLoop, path.1]
      split
      · exact List.prefix_rfl
      · rw [if_pos rfl]
        exact List.prefix_rfl
  | cons c todo ih =>
    rw [List.cons_append, List.isChain_cons_cons] at path
    obtain ⟨link, path⟩ := path
    have first : [c] <+: c :: (todo ++ [h.freeNode]) := List.prefix_append [c] _
    cases steps with
    | zero => exact List.nil_prefix
    | succ steps =>
      rw [visitingLoop, link]
      split
      · exact first
      · split
        · exact first
        · exact List.cons_prefix_cons.mpr ⟨rfl, ih steps c path⟩

/-- The ring, walked once from `free_node` round to it. -/
theorem lap_from_node {h : Heap} (ring : Threaded h.next nodes) (node : h.freeNode ∈ nodes) :
    ∃ todo, (todo ++ [h.freeNode]).Perm nodes ∧
      List.IsChain (fun a b => h.next a = b) (h.freeNode :: (todo ++ [h.freeNode])) := by
  obtain ⟨before, after, rfl, fromHere⟩ := threaded_from ring node
  rw [threaded_cons] at fromHere
  refine ⟨after ++ before, ?_, fromHere⟩
  rw [List.append_assoc]
  have turned : (before ++ [h.freeNode] ++ after).Perm (after ++ (before ++ [h.freeNode])) := List.perm_append_comm
  simpa using turned.symm

theorem take_given : (take h blocks prev current).2 ≠ 0 := by
  unfold take
  split <;> simp [plus, sizeofHeader]

/-- A request is answered within one lap, and fails only when no block is large enough. -/
theorem malloc_lap {h : Heap} (ring : Threaded h.next nodes) (once : nodes.Nodup) (node : h.freeNode ∈ nodes)
    (room : nodes.length ≤ steps) (mem : Nat) :
    ∃ h' p visits, mallocVisits h mem steps = (some (h', p), visits) ∧ visits.Nodup ∧ (∀ c ∈ visits, c ∈ nodes) ∧
      (p = 0 ↔ mem = 0 ∨ ∀ c ∈ nodes, h.size c < requestBlocks mem) ∧ (p = 0 → h' = h) := by
  by_cases asked : mem = 0
  · exact ⟨h, 0, [], by simp [mallocVisits, asked], .nil, by simp, by simp [asked], fun _ => rfl⟩
  obtain ⟨todo, same, path⟩ := lap_from_node ring node
  have alone : (todo ++ [h.freeNode]).Nodup := same.nodup_iff.mpr once
  have enough : todo.length < steps := by
    have := same.length_eq
    simp only [List.length_append, List.length_singleton] at this
    omega
  have absent : h.freeNode ∉ todo := by
    intro member
    exact (List.nodup_append.mp alone).2.2 _ member _ (List.mem_singleton_self _) rfl
  have start : mallocVisits h mem steps = visitingLoop h (requestBlocks mem) steps h.freeNode (h.next h.freeNode) := by
    rw [mallocVisits, if_neg asked]
  have lap := visits_lap (requestBlocks mem) todo steps h.freeNode path
  have inside : ∀ c ∈ (mallocVisits h mem steps).2, c ∈ nodes := by
    intro c member
    rw [start] at member
    exact same.mem_iff.mp (lap.subset member)
  have distinct : (mallocVisits h mem steps).2.Nodup := by
    rw [start]
    exact alone.sublist lap.sublist
  have answer : (mallocVisits h mem steps).1 = mallocLoop h (requestBlocks mem) steps h.freeNode
    (h.next h.freeNode) := by
    rw [start]
    exact visitingLoop_answer
  rcases @mallocLoop_walk (requestBlocks mem) h todo steps h.freeNode enough path absent with
    ⟨p, member, large, found⟩ | ⟨small, exhausted⟩
  · have served : h.next p ∈ nodes := by
      refine threaded_closed ring (same.mem_iff.mp ?_)
      simp only [List.mem_cons, List.mem_append] at member ⊢
      tauto
    refine ⟨_, _, _, Prod.ext (answer.trans found) rfl, distinct, inside, ?_, fun null => absurd null take_given⟩
    constructor
    · exact fun null => absurd null take_given
    · rintro (none | small)
      · exact absurd none asked
      · exact absurd (small _ served) (Nat.not_lt.mpr large)
  · refine ⟨_, _, _, Prod.ext (answer.trans exhausted) rfl, distinct, inside, ?_, fun _ => rfl⟩
    exact ⟨fun _ => .inr fun c member => small c (same.mem_iff.mpr member), fun _ => rfl⟩

/-! ## The search of `free` -/

/-- The comparisons that end the search at a node. -/
def Stops (h : Heap) (f x : Nat) : Prop :=
  (f > x ∧ f < h.next x) ∨ (x = f ∨ h.next x = f) ∨ (x ≥ h.next x ∧ (f > x ∨ f < h.next x))

theorem search_stops (stops : Stops h f x) : search h f (steps + 1) x ≠ none := by
  rw [search]
  unfold Stops at stops
  split
  · simp
  · split
    · simp
    · split
      · simp
      · tauto

/-- A walk that comes by a node where the search ends, ends. -/
theorem search_walk {h : Heap} (todo : List Nat) (steps x : Nat) (room : todo.length < steps)
    (path : List.IsChain (fun a b => h.next a = b) (x :: todo)) (last : c ∈ x :: todo) (stops : Stops h f c) :
    search h f steps x ≠ none := by
  obtain ⟨steps, rfl⟩ : ∃ n, steps = n + 1 := ⟨steps - 1, by omega⟩
  induction todo generalizing steps x with
  | nil =>
    obtain rfl := List.mem_singleton.mp last
    exact search_stops stops
  | cons y todo ih =>
    by_cases here : Stops h f x
    · exact search_stops here
    · rw [List.isChain_cons_cons] at path
      obtain ⟨link, path⟩ := path
      have further : c ∈ y :: todo := by
        rcases List.mem_cons.mp last with rfl | further
        · exact absurd stops here
        · exact further
      simp only [Stops, not_or] at here
      obtain ⟨steps, rfl⟩ : ∃ n, steps = n + 1 := ⟨steps - 1, by simp at room; omega⟩
      rw [search, if_neg here.1, if_neg (not_or.mpr here.2.1), if_neg here.2.2, link]
      exact ih y path further steps (by simpa using room)

/-- Climbing from a node below the address, one comes to a node where the
search ends, or stays below to the end. -/
theorem climb_stops {h : Heap} (path : List.IsChain (fun a b => h.next a = b) (x :: l)) (below : x ≤ f) :
    (∃ c ∈ x :: l, Stops h f c) ∨ ∀ c ∈ x :: l, c < f := by
  induction l generalizing x with
  | nil =>
    rcases Nat.lt_or_eq_of_le below with less | same
    · exact .inr (by simpa using less)
    · exact .inl ⟨x, by simp, .inr (.inl (.inl same))⟩
  | cons y l ih =>
    rw [List.isChain_cons_cons] at path
    obtain ⟨link, path⟩ := path
    by_cases here : Stops h f x
    · exact .inl ⟨x, by simp, here⟩
    · simp only [Stops, link, not_or, not_and_or] at here
      have next : y ≤ f := by omega
      rcases ih path next with ⟨c, member, stops⟩ | all
      · exact .inl ⟨c, List.mem_cons_of_mem _ member, stops⟩
      · exact .inr fun c member => by
          rcases List.mem_cons.mp member with rfl | member
          · omega
          · exact all c member

/-- On every ascending ring there is a node where the search for an address ends. -/
theorem ring_stops {h : Heap} (ring : Threaded h.next nodes) (ascending : nodes.Pairwise (· < ·))
    (some : nodes ≠ []) (f : Nat) :
    ∃ c ∈ nodes, Stops h f c := by
  obtain ⟨lowest, rest, rfl⟩ := List.exists_cons_of_ne_nil some
  -- The highest node, from which the list wraps.
  obtain ⟨top, last, wrap⟩ : ∃ top ∈ lowest :: rest, h.next top = lowest := by
    rcases List.eq_nil_or_concat rest with rfl | ⟨l, top, rfl⟩
    · exact ⟨lowest, by simp, threaded_singleton.mp ring⟩
    · rw [List.concat_eq_append] at ring
      exact ⟨top, by simp, threaded_close ring⟩
  have above : lowest ≤ top := by
    rcases List.mem_cons.mp last with rfl | later
    · exact Nat.le_refl _
    · exact Nat.le_of_lt ((List.pairwise_cons.mp ascending).1 top later)
  by_cases below : lowest ≤ f
  · rw [threaded_cons, ← List.cons_append] at ring
    rcases climb_stops (List.isChain_append.mp ring).1 below with stops | all
    · exact stops
    · exact ⟨top, last, .inr (.inr ⟨wrap ▸ above, .inl (all top last)⟩)⟩
  · exact ⟨top, last, .inr (.inr ⟨wrap ▸ above, .inr (by omega)⟩)⟩

/-- The search ends within one lap, whatever the address. -/
theorem search_ends {h : Heap} (ring : Threaded h.next nodes) (ascending : nodes.Pairwise (· < ·)) (node : x ∈ nodes)
    (room : nodes.length ≤ steps) (f : Nat) : search h f steps x ≠ none := by
  obtain ⟨c, member, stops⟩ := ring_stops ring ascending (List.ne_nil_of_mem node) f
  obtain ⟨before, after, rfl, fromHere⟩ := threaded_from ring node
  rw [threaded_cons, ← List.cons_append] at fromHere
  refine search_walk (after ++ before) steps x ?_ (List.isChain_append.mp fromHere).1 ?_ stops
  · simp only [List.length_append, List.length_cons] at room ⊢
    omega
  · simp only [List.mem_append, List.mem_cons] at member ⊢
    tauto

/-- **The searches are complete and end**, on every ascending ring and from
every node of it. -/
theorem searches_end {h : Heap} (ring : Threaded h.next nodes) (ascending : nodes.Pairwise (· < ·))
    (node : h.freeNode ∈ nodes)
    (room : nodes.length ≤ steps) (mem : Nat) :
    (∃ h' p visits, mallocVisits h mem steps = (some (h', p), visits) ∧ visits.Nodup ∧ (∀ c ∈ visits, c ∈ nodes) ∧
      (p = 0 ↔ mem = 0 ∨ ∀ c ∈ nodes, h.size c < requestBlocks mem) ∧ (p = 0 → h' = h)) ∧
    ∀ f, search h f steps h.freeNode ≠ none :=
  ⟨malloc_lap ring (ascending.imp Nat.ne_of_lt) node room mem, search_ends ring ascending node room⟩

/-- A list of two free blocks, entered at the second. -/
def twoFree : Heap :=
  ⟨fun address => if address = 0x600000 then ⟨0x600100, 4⟩ else ⟨0x600000, 2⟩, 0x600000, 0x600100, 64⟩

theorem searches_end_twoFree : (∃ h' p visits, mallocVisits twoFree 40 2 = (some (h', p), visits) ∧ visits.Nodup ∧
    (∀ c ∈ visits, c ∈ [0x600000, 0x600100]) ∧
    (p = 0 ↔ 40 = 0 ∨ ∀ c ∈ [0x600000, 0x600100], twoFree.size c < requestBlocks 40) ∧ (p = 0 → h' = twoFree)) ∧
    ∀ f, search twoFree f 2 twoFree.freeNode ≠ none := by
  have ring : Threaded twoFree.next [0x600000, 0x600100] := by
    rw [threaded_cons]
    exact .cons_cons rfl (.cons_cons rfl (.singleton _))
  exact searches_end ring (by decide) (by decide) (by decide) 40

/-- A request for no bytes at all is refused, although every block has the one unit it comes to. -/
theorem zero_request_refused : ¬∀ (h : Heap) (nodes : List Nat) (mem : Nat), Threaded h.next nodes →
    nodes.Pairwise (· < ·) → h.freeNode ∈ nodes →
    (malloc h mem = some (h, 0) ↔ ∀ c ∈ nodes, h.size c < requestBlocks mem) := by
  intro all
  have small := (all kernelHeap.heap [0x600000] 0 (threaded_singleton.mpr rfl) (by decide) (by decide)).mp rfl
  exact absurd (small 0x600000 (List.mem_singleton_self _)) (by decide)

/-! ## The bytes of a request -/

/-- Sizes are `unsigned int`s. -/
def Typed (h : Heap) : Prop := ∀ block, h.size block < 2 ^ 32

/-- A client that overwrites a header leaves 32 bits there too. -/
def TypedCall : Call → Prop
  | .write _ _ value => value.size < 2 ^ 32
  | _ => True

/-- The block that `malloc` returns, whenever it does, has the bytes asked for after its header. -/
def Roomy (h : Heap) (mem : Nat) : Prop :=
  ∀ steps h' p, (mallocVisits h mem steps).1 = some (h', p) → p ≠ 0 →
    mem ≤ sizeofHeader * (h'.size (p - sizeofHeader) - 1)

theorem typed_setSize (typed : Typed h) : Typed (h.setSize block value) := by
  intro b
  rw [size_setSize]
  split
  · exact Nat.mod_lt _ (by decide)
  · exact typed b

theorem typed_setNext (typed : Typed h) : Typed (h.setNext block value) := by
  intro b
  rw [size_setNext]
  exact typed b

theorem take_typed (typed : Typed h) : Typed (take h blocks prev current).1 := by
  unfold take
  split
  · exact typed_setNext typed
  · exact typed_setSize (typed_setSize typed)

theorem mallocLoop_typed (typed : Typed h) (found : mallocLoop h blocks steps prev current = some (h', p)) :
    Typed h' := by
  induction steps generalizing prev current with
  | zero => cases found
  | succ steps ih =>
    rw [mallocLoop] at found
    split at found
    · have kept : Typed (take h blocks prev current).1 := take_typed typed
      rwa [Option.some.inj found] at kept
    · split at found
      · cases found
        exact typed
      · exact ih found

theorem malloc_typed (typed : Typed h) (found : malloc h mem = some (h', p)) : Typed h' := by
  unfold malloc at found
  split at found
  · cases found
    exact typed
  · exact mallocLoop_typed typed found

theorem link_typed (typed : Typed h) : Typed (link h f current) := by
  have next : Typed (joinNext h f current) := by
    unfold joinNext
    dsimp only
    split
    · exact typed_setNext (typed_setSize typed)
    · exact typed_setNext typed
  unfold link joinPrev
  split
  · exact typed_setNext (typed_setSize next)
  · exact typed_setNext next

theorem free_typed (typed : Typed h) (freed : free h memory = some h') : Typed h' := by
  unfold free at freed
  dsimp only at freed
  split_ifs at freed
  · cases freed
    exact typed
  · cases freed
    exact typed
  · split at freed
    · cases freed
    · cases freed
      exact typed
    · cases freed
      exact link_typed typed
    · split_ifs at freed <;> cases freed
      · exact typed
      · exact link_typed typed

theorem perform_typed (typed : Typed s.heap) (call_typed : TypedCall call) (ran : perform s call = some s') :
    Typed s'.heap := by
  cases call with
  | malloc mem =>
    simp only [perform] at ran
    split at ran
    · obtain ⟨⟨heap, pointer⟩, found, rfl⟩ := Option.map_eq_some_iff.mp ran
      have kept := malloc_typed typed found
      dsimp only
      split <;> exact kept
    · cases ran
  | free held =>
    simp only [perform] at ran
    split at ran
    · obtain ⟨heap, freed, rfl⟩ := Option.map_eq_some_iff.mp ran
      exact free_typed typed freed
    · cases ran
  | write held unit value =>
    simp only [perform] at ran
    split at ran
    · cases ran
      intro block
      by_cases here : block = plus held.pointer unit
      · have small : value.size < 2 ^ 32 := call_typed
        simpa [Heap.size, here] using small
      · simpa [Heap.size, here] using typed block
    · cases ran

theorem run_typed (typed : Typed s.heap) (run : Run (fun _ call => TypedCall call) s s') : Typed s'.heap := by
  induction run with
  | refl => exact typed
  | tail _ last ih =>
    obtain ⟨call, call_typed, ran⟩ := last
    exact perform_typed ih call_typed ran

theorem start_typed (typed : Typed h) : Typed (start h heapBase heapSize).heap := by
  unfold start initializeMemoryManager
  split
  · exact typed
  · exact typed_setNext (typed_setSize typed)

/-- The header of what is taken records the units that were looked for. -/
theorem take_units (prev : Nat) (typed : Typed h) (fits : blocks ≤ h.size current) :
    (take h blocks prev current).1.size ((take h blocks prev current).2 - sizeofHeader) = blocks := by
  have narrow := typed current
  have back : ∀ c, plus c 1 - sizeofHeader = c := fun c => by simp [plus, sizeofHeader]
  unfold take
  split
  · next exact_fit => simpa [back] using exact_fit
  · simp only [back, size_setFreeNode, size_setSize, if_true]
    exact Nat.mod_eq_of_lt (by omega)

/-- A pointer comes from a block that was large enough, met on the way from the first node on. -/
theorem mallocLoop_given (found : mallocLoop h blocks steps prev current = some (h', p)) (given : p ≠ 0) :
    ∃ prev' k, blocks ≤ h.size (h.next^[k] current) ∧ (h', p) = take h blocks prev' (h.next^[k] current) := by
  induction steps generalizing prev current with
  | zero => cases found
  | succ steps ih =>
    rw [mallocLoop] at found
    split at found
    · next fits => exact ⟨prev, 0, fits, (Option.some.inj found).symm⟩
    · split at found
      · cases found
        exact absurd rfl given
      · obtain ⟨prev', k, fits, taken⟩ := ih found
        exact ⟨prev', k + 1, fits, taken⟩

/-- The loop takes the first block that is large enough, unless it meets `free_node` before. -/
theorem mallocLoop_reaches (k prev current : Nat)
    (small : ∀ j < k, h.size (h.next^[j] current) < blocks ∧ h.next^[j] current ≠ h.freeNode)
    (fits : blocks ≤ h.size (h.next^[k] current)) :
    ∃ prev', mallocLoop h blocks (k + 1) prev current = some (take h blocks prev' (h.next^[k] current)) := by
  induction k generalizing prev current with
  | zero =>
    simp only [Function.iterate_zero, id_eq] at fits ⊢
    exact ⟨prev, by rw [mallocLoop, if_pos fits]⟩
  | succ k ih =>
    obtain ⟨less, other⟩ := small 0 (Nat.succ_pos k)
    obtain ⟨prev', found⟩ := ih current (h.next current) (fun j below => small (j + 1) (by omega)) fits
    refine ⟨prev', ?_⟩
    simp only [Function.iterate_zero, id_eq] at less other
    rw [mallocLoop, if_neg (Nat.not_le.mpr less), if_neg other]
    exact found

/-- A sum that wraps comes to the header alone. -/
theorem requestBlocks_wrapped (word : mem < 2 ^ 64) (wraps : 2 ^ 64 ≤ mem + 15) : requestBlocks mem = 1 := by
  unfold requestBlocks sizeofHeader
  omega

/-- As long as the sum does not wrap, the units hold the bytes. -/
theorem requestBlocks_holds (fits : mem + 15 < 2 ^ 64) : mem ≤ sizeofHeader * (requestBlocks mem - 1) := by
  unfold requestBlocks sizeofHeader
  omega

/-- A request for more than the units hold is served from any list with a block in it. -/
theorem roomy_iff (typed : Typed h) (word : mem < 2 ^ 64) :
    Roomy h mem ↔ mem + 15 < 2 ^ 64 ∨ ∀ k, h.size (h.next^[k + 1] h.freeNode) = 0 := by
  constructor
  · intro roomy
    by_contra neither
    obtain ⟨wraps, stocked⟩ := not_or.mp neither
    have units := requestBlocks_wrapped word (Nat.le_of_not_lt wraps)
    have first : ∃ k, 1 ≤ h.size (h.next^[k + 1] h.freeNode) := by
      obtain ⟨k, positive⟩ := not_forall.mp stocked
      exact ⟨k, Nat.pos_of_ne_zero positive⟩
    classical
    obtain ⟨k, fits, least⟩ : ∃ k, 1 ≤ h.size (h.next^[k + 1] h.freeNode) ∧
        ∀ j < k, ¬1 ≤ h.size (h.next^[j + 1] h.freeNode) :=
      ⟨Nat.find first, Nat.find_spec first, fun j below => Nat.find_min first below⟩
    -- Were `free_node` met before, the same block would have been met before too.
    have other : ∀ j < k, h.next^[j + 1] h.freeNode ≠ h.freeNode := by
      intro j below back
      refine least (k - (j + 1)) (by omega) ?_
      have again : h.next^[k + 1] h.freeNode = h.next^[k - (j + 1) + 1] h.freeNode := by
        rw [show k + 1 = (k - (j + 1) + 1) + (j + 1) by omega, Function.iterate_add_apply, back]
      rwa [again] at fits
    have small : ∀ j < k, h.size (h.next^[j] (h.next h.freeNode)) < 1 ∧ h.next^[j] (h.next h.freeNode) ≠ h.freeNode :=
      fun j below => ⟨Nat.not_le.mp (least j below), other j below⟩
    obtain ⟨prev, found⟩ := mallocLoop_reaches k h.freeNode (h.next h.freeNode) small fits
    have asked : mem ≠ 0 := by omega
    have served : (mallocVisits h mem (k + 1)).1 = some (take h 1 prev (h.next^[k] (h.next h.freeNode))) := by
      rw [mallocVisits, if_neg asked, visitingLoop_answer, units, found]
    obtain ⟨taken, same⟩ : ∃ taken, taken = take h 1 prev (h.next^[k] (h.next h.freeNode)) := ⟨_, rfl⟩
    rw [← same] at served
    have recorded : taken.1.size (taken.2 - sizeofHeader) = 1 := same ▸ take_units prev typed fits
    have given : taken.2 ≠ 0 := same ▸ take_given
    have holds := roomy (k + 1) taken.1 taken.2 served given
    rw [recorded] at holds
    omega
  · intro condition steps h' p found given
    unfold mallocVisits at found
    split at found
    · cases found
      exact absurd rfl given
    · rw [visitingLoop_answer] at found
      obtain ⟨prev, k, fits, taken⟩ := mallocLoop_given found given
      rcases condition with narrow | empty
      · have units := take_units prev typed fits
        rw [← taken] at units
        dsimp only at units
        rw [units]
        exact requestBlocks_holds narrow
      · have none := empty k
        have positive := @requestBlocks_pos mem
        rw [Function.iterate_succ_apply] at none
        omega

/-- **A block has the bytes asked for exactly when the sum does not wrap**, or
the free list has no block with a unit in it, in every reachable state. -/
theorem bytes_enough_iff (typed : Typed h) (run : Run (fun _ call => TypedCall call) (start h heapBase heapSize) s)
    (word : mem < 2 ^ 64) :
    Roomy s.heap mem ↔ mem + 15 < 2 ^ 64 ∨ ∀ k, s.heap.size (s.heap.next^[k + 1] s.heap.freeNode) = 0 :=
  roomy_iff (run_typed (start_typed typed) run) word

theorem bytes_enough_iff_kernel : Roomy kernelHeap.heap 100 ↔
    100 + 15 < 2 ^ 64 ∨ ∀ k, kernelHeap.heap.size (kernelHeap.heap.next^[k + 1] kernelHeap.heap.freeNode) = 0 := by
  have typed : Typed blank := fun _ => Nat.two_pow_pos 32
  exact bytes_enough_iff typed .refl (by decide)

/-- The largest request is served with a header and nothing behind it. -/
theorem largest_request_header_only : ∃ s, Run (fun _ _ => True) kernelHeap s ∧ ¬Roomy s.heap (2 ^ 64 - 1) := by
  refine ⟨kernelHeap, .refl, fun roomy => ?_⟩
  have served : (mallocVisits kernelHeap.heap (2 ^ 64 - 1) 1).1 = some (take kernelHeap.heap 1 0x600000 0x600000) := rfl
  have holds := roomy 1 _ _ served (by decide)
  exact absurd holds (by decide)

end QuesOs.StandardMalloc
