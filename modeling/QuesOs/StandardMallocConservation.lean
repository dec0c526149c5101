import QuesOs.StandardMallocRuns
import Mathlib.Algebra.GroupWithZero.Nat

/-! The accounts of the STANDARD allocator. As long as the block at the heap base is
never handed out whole it stays free, so the free list never shrinks to a node in the
way; every unit is then free or held, and `getMemoryInfo` counts the free ones. The
region itself is two units longer than what fits, and `malloc` begins at its end. -/
namespace QuesOs.StandardMalloc
open LinkedRing BlockRow Heap

/-! ## `getMemoryInfo` -/

structure MemoryInfo where
  availableMem : Nat
  totalMem : Nat

def sizeofMemoryInfo : Nat := 16

/-- The loop of `getMemoryInfo`; `cant` is an `unsigned int`. -/
def getMemoryInfoLoop (h : Heap) (freeBase : Nat) : Nat → Nat → Nat → Option Nat
  | 0, _, _ => none
  | steps + 1, cant, current =>
    let cant := (cant + h.size current) % 2 ^ 32
    if h.next current = freeBase then some cant
    else getMemoryInfoLoop h freeBase steps cant (h.next current)

/-- The pointer it returns, with what it wrote there. -/
def getMemoryInfo (h : Heap) : Option (Heap × Option (Nat × MemoryInfo)) :=
  match malloc h sizeofMemoryInfo with
  | none => none
  | some (h, toReturn) =>
    if toReturn = 0 then some (h, none)
    else
      (getMemoryInfoLoop h h.freeNode (h.headerBlocks + 1) 0 h.freeNode).map fun cant =>
        let info : MemoryInfo := ⟨cant * sizeofHeader, h.headerBlocks * sizeofHeader⟩
        let written : Header := ⟨info.availableMem, info.totalMem % 2 ^ 32⟩
        ({ h with header := Function.update h.header toReturn written }, some (toReturn, info))

theorem getMemoryInfo_eq (found : malloc h sizeofMemoryInfo = some (h₁, p)) (given : p ≠ 0)
    (counted : getMemoryInfoLoop h₁ h₁.freeNode (h₁.headerBlocks + 1) 0 h₁.freeNode = some cant) :
    ∃ h', getMemoryInfo h = some (h', some (p, ⟨cant * sizeofHeader, h₁.headerBlocks * sizeofHeader⟩)) := by
  unfold getMemoryInfo
  rw [found]
  simp only [given, ↓reduceIte]
  rw [counted]
  exact ⟨_, rfl⟩

/-- The loop adds up the sizes along the list, from any of its nodes to the end of the lap. -/
theorem getMemoryInfoLoop_walk (todo : List Nat) (steps cant current : Nat) (room : todo.length < steps)
    (path : List.IsChain (fun a b => h.next a = b) (current :: (todo ++ [freeBase]))) (once : freeBase ∉ todo) :
    getMemoryInfoLoop h freeBase steps cant current = some ((cant + ((current :: todo).map h.size).sum) % 2 ^ 32) := by
  induction todo generalizing steps cant current with
  | nil =>
    obtain ⟨steps, rfl⟩ : ∃ n, steps = n + 1 := ⟨steps - 1, by simp at room; omega⟩
    rw [List.nil_append, List.isChain_cons_cons] at path
    simp [getMemoryInfoLoop, path.1]
  | cons c todo ih =>
    obtain ⟨steps, rfl⟩ : ∃ n, steps = n + 1 := ⟨steps - 1, by simp at room; omega⟩
    rw [List.cons_append, List.isChain_cons_cons] at path
    obtain ⟨link, path⟩ := path
    have other : c ≠ freeBase := fun same => once (by simp [same])
    have rest := ih steps ((cant + h.size current) % 2 ^ 32) c (by simpa using room) path fun member =>
      once (by simp [member])
    simp only [getMemoryInfoLoop, link, other, ↓reduceIte, rest, Option.some.injEq, List.map_cons, List.sum_cons]
    rw [Nat.mod_add_mod, Nat.add_assoc]

/-! ## Units -/

/-- The units of the blocks that the client holds. -/
def liveUnits (live : List Held) : Nat := (live.map Held.units).sum

/-- The row's units fill the region. -/
theorem region_units (tiles : Region lo row hi) : hi = plus lo ((row.map Block.units).sum) := by
  induction row generalizing lo with
  | nil => simpa [plus] using tiles.symm
  | cons b row ih =>
    obtain ⟨first, -, rest⟩ := tiles
    rw [ih rest, List.map_cons, List.sum_cons, Block.stop, first]
    simp only [plus, sizeofHeader]
    omega

/-- A unit is free or held. -/
theorem units_split (layout : Layout h row) :
    ((freeStarts row).map h.size).sum + liveUnits (heldBlocks row) = h.headerBlocks := by
  have all := region_units layout.tiles
  have total : (row.map Block.units).sum = h.headerBlocks := by
    simp only [plus, sizeofHeader] at all
    omega
  have sizes := layout.sizes
  rw [← total]
  clear layout all total
  induction row with
  | nil => rfl
  | cons b row ih =>
    have rest := ih fun c member => sizes c (List.mem_cons_of_mem _ member)
    have here := sizes b (List.mem_cons_self ..)
    obtain ⟨start, units, free⟩ := b
    cases free with
    | true =>
      simp only [freeStarts_cons_free, heldBlocks_cons_free, List.map_cons, List.sum_cons, here]
      omega
    | false =>
      simp only [freeStarts_cons_held, heldBlocks_cons_held, liveUnits, List.map_cons, List.sum_cons] at rest ⊢
      omega

/-- The free units, as `getMemoryInfo` counts them. -/
theorem free_units (layout : Layout h row) :
    ∃ cant, getMemoryInfoLoop h h.freeNode (h.headerBlocks + 1) 0 h.freeNode = some cant ∧
      cant + liveUnits (heldBlocks row) = h.headerBlocks := by
  obtain ⟨before, after, split, ring⟩ := threaded_from layout.ring layout.node
  have nodup := freeStarts_nodup layout.tiles
  have short := freeStarts_length_le layout
  have units := units_split layout
  rw [split] at nodup short units
  have once : h.freeNode ∉ after ++ before := by
    simp only [List.nodup_append, List.nodup_cons, List.mem_append, List.mem_cons] at nodup ⊢
    grind
  have room : (after ++ before).length < h.headerBlocks + 1 := by
    simp only [List.length_append, List.length_cons] at short ⊢
    omega
  rw [threaded_cons] at ring
  have same : ((h.freeNode :: (after ++ before)).map h.size).sum =
    ((before ++ h.freeNode :: after).map h.size).sum := by
    simp only [List.map_cons, List.map_append, List.sum_cons, List.sum_append]
    omega
  refine ⟨_, getMemoryInfoLoop_walk _ _ 0 _ room ring once, ?_⟩
  have narrow := layout.narrow
  rw [Nat.zero_add, same, Nat.mod_eq_of_lt (by omega), units]

/-! ## The block at the heap base -/

/-- The request rounds up without wrapping, and is not given the whole block at the
heap base. -/
def SparesBase (s : State) : Call → Prop
  | .malloc mem => mem + 15 < 2 ^ 64 ∧ ∀ result ∈ malloc s.heap mem, result.2 ≠ plus s.heap.base 1
  | _ => True

instance : DecidableRel SparesBase
  | _, .malloc _ => inferInstanceAs (Decidable (_ ∧ _))
  | _, .free _ => isTrue trivial
  | _, .write _ _ _ => isTrue trivial

/-- The first block of the row is free. -/
def BeginsFree (row : List Block) : Prop := ∃ s n rest, row = ⟨s, n, true⟩ :: rest

theorem begins_at (layout : Layout h (⟨s, n, true⟩ :: rest)) : s = h.base := layout.tiles.1

/-- Then it is the only node of a list whose node links to itself. -/
theorem only_base (layout : Layout h row) (begins : BeginsFree row) (self : h.next h.freeNode = h.freeNode) :
    freeStarts row = [h.base] ∧ h.freeNode = h.base := by
  obtain ⟨s, n, rest, rfl⟩ := begins
  have only := self_linked layout layout.node self
  have first := begins_at layout
  subst first
  rw [freeStarts_cons_free] at only
  obtain ⟨same, none⟩ := List.cons.inj only
  exact ⟨by rw [freeStarts_cons_free, none], same.symm⟩

/-- So the list keeps clear of its degenerate positions. -/
theorem keeps_of_spares (layout : Layout s.heap row) (held : s.live.Perm (heldBlocks row)) (begins : BeginsFree row)
    (spares : SparesBase s call) (ran : perform s call = some s') : KeepsFreeList s call := by
  cases call with
  | malloc mem =>
    rintro asked ⟨self, exact_⟩
    obtain ⟨only, atBase⟩ := only_base layout begins self
    rw [atBase] at exact_
    have listed : ∀ {n}, (⟨s.heap.base, n, true⟩ : Block) ∈ row → n = requestBlocks mem := fun member =>
      (layout.sizes _ member).symm.trans exact_
    rcases malloc_spec layout asked with ⟨small, -⟩ | ⟨h', p, row', found, taken, -⟩
    · have less := small s.heap.base (by rw [only]; exact List.mem_singleton_self _)
      omega
    · have pointer := spares.2 _ found
      generalize large : requestBlocks mem = blocks at taken
      have atNode : ∀ {A B c n}, row = A ++ ⟨c, n, true⟩ :: B → c = s.heap.base := by
        rintro A B c n rfl
        have member : c ∈ freeStarts (A ++ ⟨c, n, true⟩ :: B) := by simp
        rw [only] at member
        exact List.mem_singleton.mp member
      cases taken with
      | @whole A B c => exact pointer (by rw [atNode rfl])
      | @tail A B c n smaller =>
        obtain rfl := atNode rfl
        have size := listed (List.mem_append_right A (List.mem_cons_self ..))
        omega
  | free block =>
    rintro ⟨self, joins⟩
    obtain ⟨-, atBase⟩ := only_base layout begins self
    simp only [perform] at ran
    split at ran
    · rename_i member
      obtain ⟨f, inside, pointer⟩ := mem_heldBlocks.mp (held.mem_iff.mp member)
      have within := row_within layout.tiles inside
      rw [pointer, atBase] at joins
      simp only [Block.stop, plus, sizeofHeader] at within joins
      omega
    · cases ran
  | write block unit value => trivial

theorem changed_begins (layout : Layout s.heap row) (begins : BeginsFree row) (spares : SparesBase s call)
    (changed : Changed s row call row') : BeginsFree row' := by
  obtain ⟨s₀, n₀, rest, split⟩ := begins
  cases changed with
  | same => exact ⟨s₀, n₀, rest, split⟩
  | taken found taken =>
    have pointer := spares.2 _ found
    cases taken with
    | @whole A B c =>
      cases A with
      | nil =>
        have first : c = s.heap.base := begins_at layout
        exact (pointer (by rw [first])).elim
      | cons a A => exact ⟨s₀, n₀, _, by rw [List.cons_append, (List.cons.inj split).1]⟩
    | @tail A B c n smaller =>
      cases A with
      | nil => exact ⟨c, _, _, rfl⟩
      | cons a A => exact ⟨s₀, n₀, _, by rw [List.cons_append, (List.cons.inj split).1]⟩
  | @released held f n A B row' split' released =>
    have first : ∀ {a A'}, A = a :: A' → a = ⟨s₀, n₀, true⟩ := by
      rintro a A' rfl
      exact (List.cons.inj (split'.symm.trans split)).1
    have some : A ≠ [] := by
      rintro rfl
      cases split'.symm.trans split
    cases released with
    | alone ends begins' =>
      obtain ⟨a, A', rfl⟩ := List.exists_cons_of_ne_nil some
      exact ⟨s₀, n₀, _, by rw [List.cons_append, first rfl]⟩
    | next ends =>
      obtain ⟨a, A', rfl⟩ := List.exists_cons_of_ne_nil some
      exact ⟨s₀, n₀, _, by rw [List.cons_append, first rfl]⟩
    | @prev A B a m begins' =>
      cases A with
      | nil => exact ⟨a, _, _, rfl⟩
      | cons b A => exact ⟨s₀, n₀, _, by rw [List.cons_append, first rfl]⟩
    | @both A B a m s k =>
      cases A with
      | nil => exact ⟨a, _, _, rfl⟩
      | cons b A => exact ⟨s₀, n₀, _, by rw [List.cons_append, first rfl]⟩

/-! ## Conservation -/

/-- Every unit of the region is free or held. -/
structure Conserved (s : State) : Prop where
  tiles : ∃ row, Region s.heap.base row (plus s.heap.base s.heap.headerBlocks) ∧
    (∀ b ∈ row, s.heap.size b.start = b.units) ∧ Threaded s.heap.next (freeStarts row) ∧
    (freeStarts row).Pairwise (· < ·) ∧ s.heap.freeNode ∈ freeStarts row ∧ row.IsChain Apart ∧
    s.live.Perm (heldBlocks row)
  counted : ∃ cant, getMemoryInfoLoop s.heap s.heap.freeNode (s.heap.headerBlocks + 1) 0 s.heap.freeNode = some cant ∧
    cant + liveUnits s.live = s.heap.headerBlocks
  informed : ∀ h p, malloc s.heap sizeofMemoryInfo = some (h, p) → p ≠ 0 → p ≠ plus s.heap.base 1 →
    ∃ h' info, getMemoryInfo s.heap = some (h', some (p, info)) ∧ info.totalMem = s.heap.headerBlocks * sizeofHeader ∧
      info.availableMem + (requestBlocks sizeofMemoryInfo + liveUnits s.live) * sizeofHeader = info.totalMem
  initial : s.live = [] → s.heap.freeNode = s.heap.base ∧ s.heap.next s.heap.base = s.heap.base ∧
    s.heap.size s.heap.base = s.heap.headerBlocks

theorem liveUnits_perm {live live' : List Held} (same : live.Perm live') : liveUnits live = liveUnits live' :=
  (same.map Held.units).sum_eq

/-- With nothing held there is one block. -/
theorem row_initial (layout : Layout h row) (none : heldBlocks row = []) :
    h.freeNode = h.base ∧ h.next h.base = h.base ∧ h.size h.base = h.headerBlocks := by
  have allFree : ∀ b ∈ row, b.free = true := by
    intro b member
    refine Bool.not_eq_false _ ▸ fun isHeld => ?_
    have listed : (⟨plus b.start 1, b.units⟩ : Held) ∈ heldBlocks row := by
      refine mem_heldBlocks.mpr ⟨b.start, ?_, rfl⟩
      rw [← isHeld]
      exact member
    rw [none] at listed
    cases listed
  match row, layout, allFree with
  | [], layout, _ => cases layout.node
  | [⟨s, n, true⟩], layout, _ =>
    obtain rfl := begins_at layout
    have units := region_units layout.tiles
    refine ⟨List.mem_singleton.mp layout.node, threaded_singleton.mp layout.ring, ?_⟩
    rw [layout.sizes ⟨h.base, n, true⟩ (List.mem_singleton_self _)]
    simp only [plus, sizeofHeader, List.map_singleton, List.sum_singleton] at units
    change n = h.headerBlocks
    omega
  | [⟨s, n, false⟩], layout, allFree => cases allFree _ (List.mem_singleton_self _)
  | a :: b :: rest, layout, allFree =>
    have apart := (List.isChain_cons_cons.mp layout.apart).1
    exact (apart ⟨allFree a (by simp), allFree b (by simp)⟩).elim

/-- The heap is a row of blocks that begins with a free one. -/
def Sound (s : State) : Prop := ∃ row, Layout s.heap row ∧ s.live.Perm (heldBlocks row) ∧ BeginsFree row

theorem perform_sound (sound : Sound s) (spares : SparesBase s call) (ran : perform s call = some s') : Sound s' := by
  obtain ⟨row, layout, held, begins⟩ := sound
  obtain ⟨row', layout', held', changed⟩ := perform_row layout held (keeps_of_spares layout held begins spares ran) ran
  exact ⟨row', layout', held', changed_begins layout begins spares changed⟩

theorem run_sound (sound : Sound s) (run : Run SparesBase s s') : Sound s' := by
  induction run with
  | refl => exact sound
  | tail _ step ih =>
    obtain ⟨call, spares, ran⟩ := step
    exact perform_sound ih spares ran

theorem counted_of_sound (sound : Sound s) :
    ∃ cant, getMemoryInfoLoop s.heap s.heap.freeNode (s.heap.headerBlocks + 1) 0 s.heap.freeNode = some cant ∧
      cant + liveUnits s.live = s.heap.headerBlocks := by
  obtain ⟨row, layout, held, -⟩ := sound
  rw [liveUnits_perm held]
  exact free_units layout

theorem taken_region (h : Heap) (blocks prev current : Nat) :
    (take h blocks prev current).1.base = h.base ∧ (take h blocks prev current).1.headerBlocks = h.headerBlocks := by
  unfold take
  split <;> exact ⟨rfl, rfl⟩

theorem malloc_region (found : malloc h mem = some (h', p)) : h'.base = h.base ∧ h'.headerBlocks = h.headerBlocks := by
  have loop : ∀ steps prev current, mallocLoop h (requestBlocks mem) steps prev current = some (h', p) →
      h'.base = h.base ∧ h'.headerBlocks = h.headerBlocks := by
    intro steps
    induction steps with
    | zero => intro prev current ran; cases ran
    | succ steps ih =>
      intro prev current ran
      rw [mallocLoop] at ran
      split at ran
      · have region := taken_region h (requestBlocks mem) prev current
        rwa [Option.some.inj ran] at region
      · split at ran
        · cases ran
          exact ⟨rfl, rfl⟩
        · exact ih _ _ ran
  unfold malloc at found
  split at found
  · cases found
    exact ⟨rfl, rfl⟩
  · exact loop _ _ _ found

theorem free_region (freed : free h memory = some h') : h'.base = h.base ∧ h'.headerBlocks = h.headerBlocks := by
  unfold free at freed
  split at freed
  · cases freed
    exact ⟨rfl, rfl⟩
  · dsimp only at freed
    split at freed
    · cases freed
      exact ⟨rfl, rfl⟩
    · split at freed
      · cases freed
      · cases freed
        exact ⟨rfl, rfl⟩
      · cases freed
        exact region_link
      · split at freed
        · cases freed
          exact ⟨rfl, rfl⟩
        · cases freed
          exact region_link

/-- No call moves the region. -/
theorem perform_region (ran : perform s call = some s') :
    s'.heap.base = s.heap.base ∧ s'.heap.headerBlocks = s.heap.headerBlocks := by
  cases call with
  | malloc mem =>
    simp only [perform] at ran
    split at ran
    · obtain ⟨⟨h', p⟩, found, rfl⟩ := Option.map_eq_some_iff.mp ran
      have region := malloc_region found
      dsimp only
      split <;> exact region
    · cases ran
  | free block =>
    simp only [perform] at ran
    split at ran
    · obtain ⟨h', freed, rfl⟩ := Option.map_eq_some_iff.mp ran
      exact free_region freed
    · cases ran
  | write block unit value =>
    simp only [perform] at ran
    split at ran
    · cases ran
      exact ⟨rfl, rfl⟩
    · cases ran

theorem run_region (run : Run allowed s s') : s'.heap.base = s.heap.base ∧
    s'.heap.headerBlocks = s.heap.headerBlocks := by
  induction run with
  | refl => exact ⟨rfl, rfl⟩
  | tail _ step ih =>
    obtain ⟨call, -, ran⟩ := step
    have last := perform_region ran
    exact ⟨last.1.trans ih.1, last.2.trans ih.2⟩

theorem conserved_of_sound (sound : Sound s) : Conserved s := by
  obtain ⟨row, layout, held, begins⟩ := id sound
  refine ⟨⟨row, layout.tiles, layout.sizes, layout.ring, freeStarts_sorted layout.tiles,
    layout.node, layout.apart, held⟩,
    counted_of_sound sound, fun h p found some other => ?_, fun none => row_initial layout ?_⟩
  · -- Its own block is one more that is held.
    have ran : perform s (.malloc sizeofMemoryInfo) = Option.some ⟨h, ⟨p, h.size (p - sizeofHeader)⟩ :: s.live⟩ := by
      simp only [perform, sizeofMemoryInfo, Nat.reducePow, Nat.reduceLT, ↓reduceIte]
      rw [show malloc s.heap 16 = Option.some (h, p) from found, Option.map_some]
      simp only [some, ↓reduceIte]
    have spares : SparesBase s (.malloc sizeofMemoryInfo) := by
      refine ⟨by decide, fun result member => ?_⟩
      cases found.symm.trans member
      exact other
    have keeps := keeps_of_spares layout held begins spares ran
    obtain ⟨cant, counted, sum⟩ := counted_of_sound (perform_sound sound spares ran)
    have units : h.size (p - sizeofHeader) = requestBlocks sizeofMemoryInfo := by
      have asked : sizeofMemoryInfo ≠ 0 := by decide
      rcases malloc_spec layout asked with ⟨-, null⟩ | ⟨h', p', row', found', taken, linked⟩
      · cases found.symm.trans null
        exact (some rfl).elim
      · cases found.symm.trans found'
        exact taken_size taken (linked (keeps (by decide)))
    have region := malloc_region found
    obtain ⟨h', informed⟩ := getMemoryInfo_eq found some counted
    refine ⟨h', _, informed, congrArg (· * sizeofHeader) region.2, ?_⟩
    simp only [liveUnits, List.map_cons, List.sum_cons, units] at sum
    change cant * sizeofHeader + _ = h.headerBlocks * sizeofHeader
    rw [← Nat.add_mul, ← sum]
    rfl
  · exact List.nil_perm.mp (none ▸ held)

theorem start_sound (base : heapBase ≠ 0) (size : heapSize < 2 ^ 32) : Sound (start h heapBase heapSize) :=
  ⟨_, start_layout base size, by simp [start, heldBlocks], _, _, _, rfl⟩

/-- **No unit is lost or counted twice**, over every run in which the block at the
heap base is never handed out whole. -/
theorem units_conserved (base : heapBase ≠ 0) (size : heapSize < 2 ^ 32)
    (run : Run SparesBase (start h heapBase heapSize) s) : Conserved s ∧ s.heap.base = heapBase ∧
      s.heap.headerBlocks = (heapSize + sizeofHeader - 1) / sizeofHeader + 1 := by
  obtain ⟨atBase, blocks⟩ := run_region run
  refine ⟨conserved_of_sound (run_sound (start_sound base size) run), atBase.trans ?_, blocks.trans ?_⟩
  · simp [start, initializeMemoryManager, base, Heap.setNext, Heap.setSize]
  · have units := start_units size
    simp only [start, initializeMemoryManager, base, ↓reduceIte, headerBlocks_setNext, headerBlocks_setSize, units]

/-- Three blocks, the middle one given back. -/
theorem units_conserved_kernel : ∃ s, Run SparesBase kernelHeap s ∧ s.live.length = 2 ∧ Conserved s ∧
    s.heap.base = 0x600000 ∧ s.heap.headerBlocks = (0x100000 + sizeofHeader - 1) / sizeofHeader + 1 := by
  have run : Run SparesBase kernelHeap _ :=
    .tail (.tail (.tail (.tail .refl ⟨.malloc 100, by decide, rfl⟩) ⟨.malloc 5000, by decide, rfl⟩)
      ⟨.malloc 64, by decide, rfl⟩) ⟨.free ⟨0x6fec00, 314⟩, by decide, rfl⟩
  exact ⟨_, run, rfl, units_conserved (by decide) (by decide) run⟩

/-! ## Bounds -/

/-- The block lies inside the `heapSize` bytes from `heapBase` on. -/
def Held.Inside (held : Held) (heapBase heapSize : Nat) : Prop :=
  heapBase ≤ held.pointer - sizeofHeader ∧ plus (held.pointer - sizeofHeader) held.units ≤ heapBase + heapSize

/-- What the call returns, unless it is `NULL`. -/
def granted (s : State) : Call → List Held
  | .malloc mem =>
    match malloc s.heap mem with
    | some (heap, pointer) => if pointer = 0 then [] else [⟨pointer, heap.size (pointer - sizeofHeader)⟩]
    | none => []
  | _ => []

theorem granted_malloc (found : malloc s.heap mem = some (h, p)) (given : p ≠ 0) :
    granted s (.malloc mem) = [⟨p, h.size (p - sizeofHeader)⟩] := by
  simp [granted, found, given]

/-- The blocks that `malloc` returns in a run. -/
def returned (s : State) : List Call → Option (List Held)
  | [] => some []
  | call :: calls => do
    let s' ← perform s call
    let rest ← returned s' calls
    return granted s call ++ rest

/-- One free block, which is all there is. -/
structure Untouched (s : State) (lo units : Nat) : Prop where
  node : s.heap.freeNode = lo
  self : s.heap.next lo = lo
  size : s.heap.size lo = units
  narrow : units < 2 ^ 32
  live : s.live = []

theorem malloc_untouched (untouched : Untouched s lo units) (asked : mem ≠ 0) : malloc s.heap mem =
    some (if requestBlocks mem ≤ units then take s.heap (requestBlocks mem) lo lo else (s.heap, 0)) := by
  unfold malloc mallocLoop
  simp only [asked, ↓reduceIte, untouched.node, untouched.self, untouched.size]
  split <;> rfl

/-- What is taken of the only block reaches to its end. -/
theorem take_reaches (untouched : Untouched s lo units) (positive : 1 ≤ blocks) (fits : blocks ≤ units) :
    (take s.heap blocks lo lo).2 ≠ 0 ∧ plus ((take s.heap blocks lo lo).2 - sizeofHeader)
      ((take s.heap blocks lo lo).1.size ((take s.heap blocks lo lo).2 - sizeofHeader)) = plus lo units := by
  have back : ∀ c, plus c 1 - sizeofHeader = c := fun c => by simp [plus, sizeofHeader]
  have narrow := untouched.narrow
  by_cases exact_ : units = blocks
  · subst exact_
    simp only [take, untouched.size, ↓reduceIte, back, size_setFreeNode, size_setNext, and_true]
    simp [plus, sizeofHeader]
  · have rest : (units - blocks) % 2 ^ 32 = units - blocks := Nat.mod_eq_of_lt (by omega)
    have own : blocks % 2 ^ 32 = blocks := Nat.mod_eq_of_lt (by omega)
    simp only [take, untouched.size, exact_, ↓reduceIte, back, size_setFreeNode, size_setSize, rest, own]
    simp only [plus, sizeofHeader]
    omega

/-- As long as nothing fits, nothing changes; and what fits ends where the region ends. -/
theorem returned_untouched (untouched : Untouched s lo units) (past : lo + heapSize < plus lo units)
    (ran : returned s calls = some blocks) :
    (∀ held ∈ blocks, held.Inside lo heapSize) ↔ ∀ mem, .malloc mem ∈ calls → mem = 0 ∨ units < requestBlocks mem := by
  induction calls generalizing blocks with
  | nil =>
    cases ran
    simp
  | cons call calls ih =>
    obtain ⟨s', performed, ran⟩ := Option.bind_eq_some_iff.mp ran
    obtain ⟨rest, later, ran⟩ := Option.bind_eq_some_iff.mp ran
    obtain rfl := Option.some.inj ran
    cases call with
    | malloc mem =>
      simp only [perform] at performed
      split at performed
      · by_cases idle : mem = 0 ∨ units < requestBlocks mem
        · -- `NULL`
          have null : malloc s.heap mem = some (s.heap, 0) := by
            rcases idle with rfl | large
            · simp [malloc]
            · by_cases zero : mem = 0
              · simp [malloc, zero]
              · rw [malloc_untouched untouched zero, if_neg (Nat.not_le.mpr large)]
          have nothing : granted s (.malloc mem) = [] := by simp [granted, null]
          rw [null, Option.map_some] at performed
          obtain rfl : s = s' := Option.some.inj performed
          rw [nothing, List.nil_append, ih later]
          constructor
          · intro others mem' member
            rcases List.mem_cons.mp member with same | member
            · exact Call.malloc.inj same ▸ idle
            · exact others mem' member
          · exact fun all mem' member => all mem' (List.mem_cons_of_mem _ member)
        · obtain ⟨asked, fits⟩ := not_or.mp idle
          have found := malloc_untouched untouched asked
          rw [if_pos (Nat.not_lt.mp fits)] at found
          obtain ⟨some, reaches⟩ := take_reaches untouched requestBlocks_pos (Nat.not_lt.mp fits)
          generalize take s.heap (requestBlocks mem) lo lo = taken at found some reaches
          obtain ⟨h', p⟩ := taken
          have block := granted_malloc found some
          constructor
          · intro inside
            have ends := (inside _ (by rw [block]; exact List.mem_append_left _ (List.mem_singleton_self _))).2
            exact (Nat.not_lt.mpr (reaches ▸ ends) past).elim
          · intro all
            exact (idle (all mem (List.mem_cons_self ..))).elim
      · cases performed
    | free held =>
      simp [perform, untouched.live] at performed
    | write held unit value =>
      simp [perform, untouched.live] at performed

/-- **A block stays inside the heap only if there is none**: a run returns no block that
reaches past the heap if and only if none of its requests fits. -/
theorem blocks_inside_iff (base : heapBase ≠ 0) (size : heapSize < 2 ^ 32)
    (ran : returned (start h heapBase heapSize) calls = some blocks) :
    (∀ held ∈ blocks, held.Inside heapBase heapSize) ↔
      ∀ mem, .malloc mem ∈ calls → mem = 0 ∨ (start h heapBase heapSize).heap.headerBlocks < requestBlocks mem := by
  have layout := start_layout (h := h) base size
  have untouched :
    Untouched (start h heapBase heapSize) heapBase ((heapSize + sizeofHeader - 1) / sizeofHeader + 1) := by
    refine ⟨List.mem_singleton.mp layout.node, threaded_singleton.mp layout.ring, ?_, ?_, rfl⟩
    · exact layout.sizes ⟨heapBase, _, true⟩ (List.mem_singleton_self _)
    · simp only [sizeofHeader]
      omega
  have blocks' : (start h heapBase heapSize).heap.headerBlocks = (heapSize + sizeofHeader - 1) / sizeofHeader + 1 := by
    have units := start_units size
    simp only [start, initializeMemoryManager, base, ↓reduceIte, headerBlocks_setNext, headerBlocks_setSize, units]
  rw [blocks']
  refine returned_untouched untouched ?_ ran
  simp only [plus, sizeofHeader]
  omega

/-- A request for the whole region of 65538 units, which is one too many. -/
theorem blocks_inside_iff_kernel : ∃ blocks, returned kernelHeap [.malloc 0x100010, .malloc 0] = some blocks ∧
    ((∀ held ∈ blocks, held.Inside 0x600000 0x100000) ↔
      ∀ mem, .malloc mem ∈ [Call.malloc 0x100010, .malloc 0] → mem = 0 ∨
      kernelHeap.heap.headerBlocks < requestBlocks mem) := by
  have ran : returned kernelHeap [.malloc 0x100010, .malloc 0] = some [] := by decide
  exact ⟨[], ran, blocks_inside_iff (by decide) (by decide) ran⟩

/-- The first block of the kernel's heap, of one byte, lies across its end. -/
theorem first_block_outside : ∃ blocks, returned kernelHeap [.malloc 1] = some blocks ∧
    ¬∀ held ∈ blocks, held.Inside 0x600000 0x100000 := by
  refine ⟨[⟨0x700000, 2⟩], by decide, fun inside => ?_⟩
  have ends := (inside _ (List.mem_singleton_self _)).2
  revert ends
  decide

end QuesOs.StandardMalloc
