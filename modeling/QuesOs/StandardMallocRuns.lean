import QuesOs.StandardMallocRelease

/-! Runs of the STANDARD allocator. As long as no call meets the one-node
free list in one of its two degenerate positions, the heap is a row of
blocks after every call and the client's blocks are pieces of it. The first
of those positions is reached by two calls on a fresh heap. -/
namespace QuesOs.StandardMalloc
open LinkedRing BlockRow Heap

/-- The heap is a row of blocks, and the held ones are the client's. -/
def Good (s : State) : Prop := ∃ row, Layout s.heap row ∧ s.live.Perm (heldBlocks row)

/-- The call does not meet a one-node free list in a position the code
mishandles: a request for exactly that node, or a release right below it. -/
def KeepsFreeList (s : State) : Call → Prop
  | .malloc mem => mem ≠ 0 → ¬TakesOnlyBlock s.heap mem
  | .free held => ¬JoinsOnlyBlock s.heap held.pointer held.units
  | .write _ _ _ => True

instance : Decidable (TakesOnlyBlock h mem) := inferInstanceAs (Decidable (_ ∧ _))
instance : Decidable (JoinsOnlyBlock h pointer units) := inferInstanceAs (Decidable (_ ∧ _))

instance : DecidableRel KeepsFreeList
  | _, .malloc _ => inferInstanceAs (Decidable (_ → _))
  | _, .free _ => inferInstanceAs (Decidable (¬_))
  | _, .write _ _ _ => isTrue trivial

/-- `header_blocks` is the rounded-up quotient and one more. -/
theorem start_units (size : heapSize < 2 ^ 32) : ((heapSize + sizeofHeader - 1) / sizeofHeader + 1) % 2 ^ 32 =
    (heapSize + sizeofHeader - 1) / sizeofHeader + 1 := by
  simp only [sizeofHeader]
  omega

theorem start_layout (base : heapBase ≠ 0) (size : heapSize < 2 ^ 32) :
    Layout (start h heapBase heapSize).heap [⟨heapBase, (heapSize + sizeofHeader - 1) / sizeofHeader + 1, true⟩] := by
  have units := start_units size
  simp only [start, initializeMemoryManager, base, ↓reduceIte, units]
  refine ⟨?_, ?_, ?_, ?_, .singleton _, ?_⟩
  · simp only [base_setNext, base_setSize, headerBlocks_setNext, headerBlocks_setSize]
    refine ⟨rfl, ?_, rfl⟩
    simp only [Block.stop, plus, sizeofHeader]
    omega
  · simp only [List.mem_singleton, forall_eq, size_setNext, size_setSize, ↓reduceIte, units]
  · simp [threaded_singleton]
  · simp [Heap.setNext, Heap.setSize]
  · simp only [headerBlocks_setNext, headerBlocks_setSize, sizeofHeader]
    omega

theorem start_good (base : heapBase ≠ 0) (size : heapSize < 2 ^ 32) : Good (start h heapBase heapSize) :=
  ⟨_, start_layout base size, by simp [start, heldBlocks]⟩

/-- A request hands out one more block of the row, with the units recorded in its header. -/
theorem taken_held (taken : Taken blocks row row' p) :
    (⟨p, blocks⟩ :: heldBlocks row).Perm (heldBlocks row') := by
  cases taken with
  | whole => simpa using List.perm_middle.symm
  | tail => simpa using List.perm_middle.symm

theorem taken_size (taken : Taken blocks row row' p) (layout : Layout h row') :
    h.size (p - sizeofHeader) = blocks := by
  have back : ∀ c, plus c 1 - sizeofHeader = c := fun c => by simp [plus, sizeofHeader]
  cases taken with
  | @whole A B c => rw [back]; exact layout.sizes ⟨c, blocks, false⟩ (by simp)
  | @tail A B c n smaller => rw [back]; exact layout.sizes ⟨plus c (n - blocks), blocks, false⟩ (by simp)

theorem taken_pointer (taken : Taken blocks row row' p) : p ≠ 0 := by
  cases taken <;> simp [plus, sizeofHeader]

/-- A release takes back exactly the released block. -/
theorem released_held (released : Released f n A B row) : heldBlocks row = heldBlocks A ++ heldBlocks B := by
  cases released <;> simp [heldBlocks]

/-- Writing inside a held block changes no header of the row. -/
theorem layout_write (layout : Layout h row) (member : (⟨f, n, false⟩ : Block) ∈ row)
    (above : f < x) (below : x < plus f n) :
    Layout { h with header := Function.update h.header x value } row := by
  have elsewhere : ∀ b ∈ row, b.start ≠ x := fun b inside =>
    (inside_not_start layout.tiles member inside above below).symm
  refine ⟨layout.tiles, ?_, ?_, layout.node, layout.apart, layout.narrow⟩
  · intro b inside
    have := layout.sizes b inside
    simpa [Heap.size, elsewhere b inside] using this
  · refine threaded_agree layout.ring ?_
    intro a listed
    obtain ⟨n, inside⟩ := mem_freeStarts.mp listed
    simp [Heap.next, elsewhere _ inside]

/-- What one call makes of the row. -/
inductive Changed (s : State) (row : List Block) : Call → List Block → Prop where
  | same {call : Call} : Changed s row call row
  | taken {mem blocks p : Nat} {h : Heap} {row' : List Block} (found : malloc s.heap mem = some (h, p))
      (taken : Taken blocks row row' p) : Changed s row (.malloc mem) row'
  | released {held : Held} {f n : Nat} {A B row' : List Block} (split : row = A ++ ⟨f, n, false⟩ :: B)
      (released : Released f n A B row') : Changed s row (.free held) row'

/-- One call keeps the heap a row of blocks. -/
theorem perform_row (layout : Layout s.heap row) (held : s.live.Perm (heldBlocks row)) (keeps : KeepsFreeList s call)
    (ran : perform s call = some s') :
    ∃ row', Layout s'.heap row' ∧ s'.live.Perm (heldBlocks row') ∧ Changed s row call row' := by
  cases call with
  | malloc mem =>
    simp only [perform] at ran
    split at ran
    · by_cases asked : mem = 0
      · simp [malloc, asked] at ran
        exact ran ▸ ⟨row, layout, held, .same⟩
      · rcases malloc_spec layout asked with ⟨-, null⟩ | ⟨h', p, row', found, taken, linked⟩
        · simp [null] at ran
          exact ran ▸ ⟨row, layout, held, .same⟩
        · have layout' := linked (keeps asked)
          simp [found, taken_pointer taken, taken_size taken layout'] at ran
          exact ran ▸ ⟨row', layout', (held.cons _).trans (taken_held taken), .taken found taken⟩
    · cases ran
  | free block =>
    simp only [perform] at ran
    split at ran
    · rename_i member
      obtain ⟨f, inside, pointer⟩ := mem_heldBlocks.mp (held.mem_iff.mp member)
      obtain ⟨A, B, rfl⟩ := List.append_of_mem inside
      obtain ⟨h', row', freed, released, linked⟩ := free_spec layout
      rw [pointer, freed] at ran
      simp only [Option.map_some, Option.some.injEq] at ran
      refine ran ▸ ⟨row', linked (pointer ▸ keeps), ?_, .released rfl released⟩
      rw [released_held released]
      have rest : (s.live.erase block).Perm ((heldBlocks A ++ block :: heldBlocks B).erase block) := by
        refine List.Perm.erase block (held.trans ?_)
        rw [heldBlocks_append, heldBlocks_cons_held, ← pointer]
      refine rest.trans ?_
      simpa using (@List.perm_middle _ block (heldBlocks A) (heldBlocks B)).erase block
    · cases ran
  | write block unit value =>
    simp only [perform] at ran
    split at ran
    · rename_i allowed
      obtain ⟨f, inside, pointer⟩ := mem_heldBlocks.mp (held.mem_iff.mp allowed.1)
      simp only [Option.some.injEq] at ran
      refine ran ▸ ⟨row, layout_write layout inside ?_ ?_, held, .same⟩ <;>
        simp only [pointer, plus, sizeofHeader] <;> omega
    · cases ran

theorem perform_good (good : Good s) (keeps : KeepsFreeList s call) (ran : perform s call = some s') : Good s' := by
  obtain ⟨row, layout, held⟩ := good
  obtain ⟨row', layout', held', -⟩ := perform_row layout held keeps ran
  exact ⟨row', layout', held'⟩

/-- A run of such calls keeps it. -/
theorem run_good (good : Good s) (run : Run KeepsFreeList s s') : Good s' := by
  induction run with
  | refl => exact good
  | tail _ step ih =>
    obtain ⟨call, keeps, ran⟩ := step
    exact perform_good ih keeps ran

/-- What the client holds never overlaps, whatever the heap looks like. -/
theorem held_disjoint (good : Good s) :
    s.live.Pairwise fun a b => ∀ address, ¬(a.Covers address ∧ b.Covers address) := by
  obtain ⟨row, layout, held⟩ := good
  refine (held.pairwise_iff fun apart address both => apart address both.symm).mpr ?_
  rw [heldBlocks, List.pairwise_map]
  refine ((row_ordered layout.tiles).sublist List.filter_sublist).imp ?_
  intro a b ordered address both
  simp only [Held.Covers, plus, sizeofHeader, Block.stop] at both ordered
  omega

/-- **Live allocations never overlap**, over every run in which no call meets
the one-node free list in a position the code mishandles. -/
theorem live_allocations_disjoint (base : heapBase ≠ 0) (size : heapSize < 2 ^ 32)
    (run : Run KeepsFreeList (start h heapBase heapSize) s) :
    s.live.Pairwise fun a b => ∀ address, ¬(a.Covers address ∧ b.Covers address) :=
  held_disjoint (run_good (start_good base size) run)

/-- Memory before the first call. -/
def blank : Heap := ⟨fun _ => ⟨0, 0⟩, 0, 0, 0⟩

/-- The kernel's own heap, `HEAP_SIZE` bytes at `memoryManagerModuleAddress`. -/
def kernelHeap : State := start blank 0x600000 0x100000

/-- A small and a larger block, the first given back, and another in its place. -/
theorem live_allocations_disjoint_kernel : ∃ s, Run KeepsFreeList kernelHeap s ∧ s.live.length = 2 ∧
    s.live.Pairwise fun a b => ∀ address, ¬(a.Covers address ∧ b.Covers address) := by
  have run : Run KeepsFreeList kernelHeap _ :=
    .tail (.tail (.tail (.tail .refl ⟨.malloc 100, by decide, rfl⟩) ⟨.malloc 5000, by decide, rfl⟩)
      ⟨.free ⟨0x6fffa0, 8⟩, by decide, rfl⟩) ⟨.malloc 100, by decide, rfl⟩
  exact ⟨_, run, rfl, live_allocations_disjoint (by decide) (by decide) run⟩

/-- A request for the whole of a fresh heap is granted twice: an exact fit on
the only free block is unlinked from itself and stays listed. -/
theorem only_block_handed_out_twice : ∃ s, Run (fun _ _ => True) kernelHeap s ∧
    ¬s.live.Pairwise fun a b => ∀ address, ¬(a.Covers address ∧ b.Covers address) := by
  have run : Run (fun _ _ => True) kernelHeap _ :=
    .tail (.tail .refl ⟨.malloc 0x100000, trivial, rfl⟩) ⟨.malloc 0x100000, trivial, rfl⟩
  refine ⟨_, run, fun disjoint => ?_⟩
  have both := (List.pairwise_cons.mp disjoint).1 _ (List.mem_singleton.mpr rfl) 0x600000
  exact both ⟨⟨by decide, by decide⟩, ⟨by decide, by decide⟩⟩

end QuesOs.StandardMalloc
