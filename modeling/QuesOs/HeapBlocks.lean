import QuesOs.Scheduler
import QuesOs.SemaphoreCreation
import Mathlib.Algebra.Order.Group.Multiset
import Mathlib.Tactic.Abel

/-! Which blocks the kernel takes from the heap and gives back while memory is
granted. The live blocks are counted as often as they were allocated, so a block
that is given back twice is missed. A search gives its iterator back at once; a
semaphore is five blocks and two for everybody who waits. -/
namespace QuesOs.Kernel
open Resumption

variable {bad : Fault → Prop} {s : State}

/-! ## Accounts -/

/-- The live blocks, each as often as it was allocated and not given back. -/
def Heap.blocks (h : Heap) : Multiset Ref := h.live

/-- Some requests later the heap has these blocks more. -/
structure Heap.Takes (h : Heap) (taken : Multiset Ref) (h' : Heap) : Prop where
  grown : h.Grown h'
  blocks : h'.blocks = h.blocks + taken

/-- Some requests later the heap has these blocks less. -/
structure Heap.Drops (h : Heap) (dropped : Multiset Ref) (h' : Heap) : Prop where
  grown : h.Grown h'
  blocks : h'.blocks = h.blocks - dropped

namespace Heap
variable {h h' h'' : Heap} {taken taken' dropped dropped' : Multiset Ref}

theorem Takes.trans (first : h.Takes taken h') (second : h'.Takes taken' h'') : h.Takes (taken + taken') h'' :=
  ⟨first.grown.trans second.grown, by rw [second.blocks, first.blocks, add_assoc]⟩

theorem Drops.refl (h : Heap) : h.Drops 0 h := ⟨.refl h, (tsub_zero _).symm⟩

theorem Drops.trans (first : h.Drops dropped h') (second : h'.Drops dropped' h'') : h.Drops (dropped + dropped') h'' :=
  ⟨first.grown.trans second.grown, by rw [second.blocks, first.blocks, Multiset.sub_add_eq_sub_sub]⟩

/-- Nothing dropped is nothing taken. -/
theorem Drops.nothing (drops : h.Drops 0 h') : h.Takes 0 h' := ⟨drops.grown, by rw [drops.blocks, tsub_zero, add_zero]⟩

theorem Drops.after (drops : h.Drops 0 h') (later : h'.Drops dropped h'') : h.Drops dropped h'' := by
  have both := drops.trans later
  rwa [zero_add] at both

theorem Drops.before (drops : h.Drops dropped h') (later : h'.Drops 0 h'') : h.Drops dropped h'' := by
  have both := drops.trans later
  rwa [add_zero] at both

theorem Takes.before (takes : h.Takes taken h') (later : h'.Drops 0 h'') : h.Takes taken h'' := by
  have both := takes.trans later.nothing
  rwa [add_zero] at both

theorem drops_release (h : Heap) (ref : Ref) : h.Drops {ref} (h.release ref) := by
  refine ⟨h.grown_release ref, ?_⟩
  unfold Heap.blocks Heap.release
  rw [Multiset.sub_singleton, Multiset.coe_erase]

theorem takes_allocate (h : Heap) : h.Takes {h.requests} h.allocate := by
  refine ⟨h.grown_allocate, ?_⟩
  unfold Heap.blocks Heap.allocate
  rw [← Multiset.cons_coe, ← Multiset.singleton_add, add_comm]

/-- What is allocated for a while. -/
theorem drops_same (grown : h.Grown h') (same : h'.live = h.live) : h.Drops 0 h' :=
  ⟨grown, by rw [Heap.blocks, same, tsub_zero, Heap.blocks]⟩

end Heap

/-! ## Queues -/

theorem find_drops {α : Type} {queue : Queue α} (grants : s.Grants) (findCondition : α → Bool) :
    Meets bad (find queue findCondition) (fun found s' => found = (values queue).find? findCondition ∧
      ∃ h, s.heap.Drops 0 h ∧ s' = s.withHeap h) s := by
  refine (find_exact findCondition).mono ?_
  rintro found s' ⟨same, rfl⟩
  have granted : s.heap.Grants 0 := grants _
  rw [if_pos granted] at same
  have drops : s.heap.Drops 0 (s.after 1).heap := Heap.drops_same ⟨rfl, Nat.le_add_right ..⟩ rfl
  exact ⟨same, _, drops, rfl⟩

theorem takeElement_drops {α : Type} {queue : Queue α} {node : Node α} {removeCondition : α → Bool}
    (found : queue.find? (removeCondition ·.value) = some node) :
    Meets bad (takeElement queue removeCondition) (fun r s' =>
      r = (queue.eraseP (removeCondition ·.value), some node.value) ∧ ∃ h, s.heap.Drops {node.ref} h ∧
        s' = s.withHeap h) s := by
  unfold takeElement
  simp only [found, meets_bind, meets_free, meets_pure]
  exact ⟨trivial, _, s.heap.drops_release _, rfl⟩

theorem enqueue_takes {α : Type} {queue : Queue α} (grants : s.Grants) (value : α) :
    Meets bad (enqueue queue value) (fun q s' => ∃ node : Node α, node.value = value ∧ q = queue ++ [node] ∧
      ∃ h, s.heap.Takes {node.ref} h ∧ s' = s.withHeap h) s := by
  unfold enqueue
  rw [meets_bind, meets_malloc grants]
  exact ⟨⟨s.heap.requests, value⟩, rfl, rfl, _, s.heap.takes_allocate, rfl⟩

/-- The blocks of those that wait: a node and a pid for each. -/
def entryBlocks (queue : Queue Caller) : Multiset Ref :=
  (queue.flatMap fun node => [node.ref, node.value.ref] : List Ref)

@[simp] theorem entryBlocks_nil : entryBlocks [] = 0 := rfl

theorem entryBlocks_cons (node : Node Caller) (queue : Queue Caller) :
    entryBlocks (node :: queue) = {node.ref} + {node.value.ref} + entryBlocks queue := by
  unfold entryBlocks
  rw [List.flatMap_cons, ← Multiset.coe_add]
  rfl

theorem freeNodes_drops (queue : Queue Caller) :
    Meets bad (freeNodes queue) (fun _ s' => ∃ h, s.heap.Drops (entryBlocks queue) h ∧ s' = s.withHeap h) s := by
  induction queue generalizing s with
  | nil => exact ⟨_, .refl _, rfl⟩
  | cons node queue ih =>
    simp only [freeNodes, meets_bind, meets_free]
    refine ih.mono ?_
    rintro _ s' ⟨h, drops, rfl⟩
    rw [entryBlocks_cons]
    exact ⟨h, ((s.heap.drops_release _).trans (Heap.drops_release _ _)).trans drops, rfl⟩

/-! ## Semaphores -/

/-- The blocks of a semaphore in its queue. -/
def semBlocks (node : Node Sem) : Multiset Ref :=
  {node.ref} + (entryBlocks node.value.blockedPids + node.value.queueRef.toList +
    {node.value.nameRef} + {node.value.ref})

theorem destroySem_drops (sem : Sem) (queued : sem.queueRef.isSome) : Meets bad (destroySem sem) (fun _ s' => ∃ h,
    s.heap.Drops (entryBlocks sem.blockedPids + sem.queueRef.toList + {sem.nameRef} + {sem.ref}) h ∧
    s' = s.withHeap h) s := by
  obtain ⟨queueRef, isQueue⟩ := Option.isSome_iff_exists.mp queued
  simp only [destroySem, freeQueue, isQueue, meets_bind]
  refine (freeNodes_drops _).mono ?_
  rintro _ s' ⟨h, drops, rfl⟩
  exact ⟨_, ((drops.trans (Heap.drops_release _ _)).trans (Heap.drops_release _ _)).trans (Heap.drops_release _ _), rfl⟩

theorem findSem_drops (grants : s.Grants) (id : Int) :
    Meets bad (findSem id) (fun found s' => found = s.sems.find id ∧ ∃ h, s.heap.Drops 0 h ∧ s' = s.withHeap h) s := by
  unfold findSem
  simp only [meets_bind, meets_get]
  exact find_drops grants _

theorem semValue_drops (grants : s.Grants) (id : Int) :
    Meets bad (semValue id) (fun value s' => value = ((s.sems.find id).map Sem.value).getD (-1) ∧
      ∃ h, s.heap.Drops 0 h ∧ s' = s.withHeap h) s := by
  unfold semValue
  rw [meets_bind]
  refine (findSem_drops grants id).mono ?_
  rintro found s' ⟨rfl, h, drops, rfl⟩
  cases s.sems.find id with
  | none => exact ⟨rfl, h, drops, rfl⟩
  | some sem => exact ⟨rfl, h, drops, rfl⟩

/-- The semaphores with one more, which has the next id. -/
def Sems.push (sems : Sems) (node : Node Sem) : Sems := ⟨sems.semId + 1, sems.semQueue ++ [node], 0⟩

/-- A semaphore that nobody waits for, made of five blocks of the heap. -/
structure Fresh (s : State) (initialValue : Int) (node : Node Sem) (h : Heap) : Prop where
  takes : s.heap.Takes (semBlocks node) h
  low : s.heap.requests ≤ node.value.ref
  nobody : node.value.blockedPids = []
  id : node.value.id = s.sems.semId
  value : node.value.value = initialValue
  added : s.sems.Added initialValue s.heap.requests h.requests (s.sems.push node)

theorem ask_granted (h : Heap) (granted : h.Grants 0) : h.ask = h.allocate := by
  simp [Heap.ask, Heap.allocate, granted]

theorem fresh_newSem (grants : s.Grants) (initialValue : Int) :
    Fresh s initialValue ⟨s.heap.requests + 3, (s.newSem initialValue "").attach⟩ s.heap.ask.ask.ask.ask := by
  have same : s.heap.ask.ask.ask.ask = s.heap.allocate.allocate.allocate.allocate := by
    rw [ask_granted s.heap (grants _), ask_granted s.heap.allocate (grants _),
      ask_granted s.heap.allocate.allocate (grants _),
      ask_granted s.heap.allocate.allocate.allocate (grants _)]
  have queued : s.heap.Grants 1 := grants _
  have isQueue : (s.newSem initialValue "").queueRef = some (s.heap.requests + 1) := if_pos queued
  have room : s.heap.requests < s.heap.ask.ask.ask.ask.requests := by
    change s.heap.requests < s.heap.requests + 1 + 1 + 1 + 1
    omega
  have listed : values (s.sems.push ⟨s.heap.requests + 3, (s.newSem initialValue "").attach⟩).semQueue =
    values s.sems.semQueue ++
      [s.sems.fresh initialValue s.heap.requests (s.heap.requests + 1) (s.heap.requests + 2)] := by
    simp [Sems.push, Sem.attach, State.newSem, values, Sems.fresh, if_pos queued]
  refine ⟨?_, Nat.le_refl _, rfl, rfl, rfl, .intro (Nat.le_refl _) room listed⟩
  · have takes := ((s.heap.takes_allocate.trans (Heap.takes_allocate _)).trans (Heap.takes_allocate _)).trans
      (Heap.takes_allocate _)
    rw [same]
    have blocks : semBlocks ⟨s.heap.requests + 3, (s.newSem initialValue "").attach⟩ =
        {s.heap.requests + 3} + (0 + {s.heap.requests + 1} + {s.heap.requests + 2} + {s.heap.requests}) := by
      simp only [semBlocks, Sem.attach, isQueue]
      rfl
    rw [blocks]
    refine Eq.mp (congrArg (s.heap.Takes · _) ?_) takes
    simp only [Heap.allocate]
    abel

/-- `semInit` takes the five blocks of the semaphore. -/
theorem semInit_takes (grants : s.Grants) (proper : s.sems.Proper s.heap.requests) {initialValue : Int}
    (within : bad .overflow ∨ s.Counts initialValue) :
    Meets bad (semInit initialValue) (fun id s' => id = s.sems.semId ∧
      s.sems.semId < INT_MAX ∧ ∃ node h, Fresh s initialValue node h ∧
      s' = { s with heap := h, sems := s.sems.push node,
                    history := .created s.sems.semId initialValue :: s.history }) s := by
  refine (semInit_within within proper.allSems).mono ?_
  rintro id s' ⟨inits, -, counts⟩
  have granted : ∀ n, s.heap.Grants n := fun n => grants _
  cases inits with
  | refused short => exact (short (granted 0)).elim
  | unnamed _ short => exact (short (granted 2)).elim
  | made _ _ =>
    have older : ∀ node ∈ s.sems.semQueue, node.value.ref ≠ s.heap.requests := fun node member =>
      Nat.ne_of_lt (proper.below node.value (List.mem_map_of_mem member)).1
    have kept : s.sems.semQueue.map (fun node => if node.value.ref = s.heap.requests then
        { node with value := node.value.attach } else node) = s.sems.semQueue := by
      conv_rhs => rw [← List.map_id s.sems.semQueue]
      exact List.map_congr_left fun node member => if_neg (older node member)
    have pushed : (s.withNewSem initialValue "").modify s.heap.requests Sem.attach =
        s.sems.push ⟨s.heap.requests + 3, (s.newSem initialValue "").attach⟩ := by
      simp only [State.withNewSem, Sems.modify, Sems.push, if_pos (granted 3), List.map_append, kept, proper.allSems]
      simp [State.newSem]
    rw [pushed]
    exact ⟨rfl, counts (granted 0), _, _, fresh_newSem grants initialValue, rfl⟩

/-- `semClose` gives the five blocks back, and those of everybody who waits. -/
theorem semClose_drops (grants : s.Grants) (proper : s.sems.Proper n) {id : Int} {node : Node Sem}
    (found : s.sems.semQueue.find? (·.value.id = id) = some node) :
    Meets bad (semClose id) (fun _ s' => ∃ h, s.heap.Drops (semBlocks node) h ∧
      s' = { s with heap := h, sems := s.sems.close id }) s := by
  have there : s.sems.find id = some node.value := by
    unfold Sems.find values
    rw [List.find?_map]
    exact congrArg (Option.map Node.value) found
  obtain ⟨-, queued, unnamed⟩ := proper.plain node.value (find_some there).1
  unfold semClose
  rw [meets_bind]
  refine (findSem_drops grants id).mono ?_
  rintro _ s' ⟨rfl, h, drops, rfl⟩
  simp only [there, acquireAllSems, acquire, proper.allSems, unnamed, String.length_empty,
    true_or, if_true, withHeap_sems,
    releaseAllSems, meets_bind, meets_get, meets_pure, meets_modifySems]
  refine (takeElement_drops found).mono ?_
  rintro _ s' ⟨rfl, h', drops', rfl⟩
  simp only [meets_deref_some]
  refine (destroySem_drops node.value queued).mono ?_
  rintro _ s' ⟨h'', drops'', rfl⟩
  refine ⟨h'', drops.after (drops'.trans drops''), ?_⟩
  rw [Sems.close, ← proper.allSems]
  rfl

/-! ## Waiting -/

/-- The semaphores after a `semWait` that found a unit or no semaphore. -/
def Sems.taken (sems : Sems) (id : Int) : Sems :=
  match sems.find id with
  | none => sems
  | some sem => sems.modify sem.ref fun x => { x with value := x.value - 1, lock := 0 }

theorem semWaitEnter_free (grants : s.Grants) (proper : s.sems.Proper n) {id : Int}
    (free : ∀ sem, s.sems.find id = some sem → 0 < sem.value) : Meets bad (semWaitEnter id) (fun result s' =>
      (∃ a, result = .inl a) ∧ ∃ h history, s.heap.Drops 0 h ∧
        s' = { s with heap := h, sems := s.sems.taken id, history }) s := by
  unfold semWaitEnter Sems.taken
  rw [meets_bind]
  refine (findSem_drops grants id).mono ?_
  rintro _ s' ⟨rfl, h, drops, rfl⟩
  obtain none | ⟨sem, found⟩ := (s.sems.find id).eq_none_or_eq_some
  · rw [none]
    exact ⟨⟨_, rfl⟩, h, _, drops, rfl⟩
  · obtain ⟨member, -⟩ := find_some found
    have locked := find_ref_modify proper member (f := fun x => { x with lock := 1 }) fun _ => rfl
    simp only [found]
    rw [meets_bind, meets_acquireSem (by exact proper) (by exact member)]
    simp only [meets_bind, meets_readSem, withHeap_sems, locked, meets_lookup_some, if_pos (free sem found),
      meets_modifySem, meets_get,
      meets_log, meets_pure]
    have released : ((s.sems.modify sem.ref fun x => { x with lock := 1 }).modify sem.ref
        fun x => { x with value := x.value - 1 }).modify sem.ref (fun x => { x with lock := 0 }) =
        s.sems.modify sem.ref fun x => { x with value := x.value - 1, lock := 0 } := by
      rw [modify_modify _ _ _ _ fun _ => by rfl, modify_modify _ _ _ _ fun _ => by rfl]
      rfl
    rw [← released]
    exact ⟨⟨_, rfl⟩, h, _, drops, rfl⟩

/-- With a unit to take, or without the semaphore, `semWait` does not block. -/
theorem semWait_free (grants : s.Grants) (proper : s.sems.Proper n) {id : Int}
    (free : ∀ sem, s.sems.find id = some sem → 0 < sem.value) : Ends bad (semWait id) (fun _ s' =>
      ∃ h history, s.heap.Drops 0 h ∧ s' = { s with heap := h, sems := s.sems.taken id, history }) s := by
  unfold semWait
  apply Ends.bind (.lift (semWaitEnter_free grants proper free))
  rintro _ s' ⟨⟨a, rfl⟩, after⟩
  exact .pure after

/-! ## Posting -/

/-- The action leaves the live blocks, in whichever order. -/
abbrev Spares {α : Type} (f : K α) : Prop := ∀ live, Keeps (fun _ => True) (fun s => s.heap.live = live) f

theorem spares_lookup {α : Type} (a : Option α) : Spares (lookup a) := by
  intro live s here
  cases a with
  | none => trivial
  | some a => exact here

theorem spares_readPcb (process : Ref) : Spares (readPcb process) := fun live =>
  .bind (fun _ here => here) fun _ => spares_lookup _ live

theorem spares_currentPcb : Spares currentPcb := by
  intro live
  refine .bind (fun _ here => here) fun s => .bind (fun _ here => ?_) fun process =>
    (spares_readPcb process live).bind fun _ => .pure _
  cases s.procs.currentProcessPCB with
  | none => trivial
  | some process => exact here

theorem spares_getProcessLoop (pid : Int) (refs : List Ref) : Spares (getProcessLoop pid refs) := by
  intro live
  induction refs with
  | nil => exact .pure _
  | cons process rest ih =>
    refine (spares_readPcb process live).bind fun p => ?_
    split
    · exact .pure _
    · exact ih

theorem spares_getProcess (pid : Int) : Spares (getProcess pid) := by
  intro live s here
  unfold getProcess
  rw [meets_bind, meets_malloc_any]
  split
  · rename_i missing
    split at missing
    · cases missing
    · rename_i short
      rw [← here]
      exact if_neg short
  · rename_i it given
    split at given
    · rename_i granted
      cases given
      rw [meets_bind, meets_get, meets_bind]
      have taken : (s.withHeap s.heap.ask).heap.live = s.heap.requests :: live := by
        rw [← here]
        exact if_pos granted
      refine (spares_getProcessLoop pid _ _ _ taken).mono ?_
      intro found s' still
      rw [meets_bind, meets_free, meets_pure]
      change s'.heap.live.erase s.heap.requests = live
      rw [still, List.erase_cons_head]
    · cases given

theorem spares_processOf (pid : Int) : Spares (processOf pid) := by
  intro live
  refine (spares_currentPcb live).bind fun current => ?_
  dsimp only
  split
  · exact .pure _
  · exact spares_getProcess pid live

theorem spares_resumeTask (pid : Int) : Spares (resumeTask pid) := by
  intro live
  refine (spares_processOf pid live).bind fun found => ?_
  cases found with
  | none => exact .pure _
  | some process =>
    refine (spares_readPcb process live).bind fun p => ?_
    split
    · exact .pure _
    · exact .bind (fun _ here => here) fun _ => (spares_readPcb process live).bind fun _ =>
        .bind (fun _ here => here) fun _ => .pure _

/-- The loop of `semPost` gives back the entries that it takes off the front. -/
theorem semPostLoop_drops (sem : Ref) (id : Int) (rounds : Nat) (block : s.sems.at sem = some b) :
    Meets (fun _ => True) (semPostLoop sem id rounds) (fun _ s' => ∃ passed left, b.blockedPids = passed ++ left ∧
      s'.heap.blocks = s.heap.blocks - entryBlocks passed ∧
      s'.sems.at sem = some { b with blockedPids := left }) s := by
  induction rounds generalizing s b with
  | zero => exact ⟨[], b.blockedPids, rfl, (tsub_zero _).symm, block⟩
  | succ rounds ih =>
    simp only [semPostLoop, meets_bind, meets_readSem_at, block, meets_lookup_some]
    cases queue : b.blockedPids with
    | nil => simp [dequeue, deref]
    | cons node rest =>
      simp only [dequeue, meets_bind, meets_free, meets_pure, meets_modifySem, meets_deref_some,
        meets_get, withHeap_sems]
      have now : (s.sems.modify sem fun x => { x with blockedPids := rest }).at sem =
        some { b with blockedPids := rest } := by
        rw [at_modify _ _ fun _ => by rfl]
        exact congrArg (Option.map _) block
      refine ((resumeTask_any node.value.pid).and (spares_resumeTask node.value.pid _ _ rfl)).mono ?_
      rintro pid s' ⟨⟨h, procs, -, -, rfl⟩, spared⟩
      have dropped : (h.release node.value.ref).blocks = s.heap.blocks - ({node.ref} + {node.value.ref}) := by
        have first := (s.heap.drops_release node.ref).blocks
        have second := (h.drops_release node.value.ref).blocks
        have same : h.blocks = (s.heap.release node.ref).blocks :=
          congrArg (fun live : List Ref => (live : Multiset Ref)) spared
        rw [second, same, first, Multiset.sub_add_eq_sub_sub]
      simp only [meets_ite]
      constructor
      · intro resumed
        simp only [meets_bind, meets_modifyProcs, meets_log, meets_pure]
        exact ⟨[node], rest, rfl, by rw [entryBlocks_cons, entryBlocks_nil, add_zero]; exact dropped, now⟩
      · intro failed
        simp only [meets_bind, meets_log]
        refine (ih (by exact now)).mono ?_
        rintro resumed s' ⟨passed, left, split, blocks, there⟩
        refine ⟨node :: passed, left, congrArg (node :: ·) split, ?_, there⟩
        rw [blocks, entryBlocks_cons, Multiset.sub_add_eq_sub_sub]
        exact congrArg (· - entryBlocks passed) dropped

theorem semPost_drops (grants : s.Grants) (proper : s.sems.Proper n) {id : Int} (found : s.sems.find id = some sem) :
    Meets (fun _ => True) (semPost id) (fun _ s' => ∃ passed left b, sem.blockedPids = passed ++ left ∧
      s'.heap.blocks = s.heap.blocks - entryBlocks passed ∧ s'.sems.at sem.ref = some b ∧ b.blockedPids = left) s := by
  have here : s.sems.at sem.ref = some sem := find_ref proper (find_some found).1
  unfold semPost
  rw [meets_bind]
  refine (findSem_drops grants id).mono ?_
  rintro _ s' ⟨rfl, h, drops, rfl⟩
  simp only [found]
  rw [meets_bind, meets_acquireSem (by exact proper) (by exact (find_some found).1)]
  simp only [meets_bind, meets_discard]
  have locked : (s.sems.modify sem.ref fun x => { x with lock := 1 }).at sem.ref = some { sem with lock := 1 } := by
    rw [at_modify _ _ fun _ => by rfl]
    exact congrArg (Option.map _) here
  cases sem.queueRef with
  | none => trivial
  | some queueRef =>
    rw [meets_deref_some]
    refine (semPostLoop_drops sem.ref id sem.blockedPids.length (by exact locked)).mono ?_
    rintro resumed s' ⟨passed, left, split, blocks, there⟩
    have same : h.blocks = s.heap.blocks := drops.blocks.trans (tsub_zero _)
    have blocks' : s'.heap.blocks = s.heap.blocks - entryBlocks passed := by
      rw [← same]
      exact blocks
    -- What is left of the loop is done to the lock and the value.
    have finish : ∀ f : Sem → Sem, (∀ x, (f x).ref = x.ref) → (∀ x, (f x).blockedPids = x.blockedPids) →
        ∃ b, (s'.sems.modify sem.ref f).at sem.ref = some b ∧ b.blockedPids = left := by
      intro f kept still
      rw [at_modify _ _ kept, there]
      exact ⟨_, rfl, still _⟩
    cases resumed with
    | true =>
      obtain ⟨b, at', queue⟩ := finish (fun x => { x with lock := 0 }) (fun _ => rfl) fun _ => rfl
      exact ⟨passed, left, b, split, blocks', at', queue⟩
    | false =>
      simp only [Bool.not_false, if_true, meets_bind, meets_get, meets_readSem_at]
      rw [there, meets_lookup_some]
      refine meets_increment ?_
      simp only [meets_modifySem, meets_log, releaseSem, meets_pure]
      rw [modify_modify _ _ _ _ fun _ => by rfl]
      obtain ⟨b, at', queue⟩ :=
        finish ((fun x => { x with lock := 0 }) ∘ fun x => { x with value := x.value + 1 }) (fun _ => rfl)
        fun _ => rfl
      exact ⟨passed, left, b, split, blocks', at', queue⟩

/-- What `semPost` does to a semaphore that it finds: it takes entries off the front, and only the last of them is
of a process that can be resumed. -/
structure Delivered (s : State) (sem : Sem) (passed : Queue Caller) (s' : State) : Prop where
  drops : s.heap.Drops (entryBlocks passed) s'.heap
  sems : ∃ left raise, sem.blockedPids = passed ++ left ∧ 0 ≤ raise ∧
    s'.sems = s.sems.modify sem.ref fun x => { x with blockedPids := left, value := x.value + raise, lock := 0 }
  inVain : ∀ node ∈ passed.dropLast, s.procs.moved node.value.pid .ready = none

theorem semPost_delivers {id : Int} (raises : Raises bad s.sems id) (grants : s.Grants) (proper : s.sems.Proper n)
    (attended : s.procs.Attended current p) (found : s.sems.find id = some sem) :
    Meets bad (semPost id) (fun _ s' => Posts s id s' ∧ ∃ passed, Delivered s sem passed s') s := by
  refine ((semPost_within raises grants proper attended).and (semPost_drops grants proper found)).mono ?_
  rintro _ s' ⟨posts, passed, left, b, split, blocks, there, queue⟩
  refine ⟨posts, passed, ?_⟩
  have here : s.sems.at sem.ref = some sem := find_ref proper (find_some found).1
  rcases posts with ⟨none, -⟩ | ⟨sem', found', posted⟩
  · cases none.symm.trans found
  · cases found'.symm.trans found
    cases posted with
    | @handed skipped pid rest procs blockedPids h queued inVain resumed last grown =>
      rw [at_modify _ _ fun _ => by rfl, here, Option.map_some, Option.some.injEq] at there
      obtain rfl : blockedPids = left := by rw [← queue, ← there]
      have pids : passed.map (·.value.pid) = skipped ++ [pid] := by
        have all : sem.pids = passed.map (·.value.pid) ++ rest := by
          rw [← last, Sem.pids, split]
          simp [values]
        rw [queued, ← List.singleton_append, ← List.append_assoc] at all
        exact (List.append_cancel_right all).symm
      refine ⟨⟨grown, blocks⟩, ⟨blockedPids, 0, split, Int.le_refl 0, by simp only [Int.add_zero]⟩,
        fun node member => ?_⟩
      refine inVain _ ?_
      have listed : node.value.pid ∈ (passed.map (·.value.pid)).dropLast := by
        rw [← List.map_dropLast]
        exact List.mem_map_of_mem member
      rwa [pids, List.dropLast_concat] at listed
    | @raised h inVain grown =>
      rw [at_modify _ _ fun _ => by rfl, here, Option.map_some, Option.some.injEq] at there
      obtain rfl : [] = left := by rw [← queue, ← there]
      refine ⟨⟨grown, blocks⟩, ⟨[], 1, split, Int.one_nonneg, rfl⟩, fun node member => inVain _ ?_⟩
      rw [Sem.pids, split, List.append_nil]
      have listed := List.mem_map_of_mem (f := fun node : Node Caller => node.value.pid) (List.dropLast_subset _ member)
      simpa [values] using listed

/-- The semaphores after a `semPost` that nobody waited for. -/
def Sems.given (sems : Sems) (id : Int) : Sems :=
  match sems.find id with
  | none => sems
  | some sem => sems.modify sem.ref fun x => { x with blockedPids := [], value := x.value + 1, lock := 0 }

theorem semPost_alone {id : Int} (raises : Raises bad s.sems id) (grants : s.Grants) (proper : s.sems.Proper n)
    (attended : s.procs.Attended current p) (nobody : ∀ sem, s.sems.find id = some sem → sem.blockedPids = []) :
    Meets bad (semPost id) (fun _ s' =>
      ∃ h history, s.heap.Drops 0 h ∧ s' = { s with heap := h, sems := s.sems.given id, history }) s := by
  unfold Sems.given
  obtain none | ⟨sem, found⟩ := (s.sems.find id).eq_none_or_eq_some
  · unfold semPost
    rw [meets_bind]
    refine (findSem_drops grants id).mono ?_
    rintro _ s' ⟨rfl, h, drops, rfl⟩
    rw [none]
    exact ⟨h, _, drops, rfl⟩
  · refine (semPost_delivers raises grants proper attended found).mono ?_
    rintro _ s' ⟨posts, passed, drops, ⟨left, raise, split, -, -⟩, -⟩
    rw [nobody sem found] at split
    obtain ⟨rfl, rfl⟩ := List.append_eq_nil_iff.mp split.symm
    rcases posts with ⟨missing, -⟩ | ⟨sem', found', posted⟩
    · cases missing.symm.trans found
    · cases found'.symm.trans found
      simp only [found]
      cases posted with
      | handed queued => simp [Sem.pids, nobody sem found, values] at queued
      | raised inVain grown => exact ⟨_, _, drops, rfl⟩

end QuesOs.Kernel
