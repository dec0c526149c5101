import QuesOs.KernelState
import Mathlib.Data.List.Nodup
import Mathlib.Data.List.Perm.Subperm

/-! The linked structure of `queue.c`. A node is a block of memory that points to the
next one; `last` dangles when the queue has emptied, until the next `enqueue` writes
it again. In whatever order the functions are called the nodes from `first` on are
the list that the rest of the kernel takes a queue for. -/
namespace QuesOs.LinkedQueue
open Resumption
open Kernel (Ref Node Queue values)

/-! ## The structure -/

/-- `queueNode`. -/
structure QueueNode (α : Type) where
  value : α
  next : Ref

/-- `queueCDT`. -/
structure QueueCDT where
  size : UInt64
  first : Ref
  last : Ref

def NULL : Ref := 0

/-- The number of addresses. -/
def ADDRESSES : Nat := 2 ^ 64

/-- The queue, and the nodes that were allocated for it and not freed. -/
structure Memory (α : Type) where
  nodes : Ref → Option (QueueNode α)
  queue : QueueCDT

/-- Why a call does not return. -/
inductive Fault where
  | unallocated
  | endless

abbrev Q (α β : Type) := Action (Memory α) Fault β

variable {α : Type}

def readNode (node : Ref) : Q α (QueueNode α) := do
  match (← get).nodes node with
  | none => throw .unallocated
  | some n => return n

def writeNode (node : Ref) (n : Option (QueueNode α)) : Q α Unit :=
  modify fun m => { m with nodes := Function.update m.nodes node n }

def modifyQueue (f : QueueCDT → QueueCDT) : Q α Unit := modify fun m => { m with queue := f m.queue }

/-! ## `queue.c` -/

/-- The queue that `initQueue` returns. -/
def initQueue : Memory α where
  nodes := fun _ => none
  queue := { size := 0, first := NULL, last := NULL }

def getQueueSize : Q α UInt64 := return (← get).queue.size

def dequeue : Q α (Option α) := do
  let queue := (← get).queue
  if queue.size ≤ 0 then return none
  else
    let aux := queue.first
    let n ← readNode aux
    modifyQueue fun queue => { queue with first := n.next, size := queue.size - 1 }
    writeNode aux none
    return some n.value

/-- `enqueue`, when `malloc` answers with `newNode`. -/
def enqueue (newNode : Ref) (value : α) : Q α Int := do
  if newNode = NULL then return -1
  else
    writeNode newNode (some ⟨value, NULL⟩)
    let queue := (← get).queue
    if queue.size = 0 then
      modifyQueue fun queue => { queue with first := newNode, last := newNode }
    else
      let n ← readNode queue.last
      writeNode queue.last (some { n with next := newNode })
      modifyQueue fun queue => { queue with last := newNode }
    modifyQueue fun queue => { queue with size := queue.size + 1 }
    return 0

def peek : Q α (Option α) := do
  let queue := (← get).queue
  if queue.size = 0 then return none
  else return some (← readNode queue.first).value

/-- What `takeElement` does to a node that nothing points to any more. -/
def dropNode (prev node : Ref) (n : QueueNode α) : Q α (Option α) := do
  if n.next = NULL then modifyQueue fun queue => { queue with last := prev }
  writeNode node none
  modifyQueue fun queue => { queue with size := queue.size - 1 }
  return some n.value

/-- What `takeElement` does to the node it found after `prev`. -/
def unlinkNode (prev node : Ref) (n : QueueNode α) : Q α (Option α) := do
  if prev = NULL then
    modifyQueue fun queue => { queue with first := n.next }
    dropNode prev node n
  else
    let p ← readNode prev
    writeNode prev (some { p with next := n.next })
    dropNode prev node n

/-- The loop of `takeElement`. -/
def takeElementLoop (removeCondition : α → Bool) : Nat → Ref → Ref → Q α (Option α)
  | 0, _, _ => throw .endless
  | rounds + 1, prev, node => do
    if node = NULL then return none
    else
      let n ← readNode node
      if removeCondition n.value then unlinkNode prev node n
      else takeElementLoop removeCondition rounds node n.next

/-- No walk from node to node is longer than there are addresses. -/
def takeElement (removeCondition : α → Bool) : Q α (Option α) := do
  let queue := (← get).queue
  if queue.size = 0 then return none
  else takeElementLoop removeCondition ADDRESSES NULL queue.first

/-! ## What it represents -/

/-- The nodes from one on, to the one that points nowhere. -/
def Chain (nodes : Ref → Option (QueueNode α)) : Ref → Queue α → Prop
  | node, [] => node = NULL
  | node, cell :: rest => node = cell.ref ∧ ∃ next, nodes cell.ref = some ⟨cell.value, next⟩ ∧ Chain nodes next rest

/-- The nodes that can be reached are these, and there are no others. -/
structure Memory.Represents (m : Memory α) (queue : Queue α) : Prop where
  chain : Chain m.nodes m.queue.first queue
  once : (queue.map Node.ref).Nodup
  range : ∀ cell ∈ queue, cell.ref ≠ NULL ∧ cell.ref < ADDRESSES
  owned : ∀ r, m.nodes r ≠ none → r ∈ queue.map Node.ref
  size : m.queue.size.toNat = queue.length
  last : ∀ cell, queue.getLast? = some cell → m.queue.last = cell.ref

/-- What `malloc` may answer: `NULL`, or a block that is nobody's. -/
def Memory.Fresh (m : Memory α) (answer : Ref) : Prop := answer < ADDRESSES ∧ m.nodes answer = none

variable {bad : Fault → Prop} {m : Memory α} {queue front rest : Queue α} {nodes nodes' : Ref → Option (QueueNode α)}

/-! ## Chains -/

theorem Chain.frame (chain : Chain nodes node queue) (same : ∀ cell ∈ queue, nodes' cell.ref = nodes cell.ref) :
    Chain nodes' node queue := by
  induction queue generalizing node with
  | nil => exact chain
  | cons cell rest ih =>
    obtain ⟨here, next, read, chain⟩ := chain
    refine ⟨here, next, ?_, ih chain fun other member => same other (List.mem_cons_of_mem _ member)⟩
    rw [same cell (List.mem_cons_self ..)]
    exact read

/-- What comes after a node is replaced. -/
theorem Chain.relink {tail tail' : Queue α} {prev : Node α} (chain : Chain nodes node (front ++ prev :: tail))
    (same : ∀ cell ∈ front, nodes' cell.ref = nodes cell.ref) (linked : nodes' prev.ref = some ⟨prev.value, next⟩)
    (after : Chain nodes' next tail') : Chain nodes' node (front ++ prev :: tail') := by
  induction front generalizing node with
  | nil => exact ⟨chain.1, next, linked, after⟩
  | cons cell front ih =>
    obtain ⟨here, next', read, chain⟩ := chain
    refine ⟨here, next', ?_, ih chain fun other member => same other (List.mem_cons_of_mem _ member)⟩
    rw [same cell (List.mem_cons_self ..)]
    exact read

/-- The node in the middle, and those behind it. -/
theorem Chain.split {cell : Node α} (chain : Chain nodes node (front ++ cell :: rest)) :
    ∃ next, nodes cell.ref = some ⟨cell.value, next⟩ ∧ Chain nodes next rest := by
  induction front generalizing node with
  | nil => exact chain.2
  | cons other front ih =>
    obtain ⟨-, _, -, chain⟩ := chain
    exact ih chain

/-- Only the last node points nowhere. -/
theorem Chain.end_iff (chain : Chain nodes node queue) (range : ∀ cell ∈ queue, cell.ref ≠ NULL) :
    node = NULL ↔ queue = [] := by
  cases queue with
  | nil => exact ⟨fun _ => rfl, fun _ => chain⟩
  | cons cell rest =>
    have notNull : node ≠ NULL := by
      rw [chain.1]
      exact range cell (List.mem_cons_self ..)
    simp [notNull]

/-- There are fewer nodes than addresses. -/
theorem length_lt (once : (queue.map Node.ref).Nodup) (range : ∀ cell ∈ queue, cell.ref ≠ NULL ∧ cell.ref < ADDRESSES) :
    queue.length < ADDRESSES := by
  have some : 0 < ADDRESSES := Nat.two_pow_pos 64
  have within : queue.map Node.ref ⊆ List.range' 1 (ADDRESSES - 1) := by
    intro r member
    obtain ⟨cell, listed, rfl⟩ := List.mem_map.mp member
    obtain ⟨notNull, low⟩ := range cell listed
    rw [List.mem_range'_1, Nat.add_sub_cancel' some]
    exact ⟨Nat.pos_of_ne_zero notNull, low⟩
  have short := (List.subperm_of_subset once within).length_le
  rw [List.length_map, List.length_range'] at short
  omega

namespace Memory.Represents

theorem allocated (represents : m.Represents queue) (listed : cell ∈ queue) :
    ∃ next, m.nodes cell.ref = some ⟨cell.value, next⟩ := by
  obtain ⟨front, rest, rfl⟩ := List.append_of_mem listed
  obtain ⟨next, read, -⟩ := represents.chain.split
  exact ⟨next, read⟩

/-- What is nobody's is no node of the queue. -/
theorem unlisted (represents : m.Represents queue) (unowned : m.nodes r = none) : ∀ cell ∈ queue, cell.ref ≠ r := by
  rintro cell listed rfl
  obtain ⟨next, read⟩ := represents.allocated listed
  rw [unowned] at read
  cases read

theorem size_eq_zero (represents : m.Represents queue) : m.queue.size = 0 ↔ queue = [] := by
  rw [← UInt64.toNat_inj, represents.size, UInt64.toNat_zero, List.length_eq_zero_iff]

/-- One node more. -/
theorem size_succ (represents : m.Represents queue) (short : queue.length + 1 < ADDRESSES) :
    (m.queue.size + 1).toNat = queue.length + 1 := by
  rw [UInt64.toNat_add, represents.size, UInt64.toNat_one]
  exact Nat.mod_eq_of_lt short

/-- One node less. -/
theorem size_pred (represents : m.Represents queue) (filled : queue ≠ []) :
    (m.queue.size - 1).toNat = queue.length - 1 := by
  have some := List.length_pos_of_ne_nil filled
  have one : (1 : UInt64) ≤ m.queue.size := by
    rw [UInt64.le_iff_toNat_le, represents.size, UInt64.toNat_one]
    exact some
  rw [UInt64.toNat_sub_of_le _ _ one, represents.size, UInt64.toNat_one]

end Memory.Represents

/-! ## The functions -/

theorem represents_initQueue : (initQueue : Memory α).Represents [] :=
  ⟨rfl, List.nodup_nil, by simp, fun _ owned => (owned rfl).elim, rfl, by simp⟩

theorem meets_readNode {post : QueueNode α → Memory α → Prop} (read : m.nodes node = some n) :
    Meets bad (readNode node) post m ↔ post n m := by
  unfold readNode
  rw [meets_bind, meets_get, read]
  exact Iff.rfl

@[simp] theorem meets_writeNode {n : Option (QueueNode α)} {post : Unit → Memory α → Prop} :
    Meets bad (writeNode node n) post m ↔ post () { m with nodes := Function.update m.nodes node n } := Iff.rfl

@[simp] theorem meets_modifyQueue {f : QueueCDT → QueueCDT} {post : Unit → Memory α → Prop} :
    Meets bad (modifyQueue f : Q α Unit) post m ↔ post () { m with queue := f m.queue } := Iff.rfl

theorem enqueue_spec (represents : m.Represents queue) (fresh : m.Fresh newNode)
    (granted : newNode ≠ NULL) (value : α) :
    Meets bad (enqueue newNode value) (fun result m' => result = 0 ∧
      m'.Represents (queue ++ [⟨newNode, value⟩])) m := by
  obtain ⟨low, unowned⟩ := fresh
  have others := represents.unlisted unowned
  have once : ((queue ++ [(⟨newNode, value⟩ : Node α)]).map Node.ref).Nodup := by
    rw [List.map_append, List.map_singleton, List.nodup_append]
    refine ⟨represents.once, List.nodup_singleton _, ?_⟩
    rintro _ member _ new rfl
    obtain ⟨cell, listed, rfl⟩ := List.mem_map.mp member
    exact others cell listed (List.mem_singleton.mp new)
  have range : ∀ cell ∈ queue ++ [(⟨newNode, value⟩ : Node α)], cell.ref ≠ NULL ∧ cell.ref < ADDRESSES := by
    simp only [List.forall_mem_append, List.forall_mem_singleton]
    exact ⟨represents.range, granted, low⟩
  have size : (m.queue.size + 1).toNat = (queue ++ [(⟨newNode, value⟩ : Node α)]).length := by
    have short := length_lt once range
    rw [List.length_append, List.length_singleton] at short ⊢
    exact represents.size_succ short
  have owned : ∀ r, r ≠ newNode → m.nodes r ≠ none → r ∈ (queue ++ [(⟨newNode, value⟩ : Node α)]).map Node.ref := by
    intro r _ allocated
    rw [List.map_append]
    exact List.mem_append_left _ (represents.owned r allocated)
  have added : newNode ∈ (queue ++ [(⟨newNode, value⟩ : Node α)]).map Node.ref := by simp
  unfold enqueue
  simp only [if_neg granted, meets_bind, meets_writeNode, meets_get, meets_ite]
  constructor
  · intro empty
    obtain rfl := represents.size_eq_zero.mp empty
    simp only [meets_modifyQueue, meets_pure, true_and]
    refine ⟨⟨rfl, NULL, by simp, rfl⟩, once, range, fun r allocated => ?_, ?_, by simp⟩
    · by_cases new : r = newNode
      · exact new ▸ added
      · simp only [Function.update_of_ne new] at allocated
        exact owned r new allocated
    · exact size
  · intro filled
    obtain rfl | ⟨front, last, rfl⟩ := queue.eq_nil_or_concat'
    · exact (filled (represents.size_eq_zero.mpr rfl)).elim
    · have isLast := represents.last last (by simp)
      have listed : last ∈ front ++ [last] := by simp
      obtain ⟨next, read⟩ := represents.allocated listed
      have other : last.ref ≠ newNode := others last (by simp)
      rw [isLast, meets_readNode (n := ⟨last.value, next⟩) (by simp [Function.update_of_ne other, read])]
      simp only [meets_modifyQueue, meets_pure, true_and]
      refine ⟨?_, once, range, fun r allocated => ?_, ?_, by simp⟩
      · rw [List.append_assoc, List.singleton_append]
        refine represents.chain.relink (fun cell member => ?_) (Function.update_self ..) ⟨rfl, NULL, ?_, rfl⟩
        · have apart : cell.ref ≠ last.ref := by
            have distinct := represents.once
            rw [List.map_append, List.nodup_append] at distinct
            exact distinct.2.2 _ (List.mem_map_of_mem member) _ (by simp)
          simp only [Function.update_of_ne apart, Function.update_of_ne (others cell (by simp [member]))]
        · simp only [Function.update_of_ne other.symm, Function.update_self]
      · by_cases new : r = newNode
        · exact new ▸ added
        · by_cases old : r = last.ref
          · rw [old]
            simp
          · simp only [Function.update_of_ne old, Function.update_of_ne new] at allocated
            exact owned r new allocated
      · exact size

theorem dequeue_spec (represents : m.Represents queue) :
    Meets bad dequeue (fun result m' => result = (values queue).head? ∧ m'.Represents queue.tail) m := by
  unfold dequeue
  rw [meets_bind, meets_get, meets_ite, UInt64.le_zero_iff, represents.size_eq_zero]
  constructor
  · rintro rfl
    exact ⟨rfl, represents⟩
  · intro filled
    cases queue with
    | nil => exact (filled rfl).elim
    | cons cell rest =>
      obtain ⟨first, next, read, chain⟩ := represents.chain
      obtain ⟨apart, once⟩ := List.nodup_cons.mp represents.once
      have others : ∀ other ∈ rest, other.ref ≠ cell.ref := fun other member same =>
        apart (same ▸ List.mem_map_of_mem member)
      rw [first, meets_bind, meets_readNode read]
      simp only [meets_bind, meets_modifyQueue, meets_writeNode, meets_pure]
      refine ⟨rfl, chain.frame fun other member => Function.update_of_ne (others other member) .., once,
        fun other member => represents.range other (List.mem_cons_of_mem _ member), fun r allocated =>
        ?_, ?_, fun last isLast => ?_⟩
      · by_cases gone : r = cell.ref
        · simp [gone] at allocated
        · simp only [Function.update_of_ne gone] at allocated
          exact List.mem_of_ne_of_mem gone (represents.owned r allocated)
      · exact represents.size_pred (List.cons_ne_nil _ _)
      · apply represents.last last
        rw [List.getLast?_cons, show rest.getLast? = some last from isLast, Option.getD_some]

theorem peek_spec (represents : m.Represents queue) :
    Meets bad peek (fun result m' => result = (values queue).head? ∧ m' = m) m := by
  unfold peek
  simp only [meets_bind, meets_get, meets_ite, represents.size_eq_zero]
  constructor
  · rintro rfl
    exact ⟨rfl, rfl⟩
  · intro filled
    cases queue with
    | nil => exact (filled rfl).elim
    | cons cell rest =>
      obtain ⟨first, next, read, -⟩ := represents.chain
      rw [first, meets_readNode read]
      exact ⟨rfl, rfl⟩

theorem meets_dropNode {n : QueueNode α} {post : Option α → Memory α → Prop} : Meets bad (dropNode prev node n) post m ↔
    post (some n.value) ⟨Function.update m.nodes node none,
      ⟨m.queue.size - 1, m.queue.first, if n.next = NULL then prev else m.queue.last⟩⟩ := by
  unfold dropNode
  by_cases ends : n.next = NULL
  · rw [if_pos ends, if_pos ends]
    exact Iff.rfl
  · rw [if_neg ends, if_neg ends]
    exact Iff.rfl

/-- What is left once the node after `front` is unlinked. -/
theorem Memory.Represents.unlinked {nodes : Ref → Option (QueueNode α)} {first last : Ref}
    (represents : m.Represents (front ++ cell :: rest))
    (chain : Chain nodes first (front ++ rest)) (same : ∀ r, nodes r ≠ none → m.nodes r ≠ none ∧ r ≠ cell.ref)
    (isLast : ∀ c, (front ++ rest).getLast? = some c → last = c.ref) :
    Represents ⟨nodes, ⟨m.queue.size - 1, first, last⟩⟩ (front ++ rest) := by
  have once := represents.once
  rw [List.map_append, List.map_cons, List.nodup_middle, List.nodup_cons, ← List.map_append] at once
  refine ⟨chain, once.2, fun c member => represents.range c ?_, fun r allocated => ?_, ?_, isLast⟩
  · rcases List.mem_append.mp member with before | after
    · exact List.mem_append_left _ before
    · exact List.mem_append_right _ (List.mem_cons_of_mem _ after)
  · obtain ⟨old, other⟩ := same r allocated
    have listed := represents.owned r old
    rw [List.map_append, List.map_cons, List.mem_append, List.mem_cons] at listed
    rw [List.map_append, List.mem_append]
    exact listed.imp_right fun after => after.resolve_left other
  · refine (represents.size_pred (by simp)).trans ?_
    simp only [List.length_append, List.length_cons]
    omega

/-- The node after `front` is unlinked, wherever it is. -/
theorem unlinkNode_spec (represents : m.Represents (front ++ cell :: rest))
    (read : m.nodes cell.ref = some ⟨cell.value, next⟩)
    (before : prev = (front.getLast?.map Node.ref).getD NULL) :
    Meets bad (unlinkNode prev cell.ref ⟨cell.value, next⟩)
      (fun result m' => result = some cell.value ∧ m'.Represents (front ++ rest)) m := by
  have once := represents.once
  rw [List.map_append, List.map_cons, List.nodup_middle, List.nodup_cons, ← List.map_append] at once
  have others : ∀ c ∈ front ++ rest, c.ref ≠ cell.ref := fun c member same => once.1 (same ▸ List.mem_map_of_mem member)
  have after : Chain m.nodes next rest := by
    obtain ⟨next', read', chain⟩ := represents.chain.split
    cases read.symm.trans read'
    exact chain
  have ends : next = NULL ↔ rest = [] := after.end_iff fun c member => (represents.range c (by simp [member])).1
  have last : ∀ c, (front ++ rest).getLast? = some c → (if next = NULL then prev else m.queue.last) = c.ref := by
    intro c found
    by_cases isEnd : next = NULL
    · rw [if_pos isEnd, before]
      rw [ends.mp isEnd, List.append_nil] at found
      rw [found]
      rfl
    · rw [if_neg isEnd]
      have more : rest ≠ [] := fun none => isEnd (ends.mpr none)
      apply represents.last c
      obtain ⟨c', isLast⟩ := Option.ne_none_iff_exists'.mp (mt List.getLast?_eq_none_iff.mp more)
      rw [List.getLast?_append, isLast] at found
      rw [List.getLast?_append, List.getLast?_cons, isLast]
      exact found
  unfold unlinkNode
  obtain rfl | ⟨front, p, rfl⟩ := front.eq_nil_or_concat'
  · have start : prev = NULL := before
    rw [if_pos start, meets_bind, meets_modifyQueue, meets_dropNode]
    have whole : m.Represents ([] ++ cell :: rest) := represents
    refine ⟨rfl, whole.unlinked ?_ (fun r allocated => ?_) last⟩
    · exact after.frame fun c member => Function.update_of_ne (others c member) ..
    · by_cases this : r = cell.ref
      · simp [this] at allocated
      · rw [Function.update_of_ne this] at allocated
        exact ⟨allocated, this⟩
  · have there : prev = p.ref := by
      rw [before]
      simp
    have listed : p ∈ front ++ [p] ++ cell :: rest := by simp
    obtain ⟨next', readPrev⟩ := represents.allocated listed
    have notNull : prev ≠ NULL := there ▸ (represents.range p (by simp)).1
    have apart : p.ref ≠ cell.ref := others p (by simp)
    rw [if_neg notNull, meets_bind, there, meets_readNode readPrev, meets_bind, meets_writeNode, meets_dropNode]
    rw [there] at last
    have once' := once.2
    rw [List.append_assoc, List.map_append, List.nodup_append, List.singleton_append,
      List.map_cons, List.nodup_cons] at once'
    refine ⟨rfl, represents.unlinked ?_ (fun r allocated => ?_) last⟩
    · have chain := represents.chain
      rw [List.append_assoc, List.singleton_append] at chain ⊢
      refine chain.relink (fun c member => ?_) ?_ (after.frame fun c member => ?_)
      · have other : c.ref ≠ p.ref := once'.2.2 _ (List.mem_map_of_mem member) _ (List.mem_cons_self ..)
        simp only [Function.update_of_ne (others c (by simp [member])), Function.update_of_ne other]
      · simp only [Function.update_of_ne apart, Function.update_self]
      · have other : c.ref ≠ p.ref := fun same => once'.2.1.1 (same ▸ List.mem_map_of_mem member)
        simp only [Function.update_of_ne (others c (by simp [member])), Function.update_of_ne other]
    · by_cases this : r = cell.ref
      · simp [this] at allocated
      · rw [Function.update_of_ne this] at allocated
        refine ⟨?_, this⟩
        by_cases here : r = p.ref
        · rw [here, readPrev]
          exact Option.some_ne_none _
        · simpa only [Function.update_of_ne here] using allocated

theorem takeElementLoop_spec (represents : m.Represents (front ++ rest)) (chain : Chain m.nodes node rest)
    (before : prev = (front.getLast?.map Node.ref).getD NULL) {removeCondition : α → Bool}
    (skipped : ∀ c ∈ front, ¬removeCondition c.value = true) (enough : rest.length < rounds) :
    Meets bad (takeElementLoop removeCondition rounds prev node) (fun result m' =>
      result = (values (front ++ rest)).find? removeCondition ∧
      m'.Represents ((front ++ rest).eraseP (removeCondition ·.value))) m := by
  induction rest generalizing front node prev rounds with
  | nil =>
    cases rounds with
    | zero => cases enough
    | succ rounds =>
      have ends : node = NULL := chain
      unfold takeElementLoop
      rw [if_pos ends, meets_pure]
      rw [List.append_nil] at represents ⊢
      have missed : front.find? (removeCondition ∘ Node.value) = none := List.find?_eq_none.mpr skipped
      refine ⟨?_, ?_⟩
      · rw [values, List.find?_map, missed]
        rfl
      · rwa [List.eraseP_of_forall_not skipped]
  | cons cell rest ih =>
    cases rounds with
    | zero => cases enough
    | succ rounds =>
      obtain ⟨here, next, read, chain⟩ := chain
      have notNull := (represents.range cell (by simp)).1
      unfold takeElementLoop
      rw [here, if_neg notNull, meets_bind, meets_readNode read, meets_ite]
      constructor
      · intro removed
        refine (unlinkNode_spec represents read before).mono ?_
        rintro _ m' ⟨rfl, represents'⟩
        have missed : front.find? (removeCondition ∘ Node.value) = none := List.find?_eq_none.mpr skipped
        refine ⟨?_, ?_⟩
        · rw [values, List.find?_map, List.find?_append, missed, Option.none_or,
            List.find?_cons_of_pos (by exact removed)]
          rfl
        · rwa [List.eraseP_append_right _ skipped, List.eraseP_cons_of_pos (by exact removed)]
      · intro kept
        rw [List.append_cons] at represents ⊢
        refine ih represents chain (by simp) (fun c member => ?_) (Nat.lt_of_succ_lt_succ enough)
        rcases List.mem_append.mp member with old | new
        · exact skipped c old
        · rwa [List.mem_singleton.mp new]

theorem takeElement_spec (represents : m.Represents queue) (removeCondition : α → Bool) :
    Meets bad (takeElement removeCondition) (fun result m' => result = (values queue).find? removeCondition ∧
      m'.Represents (queue.eraseP (removeCondition ·.value))) m := by
  unfold takeElement
  rw [meets_bind, meets_get, meets_ite, represents.size_eq_zero]
  constructor
  · rintro rfl
    exact ⟨rfl, represents⟩
  · intro _
    have whole : m.Represents ([] ++ queue) := represents
    exact takeElementLoop_spec whole represents.chain rfl (by simp) (length_lt represents.once represents.range)

/-! ## The list the kernel takes it for -/

/-- What a call of the kernel leaves of its queue is what the structure comes to represent. -/
theorem kernel_takeElement (represents : m.Represents queue) (removeCondition : α → Bool) (s : Kernel.State) :
    Meets (fun _ => False) (Kernel.takeElement queue removeCondition) (fun taken _ =>
      Meets bad (takeElement removeCondition) (fun result m' => result = taken.2 ∧ m'.Represents taken.1) m) s := by
  have taken := @takeElement_spec α bad m queue represents removeCondition
  rw [values, List.find?_map] at taken
  unfold Kernel.takeElement
  cases found : queue.find? (removeCondition ·.value) with
  | none =>
    have none : queue.find? (removeCondition ∘ Node.value) = none := found
    rw [none, List.eraseP_of_forall_not (List.find?_eq_none.mp found)] at taken
    exact taken
  | some node =>
    have some : queue.find? (removeCondition ∘ Node.value) = some node := found
    rw [some] at taken
    exact taken

theorem kernel_dequeue (represents : m.Represents queue) (s : Kernel.State) :
    Meets (fun _ => False) (Kernel.dequeue queue) (fun taken _ =>
      Meets bad dequeue (fun result m' => result = taken.2 ∧ m'.Represents taken.1) m) s := by
  have taken := @dequeue_spec α bad m queue represents
  cases queue with
  | nil => exact taken
  | cons node rest => exact taken

/-! ## Every run -/

/-- A call of `queue.h`. -/
inductive Call (α : Type) where
  | enqueue (value : α)
  | dequeue
  | peek
  | takeElement (removeCondition : α → Bool)
  | getQueueSize

/-- What a call returns. -/
inductive Result (α : Type) where
  | status (status : Int)
  | value (value : Option α)
  | size (size : Nat)

/-- The call, when `malloc` answers it with `answer`. -/
def Call.perform (answer : Ref) : Call α → Q α (Result α)
  | .enqueue value => return .status (← LinkedQueue.enqueue answer value)
  | .dequeue => return .value (← LinkedQueue.dequeue)
  | .peek => return .value (← LinkedQueue.peek)
  | .takeElement removeCondition => return .value (← LinkedQueue.takeElement removeCondition)
  | .getQueueSize => return .size (← LinkedQueue.getQueueSize).toNat

/-- What a queue is for: first in, first out. An `enqueue` that is `refused` memory changes nothing. -/
def Call.spec (refused : Bool) (list : List α) : Call α → Result α × List α
  | .enqueue value => if refused then (.status (-1), list) else (.status 0, list ++ [value])
  | .dequeue => (.value list.head?, list.tail)
  | .peek => (.value list.head?, list)
  | .takeElement removeCondition => (.value (list.find? removeCondition), list.eraseP removeCondition)
  | .getQueueSize => (.size list.length, list)

/-- The calls so far, the last first, and what they returned. -/
abbrev Trace (α : Type) := List (Call α × Bool × Result α)

/-- The memory that a run from `initQueue` comes to. -/
inductive Run : Trace α → Memory α → Prop
  | start : Run [] initQueue
  | call (run : Run trace m₀) (call : Call α) (answer : Ref) (fresh : m₀.Fresh answer)
    (ran : (call.perform answer).run m₀ = .ok (result, m₁)) :
    Run ((call, answer = NULL, result) :: trace) m₁

/-- A list that is treated so returns so. -/
inductive Fifo : Trace α → List α → Prop
  | start : Fifo [] []
  | call (fifo : Fifo trace list) (call : Call α) (refused : Bool) :
    Fifo ((call, refused, (call.spec refused list).1) :: trace) (call.spec refused list).2

/-- One call does to the nodes what it should do to the list. -/
theorem perform_spec (represents : m.Represents queue) (fresh : m.Fresh answer) (call : Call α) :
    Meets bad (call.perform answer) (fun result m' => result = (call.spec (answer = NULL) (values queue)).1 ∧
      ∃ queue', values queue' = (call.spec (answer = NULL) (values queue)).2 ∧ m'.Represents queue') m := by
  cases call with
  | enqueue value =>
    by_cases refused : answer = NULL
    · subst refused
      exact ⟨rfl, queue, rfl, represents⟩
    · simp only [Call.perform, Call.spec, refused, meets_bind]
      refine (enqueue_spec represents fresh refused value).mono ?_
      rintro _ m' ⟨rfl, represents'⟩
      exact ⟨rfl, _, by simp [values], represents'⟩
  | dequeue =>
    rw [Call.perform, meets_bind]
    refine (dequeue_spec represents).mono ?_
    rintro _ m' ⟨rfl, represents'⟩
    exact ⟨rfl, _, List.map_tail, represents'⟩
  | peek =>
    rw [Call.perform, meets_bind]
    refine (peek_spec represents).mono ?_
    rintro _ _ ⟨rfl, rfl⟩
    exact ⟨rfl, _, rfl, represents⟩
  | takeElement removeCondition =>
    rw [Call.perform, meets_bind]
    refine (takeElement_spec represents removeCondition).mono ?_
    rintro _ m' ⟨rfl, represents'⟩
    exact ⟨rfl, _, by simp [values, Call.spec, List.eraseP_map, Function.comp_def], represents'⟩
  | getQueueSize =>
    refine ⟨?_, queue, rfl, represents⟩
    simp [Call.spec, represents.size, values]

theorem run_represents {trace : Trace α} (run : Run trace m) : ∃ queue, m.Represents queue ∧
    Fifo trace (values queue) := by
  induction run with
  | start => exact ⟨[], represents_initQueue, .start⟩
  | call run call answer fresh ran ih =>
    obtain ⟨queue, represents, fifo⟩ := ih
    have spec := @perform_spec α (fun _ => True) _ queue _ represents fresh call
    rw [meets_of_run ran] at spec
    obtain ⟨rfl, queue', same, represents'⟩ := spec
    refine ⟨queue', represents', ?_⟩
    rw [same]
    exact .call fifo call _

/-- The structure is a first-in first-out list: whatever was called it returned what the list would have
returned, the nodes from `first` on hold what is left, `size` counts them and `last` is the last of them.
The next call returns, whatever it is, and an `enqueue` without memory changes nothing. -/
structure Memory.Queues (m : Memory α) (trace : Trace α) : Prop where
  list : ∃ queue, m.Represents queue ∧ Fifo trace (values queue)
  returns : ∀ (call : Call α) answer, m.Fresh answer → Meets (fun _ => False) (call.perform answer) (fun _ _ => True) m
  refused : ∀ value : α, ((Call.enqueue value).perform NULL).run m = .ok (.status (-1), m)

/-- **The linked structure is a queue**, after any sequence of calls. -/
theorem queue_fifo {trace : Trace α} (run : Run trace m) : m.Queues trace := by
  refine ⟨run_represents run, fun call answer fresh => ?_, fun value => rfl⟩
  obtain ⟨queue, represents, -⟩ := run_represents run
  exact (perform_spec represents fresh call).mono fun _ _ _ => trivial

/-- `last` dangles, the block it points to is the next node, and the one before that is taken out of the middle. -/
theorem queue_fifo_mended : ∃ m trace, Memory.Queues m ((.takeElement (· == 7), true, .value (some 7)) :: trace) ∧
    trace.length = 5 ∧
    m.queue.size = 2 := by
  have first := Run.call .start (.enqueue 5) 16 ⟨by decide, rfl⟩ rfl
  have second := Run.call first .dequeue NULL ⟨by decide, rfl⟩ rfl
  have third := Run.call second (.enqueue 6) 16 ⟨by decide, rfl⟩ rfl
  have fourth := Run.call third (.enqueue 7) 32 ⟨by decide, rfl⟩ rfl
  have fifth := Run.call fourth (.enqueue 8) 48 ⟨by decide, rfl⟩ rfl
  have last := Run.call fifth (.takeElement (· == 7)) NULL ⟨by decide, rfl⟩ rfl
  exact ⟨_, _, queue_fifo last, rfl, rfl⟩

end QuesOs.LinkedQueue
