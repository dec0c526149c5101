import QuesOs.KernelSystem
import Mathlib.Data.List.Nodup

/-! What the actions on the kernel's state do while memory is granted: the
queue operations, the lookups by pid and by id, and the semaphore functions
that do not touch the processes. The heap only grows, so each of these is
told by what it does to the rest. -/
namespace QuesOs.Kernel
open Resumption

/-- Every request for memory succeeds. -/
def State.Grants (s : State) : Prop := ∀ n, s.heap.grants n = true

/-- The heap after some requests and releases. -/
structure Heap.Grown (h h' : Heap) : Prop where
  grants : h'.grants = h.grants
  requests : h.requests ≤ h'.requests

theorem Heap.Grown.refl (h : Heap) : h.Grown h := ⟨rfl, Nat.le_refl _⟩

theorem Heap.Grown.trans (first : Heap.Grown h h') (second : Heap.Grown h' h'') : h.Grown h'' :=
  ⟨second.grants.trans first.grants, Nat.le_trans first.requests second.requests⟩

/-- The state with another heap. -/
def State.withHeap (s : State) (heap : Heap) : State := { s with heap }

@[simp] theorem withHeap_heap (s : State) (h : Heap) : (s.withHeap h).heap = h := rfl
@[simp] theorem withHeap_sems (s : State) (h : Heap) : (s.withHeap h).sems = s.sems := rfl
@[simp] theorem withHeap_pipes (s : State) (h : Heap) : (s.withHeap h).pipes = s.pipes := rfl
@[simp] theorem withHeap_procs (s : State) (h : Heap) : (s.withHeap h).procs = s.procs := rfl
@[simp] theorem withHeap_history (s : State) (h : Heap) : (s.withHeap h).history = s.history := rfl
@[simp] theorem withHeap_withHeap (s : State) (h h' : Heap) : (s.withHeap h).withHeap h' = s.withHeap h' := rfl
@[simp] theorem withHeap_same (s : State) : s.withHeap s.heap = s := rfl

theorem State.Grants.grown {s s' : State} (grants : s.Grants) (grown : s.heap.Grown s'.heap) : s'.Grants :=
  fun n => by rw [grown.grants, grants n]

/-- Undefined behaviour may end a run as well. -/
class Lenient (bad : Fault → Prop) : Prop where
  undefined : ∀ fault, fault.isUndefined = true → bad fault

instance : Lenient fun _ => True := ⟨fun _ _ => trivial⟩

variable {bad : Fault → Prop} {s : State}

/-! ## Access -/

@[simp] theorem meets_modifySems {f : Sems → Sems} {post : Unit → State → Prop} :
    Meets bad (modifySems f) post s ↔ post () { s with sems := f s.sems } := Iff.rfl

@[simp] theorem meets_modifyPipes {f : Pipes → Pipes} {post : Unit → State → Prop} :
    Meets bad (modifyPipes f) post s ↔ post () { s with pipes := f s.pipes } := Iff.rfl

@[simp] theorem meets_modifyProcs {f : Procs → Procs} {post : Unit → State → Prop} :
    Meets bad (modifyProcs f) post s ↔ post () { s with procs := f s.procs } := Iff.rfl

@[simp] theorem meets_log {event : Event} {post : Unit → State → Prop} :
    Meets bad (log event) post s ↔ post () { s with history := event :: s.history } := Iff.rfl

@[simp] theorem meets_deref_some {α : Type} {a : α} {post : α → State → Prop} :
    Meets bad (deref (some a)) post s ↔ post a s := Iff.rfl

@[simp] theorem meets_lookup_some {α : Type} {a : α} {post : α → State → Prop} :
    Meets bad (lookup (some a)) post s ↔ post a s := Iff.rfl

@[simp] theorem meets_discard {α : Type} {f : K α} {post : PUnit → State → Prop} :
    Meets bad (discard f) post s ↔ Meets bad f (fun _ => post ⟨⟩) s := by
  have same : (discard f : K PUnit) = f >>= fun _ => pure ⟨⟩ := rfl
  rw [same, meets_bind]
  rfl

theorem meets_int_within {n : Int} {post : Unit → State → Prop} (within : bad .overflow ∨ (INT_MIN ≤ n ∧ n ≤ INT_MAX))
    (here : INT_MIN ≤ n ∧ n ≤ INT_MAX → post () s) : Meets bad (int n) post s := by
  unfold int
  split
  · exact here ‹_›
  · exact within.resolve_right ‹_›

theorem meets_int [Lenient bad] {n : Int} {post : Unit → State → Prop} (here : post () s) : Meets bad (int n) post s :=
  meets_int_within (.inl (Lenient.undefined .overflow rfl)) fun _ => here

theorem meets_increment_within {n : Int} {post : Unit → State → Prop} (within : bad .overflow ∨ n < INT_MAX)
    (here : n < INT_MAX → post () s) : Meets bad (increment n) post s := by
  unfold increment
  split
  · exact here ‹_›
  · exact within.resolve_right ‹_›

theorem meets_increment [Lenient bad] {n : Int} {post : Unit → State → Prop} (here : post () s) :
    Meets bad (increment n) post s :=
  meets_increment_within (.inl (Lenient.undefined .overflow rfl)) fun _ => here

theorem meets_copyName_within {name : String} {post : Unit → State → Prop}
    (within : bad .overrun ∨ name.length < NAME_SIZE) (here : post () s) : Meets bad (copyName name) post s := by
  unfold copyName
  split
  · exact here
  · exact within.resolve_right ‹_›

theorem meets_copyName [Lenient bad] {name : String} {post : Unit → State → Prop} (here : post () s) :
    Meets bad (copyName name) post s :=
  meets_copyName_within (.inl (Lenient.undefined .overrun rfl)) here

/-- Nothing is said of a `NULL` that is followed. -/
theorem meets_deref_any {α : Type} {pointer : Option α} {post : α → State → Prop}
    (here : ∀ a, pointer = some a → post a s) :
    Meets (fun _ => True) (deref pointer) post s := by
  cases pointer with
  | none => trivial
  | some a => exact here a rfl

/-! ## Memory -/

def Heap.allocate (h : Heap) : Heap := { h with requests := h.requests + 1, live := h.requests :: h.live }
def Heap.release (h : Heap) (ref : Ref) : Heap := { h with live := h.live.erase ref }

theorem Heap.grown_allocate (h : Heap) : h.Grown h.allocate := ⟨rfl, Nat.le_succ _⟩
theorem Heap.grown_release (h : Heap) (ref : Ref) : h.Grown (h.release ref) := ⟨rfl, Nat.le_refl _⟩

theorem State.Grants.withHeap (grants : s.Grants) (grown : s.heap.Grown h) : (s.withHeap h).Grants :=
  grants.grown grown

theorem meets_malloc {post : Option Ref → State → Prop} (grants : s.Grants) :
    Meets bad malloc post s ↔ post (some s.heap.requests) (s.withHeap s.heap.allocate) := by
  unfold malloc
  simp only [meets_bind, meets_get, grants s.heap.requests, if_true, meets_modify, meets_pure]
  rfl

@[simp] theorem meets_free {ref : Ref} {post : Unit → State → Prop} :
    Meets bad (free ref) post s ↔ post () (s.withHeap (s.heap.release ref)) := Iff.rfl

/-! ## Queues -/

section
variable {α : Type} {queue : Queue α}

theorem enqueue_spec (grants : s.Grants) (value : α) :
    Meets bad (enqueue queue value) (fun q s' => values q = values queue ++ [value] ∧
      ∃ h, s.heap.Grown h ∧ s' = s.withHeap h) s := by
  unfold enqueue
  rw [meets_bind, meets_malloc grants]
  simp only [meets_pure]
  exact ⟨by simp [values], _, s.heap.grown_allocate, rfl⟩

theorem dequeue_spec (split : values queue = value :: rest) :
    Meets bad (dequeue queue) (fun r s' => values r.1 = rest ∧ r.2 = some value ∧
      ∃ h, s.heap.Grown h ∧ s' = s.withHeap h) s := by
  cases queue with
  | nil => simp [values] at split
  | cons node queue =>
    simp only [values, List.map_cons, List.cons.injEq] at split
    unfold dequeue
    simp only [meets_bind, meets_free, meets_pure]
    exact ⟨split.2, congrArg some split.1, _, s.heap.grown_release _, rfl⟩

theorem find_spec (grants : s.Grants) (findCondition : α → Bool) :
    Meets bad (find queue findCondition) (fun found s' => found = (values queue).find? findCondition ∧
      ∃ h, s.heap.Grown h ∧ s' = s.withHeap h) s := by
  unfold find
  rw [meets_bind, meets_malloc grants]
  simp only [meets_bind, meets_free, meets_pure]
  exact ⟨trivial, _, s.heap.grown_allocate.trans (Heap.grown_release _ _), rfl⟩

end

/-! ## Processes -/

@[simp] theorem meets_readPcb {process : Ref} {post : Pcb → State → Prop} :
    Meets bad (readPcb process) post s ↔ Meets bad (lookup (s.procs.pcbs process)) post s := by
  unfold readPcb
  simp

theorem meets_currentPcb {post : Ref × Pcb → State → Prop} (current : s.procs.currentProcessPCB = some process)
    (block : s.procs.pcbs process = some p) : Meets bad currentPcb post s ↔ post (process, p) s := by
  unfold currentPcb
  simp [current, block]

theorem meets_getpid {post : Int → State → Prop} (running : s.procs.currentProcessPCB = some c)
    (block : s.procs.pcbs c = some p) : Meets bad getpid post s ↔ post p.pid s := by
  unfold getpid
  simp [running, block]

theorem meets_readNewProcess {post : Ref × Pcb → State → Prop} (running : s.procs.currentProcessPCB = some c) :
    Meets bad readNewProcess post s ↔ Meets bad (lookup (s.procs.newProcess c)) post s := by
  unfold readNewProcess
  simp [running]

theorem meets_setNewProcess {newProcess : Option (Ref × Pcb)} {post : Unit → State → Prop}
    (running : s.procs.currentProcessPCB = some c) : Meets bad (setNewProcess newProcess) post s ↔ post ()
      { s with procs := { s.procs with newProcess := Function.update s.procs.newProcess c newProcess } } := by
  unfold setNewProcess
  simp [running]

theorem getProcessLoop_spec {pid : Int} (refs : List Ref) (live : ∀ r ∈ refs, s.procs.pcbs r ≠ none) :
    Meets bad (getProcessLoop pid refs) (fun found s' =>
      found = refs.find? (fun r => (s.procs.pcbs r).any (·.pid = pid)) ∧
      s' = s) s := by
  induction refs with
  | nil => simp [getProcessLoop]
  | cons r refs ih =>
    obtain ⟨p, block⟩ := Option.ne_none_iff_exists'.mp (live r (List.mem_cons_self ..))
    have rest := ih fun r' member => live r' (List.mem_cons_of_mem _ member)
    unfold getProcessLoop
    by_cases here : p.pid = pid
    · simp [block, here]
    · simp only [meets_bind, meets_readPcb, block, meets_lookup_some, here, if_false]
      simpa [block, here] using rest

/-- The process that `getProcess` finds. -/
def Procs.process (procs : Procs) (pid : Int) : Option Ref :=
  (values procs.queue).find? fun r => (procs.pcbs r).any (·.pid = pid)

theorem process_some {procs : Procs} (found : procs.process pid = some r) :
    r ∈ values procs.queue ∧ ∃ p, procs.pcbs r = some p ∧ p.pid = pid := by
  unfold Procs.process at found
  have here := List.find?_some found
  obtain ⟨p, block, same⟩ := (Option.any_eq_true _ _).mp here
  exact ⟨List.mem_of_find?_eq_some found, p, block, by simpa using same⟩

theorem getProcess_spec (grants : s.Grants) (live : ∀ r ∈ values s.procs.queue, s.procs.pcbs r ≠ none) (pid : Int) :
    Meets bad (getProcess pid) (fun found s' => found = s.procs.process pid ∧
      ∃ h, s.heap.Grown h ∧ s' = s.withHeap h) s := by
  unfold getProcess
  rw [meets_bind, meets_malloc grants]
  simp only [meets_bind, meets_get, withHeap_procs]
  refine (getProcessLoop_spec _ (by simpa [values] using live)).mono ?_
  rintro found s' ⟨rfl, rfl⟩
  simp only [meets_free, meets_pure]
  exact ⟨rfl, _, s.heap.grown_allocate.trans (Heap.grown_release _ _), rfl⟩

/-- The current process and the ones in the queue are not freed, and pids are positive. -/
structure Procs.Attended (procs : Procs) (current : Ref) (p : Pcb) : Prop where
  running : procs.currentProcessPCB = some current
  block : procs.pcbs current = some p
  queue : ∀ r ∈ values procs.queue, procs.pcbs r ≠ none
  pids : ∀ r q, procs.pcbs r = some q → 0 < q.pid

theorem Procs.Attended.callerPid {procs : Procs} (attended : procs.Attended current p) : procs.callerPid = p.pid := by
  unfold Procs.callerPid
  rw [attended.running, Option.bind_some, attended.block, Option.elim_some]

/-- The process that `changeState` finds. -/
def Procs.target (procs : Procs) (pid : Int) : Option Ref :=
  if pid = procs.callerPid then procs.currentProcessPCB else procs.process pid

/-- What is found has the pid. -/
theorem target_some {procs : Procs} (attended : procs.Attended current p) (found : procs.target pid = some r) :
    (r = current ∨ r ∈ values procs.queue) ∧ ∃ q, procs.pcbs r = some q ∧ q.pid = pid := by
  unfold Procs.target at found
  split at found
  · rename_i same
    rw [attended.running, Option.some.injEq] at found
    subst found
    exact ⟨.inl rfl, p, attended.block, by rw [same, attended.callerPid]⟩
  · obtain ⟨queued, same⟩ := process_some found
    exact ⟨.inr queued, same⟩

/-- What `changeState` makes of the processes when it neither posts nor
reparents: nothing when it returns -1. -/
def Procs.moved (procs : Procs) (pid : Int) (newState : ProcessState) : Option Procs := do
  let process ← procs.target pid
  let p ← procs.pcbs process
  if p.state = .exited ∨ p.state = .terminated then none else some (procs.moveState process p newState)

theorem moved_eq_some {procs : Procs} {newState : ProcessState} :
    procs.moved pid newState = some procs' ↔ ∃ r q, procs.target pid = some r ∧ procs.pcbs r = some q ∧
      q.state ≠ .exited ∧ q.state ≠ .terminated ∧ procs' = procs.moveState r q newState := by
  unfold Procs.moved
  cases found : procs.target pid with
  | none => simp
  | some r =>
    cases block : procs.pcbs r with
    | none => simp [block]
    | some q =>
      simp only [Option.bind_eq_bind, Option.bind_some, block, Option.some.injEq, ne_eq]
      by_cases dead : q.state = .exited ∨ q.state = .terminated
      · simp only [if_pos dead]
        constructor
        · rintro ⟨⟩
        · rintro ⟨r', q', rfl, same, notExited, notTerminated, -⟩
          cases block.symm.trans same
          exact (dead.elim notExited notTerminated).elim
      · simp only [if_neg dead, Option.some.injEq]
        constructor
        · rintro rfl
          exact ⟨r, q, rfl, block, fun h => dead (.inl h), fun h => dead (.inr h), rfl⟩
        · rintro ⟨r', q', rfl, same, -, -, rfl⟩
          cases block.symm.trans same
          rfl

theorem processOf_spec (grants : s.Grants) (attended : s.procs.Attended current p) (pid : Int) :
    Meets bad (processOf pid) (fun found s' => found = s.procs.target pid ∧
      ∃ h, s.heap.Grown h ∧ s' = s.withHeap h) s := by
  unfold processOf Procs.target
  rw [meets_bind, meets_currentPcb attended.running attended.block, meets_ite, attended.callerPid]
  constructor
  · intro here
    rw [if_pos here]
    exact ⟨attended.running.symm, _, .refl _, rfl⟩
  · intro elsewhere
    rw [if_neg elsewhere]
    exact getProcess_spec grants attended.queue pid

theorem changeStateWith_spec (grants : s.Grants) (attended : s.procs.Attended current p)
    (post : Int → K Int) (pid : Int)
    {newState : ProcessState} (notExited : newState ≠ .exited) (notTerminated : newState ≠ .terminated) :
    Meets bad (changeStateWith post pid newState) (fun a s' =>
      a = (if (s.procs.moved pid newState).isSome then pid else -1) ∧
      ∃ h, s.heap.Grown h ∧ s' = { s with heap := h, procs := (s.procs.moved pid newState).getD s.procs }) s := by
  unfold changeStateWith
  rw [meets_bind]
  refine (processOf_spec grants attended pid).mono ?_
  rintro found s' ⟨rfl, h, grown, rfl⟩
  cases found : s.procs.target pid with
  | none =>
    have stays : s.procs.moved pid newState = none := by simp [Procs.moved, found]
    rw [stays]
    exact ⟨rfl, h, grown, rfl⟩
  | some r =>
    obtain ⟨-, q, block, same⟩ := target_some attended found
    simp only [changeProcess, notExited, notTerminated, if_false, meets_bind, meets_readPcb, withHeap_procs, block,
      meets_lookup_some, meets_ite, meets_pure, meets_get, meets_modifyProcs, ne_eq, not_false_eq_true, and_true]
    constructor
    · intro dead
      have stays : s.procs.moved pid newState = none := by simp [Procs.moved, found, block, dead]
      rw [stays]
      exact ⟨rfl, h, grown, rfl⟩
    · intro alive
      have moves : s.procs.moved pid newState = some (s.procs.moveState r q newState) := by
        simp [Procs.moved, found, block, alive]
      rw [moves]
      exact ⟨same, h, grown, rfl⟩

theorem resumeTask_spec (grants : s.Grants) (attended : s.procs.Attended current p) (pid : Int) :
    Meets bad (resumeTask pid) (fun a s' => a = (if (s.procs.moved pid .ready).isSome then pid else -1) ∧
      ∃ h, s.heap.Grown h ∧ s' = { s with heap := h, procs := (s.procs.moved pid .ready).getD s.procs }) s :=
  changeStateWith_spec grants attended _ pid (by decide) (by decide)

/-! ## Semaphores -/

@[simp] theorem values_modify (sems : Sems) (ref : Ref) (f : Sem → Sem) :
    values (sems.modify ref f).semQueue = (values sems.semQueue).map fun x => if x.ref = ref then f x else x := by
  simp only [values, Sems.modify, List.map_map]
  refine List.map_congr_left fun node _ => ?_
  by_cases same : node.value.ref = ref <;> simp [same]

@[simp] theorem semId_modify (sems : Sems) (ref : Ref) (f : Sem → Sem) : (sems.modify ref f).semId = sems.semId := rfl

@[simp] theorem allSemsLock_modify (sems : Sems) (ref : Ref) (f : Sem → Sem) :
    (sems.modify ref f).allSemsLock = sems.allSemsLock := rfl

/-- Two writes to one semaphore are one. -/
theorem modify_modify (sems : Sems) (ref : Ref) (f g : Sem → Sem) (kept : ∀ x, (f x).ref = x.ref) :
    (sems.modify ref f).modify ref g = sems.modify ref (g ∘ f) := by
  simp only [Sems.modify, List.map_map, Sems.mk.injEq, true_and, and_true]
  refine List.map_congr_left fun node _ => ?_
  by_cases same : node.value.ref = ref <;> simp [same, kept]

theorem modify_congr {sems : Sems} {f g : Sem → Sem}
    (same : ∀ x ∈ values sems.semQueue, x.ref = ref → f x = g x) : sems.modify ref f = sems.modify ref g := by
  simp only [Sems.modify, Sems.mk.injEq, true_and, and_true]
  refine List.map_congr_left fun node member => ?_
  by_cases here : node.value.ref = ref
  · rw [if_pos here, if_pos here, same _ (List.mem_map_of_mem member) here]
  · rw [if_neg here, if_neg here]

/-- An unlocked semaphore without a name, with a queue. -/
def Sem.Plain (sem : Sem) : Prop := sem.lock = 0 ∧ sem.queueRef.isSome ∧ sem.name = ""

/-- The semaphores are plain, and told apart by their pointers and by their ids. -/
structure Sems.Proper (sems : Sems) (requests : Nat) : Prop where
  allSems : sems.allSemsLock = 0
  nextId : 0 ≤ sems.semId
  plain : ∀ sem ∈ values sems.semQueue, sem.Plain
  refs : ((values sems.semQueue).map Sem.ref).Nodup
  ids : ((values sems.semQueue).map Sem.id).Nodup
  below : ∀ sem ∈ values sems.semQueue, sem.ref < requests ∧ sem.id < sems.semId

/-- The semaphore that `findSem` finds. -/
def Sems.find (sems : Sems) (id : Int) : Option Sem := (values sems.semQueue).find? (·.id = id)

theorem find_some {sems : Sems} {id : Int} (found : sems.find id = some sem) :
    sem ∈ values sems.semQueue ∧ sem.id = id := by
  refine ⟨List.mem_of_find?_eq_some found, ?_⟩
  simpa using List.find?_some found

theorem find_eq_some {α : Type} {l : List α} {P : α → Bool} {a : α} (member : a ∈ l) (holds : P a = true)
    (only : ∀ b ∈ l, P b = true → b = a) : l.find? P = some a := by
  cases found : l.find? P with
  | none => exact absurd holds (List.find?_eq_none.mp found a member)
  | some b => rw [only b (List.mem_of_find?_eq_some found) (List.find?_some found)]

/-- The pointer to a listed semaphore leads to it. -/
theorem find_ref {sems : Sems} (proper : sems.Proper n) (member : sem ∈ values sems.semQueue) :
    (values sems.semQueue).find? (·.ref = sem.ref) = some sem := by
  refine find_eq_some member (by simp) fun other inside same => ?_
  exact List.inj_on_of_nodup_map proper.refs inside member (by simpa using same)

/-- After a write to it, it leads to what was written. -/
theorem find_ref_modify {sems : Sems} (proper : sems.Proper n) (member : sem ∈ values sems.semQueue)
    {f : Sem → Sem} (kept : ∀ x, (f x).ref = x.ref) :
    (values (sems.modify sem.ref f).semQueue).find? (·.ref = sem.ref) = some (f sem) := by
  have here : f sem ∈ values (sems.modify sem.ref f).semQueue := by
    rw [values_modify]
    exact List.mem_map.mpr ⟨sem, member, by simp⟩
  refine find_eq_some here (by simp [kept]) fun other inside same => ?_
  rw [values_modify] at inside
  obtain ⟨old, listed, rfl⟩ := List.mem_map.mp inside
  by_cases this : old.ref = sem.ref
  · rw [if_pos this, List.inj_on_of_nodup_map proper.refs listed member this]
  · simp [this] at same

theorem Sems.Proper.grown {sems : Sems} (proper : sems.Proper n) (more : n ≤ n') : sems.Proper n' :=
  { proper with below := fun sem member => ⟨Nat.lt_of_lt_of_le (proper.below sem member).1 more,
    (proper.below sem member).2⟩ }

/-- A write that leaves the pointer, the id and a plain semaphore. -/
theorem Sems.Proper.modify {sems : Sems} (proper : sems.Proper n) (ref : Ref) {f : Sem → Sem}
    (same : ∀ x, (f x).ref = x.ref ∧ (f x).id = x.id)
    (plain : ∀ x, x.Plain → (f x).Plain) :
    (sems.modify ref f).Proper n := by
  have refs : (values (sems.modify ref f).semQueue).map Sem.ref = (values sems.semQueue).map Sem.ref := by
    simp only [values_modify, List.map_map]
    refine List.map_congr_left fun x _ => ?_
    by_cases this : x.ref = ref <;> simp [this, same]
  have ids : (values (sems.modify ref f).semQueue).map Sem.id = (values sems.semQueue).map Sem.id := by
    simp only [values_modify, List.map_map]
    refine List.map_congr_left fun x _ => ?_
    by_cases this : x.ref = ref <;> simp [this, same]
  have each : ∀ sem ∈ values (sems.modify ref f).semQueue, ∃ x ∈ values sems.semQueue, sem = f x ∨ sem = x := by
    intro sem member
    rw [values_modify] at member
    obtain ⟨x, listed, rfl⟩ := List.mem_map.mp member
    refine ⟨x, listed, ?_⟩
    by_cases this : x.ref = ref <;> simp [this]
  refine ⟨proper.allSems, proper.nextId, ?_, refs ▸ proper.refs, ids ▸ proper.ids, ?_⟩
  · intro sem member
    obtain ⟨x, listed, rfl | rfl⟩ := each sem member
    · exact plain x (proper.plain x listed)
    · exact proper.plain _ listed
  · intro sem member
    obtain ⟨x, listed, rfl | rfl⟩ := each sem member
    · rw [(same x).1, (same x).2]
      exact proper.below x listed
    · exact proper.below _ listed

/-- The semaphore that `semInit` adds. -/
def Sems.fresh (sems : Sems) (initialValue : Int) (ref queueRef nameRef : Ref) : Sem where
  ref
  queueRef := some queueRef
  blockedPids := []
  attachedProcesses := 1
  id := sems.semId
  value := initialValue
  lock := 0
  name := ""
  nameRef

/-- A fresh semaphore at the end, at a pointer between the bounds. -/
inductive Sems.Added (sems : Sems) (initialValue : Int) (n n' : Nat) : Sems → Prop
  | intro (low : n ≤ ref) (high : ref < n')
    (listed : values queue = values sems.semQueue ++ [sems.fresh initialValue ref queueRef nameRef]) :
    Added sems initialValue n n' { semId := sems.semId + 1, semQueue := queue, allSemsLock := 0 }

theorem Sems.Added.mono {sems : Sems} (added : sems.Added initialValue n n' sems') (more : n' ≤ n'') :
    sems.Added initialValue n n'' sems' := by
  obtain ⟨low, high, listed⟩ := added
  exact .intro low (Nat.lt_of_lt_of_le high more) listed

theorem Sems.Proper.add {sems : Sems} (proper : sems.Proper n) (added : sems.Added initialValue n n' sems') :
    sems'.Proper n' := by
  obtain ⟨low, high, listed⟩ := added
  refine ⟨rfl, Int.le_add_one proper.nextId, ?_, ?_, ?_, ?_⟩
  · simp only [listed, List.forall_mem_append, List.forall_mem_singleton]
    exact ⟨proper.plain, rfl, rfl, rfl⟩
  · simp only [listed, List.map_append, List.map_singleton]
    refine List.nodup_append.mpr ⟨proper.refs, List.nodup_singleton _, ?_⟩
    intro _ old _ new
    obtain ⟨x, member, rfl⟩ := List.mem_map.mp old
    rw [List.mem_singleton.mp new]
    exact Nat.ne_of_lt (Nat.lt_of_lt_of_le (proper.below x member).1 low)
  · simp only [listed, List.map_append, List.map_singleton]
    refine List.nodup_append.mpr ⟨proper.ids, List.nodup_singleton _, ?_⟩
    intro _ old _ new
    obtain ⟨x, member, rfl⟩ := List.mem_map.mp old
    rw [List.mem_singleton.mp new]
    exact Int.ne_of_lt (proper.below x member).2
  · simp only [listed, List.forall_mem_append, List.forall_mem_singleton]
    refine ⟨fun x member => ?_, high, Int.lt_succ _⟩
    have old := proper.below x member
    exact ⟨Nat.lt_trans old.1 (Nat.lt_of_le_of_lt low high), Int.lt_trans old.2 (Int.lt_succ _)⟩

/-- Every semaphore can be raised so often. -/
def Sems.Room (sems : Sems) (n : Nat) : Prop := ∀ sem ∈ values sems.semQueue, sem.value + n ≤ INT_MAX

instance (sems : Sems) (n : Nat) : Decidable (sems.Room n) := inferInstanceAs (Decidable (∀ _ ∈ _, _))

/-- The next posts raise no semaphore beyond its range, or that may end the run. -/
def Spare (bad : Fault → Prop) (n : Nat) (sems : Sems) : Prop := bad .overflow ∨ sems.Room n

theorem Spare.lenient [Lenient bad] {sems : Sems} {n : Nat} : Spare bad n sems := .inl (Lenient.undefined .overflow rfl)

/-- What is raised takes of the room. -/
theorem Spare.raised {sems sems' : Sems} {n k : Nat} (spare : Spare bad (n + k) sems)
    (each : ∀ x ∈ values sems'.semQueue, ∃ y ∈ values sems.semQueue, x.value ≤ y.value + k) : Spare bad n sems' := by
  refine spare.imp_right fun room x member => ?_
  obtain ⟨y, listed, raised⟩ := each x member
  have fits := room y listed
  omega

theorem Spare.less {sems : Sems} (spare : Spare bad n sems) (less : m ≤ n) : Spare bad m sems := by
  obtain ⟨k, rfl⟩ := Nat.exists_eq_add_of_le less
  exact spare.raised fun x member => ⟨x, member, by omega⟩

/-- A write to one semaphore, by what it does to the value. -/
theorem Spare.modify {sems : Sems} {n k : Nat} (spare : Spare bad (n + k) sems) (ref : Ref) {f : Sem → Sem}
    (raised : ∀ x, (f x).value ≤ x.value + k) : Spare bad n (sems.modify ref f) := by
  refine spare.raised fun x member => ?_
  rw [values_modify] at member
  obtain ⟨y, listed, rfl⟩ := List.mem_map.mp member
  refine ⟨y, listed, ?_⟩
  split
  · exact raised y
  · omega

/-- The semaphores without one of them. -/
def Sems.close (sems : Sems) (id : Int) : Sems := { sems with semQueue := sems.semQueue.eraseP (·.value.id = id) }

theorem values_eraseP {α : Type} (queue : Queue α) (P : α → Bool) :
    values (queue.eraseP (P ·.value)) = (values queue).eraseP P := by
  unfold values
  rw [List.eraseP_map]
  rfl

theorem values_close (sems : Sems) (id : Int) :
    values (sems.close id).semQueue = (values sems.semQueue).eraseP (·.id = id) :=
  values_eraseP sems.semQueue (·.id = id)

theorem Spare.close {sems : Sems} (spare : Spare bad n sems) (id : Int) : Spare bad n (sems.close id) := by
  refine spare.raised (k := 0) fun x member => ⟨x, ?_, by omega⟩
  rw [values_close] at member
  exact List.mem_of_mem_eraseP member

theorem Sems.Proper.close {sems : Sems} (proper : sems.Proper n) (id : Int) : (sems.close id).Proper n := by
  have fewer : (values (sems.close id).semQueue).Sublist (values sems.semQueue) := by
    rw [values_close]
    exact List.eraseP_sublist
  exact ⟨proper.allSems, proper.nextId, fun sem member => proper.plain sem (fewer.subset member),
    (fewer.map _).nodup proper.refs,
    (fewer.map _).nodup proper.ids, fun sem member => proper.below sem (fewer.subset member)⟩

/-- A write to a semaphore, as `findSem` sees it. -/
theorem find_modify {sems : Sems} {f : Sem → Sem} (kept : ∀ x, (f x).id = x.id) (ref : Ref) (id : Int) :
    (sems.modify ref f).find id = (sems.find id).map fun x => if x.ref = ref then f x else x := by
  unfold Sems.find
  rw [values_modify, List.find?_map]
  congr 2
  funext x
  by_cases here : x.ref = ref <;> simp [here, kept]

theorem find_modify_none {sems : Sems} {f : Sem → Sem} (kept : ∀ x, (f x).id = x.id) (ref : Ref) (id : Int) :
    (sems.modify ref f).find id = none ↔ sems.find id = none := by
  rw [find_modify kept, Option.map_eq_none_iff]

theorem find_modify_self {sems : Sems} {id : Int} {f : Sem → Sem} (kept : ∀ x, (f x).id = x.id)
    (found : sems.find id = some x) :
    (sems.modify x.ref f).find id = some (f x) := by
  rw [find_modify kept, found, Option.map_some, if_pos rfl]

theorem find_modify_apart {sems : Sems} {id id' : Int} {f : Sem → Sem} (proper : sems.Proper n)
    (kept : ∀ x, (f x).id = x.id)
    (found : sems.find id = some x) (found' : sems.find id' = some x') (apart : id ≠ id') :
    (sems.modify x'.ref f).find id = some x := by
  have refs : x.ref ≠ x'.ref := by
    intro same
    have one : x = x' := List.inj_on_of_nodup_map proper.refs (find_some found).1 (find_some found').1 same
    exact apart ((find_some found).2.symm.trans ((congrArg Sem.id one).trans (find_some found').2))
  rw [find_modify kept, found, Option.map_some, if_neg refs]

/-- Ids are used once, so what was closed is gone. -/
theorem find_close_self {sems : Sems} (ids : ((values sems.semQueue).map Sem.id).Nodup) (id : Int) :
    (sems.close id).find id = none := by
  unfold Sems.find
  rw [values_close]
  refine List.find?_eq_none.mpr fun x member this => ?_
  have erased : (((values sems.semQueue).eraseP (·.id = id)).map Sem.id) =
    ((values sems.semQueue).map Sem.id).erase id := by
    rw [List.erase_eq_eraseP', List.eraseP_map]
    rfl
  have inside : x.id ∈ ((values sems.semQueue).map Sem.id).erase id := erased ▸ List.mem_map_of_mem member
  exact ((ids.mem_erase_iff).mp inside).1 (by simpa using this)

theorem find_close_other (sems : Sems) {closed id : Int} (other : id ≠ closed) :
    (sems.close closed).find id = sems.find id := by
  unfold Sems.find
  rw [values_close]
  generalize values sems.semQueue = list
  induction list with
  | nil => rfl
  | cons x list ih =>
    by_cases this : x.id = closed
    · have away : x.id ≠ id := fun same => other (same.symm.trans this)
      simp [this, show closed ≠ id from fun same => other same.symm]
    · by_cases found : x.id = id
      · simp [found, other]
      · simp only [List.eraseP_cons, this, decide_false, cond_false, List.find?_cons, found]
        exact ih

/-- The iterator of `findSem` comes and goes. -/
theorem meets_findSem {post : Option Sem → State → Prop} (grants : s.Grants) (id : Int) :
    Meets bad (findSem id) post s ↔
      post (s.sems.find id) (s.withHeap { s.heap with requests := s.heap.requests + 1 }) := by
  have gone : s.heap.allocate.release s.heap.requests = { s.heap with requests := s.heap.requests + 1 } := by
    simp only [Heap.allocate, Heap.release, List.erase_cons_head]
  unfold findSem find
  simp only [meets_bind, meets_get, meets_malloc grants, meets_free, meets_pure]
  rw [← gone]
  rfl

theorem findSem_spec (grants : s.Grants) (id : Int) :
    Meets bad (findSem id) (fun found s' => found = s.sems.find id ∧ ∃ h, s.heap.Grown h ∧ s' = s.withHeap h) s :=
  (meets_findSem grants id).mpr ⟨rfl, { s.heap with requests := s.heap.requests + 1 }, ⟨rfl, Nat.le_succ _⟩, rfl⟩

@[simp] theorem meets_readSem {sem : Ref} {post : Sem → State → Prop} :
    Meets bad (readSem sem) post s ↔ Meets bad (lookup ((values s.sems.semQueue).find? (·.ref = sem))) post s := by
  unfold readSem
  simp

@[simp] theorem meets_modifySem {sem : Ref} {f : Sem → Sem} {post : Unit → State → Prop} :
    Meets bad (modifySem sem f) post s ↔ post () { s with sems := s.sems.modify sem f } := Iff.rfl

theorem meets_acquireSem {post : Unit → State → Prop} (proper : s.sems.Proper n)
    (member : sem ∈ values s.sems.semQueue) :
    Meets bad (acquireSem sem.ref) post s ↔
      post () { s with sems := s.sems.modify sem.ref fun x => { x with lock := 1 } } := by
  unfold acquireSem acquire
  simp [find_ref proper member, (proper.plain sem member).1]

theorem semValue_spec (grants : s.Grants) (id : Int) :
    Meets bad (semValue id) (fun value s' => value = ((s.sems.find id).map Sem.value).getD (-1) ∧
      ∃ h, s.heap.Grown h ∧ s' = s.withHeap h) s := by
  unfold semValue
  rw [meets_bind]
  refine (findSem_spec grants id).mono ?_
  rintro found s' ⟨rfl, h, grown, rfl⟩
  cases s.sems.find id with
  | none => exact ⟨rfl, h, grown, rfl⟩
  | some sem => exact ⟨rfl, h, grown, rfl⟩

/-- `semInit` adds an open semaphore with the next id at the end. -/
theorem semInit_spec [Lenient bad] (grants : s.Grants) (proper : s.sems.Proper s.heap.requests) (initialValue : Int) :
    Meets bad (semInit initialValue) (fun id s' => id = s.sems.semId ∧ ∃ h sems, s.heap.Grown h ∧
      s.sems.Added initialValue s.heap.requests h.requests sems ∧
      s' = { s with heap := h, sems, history := .created s.sems.semId initialValue :: s.history }) s := by
  unfold semInit acquireAllSems acquire createSem getNextSemaphoreId releaseAllSems
  simp only [meets_bind, meets_get, proper.allSems, if_true, meets_pure, meets_modifySems]
  refine meets_int ?_
  rw [meets_malloc (by exact grants)]
  simp only [meets_bind, meets_get]
  refine meets_increment ?_
  simp only [meets_pure, meets_modifySems]
  rw [meets_malloc (by exact grants), meets_malloc (by exact grants)]
  simp only [meets_bind, meets_get]
  refine (enqueue_spec (by exact grants) _).mono ?_
  rintro queue s' ⟨listed, h, grown, rfl⟩
  simp only [meets_modifySems, meets_log, meets_pure]
  have older : ∀ x ∈ values s.sems.semQueue, x.ref ≠ s.heap.requests := fun x member =>
    Nat.ne_of_lt (proper.below x member).1
  have kept : (values s.sems.semQueue).map (fun x => if x.ref = s.heap.requests then
      { x with attachedProcesses := (x.attachedProcesses + 1) % 2 ^ 16 } else x) = values s.sems.semQueue := by
    conv_rhs => rw [← List.map_id (values s.sems.semQueue)]
    exact List.map_congr_left fun x member => if_neg (older x member)
  have room : s.heap.requests + 3 ≤ h.requests := grown.requests
  have appended : values (Sems.modify ⟨s.sems.semId + 1, queue, 0⟩ s.heap.requests
      fun x => { x with attachedProcesses := (x.attachedProcesses + 1) % 2 ^ 16 }).semQueue =
      values s.sems.semQueue ++
      [s.sems.fresh initialValue s.heap.requests (s.heap.requests + 1) (s.heap.requests + 2)] := by
    have listed : values queue = values s.sems.semQueue ++ [_] := listed
    rw [values_modify, listed, List.map_append, kept]
    simp [Sems.fresh, State.withHeap, Heap.allocate]
  refine ⟨rfl, h, _, ⟨grown.grants, by omega⟩, ?_, rfl⟩
  exact .intro (Nat.le_refl _) (by omega) appended

/-- A value is found where its node is. -/
theorem find_values {α : Type} (queue : Queue α) (P : α → Bool) :
    (values queue).find? P = (queue.find? (P ·.value)).map Node.value := by
  unfold values
  rw [List.find?_map]
  rfl

theorem takeElement_spec {α : Type} {queue : Queue α} (removeCondition : α → Bool) :
    Meets bad (takeElement queue removeCondition) (fun r s' => r.1 = queue.eraseP (removeCondition ·.value) ∧
      r.2 = (values queue).find? removeCondition ∧ ∃ h, s.heap.Grown h ∧ s' = s.withHeap h) s := by
  unfold takeElement
  rw [find_values]
  cases found : queue.find? (removeCondition ·.value) with
  | none =>
    have stays := List.eraseP_of_forall_not (List.find?_eq_none.mp found)
    exact ⟨stays.symm, rfl, _, .refl _, rfl⟩
  | some node => exact ⟨rfl, rfl, _, s.heap.grown_release _, rfl⟩

theorem freeOption_spec (ref : Option Ref) :
    Meets bad (ref.forM free) (fun _ s' => ∃ h, s.heap.Grown h ∧ s' = s.withHeap h) s := by
  cases ref with
  | none => exact ⟨_, .refl _, rfl⟩
  | some ref => exact ⟨_, s.heap.grown_release ref, rfl⟩

theorem freeNodes_spec (queue : Queue Caller) :
    Meets bad (freeNodes queue) (fun _ s' => ∃ h, s.heap.Grown h ∧ s' = s.withHeap h) s := by
  induction queue generalizing s with
  | nil => exact ⟨_, .refl _, rfl⟩
  | cons node rest ih =>
    simp only [freeNodes, meets_bind, meets_free]
    refine ih.mono ?_
    rintro _ s' ⟨h, grown, rfl⟩
    exact ⟨h, (Heap.grown_release _ _).trans ((Heap.grown_release _ _).trans grown), rfl⟩

theorem destroySem_spec (sem : Sem) :
    Meets bad (destroySem sem) (fun _ s' => ∃ h, s.heap.Grown h ∧ s' = s.withHeap h) s := by
  unfold destroySem freeQueue
  rw [meets_bind]
  cases sem.queueRef with
  | none => exact ⟨_, (Heap.grown_release _ _).trans (Heap.grown_release _ _), rfl⟩
  | some ref =>
    rw [meets_bind]
    refine (freeNodes_spec _).mono ?_
    rintro _ s' ⟨h, grown, rfl⟩
    exact ⟨_,
      grown.trans ((Heap.grown_release _ _).trans ((Heap.grown_release _ _).trans (Heap.grown_release _ _))), rfl⟩

/-- `semClose` removes the semaphore with the id, if there is one. -/
theorem semClose_spec (grants : s.Grants) (proper : s.sems.Proper n) (id : Int) :
    Meets bad (semClose id) (fun _ s' => ∃ h, s.heap.Grown h ∧
      s' = { s with heap := h, sems := s.sems.close id }) s := by
  unfold semClose
  rw [meets_bind]
  refine (findSem_spec grants id).mono ?_
  rintro found s' ⟨rfl, h, grown, rfl⟩
  obtain none | ⟨sem, found⟩ := (s.sems.find id).eq_none_or_eq_some
  · have stays : s.sems.close id = s.sems := by
      unfold Sems.close
      rw [List.eraseP_of_forall_not]
      intro node member
      exact List.find?_eq_none.mp none node.value (List.mem_map_of_mem member)
    rw [none, stays]
    exact ⟨h, grown, rfl⟩
  · have unnamed := (proper.plain sem (find_some found).1).2.2
    simp only [found, acquireAllSems, acquire, proper.allSems, unnamed, String.length_empty,
      true_or, if_true, withHeap_sems,
      releaseAllSems, meets_bind, meets_get, meets_pure, meets_modifySems]
    refine (takeElement_spec _).mono ?_
    rintro ⟨queue, closed⟩ s' ⟨rfl, rfl, h', grown', rfl⟩
    have taken : (values s.sems.semQueue).find? (·.id = id) = some sem := found
    simp only [taken, meets_deref_some]
    refine (destroySem_spec sem).mono ?_
    rintro _ s' ⟨h'', grown'', rfl⟩
    refine ⟨h'', grown.trans (grown'.trans grown''), ?_⟩
    rw [Sems.close, ← proper.allSems]
    rfl

end QuesOs.Kernel
