import QuesOs.SemaphoreActions

/-! What the kernel's actions do whichever requests for memory are refused. Every
lookup asks for an iterator and finds nothing without it, so each action is told
by the requests it makes and by what it does where they are granted. -/
namespace QuesOs.Kernel
open Resumption

/-- The heap after so many requests, and some releases. -/
structure Heap.Asked (h : Heap) (count : Nat) (h' : Heap) : Prop where
  grants : h'.grants = h.grants
  garbage : h'.garbage = h.garbage
  requests : h'.requests = h.requests + count

namespace Heap.Asked
variable {h h' h'' : Heap}

theorem trans (first : h.Asked n h') (second : h'.Asked m h'') : h.Asked (n + m) h'' :=
  ⟨second.grants.trans first.grants, second.garbage.trans first.garbage, by rw [second.requests, first.requests]; omega⟩

theorem refl (h : Heap) : h.Asked 0 h := ⟨rfl, rfl, rfl⟩

theorem release (asked : h.Asked n h') (ref : Ref) : h.Asked n (h'.release ref) :=
  ⟨asked.grants, asked.garbage, asked.requests⟩

theorem grown (asked : h.Asked n h') : h.Grown h' :=
  ⟨asked.grants, asked.requests ▸ Nat.le_add_right _ _⟩

end Heap.Asked

/-- The request that is due after so many more is granted. -/
def Heap.Grants (h : Heap) (later : Nat) : Prop := h.grants (h.requests + later) = true

instance (h : Heap) (later : Nat) : Decidable (h.Grants later) := inferInstanceAs (Decidable (_ = true))

theorem Heap.Asked.later {h h' : Heap} (asked : h.Asked n h') (later : Nat) : h'.Grants later ↔
    h.Grants (n + later) := by
  unfold Heap.Grants
  rw [asked.grants, asked.requests, Nat.add_assoc]

variable {bad : Fault → Prop} {s : State}

/-! ## Memory and queues -/

theorem malloc_asks : Meets bad malloc (fun ref s' => ref = (if s.heap.Grants 0 then some s.heap.requests else none) ∧
    ∃ h, s.heap.Asked 1 h ∧ s' = s.withHeap h) s := by
  simp only [malloc, meets_bind, meets_get]
  by_cases granted : s.heap.Grants 0
  · have yes : s.heap.grants s.heap.requests = true := granted
    rw [if_pos yes, if_pos granted]
    exact ⟨rfl, s.heap.allocate, ⟨rfl, rfl, rfl⟩, rfl⟩
  · have no : ¬s.heap.grants s.heap.requests = true := granted
    rw [if_neg no, if_neg granted]
    exact ⟨rfl, { s.heap with requests := s.heap.requests + 1 }, ⟨rfl, rfl, rfl⟩, rfl⟩

/-- A request is granted, or it is not. -/
theorem malloc_cases {post : Option Ref → State → Prop}
    (granted : s.heap.Grants 0 → ∀ h, s.heap.Asked 1 h → post (some s.heap.requests) (s.withHeap h))
    (refused : ¬s.heap.Grants 0 → ∀ h, s.heap.Asked 1 h → post none (s.withHeap h)) : Meets bad malloc post s := by
  refine malloc_asks.mono ?_
  rintro ref s' ⟨rfl, h, asked, rfl⟩
  by_cases yes : s.heap.Grants 0
  · rw [if_pos yes]
    exact granted yes h asked
  · rw [if_neg yes]
    exact refused yes h asked

section
variable {α : Type} {queue : Queue α}

theorem enqueue_asks (value : α) : Meets bad (enqueue queue value) (fun q s' =>
    values q = values queue ++ (if s.heap.Grants 0 then [value] else []) ∧ ∃ h, s.heap.Asked 1 h ∧
      s' = s.withHeap h) s := by
  unfold enqueue
  rw [meets_bind]
  refine malloc_asks.mono ?_
  rintro ref s' ⟨rfl, h, asked, rfl⟩
  split
  · rename_i none
    split at none
    · cases none
    · rename_i refused
      exact ⟨by rw [if_neg refused, List.append_nil], h, asked, rfl⟩
  · rename_i some
    split at some
    · rename_i granted
      exact ⟨by simp [values, granted], h, asked, rfl⟩
    · cases some

theorem find_asks (findCondition : α → Bool) : Meets bad (find queue findCondition) (fun found s' =>
    (found = if s.heap.Grants 0 then (values queue).find? findCondition else none) ∧
      ∃ h, s.heap.Asked 1 h ∧ s' = s.withHeap h) s := by
  unfold find
  rw [meets_bind]
  refine malloc_asks.mono ?_
  rintro ref s' ⟨rfl, h, asked, rfl⟩
  by_cases granted : s.heap.Grants 0
  · simp only [if_pos granted, meets_bind, meets_free, meets_pure]
    exact ⟨trivial, _, asked.release _, rfl⟩
  · simp only [if_neg granted, meets_pure]
    exact ⟨trivial, _, asked, rfl⟩

theorem takeElement_asks (removeCondition : α → Bool) :
    Meets bad (takeElement queue removeCondition) (fun r s' => r.1 = queue.eraseP (removeCondition ·.value) ∧
      r.2 = (values queue).find? removeCondition ∧ ∃ h, s.heap.Asked 0 h ∧ s' = s.withHeap h) s := by
  unfold takeElement
  rw [find_values]
  cases found : queue.find? (removeCondition ·.value) with
  | none =>
    have stays := List.eraseP_of_forall_not (List.find?_eq_none.mp found)
    exact ⟨stays.symm, rfl, _, .refl _, rfl⟩
  | some node => exact ⟨rfl, rfl, _, (Heap.Asked.refl _).release _, rfl⟩

theorem freeNodes_asks (queue : Queue Caller) :
    Meets bad (freeNodes queue) (fun _ s' => ∃ h, s.heap.Asked 0 h ∧ s' = s.withHeap h) s := by
  induction queue generalizing s with
  | nil => exact ⟨_, .refl _, rfl⟩
  | cons node rest ih =>
    simp only [freeNodes, meets_bind, meets_free]
    refine ih.mono ?_
    rintro _ s' ⟨h, asked, rfl⟩
    exact ⟨h, (((Heap.Asked.refl _).release _).release _).trans asked, rfl⟩

theorem freeQueue_asks (queueRef : Option Ref) (queue : Queue Caller) :
    Meets bad (freeQueue queueRef queue) (fun _ s' => ∃ h, s.heap.Asked 0 h ∧ s' = s.withHeap h) s := by
  cases queueRef with
  | none => exact ⟨_, .refl _, rfl⟩
  | some ref =>
    simp only [freeQueue, meets_bind]
    refine (freeNodes_asks queue).mono ?_
    rintro _ s' ⟨h, asked, rfl⟩
    exact ⟨_, asked.release ref, rfl⟩

end

theorem destroySem_asks (sem : Sem) :
    Meets bad (destroySem sem) (fun _ s' => ∃ h, s.heap.Asked 0 h ∧ s' = s.withHeap h) s := by
  unfold destroySem
  rw [meets_bind]
  refine (freeQueue_asks _ _).mono ?_
  rintro _ s' ⟨h, asked, rfl⟩
  exact ⟨_, (asked.release _).release _, rfl⟩

/-! ## Processes -/

/-- Some processes that are there became ready, and the record of who waits is another. -/
inductive Procs.Roused (procs : Procs) : Procs → Prop
  | recorded (waiting granted : List (Ref × Int)) : procs.Roused { procs with waiting, granted }
  | woken (roused : procs.Roused middle) (listed : middle.currentProcessPCB = some r ∨ r ∈ values middle.queue)
    (block : middle.pcbs r = some p) (alive : p.state ≠ .exited ∧ p.state ≠ .terminated) :
    procs.Roused (middle.moveState r p .ready)
  | also (roused : procs.Roused middle) (waiting granted : List (Ref × Int)) :
    procs.Roused { middle with waiting, granted }

theorem Procs.Roused.refl (procs : Procs) : procs.Roused procs := .recorded procs.waiting procs.granted

theorem Procs.Roused.trans {procs procs' procs'' : Procs} (first : procs.Roused procs')
    (second : procs'.Roused procs'') :
    procs.Roused procs'' := by
  induction second with
  | recorded waiting granted => exact .also first waiting granted
  | woken _ listed block alive ih => exact .woken ih listed block alive
  | also _ waiting granted ih => exact .also ih waiting granted

theorem getProcessLoop_any (pid : Int) (refs : List Ref) :
    Meets (fun _ => True) (getProcessLoop pid refs) (fun found s' =>
    s' = s ∧ ∀ r, found = some r → r ∈ refs ∧ ∃ p, s.procs.pcbs r = some p ∧ p.pid = pid) s := by
  induction refs with
  | nil => exact ⟨rfl, nofun⟩
  | cons r refs ih =>
    simp only [getProcessLoop, meets_bind, meets_readPcb]
    cases block : s.procs.pcbs r with
    | none => trivial
    | some p =>
      simp only [meets_lookup_some, meets_ite, meets_pure]
      constructor
      · rintro same
        refine ⟨trivial, ?_⟩
        rintro r' ⟨⟩
        exact ⟨List.mem_cons_self .., p, block, same⟩
      · intro
        refine ih.mono ?_
        rintro found s' ⟨rfl, here⟩
        exact ⟨rfl, fun r' same => ⟨List.mem_cons_of_mem _ (here r' same).1, (here r' same).2⟩⟩

/-- What is found has the pid; the current process is preferred. -/
theorem processOf_any (pid : Int) : Meets (fun _ => True) (processOf pid) (fun found s' =>
    (∃ h, s.heap.Grown h ∧ s' = s.withHeap h ∧ (pid = s.procs.callerPid → h = s.heap)) ∧
    (pid = s.procs.callerPid → found = s.procs.currentProcessPCB) ∧
    ∀ r, found = some r → (s.procs.currentProcessPCB = some r ∨ r ∈ values s.procs.queue) ∧
      ∃ p, s.procs.pcbs r = some p ∧ p.pid = pid) s := by
  simp only [processOf, currentPcb, meets_bind, meets_get]
  cases running : s.procs.currentProcessPCB with
  | none => trivial
  | some c =>
    simp only [meets_deref_some, meets_readPcb]
    cases block : s.procs.pcbs c with
    | none => trivial
    | some p =>
      have caller : s.procs.callerPid = p.pid := by simp [Procs.callerPid, running, block]
      simp only [meets_lookup_some, meets_pure, meets_ite, caller]
      constructor
      · rintro rfl
        refine ⟨⟨_, .refl _, rfl, fun _ => rfl⟩, fun _ => trivial, ?_⟩
        rintro r ⟨⟩
        exact ⟨.inl rfl, p, block, rfl⟩
      · intro other
        simp only [getProcess, meets_bind]
        refine malloc_asks.mono ?_
        rintro it s' ⟨-, h, asked, rfl⟩
        cases it with
        | none => exact ⟨⟨h, asked.grown, rfl, fun same => (other same).elim⟩, fun same => (other same).elim, by simp⟩
        | some it =>
          simp only [meets_bind, meets_get]
          refine (getProcessLoop_any pid _).mono ?_
          rintro found s' ⟨rfl, here⟩
          simp only [meets_free, meets_pure]
          refine ⟨⟨_, (asked.release _).grown, rfl, fun same => (other same).elim⟩, fun same => (other same).elim, ?_⟩
          intro r same
          exact ⟨.inr (here r same).1, (here r same).2⟩

/-- `changeState` of a process that neither exits nor is terminated. -/
theorem changeStateWith_any (post : Int → K Int) (pid : Int) {newState : ProcessState} (notExited : newState ≠ .exited)
    (notTerminated : newState ≠ .terminated) : Meets (fun _ => True) (changeStateWith post pid newState) (fun a s' =>
      ∃ h, s.heap.Grown h ∧ (pid = s.procs.callerPid → h = s.heap) ∧
        ((s' = s.withHeap h ∧ a = -1 ∧ (pid = s.procs.callerPid → ∀ c p, s.procs.currentProcessPCB = some c →
          s.procs.pcbs c = some p → p.state = .exited ∨ p.state = .terminated)) ∨
        ∃ r p, (s.procs.currentProcessPCB = some r ∨ r ∈ values s.procs.queue) ∧ s.procs.pcbs r = some p ∧
          p.state ≠ .exited ∧ p.state ≠ .terminated ∧ a = p.pid ∧ p.pid = pid ∧
          (pid = s.procs.callerPid → s.procs.currentProcessPCB = some r) ∧
          s' = { s with heap := h, procs := s.procs.moveState r p newState })) s := by
  unfold changeStateWith
  rw [meets_bind]
  refine (processOf_any pid).mono ?_
  rintro found s' ⟨⟨h, grown, rfl, own⟩, preferred, here⟩
  cases found with
  | none =>
    refine ⟨h, grown, own, .inl ⟨rfl, rfl, fun same c p running => ?_⟩⟩
    cases (preferred same).trans running
  | some r =>
    obtain ⟨listed, p, block, same⟩ := here r rfl
    simp only [changeProcess, meets_bind, meets_readPcb, withHeap_procs, block, meets_lookup_some,
      meets_ite, meets_pure,
      meets_get, notExited, notTerminated, if_false, meets_modifyProcs, ne_eq, not_false_eq_true, and_true]
    constructor
    · intro dead
      refine ⟨h, grown, own, .inl ⟨rfl, trivial, fun same c q running block' => ?_⟩⟩
      obtain rfl := Option.some.inj ((preferred same).trans running)
      cases block.symm.trans block'
      exact dead
    · intro alive
      refine ⟨h, grown, own, .inr ⟨r, p, listed, block, fun exited => alive (.inl exited),
        fun gone => alive (.inr gone), rfl, same,
        fun same => (preferred same).symm, rfl⟩⟩

theorem resumeTask_any (pid : Int) : Meets (fun _ => True) (resumeTask pid) (fun _ s' =>
    ∃ h procs, s.heap.Grown h ∧ s.procs.Roused procs ∧ s' = { s with heap := h, procs }) s := by
  refine (changeStateWith_any _ pid (by nofun) (by nofun)).mono ?_
  rintro a s' ⟨h, grown, -, ⟨rfl, -⟩ | ⟨r, p, listed, block, notExited, notTerminated, -, -, -, rfl⟩⟩
  · exact ⟨h, _, grown, .refl _, rfl⟩
  · exact ⟨h, _, grown, .woken (.refl _) listed block ⟨notExited, notTerminated⟩, rfl⟩

/-! ## Semaphores -/

/-- The semaphore behind a pointer. -/
def Sems.at (sems : Sems) (sem : Ref) : Option Sem := (values sems.semQueue).find? (·.ref = sem)

@[simp] theorem at_modify (sems : Sems) (ref : Ref) {f : Sem → Sem} (kept : ∀ x, (f x).ref = x.ref) :
    (sems.modify ref f).at ref = (sems.at ref).map f := by
  simp only [Sems.at, values_modify, List.find?_map]
  have same : (fun x : Sem => decide (x.ref = ref)) ∘ (fun x => if x.ref = ref then f x else x) =
      fun x => decide (x.ref = ref) := by
    funext x
    by_cases here : x.ref = ref <;> simp [here, kept]
  rw [same]
  cases found : (values sems.semQueue).find? (fun x => decide (x.ref = ref)) with
  | none => rfl
  | some x =>
    have here : x.ref = ref := by simpa using List.find?_some found
    simp [here]

theorem at_ref {sems : Sems} (found : sems.at ref = some sem) : sem ∈ values sems.semQueue ∧ sem.ref = ref :=
  ⟨List.mem_of_find?_eq_some found, by simpa using List.find?_some found⟩

theorem meets_readSem_at {ref : Ref} {post : Sem → State → Prop} :
    Meets bad (readSem ref) post s ↔ Meets bad (lookup (s.sems.at ref)) post s := by
  simp [readSem, Sems.at]

theorem acquireSem_any (ref : Ref) :
    Meets (fun _ => True) (acquireSem ref) (fun _ s' => ∃ block, s.sems.at ref = some block ∧
    block.lock = 0 ∧ s' = { s with sems := s.sems.modify ref fun x => { x with lock := 1 } }) s := by
  simp only [acquireSem, meets_bind, meets_readSem_at]
  cases found : s.sems.at ref with
  | none => trivial
  | some block =>
    simp only [meets_lookup_some, acquire]
    by_cases open' : block.lock = 0
    · simp only [open', if_true, meets_pure, meets_modifySem]
      exact ⟨block, rfl, open', trivial⟩
    · simp only [open', if_false, meets_throw]

/-- The semaphore that `findSem` finds, if the iterator is granted. -/
def State.findable (s : State) (id : Int) : Option Sem := if s.heap.Grants 0 then s.sems.find id else none

theorem findable_some {id : Int} (found : s.findable id = some sem) : s.heap.Grants 0 ∧ s.sems.find id = some sem := by
  unfold State.findable at found
  split at found
  · exact ⟨by assumption, found⟩
  · cases found

theorem findSem_asks (id : Int) : Meets bad (findSem id) (fun found s' => found = s.findable id ∧
    ∃ h, s.heap.Asked 1 h ∧ s' = s.withHeap h) s := by
  simp only [findSem, meets_bind, meets_get]
  exact find_asks _

/-- How `semWait` begins: it misses the semaphore, takes a unit, is refused the block for
its pid and leaves the lock taken, or queues its caller. -/
inductive Tries (s : State) (id : Int) : Int ⊕ Int → State → Prop
  | missed (missing : s.findable id = none) (asked : s.heap.Asked 1 h) : Tries s id (.inl (-1)) (s.withHeap h)
  | took (found : s.findable id = some sem) (block : s.sems.at sem.ref = some b) (unlocked : b.lock = 0)
    (positive : 0 < b.value) (asked : s.heap.Asked 1 h) :
    Tries s id (.inl 0) { s with
      heap := h
      sems := s.sems.modify sem.ref fun x => { x with value := x.value - 1, lock := 0 }
      history := .took id s.procs.callerPid :: s.history }
  | refused (found : s.findable id = some sem) (block : s.sems.at sem.ref = some b) (unlocked : b.lock = 0)
    (empty : b.value ≤ 0) (short : ¬s.heap.Grants 1) (asked : s.heap.Asked 2 h) :
    Tries s id (.inl (-1)) { s with heap := h, sems := s.sems.modify sem.ref fun x => { x with lock := 1 } }
  | queued (found : s.findable id = some sem) (block : s.sems.at sem.ref = some b) (unlocked : b.lock = 0)
    (empty : b.value ≤ 0) (granted : s.heap.Grants 1) (asked : s.heap.Asked 3 h) (blockedPids : Queue Caller)
    (waiting : List (Ref × Int)) :
    Tries s id (.inr s.procs.callerPid) { s with
      heap := h
      sems := s.sems.modify sem.ref fun x => { x with blockedPids, lock := 0 }
      procs := { s.procs with waiting }
      history := .arrived id s.procs.callerPid :: s.history }

theorem getpid_any : Meets (fun _ => True) getpid (fun pid s' => pid = s.procs.callerPid ∧ s' = s) s := by
  simp only [getpid, meets_bind, meets_get, Procs.callerPid]
  cases s.procs.currentProcessPCB with
  | none => exact ⟨rfl, rfl⟩
  | some c =>
    simp only [meets_bind, meets_readPcb, Option.bind_some]
    cases block : s.procs.pcbs c with
    | none => trivial
    | some p => exact ⟨rfl, rfl⟩

theorem beginWait_any (sem : Int) : Meets bad (beginWait sem) (fun _ s' =>
    ∃ waiting, s' = { s with procs := { s.procs with waiting } }) s := by
  simp only [beginWait, meets_modifyProcs]
  split
  · exact ⟨s.procs.waiting, rfl⟩
  · exact ⟨_, rfl⟩

theorem endWait_any (sem : Int) : Meets bad (endWait sem) (fun _ s' =>
    ∃ waiting granted, s' = { s with procs := { s.procs with waiting, granted } }) s := by
  simp only [endWait, meets_modifyProcs]
  split
  · exact ⟨s.procs.waiting, s.procs.granted, rfl⟩
  · exact ⟨_, _, rfl⟩

theorem semWaitEnter_any (id : Int) : Meets (fun _ => True) (semWaitEnter id) (Tries s id) s := by
  unfold semWaitEnter
  rw [meets_bind]
  refine (findSem_asks id).mono ?_
  rintro found s' ⟨rfl, h, asked, rfl⟩
  cases found : s.findable id with
  | none => exact .missed found asked
  | some sem =>
    simp only [meets_bind]
    refine (acquireSem_any sem.ref).mono ?_
    rintro _ s' ⟨b, block, unlocked, rfl⟩
    have locked : (s.sems.modify sem.ref fun x => { x with lock := 1 }).at sem.ref = some { b with lock := 1 } := by
      rw [at_modify _ _ fun _ => by rfl]
      exact congrArg (Option.map _) block
    simp only [meets_readSem_at, withHeap_sems, locked, meets_lookup_some, meets_ite]
    constructor
    · intro positive
      simp only [meets_bind, meets_modifySem, meets_get, meets_log, meets_pure]
      have released : ((s.sems.modify sem.ref fun x => { x with lock := 1 }).modify sem.ref
          fun x => { x with value := x.value - 1 }).modify sem.ref (fun x => { x with lock := 0 }) =
          s.sems.modify sem.ref fun x => { x with value := x.value - 1, lock := 0 } := by
        rw [modify_modify _ _ _ _ fun _ => by rfl, modify_modify _ _ _ _ fun _ => by rfl]
        rfl
      have took := Tries.took found block unlocked positive asked
      rw [← released] at took
      exact took
    · intro notPositive
      have empty : b.value ≤ 0 := Int.not_lt.mp notPositive
      simp only [meets_bind]
      have second : (s.withHeap h).heap.Grants 0 ↔ s.heap.Grants 1 := asked.later 0
      refine malloc_cases (fun granted h' asked' => ?_) fun refused h' asked' => ?_
      · simp only [meets_bind]
        refine getpid_any.mono ?_
        rintro pid s' ⟨rfl, rfl⟩
        simp only [meets_discard]
        cases sem.queueRef with
        | none => trivial
        | some queueRef =>
          simp only [meets_deref_some, meets_readSem_at, withHeap_sems, locked, meets_lookup_some]
          refine (enqueue_asks _).mono ?_
          rintro blockedPids s' ⟨-, h'', asked'', rfl⟩
          simp only [meets_modifySem, withHeap_sems]
          refine (beginWait_any id).mono ?_
          rintro _ s' ⟨waiting, rfl⟩
          simp only [meets_log, releaseSem, meets_modifySem, meets_pure]
          have released : ((s.sems.modify sem.ref fun x => { x with lock := 1 }).modify sem.ref
              fun x => { x with blockedPids }).modify sem.ref (fun x => { x with lock := 0 }) =
              s.sems.modify sem.ref fun x => { x with blockedPids, lock := 0 } := by
            rw [modify_modify _ _ _ _ fun _ => by rfl, modify_modify _ _ _ _ fun _ => by rfl]
            rfl
          have queued := Tries.queued found block unlocked empty (second.mp granted)
            ((asked.trans asked').trans asked'') blockedPids waiting
          rw [← released] at queued
          exact queued
      · exact .refused found block unlocked empty (fun yes => refused (second.mpr yes)) (asked.trans asked')

/-- What `semPost` does: it misses the semaphore, or it takes pids off the queue until one of
them is resumed, and raises the value if none is. -/
inductive Gives (s : State) (id : Int) : State → Prop
  | missed (missing : s.findable id = none) (asked : s.heap.Asked 1 h) : Gives s id (s.withHeap h)
  | handed (found : s.findable id = some sem) (block : s.sems.at sem.ref = some b) (unlocked : b.lock = 0)
    (waiters : sem.blockedPids ≠ []) (grown : s.heap.Grown h) (roused : s.procs.Roused procs)
    (left : Sem → Queue Caller) (history : List Event) : Gives s id { s with
      heap := h, sems := s.sems.modify sem.ref fun x => { x with blockedPids := left x, lock := 0 }, procs, history }
  | raised (found : s.findable id = some sem) (block : s.sems.at sem.ref = some b) (unlocked : b.lock = 0)
    (grown : s.heap.Grown h) (asked : sem.blockedPids = [] → s.heap.Asked 1 h) (roused : s.procs.Roused procs)
    (left : Sem → Queue Caller) (drained : left b = b.blockedPids.drop sem.blockedPids.length)
    (history : List Event) : Gives s id { s with
      heap := h
      sems := s.sems.modify sem.ref fun x => { x with blockedPids := left x, value := x.value + 1, lock := 0 }
      procs, history }

theorem semPostLoop_any (ref : Ref) (id : Int) (rounds : Nat) (block : s.sems.at ref = some b) :
    Meets (fun _ => True) (semPostLoop ref id rounds) (fun resumed s' => ∃ h procs history, ∃ left : Sem → Queue Caller,
      s.heap.Grown h ∧ (rounds = 0 → h = s.heap ∧ resumed = false) ∧ s.procs.Roused procs ∧
      (resumed = false → left b = b.blockedPids.drop rounds) ∧
      s' = { s with heap := h, sems := s.sems.modify ref fun x => { x with blockedPids := left x },
                    procs, history }) s := by
  induction rounds generalizing s b with
  | zero =>
    have same : (s.sems.modify ref fun x => { x with blockedPids := x.blockedPids }) = s.sems := by
      simp [Sems.modify]
    refine ⟨s.heap, s.procs, s.history, Sem.blockedPids, .refl _, fun _ => ⟨rfl, rfl⟩, .refl _, fun _ => rfl, ?_⟩
    rw [same]
  | succ rounds ih =>
    simp only [semPostLoop, meets_bind, meets_readSem_at, block, meets_lookup_some]
    cases queue : b.blockedPids with
    | nil => simp [dequeue, deref]
    | cons node rest =>
      simp only [dequeue, meets_bind, meets_free, meets_pure, meets_modifySem, meets_deref_some, meets_get,
        withHeap_sems]
      refine (resumeTask_any node.value.pid).mono ?_
      rintro pid s' ⟨h, procs, grown, roused, rfl⟩
      have larger : s.heap.Grown (h.release node.value.ref) :=
        (Heap.grown_release _ _).trans (grown.trans (Heap.grown_release _ _))
      simp only [meets_ite]
      constructor
      · intro resumed
        simp only [meets_bind, meets_modifyProcs, meets_log, meets_pure]
        have noted : s.procs.Roused (procs.grant id node.value.pid) := .also roused _ _
        exact ⟨_, _, _, fun _ => rest, larger, by simp, noted, by simp, rfl⟩
      · intro failed
        simp only [meets_bind, meets_log]
        have now : (s.sems.modify ref fun x => { x with blockedPids := rest }).at ref =
            some { b with blockedPids := rest } := by
          rw [at_modify _ _ fun _ => by rfl]
          exact congrArg (Option.map _) block
        refine (ih (by exact now)).mono ?_
        rintro resumed s' ⟨h', procs', history, left, grown', -, roused', drained, rfl⟩
        refine ⟨h', procs', history, fun x => left { x with blockedPids := rest }, larger.trans grown', by simp,
          roused.trans roused', drained, ?_⟩
        have twice := modify_modify s.sems ref (fun x => { x with blockedPids := rest })
          (fun x => { x with blockedPids := left x }) fun _ => rfl
        exact congrArg (fun sems => ({ s with heap := h', sems, procs := procs', history } : State)) twice

theorem semPost_any (id : Int) : Meets (fun _ => True) (semPost id) (fun _ s' => Gives s id s') s := by
  unfold semPost
  rw [meets_bind]
  refine (findSem_asks id).mono ?_
  rintro found s' ⟨rfl, h, asked, rfl⟩
  cases found : s.findable id with
  | none => exact .missed found asked
  | some sem =>
    simp only [meets_bind]
    refine (acquireSem_any sem.ref).mono ?_
    rintro _ s' ⟨b, block, unlocked, rfl⟩
    simp only [meets_discard]
    cases sem.queueRef with
    | none => trivial
    | some queueRef =>
      simp only [meets_deref_some]
      have locked : (s.sems.modify sem.ref fun x => { x with lock := 1 }).at sem.ref = some { b with lock := 1 } := by
        rw [at_modify _ _ fun _ => by rfl]
        exact congrArg (Option.map _) block
      refine (semPostLoop_any sem.ref id sem.blockedPids.length (by exact locked)).mono ?_
      rintro resumed s' ⟨h', procs, history, left, grown, stays, roused, drained, rfl⟩
      have larger := asked.grown.trans grown
      cases resumed with
      | true =>
        simp only [Bool.not_true, Bool.false_eq_true, if_false, releaseSem, meets_bind, meets_modifySem, meets_pure]
        have waiters : sem.blockedPids ≠ [] := by
          intro none
          cases (stays (by rw [none]; rfl)).2
        have released : ((s.sems.modify sem.ref fun x => { x with lock := 1 }).modify sem.ref
            fun x => { x with blockedPids := left x }).modify sem.ref (fun x => { x with lock := 0 }) =
            s.sems.modify sem.ref fun x => { x with blockedPids := left { x with lock := 1 }, lock := 0 } := by
          rw [modify_modify _ _ _ _ fun _ => by rfl, modify_modify _ _ _ _ fun _ => by rfl]
          rfl
        have handed := Gives.handed found block unlocked waiters larger roused
          (fun x => left { x with lock := 1 }) history
        rw [← released] at handed
        exact handed
      | false =>
        simp only [Bool.not_false, if_true, meets_bind, meets_get, releaseSem, meets_modifySem, meets_log, meets_pure]
        have here : (((s.withHeap h).sems.modify sem.ref fun x => { x with lock := 1 }).modify sem.ref
            fun x => { x with blockedPids := left x }).at sem.ref = some _ :=
          (at_modify _ _ fun _ => by rfl).trans (congrArg (Option.map _) locked)
        simp only [meets_readSem_at, here, meets_lookup_some]
        refine meets_increment ?_
        have released : (((s.sems.modify sem.ref fun x => { x with lock := 1 }).modify sem.ref
            fun x => { x with blockedPids := left x }).modify sem.ref fun x =>
            { x with value := x.value + 1 }).modify sem.ref
            (fun x => { x with lock := 0 }) = s.sems.modify sem.ref fun x =>
              { x with blockedPids := left { x with lock := 1 }, value := x.value + 1, lock := 0 } := by
          rw [modify_modify _ _ _ _ fun _ => by rfl, modify_modify _ _ _ _ fun _ => by rfl,
            modify_modify _ _ _ _ fun _ => by rfl]
          rfl
        have raised := Gives.raised found block unlocked
          larger (fun none => ?_) roused (fun x => left { x with lock := 1 }) (drained rfl)
          (.raised id procs.callerPid procs :: history)
        · rw [← released] at raised
          exact raised
        · rw [(stays (by rw [none]; rfl)).1]
          exact asked

theorem Gives.roused {id : Int} (gives : Gives s id s') : s.procs.Roused s'.procs := by
  cases gives with
  | missed => exact .refl _
  | handed _ _ _ _ _ roused => exact roused
  | raised _ _ _ _ _ roused => exact roused

/-! ## Creating and closing semaphores -/

/-- The heap after one request. -/
def Heap.ask (h : Heap) : Heap :=
  { h with requests := h.requests + 1, live := if h.Grants 0 then h.requests :: h.live else h.live }

theorem Heap.asked_ask (h : Heap) : h.Asked 1 h.ask := ⟨rfl, rfl, rfl⟩

theorem meets_malloc_any {post : Option Ref → State → Prop} :
    Meets bad malloc post s ↔
    post (if s.heap.Grants 0 then some s.heap.requests else none) (s.withHeap s.heap.ask) := by
  simp only [malloc, meets_bind, meets_get]
  by_cases granted : s.heap.Grants 0
  · have yes : s.heap.grants s.heap.requests = true := granted
    simp only [yes, if_true, meets_bind, meets_modify, meets_pure, granted, Heap.ask]
    rfl
  · have no : ¬s.heap.grants s.heap.requests = true := granted
    simp only [no, Bool.false_eq_true, if_false, meets_bind, meets_modify, meets_pure, granted, Heap.ask]
    rfl

/-- The semaphore that `createSem` makes. -/
def State.newSem (s : State) (initialValue : Int) (name : String) : Sem where
  ref := s.heap.requests
  queueRef := if s.heap.Grants 1 then some (s.heap.requests + 1) else none
  blockedPids := []
  attachedProcesses := 0
  id := s.sems.semId
  value := initialValue
  lock := 0
  name
  nameRef := s.heap.requests + 2

/-- The semaphores with it. Without memory for the node it is in no queue. -/
def State.withNewSem (s : State) (initialValue : Int) (name : String) : Sems where
  semId := s.sems.semId + 1
  semQueue := s.sems.semQueue ++ if s.heap.Grants 3 then [⟨s.heap.requests + 3, s.newSem initialValue name⟩] else []
  allSemsLock := s.sems.allSemsLock

/-- What `createSem` does. When it is refused the name, it keeps the queue of pids. -/
inductive Creates (s : State) (initialValue : Int) (name : String) : Option Sem → State → Prop
  | refused (short : ¬s.heap.Grants 0) : Creates s initialValue name none (s.withHeap s.heap.ask)
  | unnamed (granted : s.heap.Grants 0) (short : ¬s.heap.Grants 2) : Creates s initialValue name none
      { s with heap := s.heap.ask.ask.ask.release s.heap.requests, sems := { s.sems with semId := s.sems.semId + 1 } }
  | made (granted : s.heap.Grants 0) (named : s.heap.Grants 2) :
    Creates s initialValue name (some (s.newSem initialValue name))
      { s with
        heap := s.heap.ask.ask.ask.ask
        sems := s.withNewSem initialValue name
        history := .created s.sems.semId initialValue :: s.history }

/-- Creating a semaphore counts no further than an `int` goes. -/
def State.Counts (s : State) (initialValue : Int) : Prop :=
  (INT_MIN ≤ initialValue ∧ initialValue ≤ INT_MAX) ∧ (s.heap.Grants 0 → s.sems.semId < INT_MAX)

instance (s : State) (initialValue : Int) : Decidable (s.Counts initialValue) := inferInstanceAs (Decidable (_ ∧ _))

theorem createSem_within {initialValue : Int} (within : bad .overflow ∨ s.Counts initialValue) (name : String) :
    Meets bad (createSem initialValue name) (fun created s' => Creates s initialValue name created s' ∧
      s.Counts initialValue) s := by
  have second : s.heap.ask.Grants 0 ↔ s.heap.Grants 1 := s.heap.asked_ask.later 0
  have third : s.heap.ask.ask.Grants 0 ↔ s.heap.Grants 2 := (s.heap.asked_ask.trans s.heap.ask.asked_ask).later 0
  have fourth : s.heap.ask.ask.ask.Grants 0 ↔ s.heap.Grants 3 :=
    ((s.heap.asked_ask.trans s.heap.ask.asked_ask).trans s.heap.ask.ask.asked_ask).later 0
  unfold createSem
  rw [meets_bind]
  refine meets_int_within (within.imp_right And.left) fun isInt => ?_
  simp only [meets_bind, meets_malloc_any]
  by_cases granted : s.heap.Grants 0
  · simp only [if_pos granted, getNextSemaphoreId, meets_bind, meets_get]
    refine meets_increment_within (within.imp_right fun counts => counts.2 granted) fun next => ?_
    have counts : s.Counts initialValue := ⟨isInt, fun _ => next⟩
    simp only [meets_modifySems, meets_pure, meets_malloc_any, withHeap_heap, third]
    by_cases named : s.heap.Grants 2
    · have made : Creates s initialValue name _ _ := .made granted named
      simp only [if_pos named, meets_bind, enqueue, meets_malloc_any, meets_get, withHeap_heap, fourth, second]
      simp only [State.withNewSem, State.newSem] at made
      by_cases listed : s.heap.Grants 3
      · rw [if_pos listed] at made
        simp only [if_pos listed, meets_pure, meets_modifySems, meets_log]
        exact ⟨made, counts⟩
      · rw [if_neg listed, List.append_nil] at made
        simp only [if_neg listed, meets_pure, meets_modifySems, meets_log]
        exact ⟨made, counts⟩
    · simp only [if_neg named, meets_bind, meets_free, meets_pure]
      exact ⟨.unnamed granted named, counts⟩
  · simp only [if_neg granted, meets_pure]
    exact ⟨.refused granted, isInt, fun given => absurd given granted⟩

theorem createSem_any [Lenient bad] (initialValue : Int) (name : String) :
    Meets bad (createSem initialValue name) (Creates s initialValue name) s :=
  (createSem_within (.inl (Lenient.undefined .overflow rfl)) name).mono fun _ _ => And.left

theorem meets_acquireAllSems {post : Unit → State → Prop} (isOpen : s.sems.allSemsLock = 0) :
    Meets bad acquireAllSems post s ↔ post () { s with sems := { s.sems with allSemsLock := 1 } } := by
  simp [acquireAllSems, acquire, isOpen]

/-- Nobody could release the lock. -/
theorem acquireAllSems_spins {post : Unit → State → Prop} (taken : s.sems.allSemsLock ≠ 0) :
    Meets (fun _ => True) acquireAllSems post s := by
  simp [acquireAllSems, acquire, taken]

theorem acquireAllSems_any : Meets (fun _ => True) acquireAllSems (fun _ s' => s.sems.allSemsLock = 0 ∧
    s' = { s with sems := { s.sems with allSemsLock := 1 } }) s := by
  by_cases isOpen : s.sems.allSemsLock = 0
  · exact (meets_acquireAllSems isOpen).mpr ⟨isOpen, rfl⟩
  · exact acquireAllSems_spins isOpen

/-- One more process, in the 16 bits there are. -/
def Sem.attach (sem : Sem) : Sem := { sem with attachedProcesses := (sem.attachedProcesses + 1) % 2 ^ 16 }
def Sem.detach (sem : Sem) : Sem := { sem with attachedProcesses := (sem.attachedProcesses + 2 ^ 16 - 1) % 2 ^ 16 }

@[simp] theorem Sem.attach_ref (sem : Sem) : sem.attach.ref = sem.ref := rfl
@[simp] theorem Sem.attach_id (sem : Sem) : sem.attach.id = sem.id := rfl
@[simp] theorem Sem.attach_name (sem : Sem) : sem.attach.name = sem.name := rfl
@[simp] theorem Sem.attach_lock (sem : Sem) : sem.attach.lock = sem.lock := rfl
@[simp] theorem Sem.detach_ref (sem : Sem) : sem.detach.ref = sem.ref := by unfold Sem.detach; rfl
@[simp] theorem Sem.detach_id (sem : Sem) : sem.detach.id = sem.id := by unfold Sem.detach; rfl
@[simp] theorem Sem.detach_name (sem : Sem) : sem.detach.name = sem.name := by unfold Sem.detach; rfl
@[simp] theorem Sem.detach_lock (sem : Sem) : sem.detach.lock = sem.lock := by unfold Sem.detach; rfl

/-- What `semInit` does and returns. -/
inductive Inits (s : State) (initialValue : Int) : Int → State → Prop
  | refused (short : ¬s.heap.Grants 0) : Inits s initialValue (-1) (s.withHeap s.heap.ask)
  | unnamed (granted : s.heap.Grants 0) (short : ¬s.heap.Grants 2) : Inits s initialValue (-1)
      { s with heap := s.heap.ask.ask.ask.release s.heap.requests, sems := { s.sems with semId := s.sems.semId + 1 } }
  | made (granted : s.heap.Grants 0) (named : s.heap.Grants 2) : Inits s initialValue s.sems.semId
      { s with
        heap := s.heap.ask.ask.ask.ask
        sems := (s.withNewSem initialValue "").modify s.heap.requests Sem.attach
        history := .created s.sems.semId initialValue :: s.history }

theorem semInit_within {initialValue : Int} (within : bad .overflow ∨ s.Counts initialValue)
    (isOpen : s.sems.allSemsLock = 0) :
    Meets bad (semInit initialValue) (fun a s' => Inits s initialValue a s' ∧ s.Counts initialValue) s := by
  unfold semInit
  rw [meets_bind, meets_acquireAllSems isOpen]
  obtain ⟨heap, ⟨semId, semQueue, allSemsLock⟩, pipes, procs, history⟩ := s
  obtain rfl : allSemsLock = 0 := isOpen
  rw [meets_bind]
  refine (createSem_within (by exact within) "").mono ?_
  rintro created s' ⟨creates, counts⟩
  cases creates with
  | refused short => exact ⟨.refused short, counts⟩
  | unnamed granted short => exact ⟨.unnamed granted short, counts⟩
  | made granted named => exact ⟨.made granted named, counts⟩

theorem semInit_open [Lenient bad] (isOpen : s.sems.allSemsLock = 0) (initialValue : Int) :
    Meets bad (semInit initialValue) (Inits s initialValue) s :=
  (semInit_within (.inl (Lenient.undefined .overflow rfl)) isOpen).mono fun _ _ => And.left

theorem semInit_any (initialValue : Int) : Meets (fun _ => True) (semInit initialValue)
    (fun a s' => s.sems.allSemsLock = 0 ∧ Inits s initialValue a s') s := by
  by_cases isOpen : s.sems.allSemsLock = 0
  · exact (semInit_open isOpen initialValue).mono fun _ _ inits => ⟨isOpen, inits⟩
  · unfold semInit
    rw [meets_bind]
    exact acquireAllSems_spins isOpen

/-- What `semClose` does and returns. -/
inductive Closes (s : State) (id : Int) : Int → State → Prop
  | missed (missing : s.findable id = none) (asked : s.heap.Asked 1 h) : Closes s id (-1) (s.withHeap h)
  | freed (found : s.findable id = some sem) (last : sem.name.length = 0 ∨ sem.attachedProcesses = 1)
    (asked : s.heap.Asked 1 h) : Closes s id 0 { s with heap := h, sems := s.sems.close id }
  | detached (found : s.findable id = some sem) (more : ¬(sem.name.length = 0 ∨ sem.attachedProcesses = 1))
    (asked : s.heap.Asked 1 h) : Closes s id 0 { s with heap := h, sems := s.sems.modify sem.ref Sem.detach }

theorem semClose_open (isOpen : s.sems.allSemsLock = 0) (id : Int) : Meets bad (semClose id) (Closes s id) s := by
  unfold semClose
  rw [meets_bind]
  refine (findSem_asks id).mono ?_
  rintro found s' ⟨rfl, h, asked, rfl⟩
  cases found : s.findable id with
  | none => exact .missed found asked
  | some sem =>
    rw [meets_bind, meets_acquireAllSems (by exact isOpen)]
    obtain ⟨heap, ⟨semId, semQueue, allSemsLock⟩, pipes, procs, history⟩ := s
    obtain rfl : allSemsLock = 0 := isOpen
    simp only [meets_bind, meets_ite]
    constructor
    · intro last
      simp only [meets_get]
      refine (takeElement_asks _).mono ?_
      rintro ⟨semQueue', closed⟩ s' ⟨rfl, taken, h', asked', rfl⟩
      have there : closed = some sem := taken.trans (findable_some found).2
      simp only [there, meets_modifySems, meets_deref_some]
      refine (destroySem_asks sem).mono ?_
      rintro _ s' ⟨h'', asked'', rfl⟩
      exact .freed found last ((asked.trans asked').trans asked'')
    · intro more
      exact .detached found more asked

theorem semClose_any (id : Int) : Meets (fun _ => True) (semClose id)
    (fun a s' => Closes s id a s' ∧ (a = 0 → s.sems.allSemsLock = 0)) s := by
  by_cases isOpen : s.sems.allSemsLock = 0
  · exact (semClose_open isOpen id).mono fun _ _ closes => ⟨closes, fun _ => isOpen⟩
  · unfold semClose
    rw [meets_bind]
    refine (findSem_asks id).mono ?_
    rintro found s' ⟨rfl, h, asked, rfl⟩
    cases found : s.findable id with
    | none => exact ⟨.missed found asked, by nofun⟩
    | some sem =>
      rw [meets_bind]
      exact acquireAllSems_spins isOpen

/-! ## Pipes -/

/-- The last pipe that was looked for is the one with the id. -/
def State.Cached (s : State) (pipeId : Int) : Prop := s.pipes.cachedPipe.any (s.pipes.hasId pipeId) = true

instance (s : State) (pipeId : Int) : Decidable (s.Cached pipeId) := inferInstanceAs (Decidable (_ = true))

/-- The pipe that `getPipe` finds. -/
def State.pipeOf (s : State) (pipeId : Int) : Option Ref :=
  if s.Cached pipeId then s.pipes.cachedPipe
  else if s.heap.Grants 0 then (values s.pipes.pipeQueue).find? (s.pipes.hasId pipeId) else none

/-- How many requests `getPipe` makes. -/
def State.pipeRequests (s : State) (pipeId : Int) : Nat := if s.Cached pipeId then 0 else 1

theorem getPipe_asks (pipeId : Int) : Meets bad (getPipe pipeId) (fun pipe s' => pipe = s.pipeOf pipeId ∧
    ∃ h, s.heap.Asked (s.pipeRequests pipeId) h ∧
      s' = { s with heap := h, pipes := { s.pipes with cachedPipe := s.pipeOf pipeId } }) s := by
  simp only [getPipe, meets_bind, meets_get]
  by_cases cached : s.Cached pipeId
  · have yes : s.pipes.cachedPipe.any (s.pipes.hasId pipeId) = true := cached
    simp only [yes, if_true, meets_pure, State.pipeOf, State.pipeRequests, if_pos cached]
    exact ⟨trivial, s.heap, .refl _, rfl⟩
  · have no : ¬s.pipes.cachedPipe.any (s.pipes.hasId pipeId) = true := cached
    simp only [no, Bool.false_eq_true, if_false, meets_bind, State.pipeOf, State.pipeRequests, if_neg cached]
    refine (find_asks _).mono ?_
    rintro pipe s' ⟨rfl, h, asked, rfl⟩
    exact ⟨rfl, h, asked, rfl⟩

end QuesOs.Kernel
