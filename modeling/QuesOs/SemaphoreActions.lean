import QuesOs.KernelActions

/-! Posting to a semaphore and waiting for it. `semPost` is told by the pid it
hands its unit to, `semWait` by whether it found a unit or queued its caller;
`blockTask` and the end of the wait complete it. -/
namespace QuesOs.Kernel
open Resumption

variable {bad : Fault → Prop} {s : State}

/-! ## Posting -/

/-- The pids that wait in a semaphore, first to last. -/
def Sem.pids (sem : Sem) : List Int := (values sem.blockedPids).map Caller.pid

/-- What `semPost` did to a semaphore it found: the first queued pid that could
be resumed was, and those before it are forgotten; or none could be, and the
value went up. -/
inductive Posted (s : State) (sem : Sem) : State → Prop
  | handed (queued : sem.pids = skipped ++ pid :: rest) (inVain : ∀ pid ∈ skipped, s.procs.moved pid .ready = none)
    (resumed : s.procs.moved pid .ready = some procs) (left : (values blockedPids).map Caller.pid = rest)
    (grown : s.heap.Grown h) :
    Posted s sem { s with
      heap := h
      sems := s.sems.modify sem.ref fun x => { x with blockedPids, lock := 0 }
      procs := procs.grant sem.id pid
      history :=
      .handed sem.id s.procs.callerPid pid s.procs :: ((skipped.map (.skipped sem.id)).reverse ++ s.history) }
  | raised (inVain : ∀ pid ∈ sem.pids, s.procs.moved pid .ready = none) (grown : s.heap.Grown h) :
    Posted s sem { s with
      heap := h
      sems := s.sems.modify sem.ref fun x => { x with blockedPids := [], value := x.value + 1, lock := 0 }
      history := .raised sem.id s.procs.callerPid s.procs ::
        ((sem.pids.map (.skipped sem.id)).reverse ++ s.history) }

/-- What `semPost` did; a post to a semaphore that is not there does nothing. -/
def Posts (s : State) (id : Int) (s' : State) : Prop :=
  (s.sems.find id = none ∧ ∃ h, s.heap.Grown h ∧ s' = s.withHeap h) ∨ ∃ sem, s.sems.find id = some sem ∧ Posted s sem s'

/-- The state in the middle of `semPost`. -/
def State.posting (s : State) (sem : Sem) (h : Heap) (blockedPids : Queue Caller) (skipped : List Int) : State :=
  { s with
    heap := h
    sems := s.sems.modify sem.ref fun x => { x with blockedPids, lock := 1 }
    history := (skipped.map (.skipped sem.id)).reverse ++ s.history }

theorem posting_skip (s : State) (sem : Sem) (h : Heap) (queue : Queue Caller) (passed : List Int) (pid : Int) :
    s.posting sem h queue (passed ++ [pid]) = { s.posting sem h queue passed with
      history := .skipped sem.id pid :: (s.posting sem h queue passed).history } := by
  simp [State.posting]

theorem semPostLoop_spec (grants : s.Grants) (proper : s.sems.Proper n) (attended : s.procs.Attended current p)
    (member : sem ∈ values s.sems.semQueue) (queue : Queue Caller) (grown : s.heap.Grown h) (passed : List Int) :
    Meets bad (semPostLoop sem.ref sem.id queue.length) (fun resumed s' =>
      ∃ h', s.heap.Grown h' ∧ ((resumed = true ∧ ∃ skipped pid rest left procs,
          (values queue).map Caller.pid = skipped ++ pid :: rest ∧
          (∀ pid ∈ skipped, s.procs.moved pid .ready = none) ∧ s.procs.moved pid .ready = some procs ∧
          (values left).map Caller.pid = rest ∧
          s' = { s.posting sem h' left (passed ++ skipped) with
            procs := procs.grant sem.id pid
            history := .handed sem.id s.procs.callerPid pid s.procs ::
              (((passed ++ skipped).map (.skipped sem.id)).reverse ++ s.history) }) ∨
        (resumed = false ∧ (∀ pid ∈ (values queue).map Caller.pid, s.procs.moved pid .ready = none) ∧
          s' = s.posting sem h' [] (passed ++ (values queue).map Caller.pid))))
      (s.posting sem h queue passed) := by
  induction queue generalizing h passed with
  | nil => exact ⟨h, grown, .inr ⟨rfl, by simp [values], by simp [values]⟩⟩
  | cons node queue ih =>
    have found := find_ref_modify proper member (f := fun x => { x with blockedPids := node :: queue, lock := 1 })
      fun _ => rfl
    simp only [semPostLoop, List.length_cons, State.posting, meets_bind, meets_readSem, found, meets_lookup_some,
      dequeue, meets_free, meets_pure, meets_modifySem, withHeap_sems, meets_deref_some, meets_get]
    have twice : (s.sems.modify sem.ref fun x => { x with blockedPids := node :: queue, lock := 1 }).modify sem.ref
        (fun x => { x with blockedPids := queue }) = s.sems.modify sem.ref fun x =>
        { x with blockedPids := queue, lock := 1 } :=
      modify_modify _ _ _ _ fun _ => rfl
    rw [twice]
    refine (resumeTask_spec (by exact grants.grown (grown.trans (Heap.grown_release _ _)))
      (by exact attended) _).mono ?_
    rintro a s' ⟨rfl, h', grown', rfl⟩
    have larger : s.heap.Grown (h'.release node.value.ref) :=
      grown.trans ((Heap.grown_release _ _).trans (grown'.trans (Heap.grown_release _ _)))
    simp only [withHeap_procs]
    obtain moved | ⟨procs, moved⟩ := (s.procs.moved node.value.pid .ready).eq_none_or_eq_some
    · simp only [moved, Option.isSome_none, Bool.false_eq_true, if_false, ne_eq, not_true, meets_bind, meets_log]
      have rest := ih larger (passed ++ [node.value.pid])
      rw [posting_skip] at rest
      refine Meets.mono (by exact rest) ?_
      rintro resumed s' ⟨h'', grown'', ⟨yes, skipped, pid, rest, left, procs, split, inVain,
        handed, queued, rfl⟩ | ⟨no, inVain, rfl⟩⟩
      · refine ⟨h'', grown'', .inl ⟨yes, node.value.pid :: skipped, pid, rest, left, procs, ?_, ?_, handed, queued, ?_⟩⟩
        · simp only [values, List.map_cons, List.cons_append, List.cons.injEq, true_and] at split ⊢
          exact split
        · simp only [List.forall_mem_cons]
          exact ⟨moved, inVain⟩
        · simp [State.posting]
      · refine ⟨h'', grown'', .inr ⟨no, ?_, ?_⟩⟩
        · simp only [values, List.map_cons, List.forall_mem_cons] at inVain ⊢
          exact ⟨moved, inVain⟩
        · simp [values, State.posting]
    · obtain ⟨r, q, found, block, -, -, -⟩ := moved_eq_some.mp moved
      obtain ⟨-, q', block', same⟩ := target_some attended found
      have positive := attended.pids r q' block'
      have valid : node.value.pid ≠ -1 := by omega
      simp only [moved, Option.isSome_some, if_true, valid, ne_eq, not_false_eq_true,
        meets_bind, meets_log, meets_modifyProcs,
        meets_pure]
      exact ⟨_, larger, .inl ⟨trivial, [], node.value.pid, _, queue, procs, rfl, by simp, moved, rfl, by simp⟩⟩

/-- The semaphore with the id can be raised, if there is one, or the overflow may end the run. -/
def Raises (bad : Fault → Prop) (sems : Sems) (id : Int) : Prop :=
  bad .overflow ∨ ∀ sem, sems.find id = some sem → sem.value < INT_MAX

theorem Raises.lenient [Lenient bad] {sems : Sems} {id : Int} : Raises bad sems id :=
  .inl (Lenient.undefined .overflow rfl)

theorem Spare.raises {sems : Sems} (spare : Spare bad 1 sems) (id : Int) : Raises bad sems id :=
  spare.imp_right fun room sem found => room sem (find_some found).1

theorem semPost_within {id : Int} (raises : Raises bad s.sems id) (grants : s.Grants) (proper : s.sems.Proper n)
    (attended : s.procs.Attended current p) : Meets bad (semPost id) (fun _ => Posts s id) s := by
  unfold semPost
  rw [meets_bind]
  refine (findSem_spec grants id).mono ?_
  rintro found s' ⟨rfl, h, grown, rfl⟩
  obtain none | ⟨sem, found⟩ := (s.sems.find id).eq_none_or_eq_some
  · rw [none]
    exact .inl ⟨none, h, grown, rfl⟩
  · obtain ⟨member, rfl⟩ := find_some found
    obtain ⟨queueRef, queued⟩ := Option.isSome_iff_exists.mp (proper.plain sem member).2.1
    simp only [found]
    rw [meets_bind, meets_acquireSem (by exact proper) (by exact member)]
    simp only [queued, meets_bind, meets_discard, meets_deref_some]
    have entered : s.posting sem h sem.blockedPids [] =
        { s.withHeap h with sems := s.sems.modify sem.ref fun x => { x with lock := 1 } } := by
      have same : (s.sems.modify sem.ref fun x => { x with blockedPids := sem.blockedPids, lock := 1 }) =
          s.sems.modify sem.ref fun x => { x with lock := 1 } :=
        modify_congr fun x listed here => by rw [List.inj_on_of_nodup_map proper.refs listed member here]
      unfold State.posting
      rw [same]
      rfl
    change Meets bad _ _ { s.withHeap h with sems := s.sems.modify sem.ref fun x => { x with lock := 1 } }
    rw [← entered]
    refine (semPostLoop_spec grants proper attended member sem.blockedPids grown []).mono ?_
    rintro resumed s' ⟨h', grown', ⟨rfl, skipped, pid, rest, left, procs, split, inVain,
      handed, queued, rfl⟩ | ⟨rfl, inVain, rfl⟩⟩
    · have released : (s.sems.modify sem.ref fun x => { x with blockedPids := left, lock := 1 }).modify sem.ref
          (fun x => { x with lock := 0 }) = s.sems.modify sem.ref fun x => { x with blockedPids := left, lock := 0 } :=
        modify_modify _ _ _ _ fun _ => rfl
      have post := Posted.handed (s := s) split inVain handed queued grown'
      rw [← released] at post
      exact .inr ⟨sem, found, post⟩
    · have released : ((s.sems.modify sem.ref fun x => { x with blockedPids := [], lock := 1 }).modify sem.ref
          (fun x => { x with value := x.value + 1 })).modify sem.ref (fun x => { x with lock := 0 }) =
          s.sems.modify sem.ref fun x => { x with blockedPids := [], value := x.value + 1, lock := 0 } := by
        rw [modify_modify _ _ _ _ fun _ => by rfl, modify_modify _ _ _ _ fun _ => by rfl]
        rfl
      have post := Posted.raised (s := s) inVain grown'
      rw [← released] at post
      have here := find_ref_modify proper member (f := fun x => { x with blockedPids := [], lock := 1 }) fun _ => rfl
      simp only [Bool.not_false, if_true, meets_bind, meets_get, meets_readSem, State.posting, here, meets_lookup_some]
      refine meets_increment_within (raises.imp_right fun room => room sem found) fun _ => ?_
      exact .inr ⟨sem, found, post⟩

theorem semPost_spec [Lenient bad] (grants : s.Grants) (proper : s.sems.Proper n)
    (attended : s.procs.Attended current p) (id : Int) :
    Meets bad (semPost id) (fun _ => Posts s id) s :=
  semPost_within .lenient grants proper attended

/-- A post takes of the room. -/
theorem Spare.posts {id : Int} (spare : Spare bad (n + 1) s.sems) (posts : Posts s id s') : Spare bad n s'.sems := by
  rcases posts with ⟨-, h, -, rfl⟩ | ⟨sem, -, posted⟩
  · exact spare.less (Nat.le_succ _)
  · cases posted with
    | handed => exact spare.modify sem.ref fun x => by dsimp only; omega
    | raised => exact spare.modify sem.ref fun x => Int.le_refl _

/-! ## Waiting -/

def Procs.beginWait (procs : Procs) (process : Ref) (sem : Int) : Procs :=
  { procs with waiting := (process, sem) :: procs.waiting }

def Procs.endWait (procs : Procs) (process : Ref) (sem : Int) : Procs :=
  { procs with
    waiting := procs.waiting.filter (· ≠ (process, sem))
    granted := procs.granted.filter (· ≠ (process, sem)) }

theorem meets_beginWait {sem : Int} {post : Unit → State → Prop} (running : s.procs.currentProcessPCB = some current) :
    Meets bad (beginWait sem) post s ↔ post () { s with procs := s.procs.beginWait current sem } := by
  simp [beginWait, Procs.beginWait, running]

theorem meets_endWait {sem : Int} {post : Unit → State → Prop} (running : s.procs.currentProcessPCB = some current) :
    Meets bad (endWait sem) post s ↔ post () { s with procs := s.procs.endWait current sem } := by
  simp [endWait, Procs.endWait, running]

/-- How `semWait` begins at a semaphore it found. -/
inductive Entered (s : State) (current : Ref) (p : Pcb) (sem : Sem) : Int ⊕ Int → State → Prop
  | took (positive : 0 < sem.value) (grown : s.heap.Grown h) :
    Entered s current p sem (.inl 0) { s with
      heap := h
      sems := s.sems.modify sem.ref fun x => { x with value := x.value - 1, lock := 0 }
      history := .took sem.id p.pid :: s.history }
  | queued (empty : sem.value ≤ 0) (grown : s.heap.Grown h)
    (last : (values blockedPids).map Caller.pid = sem.pids ++ [p.pid]) :
    Entered s current p sem (.inr p.pid) { s with
      heap := h
      sems := s.sems.modify sem.ref fun x => { x with blockedPids, lock := 0 }
      procs := s.procs.beginWait current sem.id
      history := .arrived sem.id p.pid :: s.history }

theorem semWaitEnter_spec (grants : s.Grants) (proper : s.sems.Proper n)
    (attended : s.procs.Attended current p) (id : Int) :
    Meets bad (semWaitEnter id) (fun result s' =>
      (s.sems.find id = none ∧ result = .inl (-1) ∧ ∃ h, s.heap.Grown h ∧ s' = s.withHeap h) ∨
      ∃ sem, s.sems.find id = some sem ∧ Entered s current p sem result s') s := by
  unfold semWaitEnter
  rw [meets_bind]
  refine (findSem_spec grants id).mono ?_
  rintro found s' ⟨rfl, h, grown, rfl⟩
  obtain none | ⟨sem, found⟩ := (s.sems.find id).eq_none_or_eq_some
  · rw [none]
    exact .inl ⟨rfl, rfl, h, grown, rfl⟩
  · obtain ⟨member, rfl⟩ := find_some found
    obtain ⟨queueRef, queued⟩ := Option.isSome_iff_exists.mp (proper.plain sem member).2.1
    have locked := find_ref_modify proper member (f := fun x => { x with lock := 1 }) fun _ => rfl
    simp only [found]
    rw [meets_bind, meets_acquireSem (by exact proper) (by exact member)]
    simp only [meets_bind, meets_readSem, withHeap_sems, locked, meets_lookup_some, meets_ite]
    constructor
    · intro positive
      simp only [meets_modifySem, meets_get, meets_log, meets_pure]
      have released : ((s.sems.modify sem.ref fun x => { x with lock := 1 }).modify sem.ref
          fun x => { x with value := x.value - 1 }).modify sem.ref (fun x => { x with lock := 0 }) =
          s.sems.modify sem.ref fun x => { x with value := x.value - 1, lock := 0 } := by
        rw [modify_modify _ _ _ _ fun _ => by rfl, modify_modify _ _ _ _ fun _ => by rfl]
        rfl
      have took : Entered s current p sem (.inl 0) _ := .took positive grown
      rw [← released, ← attended.callerPid] at took
      exact .inr ⟨sem, rfl, took⟩
    · intro empty
      rw [meets_malloc (by exact grants.grown grown)]
      simp only [queued, getpid, meets_bind, meets_get, withHeap_procs, attended.running, meets_readPcb, attended.block,
        meets_lookup_some, meets_discard, meets_deref_some, meets_pure, meets_readSem, withHeap_sems, locked]
      refine (enqueue_spec (by exact grants.grown (grown.trans (Heap.grown_allocate _))) _).mono ?_
      rintro blockedPids s' ⟨listed, h', grown', rfl⟩
      have released : ((s.sems.modify sem.ref fun x => { x with lock := 1 }).modify sem.ref
          fun x => { x with blockedPids }).modify sem.ref (fun x => { x with lock := 0 }) =
          s.sems.modify sem.ref fun x => { x with blockedPids, lock := 0 } := by
        rw [modify_modify _ _ _ _ fun _ => by rfl, modify_modify _ _ _ _ fun _ => by rfl]
        rfl
      have last : (values blockedPids).map Caller.pid = sem.pids ++ [p.pid] := by
        rw [listed, List.map_append]
        rfl
      have queued : Entered s current p sem (.inr p.pid) _ :=
        .queued (Int.not_lt.mp empty) (grown.trans ((Heap.grown_allocate _).trans grown')) last
      rw [← released] at queued
      rw [meets_modifySem, meets_beginWait (by exact attended.running), meets_log]
      exact .inr ⟨sem, rfl, queued⟩

end QuesOs.Kernel
