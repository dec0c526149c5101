import QuesOs.NamedSemaphores

/-! The spin locks of the semaphores. Every call that comes back leaves them
free, whatever requests for memory are refused, but one: a `semWait` that finds
no unit and is refused the block for its pid. -/
namespace QuesOs.Kernel
open Resumption

variable {s : State}

/-- Nobody holds a lock. -/
def Sems.Unlocked (sems : Sems) : Prop := sems.allSemsLock = 0 ∧ ∀ sem ∈ values sems.semQueue, sem.lock = 0

/-- The calls of `sem.h` that take a lock. -/
inductive SemCall where
  | semOpen (semaphoreName : String) (initialValue : Int)
  | semInit (initialValue : Int)
  | semClose (id : Int)
  | semWait (id : Int)
  | semPost (id : Int)

def SemCall.perform : SemCall → Task Int
  | .semOpen semaphoreName initialValue => Kernel.semOpen semaphoreName initialValue
  | .semInit initialValue => Kernel.semInit initialValue
  | .semClose id => Kernel.semClose id
  | .semWait id => Kernel.semWait id
  | .semPost id => Kernel.semPost id

/-- The call leaves the locks free where it blocks, and where it returns if they are free when it goes on. -/
def Task.Unlocks (task : Task Int) (s : State) : Prop :=
  task.Meets (fun _ => True) (fun _ s' => s'.sems.Unlocked) (fun _ s' => s'.sems.Unlocked)
    (fun _ _ s' => s'.sems.Unlocked) s s

/-- The semaphore has no unit left, and there is no memory to queue the caller. -/
def State.Forsakes (s : State) (id : Int) : Prop :=
  ∃ sem block, s.findable id = some sem ∧ s.sems.at sem.ref = some block ∧ block.value ≤ 0 ∧ ¬s.heap.Grants 1

namespace Sems.Unlocked
variable {sems : Sems}

theorem modify (unlocked : sems.Unlocked) (ref : Ref) {f : Sem → Sem} (kept : ∀ x, x.lock = 0 → (f x).lock = 0) :
    (sems.modify ref f).Unlocked := by
  refine ⟨unlocked.1, fun sem listed => ?_⟩
  rw [values_modify, List.mem_map] at listed
  obtain ⟨x, listed, rfl⟩ := listed
  split
  · exact kept x (unlocked.2 x listed)
  · exact unlocked.2 x listed

theorem withNewSem (unlocked : s.sems.Unlocked) (initialValue : Int) (name : String) :
    (s.withNewSem initialValue name).Unlocked := by
  refine ⟨unlocked.1, fun sem listed => ?_⟩
  simp only [State.withNewSem, values, List.map_append, List.mem_append] at listed
  rcases listed with old | new
  · exact unlocked.2 sem old
  · split at new
    · rw [List.mem_singleton.mp new]
      rfl
    · cases new

theorem close (unlocked : sems.Unlocked) (id : Int) : (sems.close id).Unlocked := by
  refine ⟨unlocked.1, fun sem listed => unlocked.2 sem ?_⟩
  rw [values_close] at listed
  exact List.mem_of_mem_eraseP listed

theorem creates (unlocked : s.sems.Unlocked) (creates : Creates s initialValue name none s') : s'.sems.Unlocked := by
  cases creates with
  | refused => exact unlocked
  | unnamed => exact unlocked

theorem opens (unlocked : s.sems.Unlocked) (opens : Opens s name initialValue a s') : s'.sems.Unlocked := by
  cases opens with
  | attached => exact unlocked.modify _ fun _ free => free
  | failed missing asked creates => exact Unlocked.creates (by exact unlocked) creates
  | made => exact (withNewSem (by exact unlocked) _ _).modify _ fun _ free => free

theorem inits (unlocked : s.sems.Unlocked) (inits : Inits s initialValue a s') : s'.sems.Unlocked := by
  cases inits with
  | refused => exact unlocked
  | unnamed => exact unlocked
  | made =>
    have more := unlocked.withNewSem initialValue ""
    exact more.modify _ fun _ free => free

theorem closes (unlocked : s.sems.Unlocked) {id : Int} (closes : Closes s id a s') : s'.sems.Unlocked := by
  cases closes with
  | missed => exact unlocked
  | freed => exact unlocked.close id
  | detached => exact unlocked.modify _ fun x free => (Sem.detach_lock x).trans free

theorem gives (unlocked : s.sems.Unlocked) {id : Int} (gives : Gives s id s') : s'.sems.Unlocked := by
  cases gives with
  | missed => exact unlocked
  | handed => exact unlocked.modify _ fun _ _ => rfl
  | raised => exact unlocked.modify _ fun _ _ => rfl

end Sems.Unlocked

theorem currentPcb_any : Meets (fun _ => True) currentPcb (fun _ s' => s' = s) s := by
  simp only [currentPcb, meets_bind, meets_get]
  cases s.procs.currentProcessPCB with
  | none => trivial
  | some current =>
    simp only [meets_deref_some, meets_readPcb]
    cases s.procs.pcbs current with
    | none => trivial
    | some p => trivial

/-- `blockTask` leaves the semaphores alone, up to its pause and after it. -/
theorem blockTask_sems (pid : Int) {still resumed : State → State → Prop} {post : Int → State → State → Prop}
    (pauses : ∀ s', s'.sems = s.sems → still since s') (back : ∀ s' s'', s'.sems = s.sems →
      resumed s' s'' → post 0 s'' s'')
    (ends : ∀ a s', s'.sems = s.sems → post a since s') :
    (blockTask pid).Meets (fun _ => True) still resumed post since s := by
  unfold blockTask
  rw [Program.meets_bind, Program.meets_lift]
  refine (changeStateWith_any semPost _ (by nofun) (by nofun)).mono ?_
  rintro a s' ⟨h, -, -, left⟩
  have same : s'.sems = s.sems := by
    rcases left with ⟨rfl, -⟩ | ⟨r, p, -, -, -, -, -, -, -, rfl⟩
    · rfl
    · rfl
  by_cases failed : a = -1
  · rw [if_pos failed]
    exact ends _ _ same
  · rw [if_neg failed, Program.meets_bind, Program.meets_lift]
    refine currentPcb_any.mono ?_
    rintro ⟨current, p⟩ _ rfl
    by_cases own : a = p.pid
    · rw [if_pos own, Program.meets_bind]
      exact ⟨pauses _ same, fun s'' => back _ _ same⟩
    · rw [if_neg own]
      exact ends _ _ same

theorem semWait_unlocks (unlocked : s.sems.Unlocked) (id : Int) (kept : ¬s.Forsakes id) :
    Task.Unlocks (semWait id) s := by
  unfold Task.Unlocks semWait
  rw [Program.meets_bind, Program.meets_lift]
  refine (semWaitEnter_any id).mono ?_
  intro result s' tries
  cases tries with
  | missed => exact unlocked
  | took => exact unlocked.modify _ fun _ _ => rfl
  | refused found block _ empty short => exact (kept ⟨_, _, found, block, empty, short⟩).elim
  | @queued sem b h found block free empty granted asked blockedPids waiting =>
    have freed : (s.sems.modify sem.ref fun x => { x with blockedPids, lock := 0 }).Unlocked :=
      unlocked.modify _ fun _ _ => rfl
    have leaves : ∀ s₁ : State, s₁.sems.Unlocked →
      Meets (fun _ => True) (endWait id) (fun _ s' => s'.sems.Unlocked) s₁ := by
      intro s₁ here
      refine (endWait_any id).mono ?_
      rintro _ s' ⟨waiting', granted', rfl⟩
      exact here
    simp only [Program.meets_bind, Program.meets_discard]
    refine blockTask_sems _ (fun s' same => ?_) (fun s' s'' same back => ?_) fun a s' same => ?_
    · rw [same]
      exact freed
    · exact leaves s'' back
    · refine leaves s' ?_
      rw [same]
      exact freed

/-- Without memory to queue the caller the lock stays taken. -/
theorem semWaitEnter_forsakes (unlocked : s.sems.Unlocked) {id : Int} (found : s.findable id = some sem)
    (block : s.sems.at sem.ref = some b) (empty : b.value ≤ 0) (short : ¬s.heap.Grants 1) :
    Meets bad (semWaitEnter id) (fun result s' => result = .inl (-1) ∧
      s'.sems.at sem.ref = some { b with lock := 1 }) s := by
  unfold semWaitEnter
  rw [meets_bind]
  refine (findSem_asks id).mono ?_
  rintro found' s' ⟨rfl, h, asked, rfl⟩
  rw [found]
  have isOpen : b.lock = 0 := unlocked.2 b (at_ref block).1
  have locked : (s.sems.modify sem.ref fun x => { x with lock := 1 }).at sem.ref = some { b with lock := 1 } := by
    rw [at_modify _ _ fun _ => by rfl]
    exact congrArg (Option.map _) block
  have second : (s.withHeap h).heap.Grants 0 ↔ s.heap.Grants 1 := asked.later 0
  simp only [acquireSem, meets_bind, meets_readSem_at, withHeap_sems, block, meets_lookup_some,
    acquire, isOpen, if_true, meets_pure,
    meets_modifySem, locked, if_neg (Int.not_lt.mpr empty), meets_malloc_any]
  rw [if_neg (by exact fun granted => short (second.mp granted))]
  exact ⟨rfl, locked⟩

theorem semWait_locks (unlocked : s.sems.Unlocked) {id : Int} (forsaken : s.Forsakes id) :
    ¬Task.Unlocks (semWait id) s := by
  obtain ⟨sem, b, found, block, empty, short⟩ := forsaken
  intro unlocks
  have stuck : (semWait id).Meets (fun _ => False) (fun _ _ => False) (fun _ _ => False)
      (fun _ _ s' => s'.sems.at sem.ref = some { b with lock := 1 }) s s := by
    unfold semWait
    rw [Program.meets_bind, Program.meets_lift]
    refine (semWaitEnter_forsakes unlocked found block empty short).mono ?_
    rintro result s' ⟨rfl, locked⟩
    exact locked
  obtain ⟨outcome, executed, locked⟩ := stuck.returns
  have free := Program.Meets.execute unlocks executed
  cases outcome with
  | paused rest s' => exact locked.1
  | finished a s' => cases free.2 _ (at_ref locked).1

/-- **Locks are released** by every call on every path, but for a `semWait` that finds no unit and no
memory: it returns with the lock taken. -/
theorem locks_released_iff (call : SemCall) (unlocked : s.sems.Unlocked) :
    Task.Unlocks call.perform s ↔ ∀ id, call = .semWait id → ¬s.Forsakes id := by
  constructor
  · rintro unlocks id rfl forsaken
    exact semWait_locks unlocked forsaken unlocks
  · intro kept
    cases call with
    | semOpen name initialValue => exact (semOpen_any name initialValue).mono fun _ _ opens => unlocked.opens opens.2
    | semInit initialValue => exact (semInit_any initialValue).mono fun _ _ inits => unlocked.inits inits.2
    | semClose id => exact (semClose_any id).mono fun _ _ closes => unlocked.closes closes.1
    | semWait id => exact semWait_unlocks unlocked id (kept id rfl)
    | semPost id => exact (semPost_any id).mono fun _ _ gives => unlocked.gives gives

theorem bootSems_unlocked : bootSems.Unlocked := by
  refine ⟨rfl, ?_⟩
  simp [bootSems, values, bootSem]

theorem locks_released_queued : Task.Unlocks (SemCall.semWait 4).perform (initState (fun _ => true) (none, [])) := by
  refine (locks_released_iff _ bootSems_unlocked).mpr ?_
  rintro id isWait ⟨sem, block, found, here, empty, short⟩
  exact short rfl

/-- `init` waits for a unit when there is memory for the iterator, and for nothing more. -/
theorem locks_released_fails : ¬∀ (S : System) (call : SemCall),
    Run (fun _ _ => True) (boot (fun n => n ≠ 41) (none, [])) S →
    S.state.sems.Unlocked → Task.Unlocks call.perform S.state := by
  intro claim
  have unlocks := claim _ (.semWait 4) (.single (initState_step _ _ _)) bootSems_unlocked
  have forsaken : (initState (fun n => n ≠ 41) (none, [])).Forsakes 4 := ⟨_, _, rfl, rfl, Int.le_refl 0, by decide⟩
  exact semWait_locks bootSems_unlocked forsaken unlocks

end QuesOs.Kernel
