import QuesOs.NamedSemaphores
import QuesOs.PipeActions
import QuesOs.Elementary

/-! What can be counted on at the mutex of the pipes, whichever requests for
memory are refused. A semaphore that has a unit is unlocked and nobody waits for
it; the mutex has a queue for its pids, and is no semaphore of a pipe. -/
namespace QuesOs.Kernel
open Resumption Threads

variable {s s' s'' : State}

/-! ## Semaphores -/

structure Sems.Guarded (sems : Sems) (requests : Nat) (mutex : Int) : Prop where
  isOpen : sems.allSemsLock = 0
  early : 0 ≤ mutex ∧ mutex < sems.semId
  refs : ((values sems.semQueue).map Sem.ref).Nodup
  ids : ((values sems.semQueue).map Sem.id).Nodup
  below : ∀ sem ∈ values sems.semQueue, sem.ref < requests ∧ 0 ≤ sem.id ∧ sem.id < sems.semId
  settled : ∀ sem ∈ values sems.semQueue, 0 < sem.value → sem.blockedPids = [] ∧ sem.lock = 0
  queued : ∀ sem ∈ values sems.semQueue, sem.id = mutex → sem.queueRef.isSome

namespace Sems.Guarded
variable {sems : Sems} {mutex : Int}

theorem grown (guarded : sems.Guarded n mutex) (more : n ≤ n') : sems.Guarded n' mutex :=
  { guarded with below := fun sem listed => ⟨Nat.lt_of_lt_of_le (guarded.below sem listed).1 more,
    (guarded.below sem listed).2⟩ }

/-- The pointer to a listed semaphore leads to it. -/
theorem at_listed (guarded : sems.Guarded n mutex) (listed : sem ∈ values sems.semQueue) :
    sems.at sem.ref = some sem := by
  refine find_eq_some listed (by simp) fun other listed' same => ?_
  exact List.inj_on_of_nodup_map guarded.refs listed' listed (by simpa using same)

/-- A write that leaves the pointers and the id, and does not forget anybody. -/
theorem modify (guarded : sems.Guarded n mutex) (ref : Ref) {f : Sem → Sem}
    (same : ∀ x, (f x).ref = x.ref ∧ (f x).id = x.id ∧ (f x).queueRef = x.queueRef)
    (settles : ∀ x, sems.at ref = some x → 0 < (f x).value → (f x).blockedPids = [] ∧ (f x).lock = 0) :
    (sems.modify ref f).Guarded n mutex := by
  have each : ∀ sem ∈ values (sems.modify ref f).semQueue, ∃ x ∈ values sems.semQueue, sem.ref = x.ref ∧ sem.id = x.id ∧
      sem.queueRef = x.queueRef ∧ (0 < sem.value → sem.blockedPids = [] ∧ sem.lock = 0) := by
    intro sem listed
    rw [values_modify] at listed
    obtain ⟨x, old, rfl⟩ := List.mem_map.mp listed
    refine ⟨x, old, ?_⟩
    by_cases here : x.ref = ref
    · rw [if_pos here]
      exact ⟨(same x).1, (same x).2.1, (same x).2.2, settles x (here ▸ guarded.at_listed old)⟩
    · rw [if_neg here]
      exact ⟨rfl, rfl, rfl, guarded.settled x old⟩
  refine ⟨guarded.isOpen, guarded.early, ?_, ?_, fun sem listed => ?_, fun sem listed => ?_, fun sem listed here => ?_⟩
  · rw [values_modify, List.map_map]
    refine (List.map_congr_left fun x _ => ?_) ▸ guarded.refs
    by_cases here : x.ref = ref <;> simp [here, same]
  · rw [values_modify, List.map_map]
    refine (List.map_congr_left fun x _ => ?_) ▸ guarded.ids
    by_cases here : x.ref = ref <;> simp [here, same]
  · obtain ⟨x, listed, ref, id, -⟩ := each sem listed
    rw [ref, id]
    exact guarded.below x listed
  · obtain ⟨x, -, -, -, -, settled⟩ := each sem listed
    exact settled
  · obtain ⟨x, listed, -, id, queueRef, -⟩ := each sem listed
    rw [queueRef]
    exact guarded.queued x listed (id ▸ here)

theorem close (guarded : sems.Guarded n mutex) (id : Int) : (sems.close id).Guarded n mutex := by
  have fewer : (values (sems.close id).semQueue).Sublist (values sems.semQueue) := by
    rw [values_close]
    exact List.eraseP_sublist
  exact ⟨guarded.isOpen, guarded.early, (fewer.map _).nodup guarded.refs, (fewer.map _).nodup guarded.ids,
    fun sem listed => guarded.below sem (fewer.subset listed), fun sem listed =>
    guarded.settled sem (fewer.subset listed),
    fun sem listed => guarded.queued sem (fewer.subset listed)⟩

/-- An id is used up. -/
theorem passed (guarded : sems.Guarded n mutex) : Sems.Guarded { sems with semId := sems.semId + 1 } n mutex :=
  { guarded with
    early := ⟨guarded.early.1, Int.lt_trans guarded.early.2 (Int.lt_succ _)⟩
    below := fun sem listed =>
      ⟨(guarded.below sem listed).1, (guarded.below sem listed).2.1,
        Int.lt_trans (guarded.below sem listed).2.2 (Int.lt_succ _)⟩ }

end Sems.Guarded

theorem values_withNewSem (s : State) (initialValue : Int) (name : String) :
    values (s.withNewSem initialValue name).semQueue =
      values s.sems.semQueue ++ if s.heap.Grants 3 then [s.newSem initialValue name] else [] := by
  simp only [State.withNewSem, values, List.map_append]
  split <;> rfl

theorem Sems.Guarded.created (guarded : s.sems.Guarded s.heap.requests mutex) (initialValue : Int) (name : String) :
    (s.withNewSem initialValue name).Guarded (s.heap.requests + 4) mutex := by
  have passed := (guarded.grown (Nat.le_add_right _ 4)).passed
  have late : ∀ sem ∈ values s.sems.semQueue, sem.ref ≠ s.heap.requests ∧ sem.id ≠ s.sems.semId := fun sem listed =>
    ⟨Nat.ne_of_lt (guarded.below sem listed).1, Int.ne_of_lt (guarded.below sem listed).2.2⟩
  have listed := values_withNewSem s initialValue name
  split at listed
  · refine ⟨guarded.isOpen, passed.early, ?_, ?_, ?_, ?_, ?_⟩
    · rw [listed, List.map_append, List.nodup_append]
      simpa [guarded.refs, State.newSem] using fun sem member => (late sem member).1
    · rw [listed, List.map_append, List.nodup_append]
      simpa [guarded.ids, State.newSem] using fun sem member => (late sem member).2
    · simp only [listed, List.forall_mem_append, List.forall_mem_singleton]
      have next : 0 ≤ s.sems.semId := Int.le_trans guarded.early.1 (Int.le_of_lt guarded.early.2)
      exact ⟨passed.below, Nat.lt_add_of_pos_right (by decide), next, Int.lt_succ _⟩
    · simp only [listed, List.forall_mem_append, List.forall_mem_singleton]
      exact ⟨guarded.settled, fun _ => ⟨rfl, rfl⟩⟩
    · simp only [listed, List.forall_mem_append, List.forall_mem_singleton]
      exact ⟨guarded.queued, fun same => absurd guarded.early.2 (by rw [← same]; exact Int.lt_irrefl _)⟩
  · rw [List.append_nil] at listed
    exact ⟨guarded.isOpen, passed.early, listed ▸ guarded.refs, listed ▸ guarded.ids, listed ▸ passed.below,
      listed ▸ guarded.settled, listed ▸ guarded.queued⟩

theorem Sems.Guarded.attached {sems : Sems} (guarded : sems.Guarded n mutex) (ref : Ref) :
    (sems.modify ref Sem.attach).Guarded n mutex :=
  guarded.modify ref (fun _ => ⟨rfl, rfl, rfl⟩) fun x here => guarded.settled x (at_ref here).1

theorem Sems.Guarded.detached {sems : Sems} (guarded : sems.Guarded n mutex) (ref : Ref) :
    (sems.modify ref Sem.detach).Guarded n mutex := by
  have kept : ∀ x : Sem, x.detach.ref = x.ref ∧ x.detach.id = x.id ∧ x.detach.queueRef = x.queueRef ∧
      x.detach.value = x.value ∧ x.detach.blockedPids = x.blockedPids ∧ x.detach.lock = x.lock := by
    intro x
    unfold Sem.detach
    exact ⟨rfl, rfl, rfl, rfl, rfl, rfl⟩
  refine guarded.modify ref (fun x => ⟨(kept x).1, (kept x).2.1, (kept x).2.2.1⟩) fun x here positive => ?_
  obtain ⟨-, -, -, value, blockedPids, lock⟩ := kept x
  rw [blockedPids, lock]
  exact guarded.settled x (at_ref here).1 (value ▸ positive)

/-! ## Pipes -/

structure Pipes.Guarded (pipes : Pipes) (requests : Nat) : Prop where
  refs : (values pipes.pipeQueue).Nodup
  listed : ∀ r ∈ values pipes.pipeQueue, ∃ p, pipes.pipes r = some p ∧ p.freed = false
  cached : ∀ r, pipes.cachedPipe = some r → r ∈ values pipes.pipeQueue
  below : ∀ r p, pipes.pipes r = some p → r < requests
  apart : ∀ r p, pipes.pipes r = some p → p.readSemId ≠ pipes.allPipesSem ∧ p.writeSemId ≠ pipes.allPipesSem

namespace Pipes.Guarded
variable {pipes : Pipes}

theorem grown (guarded : pipes.Guarded n) (more : n ≤ n') : pipes.Guarded n' :=
  { guarded with below := fun r p here => Nat.lt_of_lt_of_le (guarded.below r p here) more }

theorem cache (guarded : pipes.Guarded n) {cachedPipe : Option Ref} (listed : ∀ r, cachedPipe = some r →
      r ∈ values pipes.pipeQueue) :
    Pipes.Guarded { pipes with cachedPipe } n := { guarded with cached := listed }

/-- A write that leaves the semaphores of the pipe, and whether it was freed if it is listed. -/
theorem modify (guarded : pipes.Guarded n) (r : Ref) {f : Pipe → Pipe}
    (same : ∀ p, (f p).readSemId = p.readSemId ∧ (f p).writeSemId = p.writeSemId)
    (freed : r ∈ values pipes.pipeQueue → ∀ p, (f p).freed = p.freed) : (pipes.modify r f).Guarded n := by
  have each : ∀ r' p', (pipes.modify r f).pipes r' = some p' → ∃ p, pipes.pipes r' = some p ∧
      p'.readSemId = p.readSemId ∧ p'.writeSemId = p.writeSemId := by
    intro r' p' here
    obtain ⟨p, was, rfl⟩ := pipes_modify_some here
    split
    · exact ⟨p, was, same p⟩
    · exact ⟨p, was, rfl, rfl⟩
  refine ⟨guarded.refs, fun r' member => ?_, guarded.cached, fun r' p' here => ?_, fun r' p' here => ?_⟩
  · obtain ⟨p, here, isOpen⟩ := guarded.listed r' member
    by_cases this : r' = r
    · subst this
      exact ⟨f p, by simp [Pipes.modify, here], by rw [freed member, isOpen]⟩
    · exact ⟨p, by simp [Pipes.modify, Function.update_of_ne this, here], isOpen⟩
  · obtain ⟨p, here, -⟩ := each r' p' here
    exact guarded.below r' p here
  · obtain ⟨p, here, readSemId, writeSemId⟩ := each r' p' here
    rw [readSemId, writeSemId]
    exact guarded.apart r' p here

/-- A pipe that is new, and listed if there was memory for it. -/
theorem add (guarded : pipes.Guarded n) {queue : Queue Ref} {p : Pipe} (isOpen : p.freed = false)
    (apart : p.readSemId ≠ pipes.allPipesSem ∧ p.writeSemId ≠ pipes.allPipesSem) (low : n ≤ r) (high : r < n')
    (listed : values queue = values pipes.pipeQueue ++ new) (fresh : new = [r] ∨ new = []) :
    Pipes.Guarded { pipes with pipeQueue := queue, pipes := Function.update pipes.pipes r (some p) } n' := by
  have older : ∀ r' ∈ values pipes.pipeQueue, r' ≠ r := by
    intro r' member
    obtain ⟨p', here, -⟩ := guarded.listed r' member
    exact Nat.ne_of_lt (Nat.lt_of_lt_of_le (guarded.below r' p' here) low)
  refine ⟨?_, fun r' member => ?_, fun r' cached => ?_, fun r' p' here => ?_, fun r' p' here => ?_⟩
  · rw [listed, List.nodup_append]
    rcases fresh with rfl | rfl
    · simpa [guarded.refs] using older
    · simpa using guarded.refs
  · dsimp only
    by_cases this : r' = r
    · subst this
      exact ⟨p, Function.update_self .., isOpen⟩
    · rw [Function.update_of_ne this]
      refine guarded.listed r' ?_
      rw [listed, List.mem_append] at member
      rcases fresh with rfl | rfl
      · exact member.resolve_right fun here => this (List.mem_singleton.mp here)
      · exact member.resolve_right List.not_mem_nil
  · rw [listed]
    exact List.mem_append_left _ (guarded.cached r' cached)
  · dsimp only at here
    by_cases this : r' = r
    · rw [this]
      exact high
    · rw [Function.update_of_ne this] at here
      exact Nat.lt_trans (Nat.lt_of_lt_of_le (guarded.below r' p' here) low) high
  · dsimp only at here
    by_cases this : r' = r
    · subst this
      rw [Function.update_self] at here
      cases here
      exact apart
    · rw [Function.update_of_ne this] at here
      exact guarded.apart r' p' here

theorem unlink (guarded : pipes.Guarded n) (id : Int) (uncached : ∀ r, pipes.cachedPipe = some r →
      pipes.hasId id r = false) :
    (pipes.unlink id).Guarded n := by
  have fewer : (values (pipes.unlink id).pipeQueue).Sublist (values pipes.pipeQueue) := by
    rw [values_unlink]
    exact List.eraseP_sublist
  refine ⟨fewer.nodup guarded.refs, fun r member => guarded.listed r (fewer.subset member),
    fun r cached => ?_, guarded.below,
    guarded.apart⟩
  rw [values_unlink, List.mem_eraseP_of_neg (by rw [uncached r cached]; exact Bool.false_ne_true)]
  exact guarded.cached r cached

theorem remove (guarded : pipes.Guarded n) (id : Int) : (pipes.remove id).Guarded n := by
  -- What is cached afterwards has another id.
  have forgotten : ∃ cachedPipe, (∀ r, cachedPipe = some r → r ∈ values pipes.pipeQueue ∧ pipes.hasId id r = false) ∧
      pipes.remove id = { (pipes.find id).elim (pipes.unlink id) fun r =>
        (pipes.unlink id).modify r fun p => { p with freed := true } with cachedPipe } := by
    have same : ((pipes.find id).elim (pipes.unlink id) fun r => (pipes.unlink id).modify r fun p =>
      { p with freed := true }).hasId
        id = pipes.hasId id := by
      cases pipes.find id with
      | none => rfl
      | some r => exact hasId_freed pipes id r
    have cached : ((pipes.find id).elim (pipes.unlink id) fun r =>
        (pipes.unlink id).modify r fun p => { p with freed := true }).cachedPipe = pipes.cachedPipe := by
      cases pipes.find id <;> rfl
    unfold Pipes.remove
    dsimp only
    rw [same, cached]
    split
    · exact ⟨none, nofun, rfl⟩
    · rename_i other
      refine ⟨pipes.cachedPipe, fun r here => ⟨guarded.cached r here, ?_⟩, ?_⟩
      · rw [here, Option.any_some, Bool.not_eq_true] at other
        exact other
      · rw [← cached]
  obtain ⟨cachedPipe, uncached, removed⟩ := forgotten
  rw [removed]
  have left := (guarded.cache fun r here => (uncached r here).1).unlink id fun r here => (uncached r here).2
  cases found : pipes.find id with
  | none => exact left
  | some r =>
    refine left.modify r (fun _ => ⟨rfl, rfl⟩) fun member => ?_
    -- The first one is not there a second time.
    rw [values_unlink] at member
    have split := List.exists_of_eraseP (List.mem_of_find?_eq_some found) (List.find?_some found)
    obtain ⟨a, before, after, others, has, whole, erased⟩ := split
    have first : a = r := by
      have here : (values pipes.pipeQueue).find? (pipes.hasId id) = some r := found
      rw [whole, List.find?_append, List.find?_eq_none.mpr others, Option.none_or, List.find?_cons_of_pos has] at here
      exact Option.some.inj here
    have refs := guarded.refs
    have member' : r ∈ before ++ after := erased ▸ member
    rw [whole, first] at refs
    have apart := List.nodup_middle.mp refs
    exact absurd member' (List.nodup_cons.mp apart).1

end Pipes.Guarded

/-! ## What keeps it -/

structure State.Guarded (s : State) : Prop where
  sems : s.sems.Guarded s.heap.requests s.pipes.allPipesSem
  pipes : s.pipes.Guarded s.heap.requests

namespace State.Guarded

theorem grown (guarded : s.Guarded) (grown : s.heap.Grown h) : (s.withHeap h).Guarded :=
  ⟨guarded.sems.grown grown.requests, guarded.pipes.grown grown.requests⟩

/-- Other semaphores, and more requests. -/
theorem withSems (guarded : s.Guarded) (grown : s.heap.Grown s'.heap) (pipes : s'.pipes = s.pipes)
    (others : s'.sems.Guarded s'.heap.requests s.pipes.allPipesSem) : s'.Guarded :=
  ⟨pipes ▸ others, pipes ▸ guarded.pipes.grown grown.requests⟩

/-- One semaphore written, and more requests. -/
theorem withSem (guarded : s.Guarded) {ref : Ref} {f : Sem → Sem} (procs : Procs)
    (history : List Event) (grown : s.heap.Grown h)
    (same : ∀ x, (f x).ref = x.ref ∧ (f x).id = x.id ∧ (f x).queueRef = x.queueRef)
    (settles : ∀ x, s.sems.at ref = some x → 0 < (f x).value → (f x).blockedPids = [] ∧ (f x).lock = 0) :
    State.Guarded ⟨h, s.sems.modify ref f, s.pipes, procs, history⟩ :=
  ⟨(guarded.sems.grown grown.requests).modify ref same settles, guarded.pipes.grown grown.requests⟩

/-- What `findSem` finds is behind its pointer. -/
theorem at_found (guarded : s.Guarded) {id : Int} (found : s.sems.find id = some sem) : s.sems.at sem.ref = some sem :=
  guarded.sems.at_listed (find_some found).1

theorem block_eq (guarded : s.Guarded) {id : Int} (found : s.findable id = some sem)
    (block : s.sems.at sem.ref = some b) :
    b = sem := by
  have there := guarded.at_found (findable_some found).2
  exact Option.some.inj (block.symm.trans there)

theorem tries (guarded : s.Guarded) {id : Int} (tries : Tries s id a s') : s'.Guarded := by
  cases tries with
  | missed missing asked => exact guarded.grown asked.grown
  | took found block unlocked positive asked =>
    refine guarded.withSem _ _ asked.grown (fun _ => ⟨rfl, rfl, rfl⟩) fun x here more => ?_
    cases block.symm.trans here
    exact ⟨(guarded.sems.settled _ (at_ref block).1 positive).1, rfl⟩
  | refused found block unlocked empty short asked =>
    refine guarded.withSem _ _ asked.grown (fun _ => ⟨rfl, rfl, rfl⟩) fun x here more => ?_
    cases block.symm.trans here
    exact (Int.not_lt.mpr empty more).elim
  | queued found block unlocked empty granted asked blockedPids waiting =>
    refine guarded.withSem _ _ asked.grown (fun _ => ⟨rfl, rfl, rfl⟩) fun x here more => ?_
    cases block.symm.trans here
    exact (Int.not_lt.mpr empty more).elim

theorem gives (guarded : s.Guarded) {id : Int} (gives : Gives s id s') : s'.Guarded := by
  cases gives with
  | missed missing asked => exact guarded.grown asked.grown
  | handed found block unlocked waiters grown roused left history =>
    refine guarded.withSem _ _ grown (fun _ => ⟨rfl, rfl, rfl⟩) fun x here more => ?_
    obtain rfl := guarded.block_eq found here
    -- Somebody waited, so there is no unit.
    exact (waiters (guarded.sems.settled x (at_ref here).1 more).1).elim
  | raised found block unlocked grown asked roused left drained history =>
    refine guarded.withSem _ _ grown (fun _ => ⟨rfl, rfl, rfl⟩) fun x here more => ?_
    obtain rfl := guarded.block_eq found here
    cases block.symm.trans here
    exact ⟨drained.trans (List.drop_length ..), rfl⟩

theorem inits (guarded : s.Guarded) (inits : Inits s initialValue a s') : s'.Guarded := by
  cases inits with
  | refused short => exact guarded.grown s.heap.asked_ask.grown
  | unnamed granted short =>
    have more : s.heap.requests ≤ s.heap.requests + 1 + 1 + 1 := Nat.le_add_right _ 3
    exact ⟨(guarded.sems.grown more).passed, guarded.pipes.grown more⟩
  | made granted named =>
    exact ⟨(guarded.sems.created initialValue "").attached _, guarded.pipes.grown (Nat.le_add_right _ 4)⟩

theorem closes (guarded : s.Guarded) {id : Int} (closes : Closes s id a s') : s'.Guarded := by
  cases closes with
  | missed missing asked => exact guarded.grown asked.grown
  | freed found last asked =>
    exact guarded.withSems asked.grown rfl ((guarded.sems.close id).grown asked.grown.requests)
  | detached found more asked =>
    exact guarded.withSems asked.grown rfl ((guarded.sems.detached _).grown asked.grown.requests)

theorem opens (guarded : s.Guarded) (opens : Opens s name initialValue a s') : s'.Guarded := by
  cases opens with
  | attached found asked =>
    exact guarded.withSems asked.grown rfl ((guarded.sems.attached _).grown asked.grown.requests)
  | failed missing asked creates =>
    have here := guarded.grown asked.grown
    cases creates with
    | refused short => exact here.grown (Heap.asked_ask _).grown
    | unnamed granted short =>
      exact ⟨(here.sems.grown (Nat.le_add_right _ 3)).passed, here.pipes.grown (Nat.le_add_right _ 3)⟩
  | made missing asked granted named =>
    have here := guarded.grown asked.grown
    exact ⟨(here.sems.created initialValue name).attached _, here.pipes.grown (Nat.le_add_right _ 4)⟩

theorem pipeOf_listed (guarded : s.Guarded) (found : s.pipeOf pipeId = some r) : r ∈ values s.pipes.pipeQueue := by
  unfold State.pipeOf at found
  split at found
  · exact guarded.pipes.cached r found
  · split at found
    · exact List.mem_of_find?_eq_some found
    · cases found

theorem gets (guarded : s.Guarded) (pipeId : Int) (grown : s.heap.Grown h) :
    State.Guarded { s with heap := h, pipes := { s.pipes with cachedPipe := s.pipeOf pipeId } } :=
  ⟨guarded.sems.grown grown.requests, (guarded.pipes.cache fun _ => guarded.pipeOf_listed).grown grown.requests⟩

theorem writes (guarded : s.Guarded) (r : Ref) {f : Pipe → Pipe} (same : SamePipe f) :
    State.Guarded { s with pipes := s.pipes.modify r f } :=
  ⟨guarded.sems, guarded.pipes.modify r (fun p => ⟨(same p).2.1, (same p).2.2.1⟩) fun _ p => (same p).2.2.2⟩

theorem removes (guarded : s.Guarded) (pipeId : Int) (grown : s.heap.Grown h) :
    State.Guarded { s with heap := h, pipes := s.pipes.remove pipeId } := by
  refine ⟨?_, (guarded.pipes.remove pipeId).grown grown.requests⟩
  rw [allPipesSem_remove]
  exact guarded.sems.grown grown.requests

end State.Guarded

/-! ## Work beside the mutex -/

/-- `allPipesSem`, if it is there. -/
def State.mutex (s : State) : Option Sem := s.sems.find s.pipes.allPipesSem

/-- The mutex is what it was. -/
structure State.Beside (s s' : State) : Prop where
  guarded : s'.Guarded
  allPipesSem : s'.pipes.allPipesSem = s.pipes.allPipesSem
  mutex : s'.mutex = s.mutex

theorem State.Beside.trans (first : s.Beside s') (second : s'.Beside s'') : s.Beside s'' :=
  ⟨second.guarded, second.allPipesSem.trans first.allPipesSem, second.mutex.trans first.mutex⟩

theorem State.Guarded.beside (guarded : s'.Guarded) (allPipesSem : s'.pipes.allPipesSem = s.pipes.allPipesSem)
    (sems : s'.sems = s.sems) : s.Beside s' := by
  refine ⟨guarded, allPipesSem, ?_⟩
  unfold State.mutex
  rw [sems, allPipesSem]

/-- Other ids find what they found before. -/
theorem find_created (guarded : s.Guarded) {id : Int} (other : id ≠ s.sems.semId) (initialValue : Int) (name : String) :
    ((s.withNewSem initialValue name).modify s.heap.requests Sem.attach).find id = s.sems.find id := by
  have listed : (s.withNewSem initialValue name).find id = s.sems.find id := by
    unfold Sems.find
    rw [values_withNewSem, List.find?_append]
    split
    · rw [List.find?_cons_of_neg (fun same => other (of_decide_eq_true same).symm), List.find?_nil, Option.or_none]
    · rw [List.find?_nil, Option.or_none]
  rw [find_modify Sem.attach_id, listed]
  cases found : s.sems.find id with
  | none => rfl
  | some x =>
    have older : x.ref ≠ s.heap.requests := Nat.ne_of_lt (guarded.sems.below x (find_some found).1).1
    rw [Option.map_some, if_neg older]

namespace State.Guarded

theorem beside_inits (guarded : s.Guarded) (inits : Inits s initialValue a s') : s.Beside s' := by
  refine ⟨guarded.inits inits, ?_, ?_⟩
  · cases inits <;> rfl
  · cases inits with
    | refused short => rfl
    | unnamed granted short => rfl
    | made granted named => exact find_created guarded (Int.ne_of_lt guarded.sems.early.2) initialValue ""

theorem beside_closes (guarded : s.Guarded) {id : Int} (other : id ≠ s.pipes.allPipesSem) (closes : Closes s id a s') :
    s.Beside s' := by
  refine ⟨guarded.closes closes, ?_, ?_⟩
  · cases closes <;> rfl
  · cases closes with
    | missed missing asked => rfl
    | freed found last asked => exact find_close_other _ other.symm
    | @detached sem h found more asked =>
      have kept : (s.sems.modify sem.ref Sem.detach).find s.pipes.allPipesSem = s.mutex := by
        rw [find_modify Sem.detach_id]
        unfold State.mutex
        cases there : s.sems.find s.pipes.allPipesSem with
        | none => rfl
        | some m =>
          have apart : m.ref ≠ sem.ref := by
            intro same
            obtain ⟨listed, here⟩ := find_some (findable_some found).2
            have one : m = sem := List.inj_on_of_nodup_map guarded.sems.refs (find_some there).1 listed same
            exact other (here.symm.trans ((congrArg Sem.id one).symm.trans (find_some there).2))
          rw [Option.map_some, if_neg apart]
      exact kept

end State.Guarded

/-- A close makes one request. -/
theorem Closes.asked {id : Int} (closes : Closes s id a s') : s.heap.Asked 1 s'.heap := by
  cases closes with
  | missed missing asked => exact asked
  | freed found last asked => exact asked
  | detached found more asked => exact asked

/-- The semaphore is made if there is memory for it and for its name. -/
theorem Inits.result (inits : Inits s initialValue a s') :
    ((s.heap.Grants 0 ∧ s.heap.Grants 2) ∧ a = s.sems.semId ∧ s'.sems.semId = s.sems.semId + 1 ∧
      s.heap.Asked 4 s'.heap) ∨
      ¬(s.heap.Grants 0 ∧ s.heap.Grants 2) ∧ a = -1 := by
  cases inits with
  | refused short => exact .inr ⟨fun both => short both.1, rfl⟩
  | unnamed granted short => exact .inr ⟨fun both => short both.2, rfl⟩
  | made granted named => exact .inl ⟨⟨granted, named⟩, rfl, rfl, rfl, rfl, rfl⟩

/-- Whether an id was drawn, and how many requests were made. -/
theorem Inits.drawn (inits : Inits s initialValue a s') :
    s'.sems.semId = s.sems.semId + (if s.heap.Grants 0 then 1 else 0) ∧
    s.heap.Asked (if s.heap.Grants 0 then if s.heap.Grants 2 then 4 else 3 else 1) s'.heap := by
  cases inits with
  | refused short =>
    rw [if_neg short, if_neg short]
    exact ⟨(Int.add_zero _).symm, s.heap.asked_ask⟩
  | unnamed granted short =>
    rw [if_pos granted, if_pos granted, if_neg short]
    exact ⟨rfl, rfl, rfl, rfl⟩
  | made granted named =>
    rw [if_pos granted, if_pos granted, if_pos named]
    exact ⟨rfl, rfl, rfl, rfl⟩

theorem Inits.pipes (inits : Inits s initialValue a s') : s'.pipes = s.pipes := by
  cases inits <;> rfl

/-- What is returned is not the mutex. -/
theorem Inits.other (inits : Inits s initialValue a s') (guarded : s.Guarded) : a ≠ s.pipes.allPipesSem := by
  obtain ⟨early, late⟩ := guarded.sems.early
  cases inits <;> omega

/-- There is memory for a pipe and its semaphores. -/
def State.MakesPipe (s : State) : Prop :=
  s.heap.Grants 0 ∧ (s.heap.Grants 1 ∧ s.heap.Grants 3) ∧ s.heap.Grants 5 ∧ s.heap.Grants 7

instance (s : State) : Decidable s.MakesPipe := inferInstanceAs (Decidable (_ ∧ _))

/-- The first request of `createPipe`'s second `semInit`. -/
def State.secondInit (s : State) : Nat := if s.heap.Grants 1 then if s.heap.Grants 3 then 5 else 4 else 2

/-- The ids of a pipe's semaphores count no further than an `int` goes. -/
def State.CountsPipe (s : State) : Prop :=
  s.heap.Grants 0 → (s.heap.Grants 1 → s.sems.semId < INT_MAX) ∧
    (s.heap.Grants s.secondInit → s.sems.semId + (if s.heap.Grants 1 then 1 else 0) < INT_MAX)

instance (s : State) : Decidable s.CountsPipe := inferInstanceAs (Decidable (_ → _))

/-- The second of a pipe's semaphores is counted after the first one. -/
theorem Inits.counts_second {t : State} (asked : t.heap.Asked 1 s.heap) (next : s.sems.semId = t.sems.semId)
    (inits : Inits s initialValue a s') : (s'.heap.Grants 0 → s'.sems.semId < INT_MAX) ↔
      (t.heap.Grants t.secondInit → t.sems.semId + (if t.heap.Grants 1 then 1 else 0) < INT_MAX) := by
  obtain ⟨drawn, more⟩ := inits.drawn
  have first : s.heap.Grants 0 ↔ t.heap.Grants 1 := asked.later 0
  have named : s.heap.Grants 2 ↔ t.heap.Grants 3 := asked.later 2
  have total := (asked.trans more).later 0
  rw [drawn, next, total, State.secondInit]
  by_cases granted : t.heap.Grants 1
  · rw [if_pos granted, if_pos (first.mpr granted), if_pos granted, if_pos (first.mpr granted)]
    by_cases given : t.heap.Grants 3
    · rw [if_pos given, if_pos (named.mpr given)]
    · rw [if_neg given, if_neg fun yes => given (named.mp yes)]
  · have refused : ¬s.heap.Grants 0 := fun yes => granted (first.mp yes)
    rw [if_neg granted, if_neg refused, if_neg granted, if_neg refused]

/-- The two semaphores of a pipe. -/
theorem inits_twice {t : State} (guarded : s.Guarded) (asked : t.heap.Asked 1 s.heap) (first : Inits s v readSemId s₁)
    (second : Inits s₁ v' writeSemId s₂) :
    (((t.heap.Grants 1 ∧ t.heap.Grants 3) ∧ t.heap.Grants 5 ∧ t.heap.Grants 7) ∧ ¬(readSemId = -1 ∨ writeSemId = -1) ∧
      t.heap.Asked 9 s₂.heap) ∨
    ¬((t.heap.Grants 1 ∧ t.heap.Grants 3) ∧ t.heap.Grants 5 ∧ t.heap.Grants 7) ∧
    (readSemId = -1 ∨ writeSemId = -1) := by
  have given : s.heap.Grants 0 ∧ s.heap.Grants 2 ↔ t.heap.Grants 1 ∧ t.heap.Grants 3 :=
    and_congr (asked.later 0) (asked.later 2)
  rcases first.result with ⟨granted, rfl, next, more⟩ | ⟨short, failed⟩
  · have five : t.heap.Asked 5 s₁.heap := asked.trans more
    have given' : s₁.heap.Grants 0 ∧ s₁.heap.Grants 2 ↔ t.heap.Grants 5 ∧ t.heap.Grants 7 :=
      and_congr (five.later 0) (five.later 2)
    rcases second.result with ⟨granted', rfl, -, more'⟩ | ⟨short', failed'⟩
    · have early := guarded.sems.early
      exact .inl ⟨⟨given.mp granted, given'.mp granted'⟩, by omega, five.trans more'⟩
    · exact .inr ⟨fun both => short' (given'.mpr both.2), .inr failed'⟩
  · exact .inr ⟨fun both => short (given.mpr both.1), .inl failed⟩

/-- A new pipe, when nothing else was done to the pipes. -/
theorem State.Beside.addPipe {t : State} (beside : s.Beside t) (guarded : s.Guarded) (same : t.pipes = s.pipes)
    (grown : t.heap.Grown h) (low : s.heap.requests ≤ r) (high : r < h.requests) {p : Pipe} (isOpen : p.freed = false)
    (apart : p.readSemId ≠ s.pipes.allPipesSem ∧ p.writeSemId ≠ s.pipes.allPipesSem) {queue : Queue Ref}
    (listed : values queue = values s.pipes.pipeQueue ++ new) (fresh : new = [r] ∨ new = []) (history : List Event) :
    s.Beside { t with
      heap := h
      pipes := { t.pipes with pipeQueue := queue, pipes := Function.update t.pipes.pipes r (some p) }
      history } := by
  refine ⟨⟨beside.guarded.sems.grown grown.requests, ?_⟩, beside.allPipesSem, beside.mutex⟩
  dsimp only
  rw [same]
  exact guarded.pipes.add isOpen apart low high listed fresh

theorem createPipe_within (guarded : s.Guarded) (within : bad .overflow ∨ s.CountsPipe) (pipeId : Int) :
    Meets bad (createPipe pipeId) (fun found s' => s.CountsPipe ∧ s.Beside s' ∧
      ((s.MakesPipe ∧ (∃ r p, found = some r ∧ s'.pipes.pipes r = some p ∧ p.freed = false ∧ p.totalProcesses = 0) ∧
          s.heap.Asked 10 s'.heap) ∨
        ¬s.MakesPipe ∧ found = none)) s := by
  simp only [createPipe, meets_bind, meets_malloc_any]
  have start := s.heap.asked_ask
  have guarded₀ := guarded.grown start.grown
  have beside₀ : s.Beside (s.withHeap s.heap.ask) := guarded₀.beside rfl rfl
  by_cases granted : s.heap.Grants 0
  · simp only [if_pos granted, meets_bind]
    have first : s.heap.ask.Grants 0 ↔ s.heap.Grants 1 := start.later 0
    have zero : INT_MIN ≤ (0 : Int) ∧ (0 : Int) ≤ INT_MAX := by decide
    refine (semInit_within (s := s.withHeap s.heap.ask) (within.imp_right fun counts =>
      ⟨zero, fun given => (counts granted).1 (first.mp given)⟩) (by exact guarded₀.sems.isOpen)).mono ?_
    rintro readSemId s₁ ⟨inits, -, next⟩
    have beside₁ := guarded₀.beside_inits inits
    have second := Inits.counts_second (s := s.withHeap s.heap.ask) (t := s) start rfl inits
    have size : INT_MIN ≤ (PIPE_BUFFER_SIZE : Int) ∧ (PIPE_BUFFER_SIZE : Int) ≤ INT_MAX := by decide
    refine (semInit_within (within.imp_right fun counts => ⟨size, second.mpr (counts granted).2⟩)
      beside₁.guarded.sems.isOpen).mono ?_
    rintro writeSemId s₂ ⟨inits', -, next'⟩
    have counts : s.CountsPipe := fun _ => ⟨fun given => next (first.mpr given), second.mp next'⟩
    have beside := beside₀.trans (beside₁.trans (beside₁.guarded.beside_inits inits'))
    have notRead : readSemId ≠ s.pipes.allPipesSem := inits.other guarded₀
    have notWrite : writeSemId ≠ s.pipes.allPipesSem := by
      have other := inits'.other beside₁.guarded
      rwa [beside₁.allPipesSem] at other
    rw [meets_ite]
    rcases inits_twice guarded₀ start inits inits' with ⟨all, present, asked⟩ | ⟨short, failed⟩
    · refine ⟨fun failed => (present failed).elim, fun _ => ?_⟩
      simp only [meets_bind, meets_modifyPipes, meets_get]
      refine (enqueue_asks _).mono ?_
      rintro queue s₃ ⟨listed, h, asked', rfl⟩
      simp only [meets_log, meets_pure]
      have same : s₂.pipes = s.pipes := inits'.pipes.trans inits.pipes
      have high : s.heap.requests < h.requests := by
        rw [asked'.requests, asked.requests]
        omega
      have added := beside.addPipe guarded same asked'.grown (r := s.heap.requests) (Nat.le_refl _) high
        (p := ⟨pipeId, fun _ => 0, 0, 0, 0, writeSemId, readSemId, false, [], []⟩) rfl ⟨notRead,
          notWrite⟩ (by rw [← same]; exact listed)
        (by split <;> simp) (.pipeMade pipeId :: s₂.history)
      exact ⟨counts, added, .inl ⟨⟨granted, all⟩, ⟨_, _, rfl, Function.update_self .., rfl, rfl⟩, asked.trans asked'⟩⟩
    · refine ⟨fun _ => ?_, fun present => (present failed).elim⟩
      simp only [meets_bind, meets_discard]
      refine (semClose_open beside.guarded.sems.isOpen _).mono ?_
      intro _ s₃ closes
      have beside₃ := beside.guarded.beside_closes (by rwa [beside.allPipesSem]) closes
      refine (semClose_open beside₃.guarded.sems.isOpen _).mono ?_
      intro _ s₄ closes'
      have beside₄ := beside₃.guarded.beside_closes (by rwa [beside₃.allPipesSem, beside.allPipesSem]) closes'
      simp only [meets_free, meets_pure]
      have released := beside₄.guarded.grown (Heap.grown_release s₄.heap s.heap.requests)
      exact ⟨counts, beside.trans (beside₃.trans (beside₄.trans (released.beside rfl rfl))),
        .inr ⟨fun makes => short makes.2, trivial⟩⟩
  · simp only [if_neg granted, meets_pure]
    exact ⟨fun given => absurd given granted, beside₀, .inr ⟨fun makes => granted makes.1, trivial⟩⟩

/-! ## Every run -/

/-- The action keeps it. -/
abbrev Guards {α : Type} (f : K α) : Prop := Keeps (fun _ => True) State.Guarded f

theorem guards_primitive : Primitive Guards where
  ends := .pure
  follows := .bind
  reads := fun _ guarded => guarded
  fails := fun _ _ _ => trivial
  asks := fun _ guarded => malloc_cases (fun _ _ asked => guarded.grown asked.grown) fun _ _ asked =>
  guarded.grown asked.grown
  releases := fun ref s guarded => guarded.grown (s.heap.grown_release ref)
  notes := fun _ _ guarded => ⟨guarded.sems, guarded.pipes⟩
  remembers := fun _ _ guarded => ⟨guarded.sems, guarded.pipes⟩
  edits := fun _ _ _ _ guarded => ⟨guarded.sems, guarded.pipes⟩

theorem guards_move {α : Type} (process : Ref) (newState : ProcessState) {f : Pcb → K α} (rest : ∀ p, Guards (f p)) :
    Guards (do
      let p ← readPcb process
      modifyProcs (·.moveState process p newState)
      f p) := by
  intro s guarded
  rw [meets_bind, meets_readPcb]
  cases s.procs.pcbs process with
  | none => trivial
  | some p =>
    rw [meets_lookup_some, meets_bind, meets_modifyProcs]
    exact rest p _ ⟨guarded.sems, guarded.pipes⟩

theorem guards_sweeping : Sweeping Guards where
  toPrimitive := guards_primitive
  changes := built_changeStateWith guards_primitive guards_move
  expires := fun _ guarded => ⟨guarded.sems, guarded.pipes⟩
  leaves := fun sem s guarded => (endWait_any sem).mono fun _ _ left => by
    obtain ⟨waiting, granted, rfl⟩ := left
    exact ⟨guarded.sems, guarded.pipes⟩
  enters := fun id _ guarded => (semWaitEnter_any id).mono fun _ _ tries => guarded.tries tries
  posts := fun id _ guarded => (semPost_any id).mono fun _ _ gives => guarded.gives gives
  inits := fun initialValue _ guarded => (semInit_any initialValue).mono fun _ _ inits => guarded.inits inits.2
  closes := fun id _ guarded => (semClose_any id).mono fun _ _ closes => guarded.closes closes.1
  gets := fun pipeId _ guarded => (getPipe_asks pipeId).mono fun _ _ got => by
    obtain ⟨-, h, asked, rfl⟩ := got
    exact guarded.gets pipeId asked.grown
  creates := fun pipeId _ guarded => (createPipe_within guarded (.inl trivial) pipeId).mono fun _ _ made =>
  made.2.1.guarded
  removes := fun pipeId _ guarded => (removePipe_asks pipeId).mono fun _ _ removed => by
    obtain ⟨h, asked, rfl⟩ := removed
    exact guarded.removes pipeId asked.grown
  writes := fun pipe _ same _ guarded => guarded.writes pipe same
  sweeps := fun _ _ guarded => ⟨guarded.sems, guarded.pipes⟩

/-- Nobody relies on more than that. -/
def guarding : Discipline machine where
  inv := State.Guarded
  turn _ := True
  does _ _ _ := True
  rely _ _ _ := True
  refl _ _ := trivial
  trans _ _ _ _ _ _ := trivial
  spared _ _ _ _ _ _ _ _ := trivial
  schedule s _ guarded ran :=
  ⟨(meets_of_run ran).mp (built_scheduleTask guards_sweeping s guarded), trivial, fun _ => trivial⟩

theorem guarding_follows {program : Task Int} (every : program.Every Guards) (guarded : s.Guarded) :
    guarding.Follows t program s :=
  (Program.Keeps.every every s s guarded).weaken (fun _ _ still => ⟨still, trivial⟩) (fun _ _ back => back.1)
    fun _ _ _ still => ⟨still, trivial, trivial⟩

theorem bootSems_guarded : bootSems.Guarded 40 0 :=
  ⟨rfl, by decide, by decide, by decide, by decide, by decide, by decide⟩

theorem bootPipes_guarded : bootPipes.Guarded 40 := by
  have only : ∀ r p, bootPipes.pipes r = some p → r = 24 ∧ p = bootPipe := by
    intro r p here
    by_cases this : r = 24
    · exact ⟨this, (Option.some.inj ((if_pos this).symm.trans here)).symm⟩
    · cases (if_neg this).symm.trans here
  refine ⟨by decide, fun r member => ?_, fun r cached => ?_, fun r p here => ?_, fun r p here => ?_⟩
  · rw [List.mem_singleton.mp member]
    exact ⟨bootPipe, rfl, rfl⟩
  · cases cached
    exact List.mem_singleton.mpr rfl
  · rw [(only r p here).1]
    decide
  · rw [(only r p here).2]
    decide

theorem guarding_boot (grants : Nat → Bool) (garbage : Option Ref × List Ref) : guarding.Holds (boot grants garbage) :=
  ⟨⟨bootSems_guarded, bootPipes_guarded⟩, fun _ => trivial, nofun⟩

end QuesOs.Kernel
