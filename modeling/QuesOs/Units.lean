import QuesOs.SemaphoreBooks
import QuesOs.PipeTable

/-! The units of a semaphore that processes are past it with. Whoever gets past an open
semaphore uses up a unit that was given out there, and nobody gives it back; what is on
record of those who wait, and of those who were handed a unit and have not gone on, is
about open semaphores only. -/
namespace QuesOs.Kernel
open Resumption Threads Counting

variable {s s' s'' : State} {sem other : Int}

/-! ## Units -/

/-- The units of the semaphore that were given to somebody. -/
def grants (sem : Int) (history : List Event) : Nat := ((notes sem history).filterMap Note.grant).length

/-- The units that were given to the semaphore. -/
def posts (sem : Int) (history : List Event) : Nat := ((notes sem history).filter Note.isPost).length

/-- The processes that were handed a unit and have not gone on since. -/
def Procs.owed (procs : Procs) (sem : Int) : Nat := procs.granted.countP (·.2 = sem)

/-- The units that processes are past the semaphore with. -/
def State.used (s : State) (sem : Int) : Int := grants sem s.history - s.procs.owed sem

theorem grants_append (sem : Int) (new history : List Event) :
    grants sem (new ++ history) = grants sem history + ((notes sem new).filterMap Note.grant).length := by
  unfold grants
  rw [notes_append, List.filterMap_append, List.length_append]

theorem posts_append (sem : Int) (new history : List Event) :
    posts sem (new ++ history) = posts sem history + ((notes sem new).filter Note.isPost).length := by
  unfold posts
  rw [notes_append, List.filter_append, List.length_append]

/-- Those who are passed over are given nothing. -/
theorem units_of_skipped (pids : List Int) (note : Note Int) :
    ((pids.map Note.skipped ++ [note]).filterMap Note.grant).length = note.grant.toList.length ∧
      ((pids.map Note.skipped ++ [note]).filter Note.isPost).length = if note.isPost then 1 else 0 := by
  induction pids with
  | nil => cases note <;> exact ⟨rfl, rfl⟩
  | cons pid pids ih => exact ih

/-- Nobody gave the semaphore a unit, and nobody gave one back. -/
structure State.Unposted (s s' : State) (sem : Int) : Prop where
  used : s.used sem ≤ s'.used sem
  posts : posts sem s'.history = posts sem s.history
  initials : initials sem s'.history = initials sem s.history

namespace State.Unposted

theorem trans (first : s.Unposted s' sem) (second : s'.Unposted s'' sem) : s.Unposted s'' sem :=
  ⟨Int.le_trans first.used second.used, second.posts.trans first.posts, second.initials.trans first.initials⟩

/-- What happens is about others. -/
theorem of_others (granted : s'.procs.granted = s.procs.granted) (new : List Event)
    (history : s'.history = new ++ s.history)
    (others : ∀ event ∈ new, event.sem ≠ some sem) : s.Unposted s' sem := by
  refine ⟨?_, ?_, ?_⟩
  · unfold State.used Procs.owed
    rw [granted, history, grants_append, notes_others others]
    exact Int.le_refl _
  · rw [history, posts_append, notes_others others]
    rfl
  · rw [history, initials_append, initials_others others, List.append_nil]

end State.Unposted

/-- A wait that is over takes no unit back. -/
theorem owed_endWait (procs : Procs) (c : Ref) (semId sem : Int) : (procs.endWait c semId).owed sem ≤ procs.owed sem :=
  List.filter_sublist.countP_le

/-- Somebody who was handed a unit goes on. -/
theorem owed_endWait_lt {procs : Procs} (granted : (c, sem) ∈ procs.granted) :
    (procs.endWait c sem).owed sem + 1 ≤ procs.owed sem := by
  unfold Procs.owed Procs.endWait
  dsimp only
  have split := List.countP_eq_countP_filter_add procs.granted (fun w => decide (w.2 = sem))
    (fun w => decide (w ≠ (c, sem)))
  have some : 0 < ((procs.granted.filter fun w => !decide (w ≠ (c, sem))).countP fun w => decide (w.2 = sem)) :=
    List.countP_pos_iff.mpr ⟨(c, sem), List.mem_filter.mpr ⟨granted, by simp⟩, by simp⟩
  omega

/-- At most one wait ends when a pid is handed a unit. -/
theorem owed_grant (table : s.procs.Table n) (once : s.procs.waiting.Nodup)
    (block : s.procs.pcbs r = some q) (sem : Int) :
    ((s.procs.moveState r q .ready).grant sem q.pid).owed sem ≤ s.procs.owed sem + 1 := by
  unfold Procs.owed Procs.grant
  rw [List.countP_append, Nat.add_comm]
  refine Nat.add_le_add_left ?_ _
  refine Nat.le_trans (List.countP_le_length) ?_
  have only : ∀ w ∈ (s.procs.moveState r q .ready).waiting.filter fun w =>
      w.2 = sem && ((s.procs.moveState r q .ready).pcbs w.1).any (·.pid = q.pid), w ∈ [(r, sem)] := by
    intro w member
    obtain ⟨-, here⟩ := List.mem_filter.mp member
    simp only [Bool.and_eq_true, decide_eq_true_eq] at here
    obtain ⟨p, now, pid⟩ := (Option.any_eq_true _ _).mp here.2
    obtain ⟨p', was, alike, -⟩ := same_moveState block w.1 p now
    have same := table.unique w.1 r p' q was block (alike.symm.trans (by simpa using pid))
    exact List.mem_singleton.mpr (Prod.ext same here.1)
  exact (List.subperm_of_subset (once.filter _) only).length_le

theorem owed_grant_other (procs : Procs) (apart : sem ≠ other) (pid : Int) :
    (procs.grant other pid).owed sem = procs.owed sem := by
  unfold Procs.owed Procs.grant
  have none :
    (procs.waiting.filter fun w => w.2 = other && (procs.pcbs w.1).any (·.pid = pid)).countP (·.2 = sem) = 0 := by
    refine List.countP_eq_zero.mpr fun w member => ?_
    have here := (List.mem_filter.mp member).2
    simp only [Bool.and_eq_true, decide_eq_true_eq] at here
    simp [here.1, apart.symm]
  rw [List.countP_append, none, Nat.zero_add]

/-- A post gives one semaphore a unit, and nobody takes one back. -/
theorem Posts.spares (posts : Posts s other s') (apart : sem ≠ other) : s.Unposted s' sem := by
  rcases posts with ⟨-, h, grown, rfl⟩ | ⟨x, found, posted⟩
  · exact ⟨Int.le_refl _, rfl, rfl⟩
  · obtain ⟨-, rfl⟩ := find_some found
    cases posted with
    | @handed skipped pid rest procs blockedPids h queued inVain resumed left grown =>
      obtain ⟨r, q, -, -, -, -, rfl⟩ := moved_eq_some.mp resumed
      have noted : Event.note x.id (.handed x.id s.procs.callerPid pid s.procs) = some (.handed pid) := if_pos rfl
      obtain ⟨about, -, -⟩ := events_of_post noted skipped
      have others : ∀ event ∈ .handed x.id s.procs.callerPid pid s.procs :: (skipped.map (Event.skipped x.id)).reverse,
          event.sem ≠ some sem := by
        intro event member same
        exact apart (Option.some.inj (same.symm.trans (about event member)))
      have quiet : s.Unposted { s with history := (_ :: _) ++ s.history } sem := .of_others rfl _ rfl others
      refine ⟨?_, quiet.posts, quiet.initials⟩
      have used := quiet.used
      unfold State.used at used ⊢
      rw [owed_grant_other _ apart]
      exact used
    | raised inVain grown =>
      have noted : Event.note x.id (.raised x.id s.procs.callerPid s.procs) = some .raised := if_pos rfl
      obtain ⟨about, -, -⟩ := events_of_post noted x.pids
      refine .of_others rfl (_ :: _) rfl fun event member same => ?_
      exact apart (Option.some.inj (same.symm.trans (about event member)))

/-- The semaphore that is posted counts one post more. -/
theorem Posts.counts (working : Working s c) (once : s.procs.waiting.Nodup) (posts : Posts s sem s')
    (isOpen : s.sems.find sem ≠ none) :
    s.used sem ≤ s'.used sem ∧ Kernel.posts sem s'.history = Kernel.posts sem s.history + 1 ∧
      initials sem s'.history = initials sem s.history := by
  rcases posts with ⟨absent, -⟩ | ⟨x, found, posted⟩
  · exact (isOpen absent).elim
  · obtain ⟨-, rfl⟩ := find_some found
    cases posted with
    | @handed skipped pid rest procs blockedPids h queued inVain resumed left grown =>
      obtain ⟨r, q, target, block, -, -, rfl⟩ := moved_eq_some.mp resumed
      obtain ⟨_, attended⟩ := working.attended
      obtain ⟨-, q', block', rfl⟩ := target_some attended target
      cases block.symm.trans block'
      have noted : Event.note x.id (.handed x.id s.procs.callerPid q.pid s.procs) = some (.handed q.pid) := if_pos rfl
      obtain ⟨-, created, notes⟩ := events_of_post noted skipped
      have owed := owed_grant working.table once block x.id
      refine ⟨?_, ?_, ?_⟩
      · unfold State.used
        dsimp only
        rw [← List.cons_append, grants_append, notes, (units_of_skipped _ _).1]
        simp only [Note.grant, Option.toList_some, List.length_singleton]
        omega
      · dsimp only
        rw [← List.cons_append, posts_append, notes, (units_of_skipped _ _).2]
        rfl
      · dsimp only
        rw [← List.cons_append, initials_append, created, List.append_nil]
    | raised inVain grown =>
      have noted : Event.note x.id (.raised x.id s.procs.callerPid s.procs) = some .raised := if_pos rfl
      obtain ⟨-, created, notes⟩ := events_of_post noted x.pids
      refine ⟨?_, ?_, ?_⟩
      · unfold State.used
        dsimp only
        rw [← List.cons_append, grants_append, notes, (units_of_skipped _ _).1]
        exact Int.le_refl _
      · dsimp only
        rw [← List.cons_append, posts_append, notes, (units_of_skipped _ _).2]
        rfl
      · dsimp only
        rw [← List.cons_append, initials_append, created, List.append_nil]

theorem Entered.spares (entered : Entered s c p x a s') (sem : Int) : s.Unposted s' sem := by
  cases entered with
  | took positive grown =>
    by_cases here : x.id = sem
    · subst here
      have noted : notes x.id [.took x.id p.pid] = [.took p.pid] := by simp [notes, Event.note]
      refine ⟨?_, ?_, ?_⟩
      · unfold State.used
        dsimp only
        rw [← List.singleton_append, grants_append, noted]
        simp only [List.filterMap_cons, Note.grant, List.filterMap_nil, List.length_singleton]
        omega
      · dsimp only
        rw [← List.singleton_append, posts_append, noted]
        rfl
      · dsimp only
        rw [← List.singleton_append, initials_append]
        exact List.append_nil _
    · exact .of_others rfl [_] rfl (List.forall_mem_singleton.mpr fun same => here (Option.some.inj same))
  | queued empty grown last =>
    by_cases here : x.id = sem
    · subst here
      have noted : notes x.id [.arrived x.id p.pid] = [.arrived p.pid] := by simp [notes, Event.note]
      refine ⟨?_, ?_, ?_⟩
      · unfold State.used
        dsimp only
        rw [← List.singleton_append, grants_append, noted]
        exact Int.le_refl _
      · dsimp only
        rw [← List.singleton_append, posts_append, noted]
        rfl
      · dsimp only
        rw [← List.singleton_append, initials_append]
        exact List.append_nil _
    · exact .of_others rfl [_] rfl (List.forall_mem_singleton.mpr fun same => here (Option.some.inj same))

theorem Passed.spares (passed : Passed s c other s') (sem : Int) : s.Unposted s' sem := by
  have ended : ∀ s : State, s.used sem ≤ State.used { s with procs := s.procs.endWait c other } sem := by
    intro s
    have fewer := owed_endWait s.procs c other sem
    unfold State.used
    dsimp only
    omega
  cases passed with
  | absent absent grown => exact ⟨Int.le_refl _, rfl, rfl⟩
  | took found block entered => exact entered.spares sem
  | woken block ready record => exact ⟨ended s, rfl, rfl⟩
  | forced found block dead entered grown =>
    obtain ⟨used, posts, initials⟩ := entered.spares sem
    exact ⟨Int.le_trans used (ended _), posts, initials⟩

/-- There is a unit, or the process can wait for one. -/
def State.Fair (s : State) (c : Ref) (sem : Int) : Prop :=
  (∃ p, s.procs.pcbs c = some p ∧ p.state = .ready) ∨ ∃ x, s.sems.find sem = some x ∧ 0 < x.value

/-- Whoever gets past an open semaphore uses up a unit that was given to it. -/
theorem Passed.uses (passed : Passed s c sem s') (orderly : s.Orderly)
    (isOpen : s.sems.find sem ≠ none) (fair : s.Fair c sem) :
    s.used sem + 1 ≤ s'.used sem := by
  cases passed with
  | absent absent grown => exact (isOpen absent).elim
  | @took x p _ found block entered =>
    obtain ⟨-, rfl⟩ := find_some found
    cases entered with
    | took positive grown =>
      have noted : notes x.id [.took x.id p.pid] = [.took p.pid] := by simp [notes, Event.note]
      unfold State.used
      dsimp only
      rw [← List.singleton_append, grants_append, noted]
      simp only [List.filterMap_cons, Note.grant, List.filterMap_nil, List.length_singleton]
      omega
  | @woken p block ready record =>
    have granted : (c, sem) ∈ s.procs.granted := by
      refine record.resolve_left fun waits => ?_
      have here := place_of_block block (by simp [ready]) (by simp [ready])
      exact orderly.lined.ready block ready sem (orderly.lined.waits c _ sem here waits isOpen)
    have fewer := owed_endWait_lt granted
    unfold State.used
    dsimp only
    omega
  | @forced x p pid s₁ h found block dead entered grown =>
    rcases fair with ⟨q, block', ready⟩ | ⟨y, found', positive⟩
    · cases block.symm.trans block'
      rw [ready] at dead
      cases dead
    · cases found.symm.trans found'
      cases entered with
      | queued empty => omega

/-- An id that is listed is found. -/
theorem find_of_ids {sems : Sems} (member : sem ∈ sems.ids) : sems.find sem ≠ none := by
  intro none
  obtain ⟨x, listed, rfl⟩ := List.mem_map.mp member
  exact absurd rfl (of_decide_eq_false (Bool.eq_false_iff.mpr (List.find?_eq_none.mp none x listed)))

/-! ## What is on record -/

/-- The pipe with another count of its users, perhaps closed for good. -/
def Pipe.Alike (p p' : Pipe) : Prop := ∃ totalProcesses freed, p' = { p with totalProcesses, freed } ∧
    (freed = false → p.freed = false)

theorem Pipe.Alike.refl (p : Pipe) : p.Alike p := ⟨_, _, rfl, fun still => still⟩

theorem Pipe.Alike.trans {p p' p'' : Pipe} (first : p.Alike p') (second : p'.Alike p'') : p.Alike p'' := by
  obtain ⟨totalProcesses, freed, rfl, isOpen⟩ := first
  obtain ⟨totalProcesses', freed', rfl, isOpen'⟩ := second
  exact ⟨totalProcesses', freed', rfl, fun still => isOpen (isOpen' still)⟩

/-- Every pipe was there before. -/
def Pipes.Older (pipes pipes' : Pipes) : Prop := ∀ r p', pipes'.pipes r = some p' →
    ∃ p, pipes.pipes r = some p ∧ p.Alike p'

theorem Pipes.Older.trans {pipes pipes' pipes'' : Pipes} (first : pipes.Older pipes') (second : pipes'.Older pipes'') :
    pipes.Older pipes'' := by
  intro r p'' here
  obtain ⟨p', here', alike'⟩ := second r p'' here
  obtain ⟨p, here, alike⟩ := first r p' here'
  exact ⟨p, here, alike.trans alike'⟩

theorem Pipes.older_same {pipes pipes' : Pipes} (same : pipes'.pipes = pipes.pipes) : pipes.Older pipes' :=
  fun _ p here => ⟨p, same ▸ here, .refl p⟩

theorem Pipes.older_modify (pipes : Pipes) (r : Ref) {f : Pipe → Pipe} (alike : ∀ p : Pipe, p.Alike (f p)) :
    pipes.Older (pipes.modify r f) := by
  intro r' p' here
  obtain ⟨p, was, rfl⟩ := pipes_modify_some here
  split
  · exact ⟨p, was, alike p⟩
  · exact ⟨p, was, .refl p⟩

theorem Pipes.older_remove {pipes : Pipes} (proper : pipes.Proper n) (pipeId : Int) :
    pipes.Older (pipes.remove pipeId) := by
  obtain absent | ⟨r, found⟩ := (pipes.find pipeId).eq_none_or_eq_some
  · rw [remove_none proper absent]
    exact older_same rfl
  · have freed := pipes.older_modify r (f := fun p => { p with freed := true }) fun p => ⟨_, _, rfl, nofun⟩
    intro r' p' here
    rw [(remove_some proper found).2.1] at here
    exact freed r' p' here

theorem Closed.older (sound : Sound s) (closed : Closed s r p pipeId s') : s.pipes.Older s'.pipes := by
  have left := s.pipes.older_modify r (f := Pipe.leave) fun p => ⟨_, _, rfl, fun still => still⟩
  cases closed with
  | kept more => exact left
  | last last grown =>
    exact left.trans (Pipes.older_remove (sound.pipes.modify r (f := Pipe.leave) fun _ => ⟨rfl, rfl⟩) pipeId)

/-- A pipe that was opened was there, or it is new, with two semaphores that are new. -/
theorem Opened.pipes (opened : Opened s pipeId s') : s'.pipes.allPipesSem = s.pipes.allPipesSem ∧
    (s.pipes.Older s'.pipes ∧ s'.sems = s.sems ∧ s'.history = .pipeOpened pipeId :: s.history ∨
      s'.sems.semId = s.sems.semId + 2 ∧ s'.history = [.pipeOpened pipeId, .pipeMade pipeId,
        .created (s.sems.semId + 1) PIPE_BUFFER_SIZE, .created s.sems.semId 0] ++ s.history ∧
      ∀ r p', s'.pipes.pipes r = some p' → (∃ p, s.pipes.pipes r = some p ∧ p.Alike p') ∨
        (Pipe.fresh pipeId s.sems.semId (s.sems.semId + 1)).Alike p') := by
  have counts : ∀ (pipes : Pipes) (r : Ref),
    pipes.Older (pipes.modify r fun p => { p with totalProcesses := p.totalProcesses + 1 }) :=
    fun pipes r => pipes.older_modify r fun _ => ⟨_, _, rfl, fun still => still⟩
  cases opened with
  | found found grown => exact ⟨rfl, .inl ⟨counts (s.pipes.cache pipeId) _, rfl, rfl⟩⟩
  | @created h r s' absent grown created =>
    obtain ⟨grown', low, high, readSem, writeSem, listed⟩ := created
    obtain ⟨-, -, -⟩ := readSem
    obtain ⟨-, -, -⟩ := writeSem
    refine ⟨rfl, .inr ⟨Int.add_assoc .., rfl, fun r' p' here => ?_⟩⟩
    obtain ⟨p, was, alike⟩ := counts _ r r' p' here
    by_cases this : r' = r
    · subst this
      simp only [Function.update_self, Option.some.injEq] at was
      exact .inr (was ▸ alike)
    · simp only [Function.update_of_ne this] at was
      exact .inl ⟨p, was, alike⟩

/-- Nobody waits twice, nobody is owed a unit of a semaphore to come, and the mutex of the pipes
is no semaphore of a pipe. -/
structure State.Tidy (s : State) : Prop where
  once : s.procs.waiting.Nodup
  below : ∀ w ∈ s.procs.granted, w.2 < s.sems.semId
  mutex : s.pipes.allPipesSem < s.sems.semId
  apart : ∀ r p, s.pipes.pipes r = some p → p.readSemId ≠ s.pipes.allPipesSem ∧ p.writeSemId ≠ s.pipes.allPipesSem

/-- The pipes keep their semaphores, or get new ones. -/
structure State.Pipes (s s' : State) : Prop where
  semId : s.sems.semId ≤ s'.sems.semId
  mutex : s'.pipes.allPipesSem = s.pipes.allPipesSem
  pipes : ∀ r p', s'.pipes.pipes r = some p' →
    (∃ p, s.pipes.pipes r = some p ∧ p'.readSemId = p.readSemId ∧ p'.writeSemId = p.writeSemId) ∨
      s.sems.semId ≤ p'.readSemId ∧ s.sems.semId ≤ p'.writeSemId

theorem State.Tidy.next (tidy : s.Tidy) (pipes : s.Pipes s') (once : s'.procs.waiting.Nodup)
    (below : ∀ w ∈ s'.procs.granted, w.2 < s.sems.semId) : s'.Tidy := by
  refine ⟨once, fun w granted => Int.lt_of_lt_of_le (below w granted) pipes.semId, ?_, fun r p' here => ?_⟩
  · rw [pipes.mutex]
    exact Int.lt_of_lt_of_le tidy.mutex pipes.semId
  · rw [pipes.mutex]
    rcases pipes.pipes r p' here with ⟨p, was, read, write⟩ | ⟨read, write⟩
    · rw [read, write]
      exact tidy.apart r p was
    · have mutex := tidy.mutex
      omega

theorem State.Pipes.of_older (semId : s.sems.semId ≤ s'.sems.semId) (mutex : s'.pipes.allPipesSem = s.pipes.allPipesSem)
    (older : s.pipes.Older s'.pipes) : s.Pipes s' := by
  refine ⟨semId, mutex, fun r p' here => ?_⟩
  obtain ⟨p, was, _, _, rfl, -⟩ := older r p' here
  exact .inl ⟨p, was, rfl, rfl⟩

/-- A character is written or read. -/
theorem State.Tidy.written (tidy : s.Tidy) (r : Ref) {f : Pipe → Pipe}
    (same : ∀ p, (f p).readSemId = p.readSemId ∧ (f p).writeSemId = p.writeSemId) :
    State.Tidy { s with pipes := s.pipes.modify r f } := by
  refine tidy.next ⟨Int.le_refl _, rfl, fun r' p' here => .inl ?_⟩ tidy.once tidy.below
  obtain ⟨p, was, rfl⟩ := pipes_modify_some here
  split
  · exact ⟨p, was, same p⟩
  · exact ⟨p, was, rfl, rfl⟩

/-- Only what is on record changes. -/
theorem State.Tidy.same (tidy : s.Tidy) (sems : s'.sems.semId = s.sems.semId) (pipes : s'.pipes = s.pipes)
    (once : s'.procs.waiting.Nodup) (below : ∀ w ∈ s'.procs.granted, w.2 < s.sems.semId) : s'.Tidy := by
  refine tidy.next ⟨Int.le_of_eq sems.symm, by rw [pipes], fun r p here => .inl ⟨p, ?_, rfl, rfl⟩⟩ once below
  rwa [pipes] at here

theorem Posts.tidy (posts : Posts s other s') (lined : s.Lined) (tidy : s.Tidy) : s'.Tidy := by
  have pipes := posts.pipes
  rcases posts with ⟨-, h, grown, rfl⟩ | ⟨x, found, posted⟩
  · exact tidy.same rfl rfl tidy.once tidy.below
  · cases posted with
    | handed queued inVain resumed left grown =>
      obtain ⟨r, q, -, -, -, -, rfl⟩ := moved_eq_some.mp resumed
      refine tidy.same rfl rfl (tidy.once.filter _) fun w member => ?_
      rcases List.mem_append.mp member with young | old
      · exact (lined.settled w (List.mem_filter.mp young).1).2.1
      · exact tidy.below w old
    | raised inVain grown => exact tidy.same rfl rfl tidy.once tidy.below

/-- A process that waits where it did not wait before. -/
theorem Entered.tidy (entered : Entered s c p x a s') (apart : (c, x.id) ∉ s.procs.waiting)
    (tidy : s.Tidy) : s'.Tidy := by
  cases entered with
  | took positive grown => exact tidy.same rfl rfl tidy.once tidy.below
  | queued empty grown last => exact tidy.same rfl rfl (List.nodup_cons.mpr ⟨apart, tidy.once⟩) tidy.below

theorem Passed.tidy (passed : Passed s c other s') (tidy : s.Tidy) : s'.Tidy := by
  have ended : ∀ w ∈ (s.procs.endWait c other).granted, w.2 < s.sems.semId := fun w member =>
    tidy.below w (List.mem_filter.mp member).1
  cases passed with
  | absent absent grown => exact tidy.same rfl rfl tidy.once tidy.below
  | took found block entered =>
    cases entered with
    | took positive grown => exact tidy.same rfl rfl tidy.once tidy.below
  | woken block ready record => exact tidy.same rfl rfl (tidy.once.filter _) ended
  | @forced x p pid s₁ h found block dead entered grown =>
    obtain ⟨-, rfl⟩ := find_some found
    cases entered with
    | queued empty grown last =>
      refine tidy.same rfl rfl ?_ ended
      have left : ((s.procs.beginWait c x.id).endWait c x.id).waiting = (s.procs.endWait c x.id).waiting := by
        simp [Procs.beginWait, Procs.endWait]
      rw [left]
      exact tidy.once.filter _

/-- A process that is ready is not on record as waiting at an open semaphore. -/
theorem Orderly.not_waiting (orderly : s.Orderly) (block : s.procs.pcbs c = some p) (ready : p.state = .ready)
    (isOpen : s.sems.find sem ≠ none) : (c, sem) ∉ s.procs.waiting := by
  intro waits
  have here := place_of_block block (by simp [ready]) (by simp [ready])
  exact orderly.lined.ready block ready sem (orderly.lined.waits c _ sem here waits isOpen)

theorem Does.tidy (working : Working s c) (orderly : s.Orderly) (does : Does s c deed s')
    (tidy : s.Tidy) : s'.Tidy := by
  have lined := orderly.lined
  have sound := working.sound
  cases does with
  | looked grown => exact tidy.same rfl rfl tidy.once tidy.below
  | cached pipeId grown =>
    exact tidy.next ⟨Int.le_refl _, rfl, fun _ p here => .inl ⟨p, here, rfl, rfl⟩⟩ tidy.once tidy.below
  | awaited => exact tidy.same rfl rfl tidy.once tidy.below
  | passed passed => exact passed.tidy tidy
  | slept found block ready notIdle entered grown =>
    obtain ⟨-, rfl⟩ := find_some found
    have queued := entered.tidy (Orderly.not_waiting orderly block ready (by simp [found])) tidy
    exact queued.same rfl rfl queued.once queued.below
  | watched passed block =>
    have past := passed.tidy tidy
    exact past.same rfl rfl past.once past.below
  | posted posts => exact posts.tidy lined tidy
  | initiated grown added =>
    refine tidy.next ⟨?_, rfl, fun _ p here => .inl ⟨p, here, rfl, rfl⟩⟩ tidy.once tidy.below
    rw [added.ids.2]
    exact Int.le_of_lt (Int.lt_succ _)
  | moved grown target listed block notExited notTerminated alive => exact tidy.same rfl rfl tidy.once tidy.below
  | exited listed exited =>
    obtain @⟨r, p, h, s₁, p', target, block, notExited, notTerminated, grown, posts, now⟩ := exited
    have looked : (s.withHeap h).Tidy := tidy.same rfl rfl tidy.once tidy.below
    have still : (s.withHeap h).Lined := lined.fewer (fun _ _ isOpen => isOpen) rfl rfl grown.requests
    have posted := posts.tidy still looked
    exact posted.same rfl rfl posted.once posted.below
  | terminated terminated =>
    obtain ⟨target, queued, block, notTerminated, grown, reparented, now⟩ := terminated
    obtain ⟨ppid, rfl⟩ := reparented.relabelled
    exact tidy.same rfl rfl tidy.once tidy.below
  | disowned block dead => exact tidy.same rfl rfl tidy.once tidy.below
  | reniced grown queued block low high => exact tidy.same rfl rfl tidy.once tidy.below
  | yielded => exact tidy.same rfl rfl tidy.once tidy.below
  | allocated block grown low high pid ppid ready gentle unset => exact tidy.same rfl rfl tidy.once tidy.below
  | filled grown added was =>
    refine tidy.next ⟨?_, rfl, fun _ p here => .inl ⟨p, here, rfl, rfl⟩⟩ tidy.once tidy.below
    rw [added.ids.2]
    exact Int.le_of_lt (Int.lt_succ _)
  | published block alive grown was listed parent => exact tidy.same rfl rfl tidy.once tidy.below
  | opened opened =>
    obtain ⟨procs, -⟩ := opened.procs
    obtain ⟨mutex, ⟨older, sems, -⟩ | ⟨semId, -, pipes⟩⟩ := opened.pipes
    · refine tidy.next (.of_older ?_ mutex older) (by rw [procs]; exact tidy.once) (by rw [procs]; exact tidy.below)
      exact Int.le_of_eq (congrArg Sems.semId sems.symm)
    · refine tidy.next ⟨by omega, mutex, fun r p' here => ?_⟩ (by rw [procs]; exact tidy.once)
        (by rw [procs]; exact tidy.below)
      rcases pipes r p' here with ⟨p, was, _, _, rfl, -⟩ | ⟨_, _, rfl, -⟩
      · exact .inl ⟨p, was, rfl, rfl⟩
      · exact .inr ⟨Int.le_refl _, Int.le_of_lt (Int.lt_succ _)⟩
  | missed absent => exact tidy.same rfl rfl tidy.once tidy.below
  | closed here isOpen same closed =>
    have older := closed.older sound
    obtain ⟨procs, -⟩ := closed.procs
    refine tidy.next (.of_older ?_ ?_ older) (by rw [procs]; exact tidy.once) (by rw [procs]; exact tidy.below)
    · cases closed <;> exact Int.le_refl _
    · cases closed <;> simp [Pipes.modify]
  | @put r p s₁ ch _ here isOpen passed posts =>
    have written := (passed.tidy tidy).written r (f := (·.put ch)) fun _ => ⟨rfl, rfl⟩
    exact posts.tidy (passed.orderly working orderly).lined written
  | @took r p s₁ _ here isOpen passed posts =>
    have written := (passed.tidy tidy).written r (f := Pipe.take) fun _ => ⟨rfl, rfl⟩
    exact posts.tidy (passed.orderly working orderly).lined written
  | destroyed block dead grown => exact tidy.same rfl rfl tidy.once tidy.below

/-! ## What a deed gives -/

/-- The deed posts the semaphore. -/
def State.Gives (s : State) (sem : Int) : Deed → Prop
  | .posts posted => posted = sem
  | .exits pid => ∃ r p, s.procs.target pid = some r ∧ s.procs.pcbs r = some p ∧ p.semId = sem
  | .puts r _ => ∃ p, s.pipes.pipes r = some p ∧ p.readSemId = sem
  | .takes r => ∃ p, s.pipes.pipes r = some p ∧ p.writeSemId = sem
  | _ => False

/-- Whoever gets past changes nothing but the semaphore it passes, and whoever posts gives no other a unit. -/
theorem Passed.unposted_write (passed : Passed s c past s₁) {pipes : Pipes} (posts : Posts { s₁ with pipes } other s')
    (apart : sem ≠ other) : s.Unposted s' sem := by
  have written : s₁.Unposted { s₁ with pipes } sem := .of_others rfl [] rfl (List.forall_mem_nil _)
  exact ((passed.spares sem).trans written).trans (posts.spares apart)

/-- **Nobody is given a unit but by a deed that posts the semaphore**, and nobody ever gives one back. -/
theorem Does.unposted (does : Does s c deed s') (old : sem < s.sems.semId) (spared : ¬s.Gives sem deed) :
    s.Unposted s' sem := by
  have same : ∀ {s' : State}, s'.procs.granted = s.procs.granted → s'.history = s.history → s.Unposted s' sem :=
    fun granted history => .of_others granted [] history (List.forall_mem_nil _)
  have noted : ∀ {s s' : State} {event : Event}, s'.procs.granted = s.procs.granted → s'.history = event :: s.history →
      event.sem = none → s.Unposted s' sem := fun granted history about => by
    refine .of_others granted [_] history (List.forall_mem_singleton.mpr ?_)
    rw [about]
    exact (Option.some_ne_none sem).symm
  have made : ∀ {s' : State} {id v : Int}, s.sems.semId ≤ id → s'.procs.granted = s.procs.granted →
      s'.history = .created id v :: s.history → s.Unposted s' sem := fun later granted history =>
    .of_others granted [_] history (List.forall_mem_singleton.mpr fun same => by
      have := Option.some.inj same
      omega)
  cases does with
  | looked grown => exact same rfl rfl
  | cached pipeId grown => exact same rfl rfl
  | awaited => exact noted rfl rfl rfl
  | passed passed => exact passed.spares sem
  | slept found block ready notIdle entered grown =>
    exact (entered.spares sem).trans (.of_others rfl [] rfl (List.forall_mem_nil _))
  | watched passed block => exact (passed.spares sem).trans (noted rfl rfl rfl)
  | posted posts => exact posts.spares (Ne.symm spared)
  | initiated grown added => exact made (Int.le_refl _) rfl rfl
  | moved grown target listed block notExited notTerminated alive => exact same rfl rfl
  | exited listed exited =>
    obtain @⟨r, p, h, s₁, p', target, block, notExited, notTerminated, grown, posts, now⟩ := exited
    have looked : s.Unposted (s.withHeap h) sem := same rfl rfl
    have posted : (s.withHeap h).Unposted s₁ sem := posts.spares fun own => spared ⟨r, p, target, block, own.symm⟩
    exact (looked.trans posted).trans (.of_others rfl [] rfl (List.forall_mem_nil _))
  | terminated terminated =>
    obtain ⟨target, queued, block, notTerminated, grown, reparented, now⟩ := terminated
    obtain ⟨ppid, rfl⟩ := reparented.relabelled
    exact noted rfl rfl rfl
  | disowned block dead => exact same rfl rfl
  | reniced grown queued block low high => exact same rfl rfl
  | yielded => exact same rfl rfl
  | allocated block grown low high pid ppid ready gentle unset => exact same rfl rfl
  | filled grown added was => exact made (Int.le_refl _) rfl rfl
  | published block alive grown was listed parent => exact same rfl rfl
  | opened opened =>
    obtain ⟨procs, -⟩ := opened.procs
    obtain ⟨-, ⟨-, -, history⟩ | ⟨-, history, -⟩⟩ := opened.pipes
    · exact noted (by rw [procs]) history rfl
    · refine .of_others (by rw [procs]) _ history fun event member same => ?_
      simp only [List.mem_cons, List.not_mem_nil, or_false] at member
      rcases member with rfl | rfl | rfl | rfl
      · cases same
      · cases same
      · exact Int.ne_of_gt (Int.lt_trans old (Int.lt_succ _)) (Option.some.inj same)
      · exact Int.ne_of_gt old (Option.some.inj same)
  | missed absent => exact noted rfl rfl rfl
  | closed here isOpen alike closed =>
    cases closed with
    | kept more => exact noted rfl rfl rfl
    | last last grown => exact noted rfl rfl rfl
  | put here isOpen passed posts => exact passed.unposted_write posts fun own => spared ⟨_, here, own.symm⟩
  | took here isOpen passed posts => exact passed.unposted_write posts fun own => spared ⟨_, here, own.symm⟩
  | destroyed block dead grown => exact same rfl rfl

/-- Deeds that neither open a pipe nor write to one nor read from it. -/
def Deed.leavesPipes : Deed → Prop
  | .opens _ | .puts .. | .takes _ => False
  | _ => True

theorem Does.older (sound : Sound s) (does : Does s c deed s') (leaves : deed.leavesPipes) :
    s.pipes.Older s'.pipes := by
  have same : s.pipes.Older s.pipes := Pipes.older_same rfl
  cases does with
  | passed passed =>
    rw [passed.pipes]
    exact same
  | slept found block ready notIdle entered grown =>
    cases entered
    exact same
  | watched passed block =>
    dsimp only
    rw [passed.pipes]
    exact same
  | posted posts =>
    rw [posts.pipes]
    exact same
  | exited listed exited =>
    obtain ⟨target, block, notExited, notTerminated, grown, posts, now⟩ := exited
    dsimp only
    rw [posts.pipes]
    exact same
  | terminated terminated =>
    cases terminated
    exact same
  | opened opened => exact leaves.elim
  | closed here isOpen alike closed => exact closed.older sound
  | put here isOpen passed posts => exact leaves.elim
  | took here isOpen passed posts => exact leaves.elim
  | _ => exact same

/-! ## Whose semaphores they are -/

/-- The semaphores of an open pipe are open. -/
theorem Books.finds (books : Books s) (here : s.pipes.pipes r = some p) (isOpen : p.freed = false) :
    s.sems.find p.readSemId ≠ none ∧ s.sems.find p.writeSemId ≠ none := by
  obtain ⟨read, write⟩ := books.semaphores r p.card (congrArg (Option.map Pipe.card) here)
  exact ⟨find_of_ids (read.mp isOpen), find_of_ids (write.mp isOpen)⟩

/-- Nobody else has a semaphore of the pipe. -/
theorem Books.foreign (books : Books s) (here : s.pipes.pipes r = some p) (owns : s.Owns sem o)
    (notReads : o ≠ .reads r)
    (notWrites : o ≠ .writes r) : sem ≠ p.readSemId ∧ sem ≠ p.writeSemId := by
  have card : s.pipes.card r = some p.card := congrArg (Option.map Pipe.card) here
  obtain ⟨readValid, writeValid⟩ := books.positive r p.card card
  constructor
  · rintro rfl
    exact notReads (books.apart o (.reads r) _ owns ⟨p.card, card, rfl⟩ readValid)
  · rintro rfl
    exact notWrites (books.apart o (.writes r) _ owns ⟨p.card, card, rfl⟩ writeValid)

theorem Books.two (books : Books s) (here : s.pipes.pipes r = some p) : p.readSemId ≠ p.writeSemId := by
  intro same
  have card : s.pipes.card r = some p.card := congrArg (Option.map Pipe.card) here
  have clash := books.apart (.reads r) (.writes r) p.readSemId ⟨p.card, card, rfl⟩ ⟨p.card, card, same.symm⟩
    (books.positive r p.card card).1
  cases clash

/-- What is given out at an open semaphore was there or was posted. -/
theorem State.Booked.grants_le (booked : s.Booked) (isOpen : s.sems.find sem ≠ none)
    (first : initials sem s.history = [v])
    (valid : 0 ≤ v) : s.used sem ≤ v + posts sem s.history ∧
    (grants sem s.history : Int) ≤ v + posts sem s.history := by
  obtain ⟨x, found⟩ := Option.ne_none_iff_exists'.mp isOpen
  obtain ⟨listed, rfl⟩ := find_some found
  obtain ⟨v', first', steps⟩ := booked.books x listed
  cases first.symm.trans first'
  have value := steps.value_add_grants
  have low := steps.min_le_value
  dsimp only at value low
  unfold State.used grants posts
  omega

/-- There was a unit for whoever got past. -/
theorem passed_within (working : Working s c) (orderly : s.Orderly) (booked : s.Booked) (passed : Passed s c a s₁)
    (fair : s.Fair c a) (isOpen : s.sems.find a ≠ none) (isOpen' : s₁.sems.find a ≠ none)
    (first : initials a s.history = [v])
    (valid : 0 ≤ v) : s.used a + 1 ≤ v + posts a s.history := by
  have spares := passed.spares a
  have uses := passed.uses orderly isOpen fair
  have within := ((passed.booked working.sound booked).grants_le isOpen' (spares.initials.trans first) valid).1
  rw [spares.posts] at within
  exact Int.le_trans uses within

/-- A semaphore to come is new to the history, and nobody is owed a unit of it. -/
theorem State.Booked.new (booked : s.Booked) (tidy : s.Tidy) (later : s.sems.semId ≤ sem) :
    (∀ event ∈ s.history, event.sem ≠ some sem) ∧ s.procs.owed sem = 0 := by
  constructor
  · intro event old same
    exact Int.not_lt.mpr later (booked.known event old sem same)
  · refine List.countP_eq_zero.mpr fun w granted => ?_
    have below := tidy.below w granted
    simp only [decide_eq_true_eq]
    omega

end QuesOs.Kernel
