import QuesOs.Reachable

/-! The life of a process. The process table is exact in every reachable state, so
the scheduler always finds somebody to run and never gives up the process it was
called for; and nobody comes back from the dead. -/
namespace QuesOs.Kernel
open Resumption Threads Relation

variable {allowed : State → Call → Prop} {garbage : Option Ref × List Ref} {S S' : System} {s : State}

/-! ## The process table -/

/-- How often the process occurs in the queue and among the current and the idle
process, which may be the same. -/
def Procs.occurrences (procs : Procs) (r : Ref) : Nat :=
  (values procs.queue).count r + if procs.currentProcessPCB = some r ∨ procs.idleProcessPCB = some r then 1 else 0

/-- Every process is in one place, and `readyCount` counts the ready ones. -/
structure Procs.Exact (procs : Procs) : Prop where
  once : ∀ r, procs.occurrences r = if (procs.pcbs r).isSome then 1 else 0
  idle : ∃ r, procs.idleProcessPCB = some r ∧ r ∉ values procs.queue
  counted : procs.readyCount = procs.others.countP procs.isReady

theorem Procs.Table.exact {procs : Procs} (table : procs.Table n) : procs.Exact := by
  obtain ⟨idle, p, isIdle, block, -, -, away⟩ := table.idle
  have notQueued : idle ∉ values procs.queue := fun queued => away (List.mem_append_left _ queued)
  refine ⟨fun r => ?_, ⟨idle, isIdle, notQueued⟩, table.counted⟩
  have listed : (procs.pcbs r).isSome ↔ some r = procs.idleProcessPCB ∨ r ∈ procs.others :=
    Option.isSome_iff_ne_none.trans (table.listed r)
  have once := table.once
  unfold Procs.occurrences
  unfold Procs.others at once listed
  by_cases here : procs.idleProcessPCB = some r
  · obtain rfl : idle = r := Option.some.inj (isIdle.symm.trans here)
    rw [if_pos (.inr here), if_pos (listed.mpr (.inl here.symm)), List.count_eq_zero_of_not_mem notQueued]
  · by_cases current : procs.currentProcessPCB = some r
    · have last : (procs.currentProcessPCB.filter fun r => some r ≠ procs.idleProcessPCB).toList = [r] := by
        simp [current, Ne.symm here]
      rw [last] at once listed
      have apart : r ∉ values procs.queue := fun queued =>
        (List.nodup_append.mp once).2.2 r queued r (List.mem_singleton_self r) rfl
      rw [if_pos (.inl current), List.count_eq_zero_of_not_mem apart,
        if_pos (listed.mpr (.inr (List.mem_append_right _ (List.mem_singleton_self r))))]
    · have away : r ∉ (procs.currentProcessPCB.filter fun r => some r ≠ procs.idleProcessPCB).toList := by
        simp [Option.mem_toList, Option.filter_eq_some_iff, current]
      rw [if_neg (by simp [here, current]), Nat.add_zero, (List.nodup_append.mp once).1.count]
      by_cases queued : r ∈ values procs.queue
      · rw [if_pos queued, if_pos (listed.mpr (.inr (List.mem_append_left _ queued)))]
      · rw [if_neg queued, if_neg]
        intro some
        rcases listed.mp some with same | member
        · exact here same.symm
        · exact (List.mem_append.mp member).elim queued away

/-- **The process table is exact in every reachable state.** -/
theorem table_exact (run : Run allowed (boot (fun _ => true) garbage) S) : S.state.procs.Exact :=
  (ordered_reachable run).table.exact

/-- The process that was running, `init` or the shell once more. -/
theorem table_exact_yield : ∃ S, Run (fun _ _ => True) (boot (fun _ => true) (none, [])) S ∧
    S.state.procs.currentProcessPCB = some userlandRef ∧ S.state.procs.Exact := by
  have played : ((play (fun _ _ => true) [.schedule, .call .yield, .schedule] (boot (fun _ => true) (none, []))).map
      (·.state.procs.currentProcessPCB)) = some (some userlandRef) := by decide +kernel
  obtain ⟨S, played, current⟩ := Option.map_eq_some_iff.mp played
  have run : Run (fun _ _ => True) (boot (fun _ => true) (none, [])) S := play_run (fun _ _ _ => trivial) played
  exact ⟨S, run, current, table_exact run⟩

/-! ## The scheduler -/

/-- What a call of `scheduleTask` that ends in `s'` did. -/
inductive Dispatch (s s' : State) : Prop
  | kept (running : s.procs.currentProcessPCB = some r) (block : s.procs.pcbs r = some p) (ready : p.state = .ready)
    (cycles : 0 < s.procs.currentCycles) (still : s'.procs.currentProcessPCB = some r)
  | dispatched (listed : r ∈ values s.procs.queue ∨ s.procs.currentProcessPCB = some r)
    (notIdle : s.procs.idleProcessPCB ≠ some r)
    (running : s'.procs.currentProcessPCB = some r) (block : s'.procs.pcbs r = some p) (ready : p.state = .ready)
  | rested (none : s.procs.readyCount = 0) (running : s'.procs.currentProcessPCB = s.procs.idleProcessPCB)

theorem mem_others {procs : Procs} :
    r ∈ procs.others ↔ r ∈ values procs.queue ∨ procs.currentProcessPCB = some r ∧ procs.idleProcessPCB ≠ some r := by
  unfold Procs.others
  rw [List.mem_append, Option.mem_toList, Option.filter_eq_some_iff, decide_eq_true_iff]
  exact or_congr_right (and_congr_right fun _ => ne_comm)

theorem Scheduled.dispatch {s : State} (scheduled : Scheduled s s') (ordered : Ordered s) : Dispatch s s' := by
  cases scheduled with
  | kept running block ready cycles => exact .kept running block ready cycles running
  | @dispatched s₁ r p some chosen running block =>
    obtain ⟨pre, r', mid, split, -, current, ⟨pid, q, block', ready, -⟩, left, shifts⟩ := chosen
    cases running.symm.trans current
    cases block.symm.trans block'
    have listed : r ∈ s.procs.others := by
      rw [split]
      exact List.mem_append_right _ (List.mem_cons_self ..)
    refine .dispatched ((mem_others.mp listed).imp_right And.left) ?_ running block ready
    exact fun idle => (ordered.table.other listed).1 idle.symm
  | rested none grown queued idle block ready =>
    have counted := ordered.table.counted
    exact .rested (by omega) rfl

/-- The process that was running is not freed. -/
theorem Scheduled.spares {s : State} (scheduled : Scheduled s s') (ordered : Ordered s)
    (running : s.procs.currentProcessPCB = some c) : s'.procs.pcbs c ≠ none := by
  have shifts := scheduled.shifts
  have table' := (shifts_ordered shifts ordered).table
  by_cases idle : s.procs.idleProcessPCB = some c
  · refine (table'.listed c).mpr (.inl ?_)
    rw [(shifts_relies shifts ordered c).later.procs.idle, idle]
  · have last := others_of_running running idle
    refine (table'.listed c).mpr (.inr (mem_others.mpr ?_))
    have away : s'.procs.idleProcessPCB ≠ some c := by
      rw [(shifts_relies shifts ordered c).later.procs.idle]
      exact idle
    cases scheduled with
    | kept running' block ready cycles => exact .inr ⟨running, away⟩
    | @dispatched s₁ r p some chosen running' block =>
      obtain ⟨pre, r', mid, split, -, current, -, left, -⟩ := chosen
      -- It was put last, so nobody who was passed over can be it.
      rw [last] at split
      rcases List.eq_nil_or_concat mid with rfl | ⟨mid, x, rfl⟩
      · obtain ⟨-, same⟩ := List.append_inj' split rfl
        obtain rfl := List.singleton_injective same
        exact .inr ⟨current, away⟩
      · have ends : values s.procs.queue ++ [c] = (pre ++ r' :: mid) ++ [x] := by
          rw [split]
          simp
        obtain ⟨-, same⟩ := List.append_inj' ends rfl
        obtain rfl := List.singleton_injective same
        refine .inl ?_
        change c ∈ values s₁.procs.queue
        rw [left]
        simp
    | rested none grown queued isIdle block ready =>
      refine .inl ?_
      rw [queued, last]
      simp

/-- **Every call of `scheduleTask` comes to an end**, with a process to run, and with
the process it was called for still there. Only the counter of a semaphore may overflow,
where a freed process posts to one that is almost full. -/
theorem schedule_ends (run : Run allowed (boot (fun _ => true) garbage) S) :
    (∃ s', scheduleTask.run S.state = .ok ((), s') ∧ Dispatch S.state s' ∧
      ∀ c, S.state.procs.currentProcessPCB = some c → s'.procs.pcbs c ≠ none) ∨
    scheduleTask.run S.state = .error .overflow ∧ ¬S.state.sems.Room (4 * S.state.procs.others.length) := by
  have ordered := ordered_reachable run
  have spare : Spare (fun fault => fault = .overflow ∧ ¬S.state.sems.Room (4 * S.state.procs.others.length))
      (4 * S.state.procs.others.length) S.state.sems := (em' _).imp_left fun full => ⟨rfl, full⟩
  rcases (scheduleTask_spec spare ordered).ends with ⟨⟨⟩, s', ran, scheduled⟩ | ⟨_, ran, rfl, full⟩
  · exact .inl ⟨s', ran, scheduled.dispatch ordered, fun c running => scheduled.spares ordered running⟩
  · exact .inr ⟨ran, full⟩

/-- The shell was running, and its time is up. -/
theorem schedule_ends_expired : ∃ S, Run (fun _ _ => True) (boot (fun _ => true) (none, [])) S ∧
    S.state.procs.currentProcessPCB = some userlandRef ∧ S.state.procs.currentCycles = 0 ∧
    ∃ s', scheduleTask.run S.state = .ok ((), s') ∧ Dispatch S.state s' ∧
      ∀ c, S.state.procs.currentProcessPCB = some c → s'.procs.pcbs c ≠ none := by
  have played : ((play (fun _ _ => true) [.schedule, .call .yield, .schedule, .schedule, .schedule]
      (boot (fun _ => true) (none, []))).map fun S => (S.state.procs.currentProcessPCB, S.state.procs.currentCycles,
        decide (S.state.sems.Room (4 * S.state.procs.others.length)))) =
          some (some userlandRef, 0, true) := by decide +kernel
  obtain ⟨S, played, observed⟩ := Option.map_eq_some_iff.mp played
  have run : Run (fun _ _ => True) (boot (fun _ => true) (none, [])) S := play_run (fun _ _ _ => trivial) played
  obtain ⟨current, rest⟩ := Prod.mk.inj observed
  obtain ⟨cycles, room⟩ := Prod.mk.inj rest
  exact ⟨S, run, current, cycles, (schedule_ends run).resolve_right fun full => full.2 (of_decide_eq_true room)⟩

/-! ## A post too many -/

/-- The state after `n` posts of a semaphore that nobody waits for. -/
def State.posted (s : State) (sem : Sem) (n : Nat) : State :=
  { s with
    heap := { s.heap with requests := s.heap.requests + n }
    sems := s.sems.modify sem.ref fun x => { x with value := x.value + n }
    history := List.replicate n (.raised sem.id s.procs.callerPid s.procs) ++ s.history }

/-- The semaphore may be posted, and nobody waits for it. -/
structure Unwaited (s : State) (sem : Sem) : Prop where
  grants : s.Grants
  proper : s.sems.Proper s.heap.requests
  found : s.sems.find sem.id = some sem
  nobody : sem.blockedPids = []

theorem Unwaited.posts (unwaited : Unwaited s sem) (fits : sem.value < INT_MAX) :
    (semPost sem.id).run s = .ok (0, s.posted sem 1) := by
  obtain ⟨member, -⟩ := find_some unwaited.found
  obtain ⟨unlocked, queued, -⟩ := unwaited.proper.plain sem member
  obtain ⟨queueRef, queued⟩ := Option.isSome_iff_exists.mp queued
  have locked := find_ref_modify unwaited.proper member (f := fun x => { x with lock := 1 }) fun _ => rfl
  have raised : ((s.sems.modify sem.ref fun x => { x with lock := 1 }).modify sem.ref
      fun x => { x with value := x.value + 1 }).modify sem.ref (fun x => { x with lock := 0 }) =
      s.sems.modify sem.ref fun x => { x with value := x.value + 1 } := by
    rw [modify_modify _ _ _ _ fun _ => by rfl, modify_modify _ _ _ _ fun _ => by rfl]
    refine modify_congr fun x listed here => ?_
    obtain rfl : x = sem := List.inj_on_of_nodup_map unwaited.proper.refs listed member here
    simp only [Function.comp_apply, unlocked]
  have meets : Meets (fun _ => False) (semPost sem.id) (fun a s' => a = 0 ∧ s' = s.posted sem 1) s := by
    unfold semPost
    rw [meets_bind, meets_findSem unwaited.grants, unwaited.found]
    simp only
    rw [meets_bind, meets_acquireSem (by exact unwaited.proper) (by exact member)]
    simp only [queued, unwaited.nobody, List.length_nil, semPostLoop, meets_bind, meets_discard, meets_deref_some,
      meets_pure, Bool.not_false, if_true, meets_get, meets_readSem, withHeap_sems, locked, meets_lookup_some]
    refine meets_increment_within (.inr fits) fun _ => ?_
    simp only [meets_modifySem, meets_log, releaseSem, raised]
    exact ⟨trivial, rfl⟩
  obtain ⟨a, s', ran, rfl, rfl⟩ | ⟨_, _, impossible⟩ := meets.ends
  · exact ran
  · exact impossible.elim

theorem posted_zero (s : State) (sem : Sem) : s.posted sem 0 = s := by
  have same : s.sems.modify sem.ref (fun x => { x with value := x.value + (0 : Nat) }) = s.sems := by
    simp [Sems.modify]
  unfold State.posted
  rw [same]
  rfl

theorem posted_succ (s : State) (sem : Sem) (n : Nat) :
    (s.posted sem n).posted { sem with value := sem.value + n } 1 = s.posted sem (n + 1) := by
  have sums : (s.posted sem n).sems.modify sem.ref (fun x => { x with value := x.value + (1 : Nat) }) =
      s.sems.modify sem.ref fun x => { x with value := x.value + (n + 1 : Nat) } := by
    unfold State.posted
    rw [modify_modify _ _ _ _ fun _ => by rfl]
    refine modify_congr fun x _ _ => ?_
    simp only [Function.comp_apply, Int.natCast_add, Int.add_assoc]
  unfold State.posted at sums ⊢
  simp only [sums]
  rfl

theorem Unwaited.posted (unwaited : Unwaited s sem) (n : Nat) :
    Unwaited (s.posted sem n) { sem with value := sem.value + n } where
  grants := unwaited.grants
  proper := (unwaited.proper.modify sem.ref (f := fun x => { x with value := x.value + n }) (fun _ => ⟨rfl, rfl⟩)
    fun _ plain => plain).grown (Nat.le_add_right _ _)
  found := find_modify_self (fun _ => rfl) unwaited.found
  nobody := unwaited.nobody

theorem play_posts (due : S.due = false) (turn : S.state.procs.currentProcessPCB = some r)
    (awake : some r ≠ S.state.procs.idleProcessPCB) (fresh : S.contexts r = none)
    (unwaited : Unwaited S.state sem) (n : Nat) (fits : sem.value + n ≤ INT_MAX) :
    play (fun _ _ => true) (List.replicate n (.call (.semPost sem.id))) S =
      some { S with state := S.state.posted sem n } := by
  induction n with
  | zero =>
    rw [posted_zero]
    rfl
  | succ n ih =>
    have last := (unwaited.posted n).posts (Int.lt_of_lt_of_le (by simp only []; omega) fits)
    rw [posted_succ] at last
    have ends : (Call.semPost sem.id).perform.execute (S.state.posted sem n) =
        .ok (.finished 0 (S.state.posted sem (n + 1))) := by
      change (Program.act (semPost sem.id) Program.done).execute _ = _
      simp only [Program.execute, last]
    have took := take_call (fun _ _ => true) (S := { S with state := S.state.posted sem n }) (by exact due)
      turn awake fresh rfl ends
    rw [List.replicate_succ', play_append, ih (by omega), Option.bind_some]
    simp only [play, took, Option.bind_some]

/-- The shell started a process that writes to pipe 7, killed it and waited for it. -/
def awaited : List Move :=
  [.schedule, .schedule, .schedule, .call (.startTask (some 0) ["p"] 1 (some (0, 7))), .call (.killTask 4),
    .call (.waitpid 4)]

/-- So many posts later, when the process is freed. -/
theorem overflows_after (n : Nat) (fits : n ≤ INT_MAX)
    (observed : ((play (fun _ _ => true) awaited (boot (fun _ => true) (none, []))).bind fun S =>
      (S.state.sems.find 6).bind fun sem =>
        (play (fun _ _ => true) (List.replicate 4 .schedule) { S with state := S.state.posted sem n }).map fun S' =>
          ((S.due, S.state.procs.currentProcessPCB, S.state.procs.idleProcessPCB, (S.contexts userlandRef).isNone),
            (sem.value, sem.blockedPids.isEmpty), (scheduleTask.run S'.state).toOption.isNone)) =
      some ((false, some userlandRef, some idleRef, true), (0, true), true)) :
    ∃ S, play (fun _ _ => true) (awaited ++ List.replicate n (.call (.semPost 6)) ++ List.replicate 4 .schedule)
      (boot (fun _ => true) (none, [])) = some S ∧ scheduleTask.run S.state = .error .overflow := by
  obtain ⟨S, waits, rest⟩ := Option.bind_eq_some_iff.mp observed
  obtain ⟨sem, found, rest⟩ := Option.bind_eq_some_iff.mp rest
  obtain ⟨S', ticks, same⟩ := Option.map_eq_some_iff.mp rest
  simp only [Prod.mk.injEq] at same
  obtain ⟨⟨due, turn, awake, fresh⟩, ⟨value, nobody⟩, fails⟩ := same
  have run : Run (fun _ _ => True) (boot (fun _ => true) (none, [])) S := play_run (fun _ _ _ => trivial) waits
  have ordered := ordered_reachable run
  have unwaited : Unwaited S.state sem :=
    ⟨ordered.sound.grants, ordered.sound.sems, (find_some found).2.symm ▸ found, List.isEmpty_iff.mp nobody⟩
  have posts := play_posts due turn (by rw [awake]; decide) (Option.isNone_iff_eq_none.mp fresh) unwaited n
    (by rw [value]; omega)
  rw [(find_some found).2] at posts
  have played : play (fun _ _ => true)
      (awaited ++ List.replicate n (.call (.semPost 6)) ++ List.replicate 4 .schedule)
      (boot (fun _ => true) (none, [])) = some S' := by
    rw [play_append, play_append, waits, Option.bind_some, posts, Option.bind_some, ticks]
  have run' : Run (fun _ _ => True) (boot (fun _ => true) (none, [])) S' := play_run (fun _ _ _ => trivial) played
  -- What fails in `scheduleTask` is a counter.
  have spare : Spare (· = .overflow) (4 * S'.state.procs.others.length) S'.state.sems := .inl rfl
  rcases (scheduleTask_spec spare (ordered_reachable run')).ends with ⟨_, s', ran, -⟩ | ⟨_, ran, rfl⟩
  · rw [ran] at fails
    cases fails
  · exact ⟨S', played, ran⟩

/-- The 2^31st unit of its semaphore is posted for the end of the file. -/
theorem schedule_overflows : ∃ S, play (fun _ _ => true)
    (awaited ++ List.replicate 2147483647 (.call (.semPost 6)) ++ List.replicate 4 .schedule)
      (boot (fun _ => true) (none, [])) = some S ∧ scheduleTask.run S.state = .error .overflow :=
  overflows_after 2147483647 (by decide) (by decide +kernel)

/-! ## The end of a process -/

/-- A process that has exited can only be terminated, and one that was terminated
stays so. -/
def ProcessState.Ages (state state' : ProcessState) : Prop :=
  state = .exited ∨ state = .terminated → state' = state ∨ state' = .terminated

theorem ProcessState.Ages.trans {state state' state'' : ProcessState} (first : state.Ages state')
    (second : state'.Ages state'') : state.Ages state'' := by
  intro dead
  rcases first dead with rfl | rfl
  · exact second dead
  · exact .inr ((second (.inr rfl)).elim id id)

/-- Every process is still there, and has aged. -/
def Procs.Aged (procs procs' : Procs) : Prop :=
  ∀ r p, procs.pcbs r = some p → ∃ p', procs'.pcbs r = some p' ∧ p.state.Ages p'.state

theorem Procs.Aged.refl (procs : Procs) : procs.Aged procs := fun _ p block => ⟨p, block, fun _ => .inl rfl⟩

theorem Procs.Aged.trans {procs procs' procs'' : Procs} (first : procs.Aged procs') (second : procs'.Aged procs'') :
    procs.Aged procs'' := by
  intro r p block
  obtain ⟨p', block', ages⟩ := first r p block
  obtain ⟨p'', block'', ages'⟩ := second r p' block'
  exact ⟨p'', block'', ages.trans ages'⟩

/-- A process that has not exited may take any state, and any process may be terminated. -/
theorem aged_moveState {procs : Procs} {newState : ProcessState} (block : procs.pcbs r = some p)
    (may : p.state.Ages newState) : procs.Aged (procs.moveState r p newState) := by
  intro r' p' block'
  by_cases here : r' = r
  · subst here
    cases block.symm.trans block'
    exact ⟨_, Function.update_self .., may⟩
  · exact ⟨p', by simpa only [Procs.moveState, Function.update_of_ne here] using block', fun _ => .inl rfl⟩

/-- Writes that leave the states. -/
theorem aged_map {procs procs' : Procs} {f : Ref → Pcb → Pcb} (now : ∀ r, procs'.pcbs r = (procs.pcbs r).map (f r))
    (same : ∀ r p, (f r p).state = p.state) : procs.Aged procs' := by
  intro r p block
  exact ⟨f r p, by rw [now, block, Option.map_some], fun _ => .inl (same r p)⟩

theorem Life.aged (table : s.procs.Table n) (life : Life s s') : s.procs.Aged s'.procs := by
  have alive : ∀ {p : Pcb} {newState : ProcessState}, p.state ≠ .exited → p.state ≠ .terminated →
    p.state.Ages newState :=
    fun notExited notTerminated dead => (dead.elim notExited notTerminated).elim
  cases life with
  | wake wake =>
    cases wake with
    | quiet grown deaths procs =>
      rw [procs]
      exact .refl _
    | woken grown deaths listed block notExited notTerminated procs =>
      rw [procs]
      exact aged_moveState block (alive notExited notTerminated)
  | moved grown deaths listed block notExited notTerminated living procs =>
    rw [procs]
    exact aged_moveState block (alive notExited notTerminated)
  | @terminated r p middle p' grown queued block notTerminated reparented block' procs deaths =>
    obtain ⟨ppid, rfl⟩ := reparented.relabelled
    rw [procs]
    have relabelled : s.procs.Aged { s.procs with pcbs := fun r => (s.procs.pcbs r).map fun p =>
      { p with ppid := ppid r p } } :=
      aged_map (fun _ => rfl) fun _ _ => rfl
    exact relabelled.trans (aged_moveState block' fun _ => .inr rfl)
  | @disowned r p grown deaths block dead procs =>
    intro r' p' block'
    rw [procs]
    by_cases here : r' = r
    · subst here
      cases block.symm.trans block'
      exact ⟨_, Function.update_self .., fun _ => .inl rfl⟩
    · exact ⟨p', by simpa only [Function.update_of_ne here] using block', fun _ => .inl rfl⟩
  | tuned grown deaths priority procs =>
    rw [procs]
    exact aged_map (fun _ => rfl) fun _ _ => rfl
  | allocated grown deaths running block low high pid ppid ready procs =>
    rw [procs]
    exact Procs.Aged.refl s.procs
  | filled grown deaths was procs =>
    rw [procs]
    exact Procs.Aged.refl s.procs
  | @published c q r p queue ppid arguments grown deaths running block living was listed parent procs =>
    intro r' p' block'
    rw [procs]
    have here : r' ≠ r := fun same => by
      have absent := (table.newApart c r p was).1
      rw [← same, block'] at absent
      cases absent
    exact ⟨p', by simpa only [Function.update_of_ne here] using block', fun _ => .inl rfl⟩

theorem Lives.aged (table : s.procs.Table s.heap.requests) (lives : Lives s s') : s.procs.Aged s'.procs := by
  induction lives with
  | refl => exact .refl _
  | tail lives life ih => exact ih.trans (life.aged (Lives.table table lives))

/-- What the scheduler leaves of the processes: it frees those that were terminated,
and may wake those that are blocked. -/
def Procs.Thinned (procs procs' : Procs) : Prop :=
  ∀ r p, procs.pcbs r = some p → (p.state = .terminated ∧ procs'.pcbs r = none) ∨ procs'.pcbs r = some p ∨
    (p.state = .blocked ∧ procs'.pcbs r = some { p with state := .ready })

theorem Shift.thinned (shift : Shift s s') : s.procs.Thinned s'.procs := by
  intro r p block
  cases shift with
  | rotated grown same => exact .inr (.inl block)
  | @reaped c q s₁ h queue currentProcessPCB working reaped grown others =>
    have spared := (reaped.wakes working).spared
    obtain ⟨block', dead, -⟩ := reaped
    by_cases here : r = c
    · subst here
      cases block.symm.trans block'
      exact .inl ⟨dead, Function.update_self ..⟩
    · simp only [Function.update_of_ne here]
      rcases spared.pcbs r with same | ⟨p', was, blocked, now⟩
      · exact .inr (.inl (same.trans block))
      · cases block.symm.trans was
        exact .inr (.inr ⟨blocked, now⟩)

theorem shifts_thinned (shifts : ReflTransGen Shift s s') (ordered : Ordered s) : s.procs.Thinned s'.procs := by
  induction shifts with
  | refl => exact fun r p block => .inr (.inl block)
  | @tail s₁ s₂ shifts shift ih =>
    intro r p block
    rcases ih r p block with ⟨dead, freed⟩ | kept | ⟨blocked, woken⟩
    · have outlives := (shifts_relies shifts ordered r).later.procs
      have gone : s₁.Gone r := by
        refine ⟨?_, freed, fun c q new => ?_⟩
        · exact Nat.lt_of_lt_of_le (ordered.table.below r p block) outlives.grown.requests
        · obtain ⟨q', was⟩ := outlives.pending c r q new (ordered.table.below r p block)
          have absent := (ordered.table.newApart c r q' was).1
          rw [block] at absent
          cases absent
      exact .inl ⟨dead, (gone.later shift.outlives).freed⟩
    · exact shift.thinned r p kept
    · rcases shift.thinned r _ woken with ⟨dead, -⟩ | kept | ⟨asleep, -⟩
      · cases dead
      · exact .inr (.inr ⟨blocked, kept⟩)
      · cases asleep

/-- What one step does to those that have come to their end. -/
structure State.Buries (s s' : State) : Prop where
  exited : ∀ r p, s.procs.pcbs r = some p → p.state = .exited →
    ∃ p', s'.procs.pcbs r = some p' ∧ (p'.state = .exited ∨ p'.state = .terminated)
  terminated : ∀ r p p', s.procs.pcbs r = some p → p.state = .terminated → s'.procs.pcbs r = some p' →
    p'.state = .terminated
  freed : ∀ r p, s.procs.pcbs r = some p → s'.procs.pcbs r = none → p.state = .terminated

theorem buries_of_aged {s s' : State} (aged : s.procs.Aged s'.procs) : s.Buries s' := by
  refine ⟨fun r p block state => ?_, fun r p p' block state block' => ?_, fun r p block freed => ?_⟩
  · obtain ⟨p', block', ages⟩ := aged r p block
    exact ⟨p', block', state ▸ ages (.inl state)⟩
  · obtain ⟨p'', block'', ages⟩ := aged r p block
    cases block'.symm.trans block''
    exact (ages (.inr state)).elim (fun same => same.trans state) id
  · obtain ⟨p', block', -⟩ := aged r p block
    rw [freed] at block'
    cases block'

theorem buries_of_thinned {s s' : State} (thinned : s.procs.Thinned s'.procs) : s.Buries s' := by
  refine ⟨fun r p block state => ?_, fun r p p' block state block' => ?_, fun r p block freed => ?_⟩
  · rcases thinned r p block with ⟨dead, -⟩ | kept | ⟨blocked, -⟩
    · rw [state] at dead
      cases dead
    · exact ⟨p, kept, .inl state⟩
    · rw [state] at blocked
      cases blocked
  · rcases thinned r p block with ⟨-, freed⟩ | kept | ⟨blocked, -⟩
    · rw [freed] at block'
      cases block'
    · cases kept.symm.trans block'
      exact state
    · rw [state] at blocked
      cases blocked
  · rcases thinned r p block with ⟨dead, -⟩ | kept | ⟨-, woken⟩
    · exact dead
    · rw [freed] at kept
      cases kept
    · rw [freed] at woken
      cases woken

/-- A process that was freed is gone for good. -/
theorem gone_of_freed (outlives : s.Outlives s') (table : s.procs.Table s.heap.requests)
    (block : s.procs.pcbs r = some p)
    (freed : s'.procs.pcbs r = none) : s'.Gone r := by
  have old := table.below r p block
  refine ⟨Nat.lt_of_lt_of_le old outlives.grown.requests, freed, fun c q new => ?_⟩
  obtain ⟨q', was⟩ := outlives.pending c r q new old
  have absent := (table.newApart c r q' was).1
  rw [block] at absent
  cases absent

theorem step_outlives (run : Run allowed (boot (fun _ => true) garbage) S) (step : Step machine (Issues allowed) S S') :
    S.state.Outlives S'.state := by
  have holds := holds_reachable run
  cases ((discipline _).holds_step (calls_follow allowed) holds step).2 with
  | scheduled ran _ => exact (shifts_relies (scheduled_of_run holds.inv ran).shifts holds.inv 0).later.procs
  | turned running due chain => exact (chain.later ⟨holds.inv.sound, holds.inv.table, running⟩).procs

theorem run_outlives (run : Run allowed (boot (fun _ => true) garbage) S) (later : Run allowed S S') :
    S.state.Outlives S'.state := by
  induction later with
  | refl => exact .refl _
  | tail before step ih => exact ih.trans (step_outlives (run.trans before) step)

theorem step_buries (run : Run allowed (boot (fun _ => true) garbage) S) (step : Step machine (Issues allowed) S S') :
    S.state.Buries S'.state := by
  have holds := holds_reachable run
  cases ((discipline _).holds_step (calls_follow allowed) holds step).2 with
  | scheduled ran _ => exact buries_of_thinned (shifts_thinned (scheduled_of_run holds.inv ran).shifts holds.inv)
  | turned running due chain =>
    have working : Working S.state _ := ⟨holds.inv.sound, holds.inv.table, running⟩
    exact buries_of_aged ((chain.lives working).aged holds.inv.table)

/-- **Nobody comes back from the dead.** One step takes an exited process no further
than to its termination, whoever the scheduler dispatches is ready, and a process is
freed once, when it was terminated. -/
theorem lifecycle (run : Run allowed (boot (fun _ => true) garbage) S) (step : Step machine (Issues allowed) S S') :
    S.state.Buries S'.state ∧
    (∀ s', scheduleTask.run S.state = .ok ((), s') →
      ∃ r p, s'.procs.currentProcessPCB = some r ∧ s'.procs.pcbs r = some p ∧ p.state = .ready) ∧
    ∀ r, S.state.procs.pcbs r ≠ none → S'.state.procs.pcbs r = none →
      ∀ S'', Run allowed S' S'' → S''.state.procs.pcbs r = none := by
  have ordered := ordered_reachable run
  refine ⟨step_buries run step, fun s' ran => ?_, fun r there freed S'' later => ?_⟩
  · obtain ⟨r, pid, current, p, block, ready, -⟩ := (scheduled_of_run ordered ran).runs
    exact ⟨r, p, current, block, ready⟩
  · obtain ⟨p, block⟩ := Option.ne_none_iff_exists'.mp there
    have gone := gone_of_freed (step_outlives run step) ordered.table block freed
    exact (gone.later (run_outlives (run.tail step) later)).freed

/-- The shell started a process, killed it and waited for it; now the scheduler frees it. -/
theorem lifecycle_freed : ∃ S S', Run (fun _ _ => True) (boot (fun _ => true) (none, [])) S ∧
    Step machine (Issues fun _ _ => True) S S' ∧ S.state.procs.isDead 41 = true ∧ S'.state.procs.pcbs 41 = none ∧
    S.state.Buries S'.state ∧ ∀ S'', Run (fun _ _ => True) S' S'' → S''.state.procs.pcbs 41 = none := by
  have played : (((play (fun _ _ => true) [.schedule, .call .yield, .schedule,
      .call (.startTask (some 0) ["p"] 1 (some (0, 1))), .call (.killTask 4), .call (.waitpid 4),
      .call .yield, .schedule, .resume,
      .call .yield] (boot (fun _ => true) (none, []))).bind fun S =>
      (take (fun _ _ => true) S .schedule).map fun S' => (S, S')).map
      fun both => (both.1.state.procs.isDead 41, both.2.state.procs.pcbs 41)) = some (true, none) := by decide +kernel
  obtain ⟨⟨S, S'⟩, played, observed⟩ := Option.map_eq_some_iff.mp played
  obtain ⟨dead, freed⟩ := Prod.mk.inj observed
  obtain ⟨_, played, taken⟩ := Option.bind_eq_some_iff.mp played
  obtain ⟨_, took, same⟩ := Option.map_eq_some_iff.mp taken
  cases same
  have run : Run (fun _ _ => True) (boot (fun _ => true) (none, [])) S := play_run (fun _ _ _ => trivial) played
  have step : Step machine (Issues fun _ _ => True) S S' := take_step (fun _ _ _ => trivial) .schedule took
  obtain ⟨buries, -, once⟩ := lifecycle run step
  refine ⟨S, S', run, step, dead, freed, buries, once 41 (fun none => ?_) freed⟩
  change Procs.isDead _ 41 = true at dead
  simp [Procs.isDead, none] at dead

end QuesOs.Kernel
