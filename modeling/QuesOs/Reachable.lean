import QuesOs.Scheduler

/-! Every reachable state of the kernel. The system calls and the scheduler keep
the semaphores, the pipes and the process table in order, so whatever every deed
and every shift keeps holds in every reachable state. -/
namespace QuesOs.Kernel
open Resumption Threads Relation

variable {s : State}

/-! ## The scheduler as others see it -/

theorem Scheduled.shifts (scheduled : Scheduled s s') : ReflTransGen Shift s s' := by
  cases scheduled with
  | kept running block ready cycles => exact .single (.rotated (.refl _) (.refl _))
  | dispatched some chosen running block =>
    obtain ⟨pre, r, mid, split, -, current, ready, left, shifts⟩ := chosen
    exact shifts.tail (.rotated (.refl _) (.refl _))
  | @rested h queue r p none grown queued idle block ready =>
    refine .single (.rotated grown (List.Perm.of_eq ?_))
    have nobody : (s.procs.idleProcessPCB.filter fun r' => some r' ≠ s.procs.idleProcessPCB).toList = [] := by
      rw [idle]
      simp
    exact (congrArg (values queue ++ ·) nobody).trans ((List.append_nil _).trans queued)

/-- The process that runs next is ready. -/
theorem Scheduled.runs (scheduled : Scheduled s s') :
    ∃ r pid, s'.procs.currentProcessPCB = some r ∧ s'.procs.Ready r pid := by
  cases scheduled with
  | kept running block ready cycles => exact ⟨_, _, running, _, block, ready, rfl⟩
  | dispatched some chosen running block =>
    obtain ⟨pre, r, mid, split, -, current, ⟨pid, ready⟩, left, shifts⟩ := chosen
    exact ⟨r, pid, current, ready⟩
  | rested none grown queued idle block ready => exact ⟨_, _, idle, _, block, ready, rfl⟩

/-- The process was freed, and does not come back. -/
structure State.Gone (s : State) (t : Ref) : Prop where
  old : t < s.heap.requests
  freed : s.procs.pcbs t = none
  settled : ∀ c q, s.procs.newProcess c ≠ some (t, q)

theorem State.Gone.later (gone : s.Gone t) (outlives : s.Outlives s') : s'.Gone t := by
  refine ⟨Nat.lt_of_lt_of_le gone.old outlives.grown.requests, Option.eq_none_iff_forall_ne_some.mpr ?_, ?_⟩
  · intro p' block
    obtain ⟨p, was, -⟩ := outlives.blocks t p' block gone.old gone.settled
    rw [gone.freed] at was
    cases was
  · intro c q new
    obtain ⟨p, was⟩ := outlives.pending c t q new gone.old
    exact gone.settled c p was

/-- What a paused process can count on. -/
structure Relies (t : Ref) (s s' : State) : Prop where
  later : s.Later s'
  records : ∀ sem, s.Records t sem → s'.Records t sem ∨ s'.Gone t

theorem Relies.trans (first : Relies t s s') (second : Relies t s' s'') : Relies t s s'' := by
  refine ⟨first.later.trans second.later, fun sem record => ?_⟩
  rcases first.records sem record with record | gone
  · exact second.records sem record
  · exact .inr (gone.later second.later.procs)

theorem Relies.refl (t : Ref) (s : State) : Relies t s s := ⟨.refl s, fun _ => .inl⟩

theorem Shift.relies (shift : Shift s s') (ordered : Ordered s) (t : Ref) : Relies t s s' := by
  refine ⟨⟨shift.outlives, shift.kept⟩, fun sem record => ?_⟩
  cases shift with
  | rotated grown same => exact .inl record
  | @reaped c p s₁ h queue currentProcessPCB working reaped grown others =>
    have spared := (reaped.wakes working).spared
    obtain ⟨block, dead, chain⟩ := reaped
    by_cases here : t = c
    · subst here
      refine .inr ⟨?_, Function.update_self .., fun c' q new => ?_⟩
      · have old := working.table.below t p block
        exact Nat.lt_of_lt_of_le old (Nat.le_trans (chain.later working).procs.grown.requests grown.requests)
      · have was : s.procs.newProcess c' = some (t, q) := spared.newProcess ▸ new
        have absent := (ordered.table.newApart c' t q was).1
        rw [block] at absent
        cases absent
    · exact .inl (chain.records here record)

theorem shifts_ordered (shifts : ReflTransGen Shift s s') (ordered : Ordered s) : Ordered s' := by
  induction shifts with
  | refl => exact ordered
  | tail _ shift ih => exact shift.ordered ih

theorem shifts_relies (shifts : ReflTransGen Shift s s') (ordered : Ordered s) (t : Ref) : Relies t s s' := by
  induction shifts with
  | refl => exact .refl t s
  | tail shifts shift ih => exact ih.trans (shift.relies (shifts_ordered shifts ordered) t)

/-- What every shift keeps, the scheduler keeps. -/
theorem shifts_keep {J : State → Prop} (chain : ReflTransGen Shift s s') (ordered : Ordered s) (start : J s)
    (each : ∀ s s', Ordered s → J s → Shift s s' → J s') : J s' := by
  induction chain with
  | refl => exact start
  | tail chain shift ih => exact each _ _ (shifts_ordered chain ordered) ih shift

/-! ## The discipline -/

theorem scheduled_of_run (ordered : Ordered s) (ran : machine.schedule.run s = .ok ((), s')) : Scheduled s s' := by
  have meets : Meets (fun _ => True) scheduleTask (fun _ => Scheduled s) s := scheduleTask_spec .lenient ordered
  exact (meets_of_run ran).mp meets

/-- Processes that do as `A` allows, and the scheduler, keep the kernel in order. -/
def discipline (A : Deed → State → State → Prop) : Discipline machine where
  inv := Ordered
  turn s := ∃ r pid, s.procs.currentProcessPCB = some r ∧ s.procs.Ready r pid
  does := Chain A
  rely := Relies
  refl := Relies.refl
  trans _ _ _ _ := Relies.trans
  spared t t' s s' ordered running chain other := by
    have working : Working s t := ⟨ordered.sound, ordered.table, running⟩
    exact ⟨chain.later working, fun sem record => .inl (chain.records other record)⟩
  schedule s s' ordered ran := by
    have scheduled := scheduled_of_run ordered ran
    have shifts := scheduled.shifts
    exact ⟨shifts_ordered shifts ordered, scheduled.runs, fun t => shifts_relies shifts ordered t⟩

/-- What makes turns follows the discipline. -/
theorem follows_of_meets {A : Deed → State → State → Prop} {p : Task Int} (acting : Acting s c)
    (meets : Turn A c s s → p.Meets (fun _ => True) (Rest A c) (Again c) (fun _ => Turn A c) s s) :
    (discipline A).Follows c p s := by
  refine (meets ⟨acting, acting.working, .refl⟩).weaken ?_ ?_ ?_
  · intro since s' rest
    exact ⟨rest.working.ordered, rest.chain⟩
  · rintro s' s'' ⟨ordered, ⟨r, pid, running, ready⟩, running', relies⟩
    obtain rfl : r = c := Option.some.inj (running.symm.trans running')
    have working : Working s'' r := ⟨ordered.sound, ordered.table, running⟩
    refine ⟨⟨working, pid, ready⟩, relies.later, fun sem record => ?_⟩
    refine (relies.records sem record).resolve_right fun gone => ?_
    obtain ⟨p', attended⟩ := working.attended
    have freed := gone.freed
    rw [attended.block] at freed
    cases freed
  · intro _ since s' turn
    obtain ⟨pid, ready⟩ := turn.acting.ready
    exact ⟨turn.acting.working.ordered, ⟨c, pid, turn.acting.working.running, ready⟩, turn.chain⟩

/-- Deeds of the calls that are allowed. -/
def deedsOf (allowed : State → Call → Prop) (deed : Deed) (_ _ : State) : Prop :=
  ∃ s call, allowed s call ∧ call.makes deed

/-- Calls whose deeds are allowed, where they make them, follow the discipline. -/
theorem calls_of_covers {A : Deed → State → State → Prop} {allowed : State → Call → Prop}
    (covers : ∀ start call, allowed start call → ∀ deed, call.makes deed → ∀ s s' c, call.finds start deed s s' →
      Acting s c → Does s c deed s' → A deed s s') : (discipline A).Calls (Issues allowed) := by
  rintro s p c ⟨call, permitted, rfl, awake⟩ ordered ⟨r, pid, running, ready⟩ running'
  obtain rfl : r = c := Option.some.inj (running.symm.trans running')
  have acting : Acting s r := ⟨⟨ordered.sound, ordered.table, running⟩, pid, ready⟩
  refine follows_of_meets acting fun turn => ?_
  have calls := awake.imp_right fun apart (idle : s.procs.idleProcessPCB = some r) => apart (running.trans idle.symm)
  exact call_meets_at (fun deed makes s₁ s₂ => covers s call permitted deed makes s₁ s₂ r) turn calls

theorem calls_follow (allowed : State → Call → Prop) : (discipline (deedsOf allowed)).Calls (Issues allowed) :=
  calls_of_covers fun start call permitted _ makes _ _ _ _ _ _ => ⟨start, call, permitted, makes⟩

/-! ## From the end of boot -/

theorem bootPcbs_some (block : bootPcbs r = some p) : r = idleRef ∧
    p = bootPcb 1 0 BACKGROUND_PRIORITY "idle" (0, 0) 26 3 ∨
    r = initRef ∧ p = bootPcb 2 0 BACKGROUND_PRIORITY "Init" (0, 0) 30 4 ∨
    r = userlandRef ∧ p = bootPcb 3 1 FOREGROUND_PRIORITY "Init userland" (0, 1) 35 5 := by
  unfold bootPcbs at block
  split at block
  · exact .inl ⟨rfl, (Option.some.inj block).symm⟩
  · exact .inr (.inl ⟨rfl, (Option.some.inj block).symm⟩)
  · exact .inr (.inr ⟨rfl, (Option.some.inj block).symm⟩)
  · cases block

theorem boot_sems : bootSems.Proper 40 := by
  refine ⟨rfl, by decide, ?_, by decide, by decide, ?_⟩
  · simp [bootSems, values, bootSem, Sem.Plain]
  · simp [bootSems, values, bootSem]

theorem boot_pipes : bootPipes.Proper 40 := by
  have only : ∀ r p, bootPipes.pipes r = some p → r = 24 ∧ p = bootPipe := by
    intro r p here
    change (if r = 24 then some bootPipe else none) = some p at here
    split at here
    · exact ⟨by assumption, (Option.some.inj here).symm⟩
    · cases here
  refine ⟨List.nodup_singleton _, ?_, ?_, ?_, ?_, ?_⟩
  · intro r member
    obtain rfl := List.mem_singleton.mp member
    exact ⟨bootPipe, rfl, rfl⟩
  · intro r p here _
    rw [(only r p here).1]
    exact List.mem_singleton_self 24
  · intro r member r' member' _ _ _ _ _
    rw [List.mem_singleton.mp member, List.mem_singleton.mp member']
  · intro r cached
    rw [← Option.some.inj cached]
    exact List.mem_singleton_self 24
  · intro r p here
    rw [(only r p here).1]
    decide

theorem boot_table : bootProcs.Table 40 := by
  have others : bootProcs.others = [initRef, userlandRef] := rfl
  refine ⟨⟨idleRef, _, rfl, rfl, rfl, rfl, by rw [others]; decide⟩,
    by rw [others]; decide, fun r => ?_, rfl, ?_, ?_, ?_, ?_, ?_, ?_, ?_, ?_⟩
  · rw [others]
    constructor
    · intro block
      obtain ⟨p, block⟩ := Option.ne_none_iff_exists'.mp block
      rcases bootPcbs_some block with ⟨rfl, -⟩ | ⟨rfl, -⟩ | ⟨rfl, -⟩
      · exact .inl rfl
      · exact .inr (by decide)
      · exact .inr (by decide)
    · rintro (idle | member)
      · rw [Option.some.inj idle]
        exact Option.some_ne_none _
      · rcases List.mem_pair.mp member with rfl | rfl <;> exact Option.some_ne_none _
  · intro r p block
    rcases bootPcbs_some block with ⟨-, rfl⟩ | ⟨-, rfl⟩ | ⟨-, rfl⟩ <;> decide
  · intro r r' p p' block block' same
    rcases bootPcbs_some block with ⟨rfl, rfl⟩ | ⟨rfl, rfl⟩ | ⟨rfl, rfl⟩ <;>
      rcases bootPcbs_some block' with ⟨rfl, rfl⟩ | ⟨rfl, rfl⟩ | ⟨rfl, rfl⟩ <;>
      first | rfl | cases same
  · intro r p block
    rcases bootPcbs_some block with ⟨rfl, -⟩ | ⟨rfl, -⟩ | ⟨rfl, -⟩ <;> decide
  rotate_left 4
  · intro r p block
    rcases bootPcbs_some block with ⟨-, rfl⟩ | ⟨-, rfl⟩ | ⟨-, rfl⟩ <;> rfl
  all_goals
    intros
    contradiction

theorem ordered_boot (garbage : Option Ref × List Ref) : Ordered (bootState (fun _ => true) garbage) :=
  ⟨⟨fun _ => rfl, boot_sems, boot_pipes⟩, boot_table⟩

theorem holds_boot (A : Deed → State → State → Prop) (garbage : Option Ref × List Ref) :
    (discipline A).Holds (boot (fun _ => true) garbage) := by
  refine ⟨ordered_boot garbage, ?_, ?_⟩
  · rintro ⟨⟩
  · rintro t p ⟨⟩

variable {allowed : State → Call → Prop} {garbage : Option Ref × List Ref} {S : System}

/-- **The kernel is in order in every reachable state.** -/
theorem holds_reachable (run : Run allowed (boot (fun _ => true) garbage) S) : (discipline (deedsOf allowed)).Holds S :=
  (discipline _).holds_run (calls_follow allowed) (holds_boot _ garbage) run

theorem ordered_reachable (run : Run allowed (boot (fun _ => true) garbage) S) : Ordered S.state :=
  (holds_reachable run).inv

/-- What the allowed deeds and the shifts keep holds in every reachable state. -/
theorem run_keeps {A : Deed → State → State → Prop} (calls : (discipline A).Calls (Issues allowed)) {J : State → Prop}
    (start : J (bootState (fun _ => true) garbage))
    (deeds : ∀ s s' c deed, Working s c → J s → A deed s s' → Does s c deed s' → J s')
    (shifts : ∀ s s', Ordered s → J s → Shift s s' → J s')
    (run : Run allowed (boot (fun _ => true) garbage) S) : J S.state := by
  refine (discipline A).keeps_run calls ?_ ?_ (holds_boot _ garbage) start run
  · intro s s' ordered here ran
    exact shifts_keep (scheduled_of_run ordered ran).shifts ordered here shifts
  · intro s s' t ordered _ running here chain
    exact chain.keeps ⟨ordered.sound, ordered.table, running⟩ here fun s s' deed working here permitted does =>
      deeds s s' t deed working here permitted does

/-- The same, where every deed of the calls is allowed. -/
theorem reachable_keeps {J : State → Prop} (start : J (bootState (fun _ => true) garbage))
    (deeds : ∀ s s' c deed, Working s c → J s → deedsOf allowed deed s s' → Does s c deed s' → J s')
    (shifts : ∀ s s', Ordered s → J s → Shift s s' → J s')
    (run : Run allowed (boot (fun _ => true) garbage) S) : J S.state :=
  run_keeps (calls_follow allowed) start deeds shifts run

end QuesOs.Kernel
