import QuesOs.Lifecycle

/-! The rounds of the scheduler. A process that is ready is passed by nobody: the
others only ever join behind it, and nobody runs for more than `MAX_PRIO` ticks
after the one that dispatched it. -/
namespace QuesOs.Kernel
open Resumption Threads Relation

variable {allowed : State → Call → Prop} {garbage : Option Ref × List Ref} {S S' : System} {s : State}

/-! ## Calls of the scheduler -/

/-- `scheduleTask` leaves the current process, which has cycles left. -/
def Procs.keepsRunning (procs : Procs) : Bool :=
  (procs.currentProcessPCB.bind procs.pcbs).any (·.state = .ready) && 0 < procs.currentCycles

/-- The call of `scheduleTask` dispatched the process. -/
def dispatches (r : Ref) (call : State × State) : Bool :=
  !call.1.procs.keepsRunning && call.2.procs.currentProcessPCB = some r

theorem keepsRunning_iff {procs : Procs} : procs.keepsRunning = true ↔
    ∃ c p, procs.currentProcessPCB = some c ∧ procs.pcbs c = some p ∧ p.state = .ready ∧ 0 < procs.currentCycles := by
  unfold Procs.keepsRunning
  rw [Bool.and_eq_true, decide_eq_true_iff, Option.any_eq_true]
  constructor
  · rintro ⟨⟨p, found, ready⟩, cycles⟩
    obtain ⟨c, running, block⟩ := Option.bind_eq_some_iff.mp found
    exact ⟨c, p, running, block, of_decide_eq_true ready, cycles⟩
  · rintro ⟨c, p, running, block, ready, cycles⟩
    exact ⟨⟨p, Option.bind_eq_some_iff.mpr ⟨c, running, block⟩, decide_eq_true ready⟩, cycles⟩

/-- Where the current process is kept, a cycle is counted. -/
theorem scheduled_keeps (ran : machine.schedule.run s = .ok ((), s')) (keeps : s.procs.keepsRunning = true) :
    s' = { s with procs := { s.procs with currentCycles := s.procs.currentCycles - 1 } } := by
  obtain ⟨c, p, running, block, ready, cycles⟩ := keepsRunning_iff.mp keeps
  have meets : Meets (fun _ => True) scheduleTask (fun _ s' =>
      s' = { s with procs := { s.procs with currentCycles := s.procs.currentCycles - 1 } }) s := by
    unfold scheduleTask
    simp only [meets_bind, meets_get, running, meets_readPcb, block, meets_lookup_some]
    rw [if_pos ⟨ready, cycles⟩, ← running]
    rfl
  exact (meets_of_run ran).mp meets

/-- A call of `scheduleTask` that does not keep the current process, while another is ready. -/
structure Passes (s s' : State) (d : Ref) (pre mid : List Ref) : Prop where
  split : s.procs.others = pre ++ d :: mid
  passed : ∀ x ∈ pre, s.procs.isReady x = false
  current : s'.procs.currentProcessPCB = some d
  queue : values s'.procs.queue = mid ++ pre.filter (!s.procs.isDead ·)
  cycles : ∃ p, s'.procs.pcbs d = some p ∧ s'.procs.currentCycles = p.priority
  apart : s'.procs.idleProcessPCB ≠ some d

theorem passes_of_run (ordered : Ordered s) (ran : machine.schedule.run s = .ok ((), s'))
    (expired : s.procs.keepsRunning = false) (listed : r ∈ s.procs.others) (ready : s.procs.isReady r = true) :
    ∃ d pre mid, Passes s s' d pre mid := by
  have scheduled := scheduled_of_run ordered ran
  have idle := (shifts_relies scheduled.shifts ordered r).later.procs.idle
  cases scheduled with
  | kept running block ready cycles =>
    rw [keepsRunning_iff.mpr ⟨_, _, running, block, ready, cycles⟩] at expired
    cases expired
  | @dispatched s₁ d p some chosen running block =>
    obtain ⟨pre, d', mid, split, passed, current, -, left, -⟩ := chosen
    cases running.symm.trans current
    have member : d ∈ s.procs.others := by
      rw [split]
      exact List.mem_append_right _ (List.mem_cons_self ..)
    refine ⟨d, pre, mid, split, passed, running, ?_, ⟨p, block, rfl⟩, fun isIdle => ?_⟩
    · exact left.trans (by rw [List.append_nil])
    · exact (ordered.table.other member).1 (idle.symm.trans isIdle).symm
  | rested none grown queued isIdle block awake =>
    have some : 0 < s.procs.others.countP s.procs.isReady := List.countP_pos_iff.mpr ⟨r, listed, ready⟩
    have counted := ordered.table.counted
    omega

/-! ## Priorities -/

/-- Nobody runs for longer than `nice` permits. -/
def Pcb.Gentle (p : Pcb) : Prop := 0 ≤ p.priority ∧ p.priority ≤ MAX_PRIO

structure Procs.Gentle (procs : Procs) : Prop where
  blocks : ∀ r p, procs.pcbs r = some p → p.Gentle
  pending : ∀ c r p, procs.newProcess c = some (r, p) → p.Gentle

/-- The queue is only joined at its end, and nobody gains cycles. -/
structure State.Eased (s s' : State) : Prop where
  queue : values s.procs.queue <+: values s'.procs.queue
  current : s'.procs.currentProcessPCB = s.procs.currentProcessPCB
  idle : s'.procs.idleProcessPCB = s.procs.idleProcessPCB
  cycles : s'.procs.currentCycles = s.procs.currentCycles ∨ s'.procs.currentCycles = 0
  gentle : s.procs.Gentle → s'.procs.Gentle

theorem State.Eased.trans (first : s.Eased s') (second : s'.Eased s'') : s.Eased s'' := by
  refine ⟨first.queue.trans second.queue, second.current.trans first.current, second.idle.trans first.idle, ?_,
    fun gentle => second.gentle (first.gentle gentle)⟩
  rcases second.cycles with same | none
  · rw [same]
    exact first.cycles
  · exact .inr none

theorem State.Eased.of_same {s s' : State} (same : s'.procs = s.procs) : s.Eased s' :=
  ⟨same ▸ List.prefix_refl _, by rw [same], by rw [same], .inl (by rw [same]), by rw [same]; exact id⟩

/-- Writes to processes that leave their priorities. -/
theorem eased_of_blocks {s s' : State} (queue : s'.procs.queue = s.procs.queue)
    (current : s'.procs.currentProcessPCB = s.procs.currentProcessPCB)
    (idle : s'.procs.idleProcessPCB = s.procs.idleProcessPCB) (cycles : s'.procs.currentCycles = s.procs.currentCycles)
    (newProcess : s'.procs.newProcess = s.procs.newProcess)
    (blocks : ∀ r p', s'.procs.pcbs r = some p' → ∃ p, s.procs.pcbs r = some p ∧ p'.priority = p.priority) :
    s.Eased s' := by
  refine ⟨queue ▸ List.prefix_refl _, current, idle, .inl cycles, fun gentle => ⟨fun r p' block => ?_, ?_⟩⟩
  swap
  · rw [newProcess]
    exact gentle.pending
  obtain ⟨p, was, same⟩ := blocks r p' block
  unfold Pcb.Gentle
  rw [same]
  exact gentle.blocks r p was

theorem Procs.Spared.eased {s s' : State} (spared : s.procs.Spared s'.procs) : s.Eased s' := by
  refine eased_of_blocks spared.queue spared.current spared.idle spared.cycles spared.newProcess fun r p' block => ?_
  rcases spared.pcbs r with same | ⟨p, was, blocked, now⟩
  · exact ⟨p', same ▸ block, rfl⟩
  · cases now.symm.trans block
    exact ⟨p, was, rfl⟩

theorem eased_moveState {s s' : State} {newState : ProcessState} (block : s.procs.pcbs r = some p)
    (procs : s'.procs = s.procs.moveState r p newState) : s.Eased s' := by
  refine eased_of_blocks (by rw [procs]; rfl) (by rw [procs]; rfl) (by rw [procs]; rfl) (by rw [procs]; rfl)
    (by rw [procs]; rfl) fun r' p' block' => ?_
  rw [procs] at block'
  by_cases here : r' = r
  · subst here
    simp only [Procs.moveState, Function.update_self, Option.some.injEq] at block'
    exact ⟨p, block, by rw [← block']⟩
  · simp only [Procs.moveState, Function.update_of_ne here] at block'
    exact ⟨p', block', rfl⟩

theorem Does.eased (working : Working s c) (does : Does s c deed s') : s.Eased s' := by
  cases does with
  | passed passed => exact (passed.advance working).2.spared.eased
  | @slept sem x p pid s₁ h found block ready notIdle entered grown =>
    have entering : s.Eased s₁ := (entered.advance working).2.spared.eased
    have block₁ := (entered.advance working).2.spared.kept block (by rw [ready]; decide)
    exact entering.trans (eased_moveState block₁ rfl)
  | @watched s₁ child p passed block =>
    have passing : s.Eased s₁ := (passed.advance working).2.spared.eased
    exact passing.trans (.of_same rfl)
  | posted posts => exact (posts.wakes working).spared.eased
  | moved grown target listed block notExited notTerminated alive => exact eased_moveState block rfl
  | exited listed exited =>
    obtain @⟨r, p, h, s₁, p', target, block, notExited, notTerminated, grown, posts, block'⟩ := exited
    have posting : (s.withHeap h).Eased s₁ := (posts.wakes (working.withHeap grown)).spared.eased
    have moving : s₁.Eased { s₁ with procs := s₁.procs.moveState r p' .exited } := eased_moveState block' rfl
    have growing : s.Eased (s.withHeap h) := .of_same rfl
    exact growing.trans (posting.trans moving)
  | terminated terminated =>
    obtain @⟨r, p, h, procs, p', target, queued, block, notTerminated, grown, reparented, block'⟩ := terminated
    obtain ⟨ppid, rfl⟩ := reparented.relabelled
    have relabelled : s.Eased { s with procs := { s.procs with
        pcbs := fun r => (s.procs.pcbs r).map fun p => { p with ppid := ppid r p } } } := by
      refine eased_of_blocks rfl rfl rfl rfl rfl fun r p' now => ?_
      obtain ⟨q, was, rfl⟩ := Option.map_eq_some_iff.mp now
      exact ⟨q, was, rfl⟩
    exact relabelled.trans (eased_moveState block' rfl)
  | @disowned r p block dead =>
    refine eased_of_blocks rfl rfl rfl rfl rfl fun r' p' now => ?_
    by_cases here : r' = r
    · subst here
      simp only [Function.update_self, Option.some.injEq] at now
      exact ⟨p, block, by rw [← now]⟩
    · simp only [Function.update_of_ne here] at now
      exact ⟨p', now, rfl⟩
  | @reniced h r p priority grown queued block low high =>
    refine ⟨List.prefix_refl _, rfl, rfl, .inl rfl, fun gentle => ⟨fun r' p' now => ?_, gentle.pending⟩⟩
    by_cases here : r' = r
    · subst here
      simp only [Function.update_self, Option.some.injEq] at now
      rw [← now]
      exact ⟨low, high⟩
    · simp only [Function.update_of_ne here] at now
      exact gentle.blocks r' p' now
  | yielded => exact ⟨List.prefix_refl _, rfl, rfl, .inr rfl, fun gentle => ⟨gentle.blocks, gentle.pending⟩⟩
  | @allocated q h r p block grown low high pid ppid ready gentle unset =>
    refine ⟨List.prefix_refl _, rfl, rfl, .inl rfl, fun before => ⟨before.blocks, fun c' r' p' new => ?_⟩⟩
    by_cases here : c' = c
    · subst here
      simp only [Function.update_self, Option.some.injEq, Prod.mk.injEq] at new
      rw [← new.2]
      exact gentle
    · simp only [Function.update_of_ne here] at new
      exact before.pending c' r' p' new
  | @filled h sems r p grown added was =>
    refine ⟨List.prefix_refl _, rfl, rfl, .inl rfl, fun before => ⟨before.blocks, fun c' r' p' new => ?_⟩⟩
    by_cases here : c' = c
    · subst here
      simp only [Function.update_self, Option.some.injEq, Prod.mk.injEq] at new
      rw [← new.2]
      exact before.pending c' r p was
    · simp only [Function.update_of_ne here] at new
      exact before.pending c' r' p' new
  | @published q h r p queue ppid arguments block alive grown was listed parent =>
    refine ⟨⟨[r], listed.symm⟩, rfl, rfl, .inl rfl, fun before => ⟨fun r' p' now => ?_, fun c' r' p' new => ?_⟩⟩
    · by_cases here : r' = r
      · subst here
        simp only [Function.update_self, Option.some.injEq] at now
        rw [← now]
        exact before.pending c r' p was
      · simp only [Function.update_of_ne here] at now
        exact before.blocks r' p' now
    · by_cases here : c' = c
      · subst here
        simp at new
      · simp only [Function.update_of_ne here] at new
        exact before.pending c' r' p' new
  | opened opened => exact .of_same opened.procs.1
  | closed here isOpen same closed => exact .of_same closed.procs.1
  | @put r p s₁ ch _ here isOpen passed posts =>
    have working₁ := (working.passed passed).writePipe r (f := (·.put ch)) fun _ => ⟨rfl, rfl⟩
    have passing : s.Eased s₁ := (passed.advance working).2.spared.eased
    have posting : State.Eased { s₁ with pipes := s₁.pipes.modify r (·.put ch) } s' :=
      (posts.wakes working₁).spared.eased
    have writing : s₁.Eased { s₁ with pipes := s₁.pipes.modify r (·.put ch) } := .of_same rfl
    exact passing.trans (writing.trans posting)
  | @took r p s₁ _ here isOpen passed posts =>
    have working₁ := (working.passed passed).writePipe r (f := Pipe.take) fun _ => ⟨rfl, rfl⟩
    have passing : s.Eased s₁ := (passed.advance working).2.spared.eased
    have posting : State.Eased { s₁ with pipes := s₁.pipes.modify r Pipe.take } s' :=
      (posts.wakes working₁).spared.eased
    have reading : s₁.Eased { s₁ with pipes := s₁.pipes.modify r Pipe.take } := .of_same rfl
    exact passing.trans (reading.trans posting)
  | _ => exact .of_same rfl

theorem Chain.eased {A : Deed → State → State → Prop} (chain : Chain A c s s')
    (working : Working s c) : s.Eased s' := by
  induction chain with
  | refl => exact .of_same rfl
  | tail chain last ih =>
    obtain ⟨deed, -, does⟩ := last
    exact ih.trans (does.eased (Chain.working chain working))

theorem Shift.gentle (shift : Shift s s') (gentle : s.procs.Gentle) : s'.procs.Gentle := by
  cases shift with
  | rotated grown same => exact ⟨gentle.blocks, gentle.pending⟩
  | @reaped c p s₁ h queue currentProcessPCB working reaped grown others =>
    have eased : s.Eased s₁ := (reaped.wakes working).spared.eased
    have before := eased.gentle gentle
    refine ⟨fun r q block => ?_, before.pending⟩
    by_cases here : r = c
    · subst here
      simp at block
    · simp only [Function.update_of_ne here] at block
      exact before.blocks r q block

/-- Nobody has more cycles left than `nice` permits. -/
structure State.Tempered (s : State) : Prop where
  gentle : s.procs.Gentle
  low : 0 ≤ s.procs.currentCycles
  high : s.procs.currentCycles ≤ MAX_PRIO

theorem State.Eased.tempered (eased : s.Eased s') (tempered : s.Tempered) : s'.Tempered := by
  refine ⟨eased.gentle tempered.gentle, ?_, ?_⟩
  · rcases eased.cycles with same | none
    · rw [same]
      exact tempered.low
    · exact Int.le_of_eq none.symm
  · rcases eased.cycles with same | none
    · rw [same]
      exact tempered.high
    · rw [none]
      decide

theorem Scheduled.tempered (scheduled : Scheduled s s') (ordered : Ordered s)
    (tempered : s.Tempered) : s'.Tempered := by
  have gentle : s'.procs.Gentle :=
    shifts_keep scheduled.shifts ordered tempered.gentle fun _ _ _ before shift => shift.gentle before
  cases scheduled with
  | kept running block ready cycles =>
    have high := tempered.high
    exact ⟨gentle, Int.sub_nonneg_of_le cycles, by dsimp only; omega⟩
  | @dispatched s₁ r p some chosen running block =>
    obtain ⟨low, high⟩ := gentle.blocks r p block
    exact ⟨gentle, low, high⟩
  | @rested h queue r p none grown queued idle block ready =>
    obtain ⟨low, high⟩ := gentle.blocks r p block
    exact ⟨gentle, low, high⟩

theorem tempered_boot : State.Tempered (bootState (fun _ => true) garbage) := by
  have cycles : (0 : Int) ≤ 0 ∧ (0 : Int) ≤ MAX_PRIO := by decide
  refine ⟨⟨fun r p block => ?_, fun c r p new => ?_⟩, cycles.1, cycles.2⟩
  · rcases bootPcbs_some block with ⟨-, rfl⟩ | ⟨-, rfl⟩ | ⟨-, rfl⟩ <;> exact ⟨by decide, by decide⟩
  · cases new

theorem tempered_reachable (run : Run allowed (boot (fun _ => true) garbage) S) : S.state.Tempered := by
  refine (discipline _).keeps_run (calls_follow allowed) ?_ ?_ (holds_boot _ garbage) tempered_boot run
  · intro s s' ordered tempered ran
    exact (scheduled_of_run ordered ran).tempered ordered tempered
  · intro s s' c ordered _ running tempered chain
    exact (chain.eased ⟨ordered.sound, ordered.table, running⟩).tempered tempered

/-! ## Waiting for a turn -/

abbrev Course (allowed : State → Call → Prop) (along : State → Prop) : System → List (State × State) → System → Prop :=
  Threads.Course machine (Issues allowed) along

/-- One that is not passed over moves up. -/
theorem moves_up {pre post pre' mid : List Ref} (split : pre ++ r :: post = pre' ++ d :: mid) (notPassed : r ∉ pre')
    (other : d ≠ r) : ∃ rest, pre = pre' ++ d :: rest ∧ mid = rest ++ r :: post := by
  rcases List.append_eq_append_iff.mp split with ⟨between, front, back⟩ | ⟨between, front, back⟩
  · rcases List.append_eq_cons_iff.mp back.symm with ⟨-, same⟩ | ⟨between', rfl, -⟩
    · exact (other (List.cons.inj same).1).elim
    · refine (notPassed ?_).elim
      rw [front]
      exact List.mem_append_right _ (List.mem_cons_self ..)
  · rcases List.append_eq_cons_iff.mp back.symm with ⟨-, same⟩ | ⟨rest, rfl, later⟩
    · exact (other (List.cons.inj same).1.symm).elim
    · exact ⟨rest, front, later⟩

theorem Passes.waits (passes : Passes s s' d pre mid) (ready : s.procs.isReady r = true) : r ∉ pre := by
  intro member
  rw [passes.passed r member] at ready
  cases ready

/-- A call that does not dispatch a ready process brings it nearer to its turn. -/
theorem nearer (ordered : Ordered s) (tempered : s.Tempered) (ran : machine.schedule.run s = .ok ((), s'))
    (ready : s.procs.isReady r = true) (queued : values s.procs.queue = pre ++ r :: post)
    (waits : dispatches r (s, s') = false) : ∃ pre' post', values s'.procs.queue = pre' ++ r :: post' ∧
      21 * (pre'.length : Int) + s'.procs.currentCycles + 1 ≤ 21 * pre.length + s.procs.currentCycles := by
  cases keeps : s.procs.keepsRunning with
  | true =>
    have kept := scheduled_keeps ran keeps
    subst kept
    exact ⟨pre, post, queued, by dsimp only; omega⟩
  | false =>
    have listed : r ∈ s.procs.others := by
      refine List.mem_append_left _ ?_
      rw [queued]
      exact List.mem_append_right _ (List.mem_cons_self ..)
    obtain ⟨d, passed, mid, passes⟩ := passes_of_run ordered ran keeps listed ready
    have other : d ≠ r := by
      rintro rfl
      simp [dispatches, keeps, passes.current] at waits
    have split := passes.split
    unfold Procs.others at split
    rw [queued, List.append_assoc, List.cons_append] at split
    obtain ⟨rest, rfl, rfl⟩ := moves_up split (passes.waits ready) other
    obtain ⟨p, block, cycles⟩ := passes.cycles
    have high := ((Scheduled.tempered (scheduled_of_run ordered ran) ordered tempered).gentle.blocks d p block).2
    have low := tempered.low
    refine ⟨rest, _, by rw [passes.queue, List.append_assoc, List.cons_append], ?_⟩
    unfold MAX_PRIO at high
    rw [cycles, List.length_append, List.length_cons]
    omega

/-- The process was dispatched, or there are still calls left for those before it. -/
def Awaits (r : Ref) (bound : Int) (calls : List (State × State)) (s : State) : Prop :=
  s.Tempered ∧ ((∃ call ∈ calls, dispatches r call = true) ∨
    ∃ pre post, values s.procs.queue = pre ++ r :: post ∧
      21 * (pre.length : Int) + s.procs.currentCycles + calls.length < bound)

theorem awaits_scheduled (ordered : Ordered s) (awaits : Awaits r bound calls s) (ready : s.procs.isReady r = true)
    (ran : machine.schedule.run s = .ok ((), s')) : Awaits r bound (calls ++ [(s, s')]) s' := by
  obtain ⟨tempered, waits⟩ := awaits
  refine ⟨Scheduled.tempered (scheduled_of_run ordered ran) ordered tempered, ?_⟩
  rcases waits with ⟨call, member, dispatched⟩ | ⟨pre, post, queued, left⟩
  · exact .inl ⟨call, List.mem_append_left _ member, dispatched⟩
  · cases dispatched : dispatches r (s, s') with
    | true => exact .inl ⟨(s, s'), List.mem_append_right _ (List.mem_singleton_self _), dispatched⟩
    | false =>
      obtain ⟨pre', post', queued', closer⟩ := nearer ordered tempered ran ready queued dispatched
      refine .inr ⟨pre', post', queued', ?_⟩
      rw [List.length_append, List.length_singleton]
      omega

theorem awaits_turned (awaits : Awaits r bound calls s) (eased : s.Eased s') : Awaits r bound calls s' := by
  obtain ⟨tempered, waits⟩ := awaits
  refine ⟨eased.tempered tempered, waits.imp_right ?_⟩
  rintro ⟨pre, post, queued, left⟩
  obtain ⟨added, grown⟩ := eased.queue
  have low := tempered.low
  refine ⟨pre, post ++ added, by rw [← grown, queued, List.append_assoc, List.cons_append], ?_⟩
  rcases eased.cycles with same | none <;> omega

/-! ## Rounds -/

theorem State.Eased.others (eased : s.Eased s') : s.procs.others.Sublist s'.procs.others := by
  unfold Procs.others
  rw [eased.current, eased.idle]
  exact eased.queue.sublist.append_right _

/-- Two ready processes keep their order until the first of them is dispatched. -/
theorem Passes.order (ordered : Ordered s) (passes : Passes s s' d pre mid) (ready : s.procs.isReady x = true)
    (before : [x, y].Sublist s.procs.others) :
    (d = x ∧ [y, x].Sublist s'.procs.others) ∨ (d ≠ x ∧ d ≠ y ∧ [x, y].Sublist s'.procs.others) := by
  have once := ordered.table.once
  rw [passes.split] at once before
  obtain ⟨-, once, -⟩ := List.nodup_append.mp once
  obtain ⟨away, -⟩ := List.nodup_cons.mp once
  have others : s'.procs.others = mid ++ pre.filter (!s.procs.isDead ·) ++ [d] := by
    rw [others_of_running passes.current passes.apart, passes.queue]
  -- Neither is among those that were passed over.
  have later : [x, y].Sublist (d :: mid) := by
    obtain ⟨front, back, both, inPre, inRest⟩ := List.sublist_append_iff.mp before
    cases front with
    | nil => exact both ▸ inRest
    | cons first front =>
      obtain ⟨rfl, -⟩ := List.cons.inj both
      exact (passes.waits ready (inPre.subset (List.mem_cons_self ..))).elim
  rw [others]
  by_cases here : d = x
  · subst here
    have behind : y ∈ mid := List.singleton_sublist.mp (List.cons_sublist_cons.mp later)
    have last := List.singleton_sublist.mpr (List.mem_append_left (pre.filter (!s.procs.isDead ·)) behind)
    exact .inl ⟨rfl, last.append (.refl [d])⟩
  · have behind : [x, y].Sublist mid := by
      cases later with
      | cons _ behind => exact behind
      | cons_cons => exact (here rfl).elim
    refine .inr ⟨here, fun same => away ?_, ?_⟩
    · rw [same]
      exact behind.subset (by simp)
    · exact (behind.trans (List.sublist_append_left ..)).trans (List.sublist_append_left ..)

/-- Since the process `r` was dispatched, it was dispatched again, or `q` is still
before it, or had its turn. -/
def Rounds (q r : Ref) (calls : List (State × State)) (s : State) : Prop :=
  (∃ call ∈ calls, dispatches r call = true) ∨
    ([q, r].Sublist s.procs.others ∧ calls.countP (dispatches q) = 0) ∨
    ([r, q].Sublist s.procs.others ∧ calls.countP (dispatches q) = 1)

theorem rounds_scheduled (ordered : Ordered s) (rounds : Rounds q r calls s) (other : q ≠ r)
    (ready : s.procs.isReady r = true) (ready' : s.procs.isReady q = true)
    (ran : machine.schedule.run s = .ok ((), s')) : Rounds q r (calls ++ [(s, s')]) s' := by
  rcases rounds with ⟨call, member, dispatched⟩ | waits
  · exact .inl ⟨call, List.mem_append_left _ member, dispatched⟩
  · unfold Rounds
    rw [List.countP_append, List.countP_singleton]
    cases keeps : s.procs.keepsRunning with
    | true =>
      have kept := scheduled_keeps ran keeps
      subst kept
      have same :
        dispatches q (s, { s with procs := { s.procs with currentCycles := s.procs.currentCycles - 1 } }) = false := by
        simp [dispatches, keeps]
      rw [same]
      exact .inr waits
    | false =>
      have listed : r ∈ s.procs.others := by
        rcases waits with ⟨before, -⟩ | ⟨after, -⟩
        · exact before.subset (by simp)
        · exact after.subset (by simp)
      obtain ⟨d, pre, mid, passes⟩ := passes_of_run ordered ran keeps listed ready
      have label : ∀ x, dispatches x (s, s') = decide (d = x) := by
        intro x
        simp [dispatches, keeps, passes.current]
      rw [label q]
      rcases waits with ⟨before, none⟩ | ⟨after, one⟩
      · rcases passes.order ordered ready' before with ⟨rfl, after⟩ | ⟨notQ, -, before⟩
        · exact .inr (.inr ⟨after, by simp [none]⟩)
        · exact .inr (.inl ⟨before, by simp [none, notQ]⟩)
      · rcases passes.order ordered ready after with ⟨rfl, -⟩ | ⟨-, notQ, after⟩
        · refine .inl ⟨(s, s'), List.mem_append_right _ (List.mem_singleton_self _), ?_⟩
          rw [label d]
          exact decide_eq_true rfl
        · exact .inr (.inr ⟨after, by simp [one, notQ]⟩)

theorem rounds_turned (rounds : Rounds q r calls s) (eased : s.Eased s') : Rounds q r calls s' :=
  rounds.imp_right (Or.imp (And.imp_left fun before => before.trans eased.others)
    (And.imp_left fun after => after.trans eased.others))

theorem dispatched_of (label : dispatches r (s, s') = true) :
    s.procs.keepsRunning = false ∧ s'.procs.currentProcessPCB = some r := by
  simpa [dispatches] using label

theorem isReady_listed {procs : Procs} (table : procs.Table n) (ready : procs.isReady r = true)
    (notIdle : procs.idleProcessPCB ≠ some r) : r ∈ procs.others := by
  obtain ⟨p, block, -⟩ := (Option.any_eq_true _ _).mp ready
  have there : procs.pcbs r ≠ none := by
    rw [block]
    exact Option.some_ne_none p
  exact ((table.listed r).mp there).resolve_left (Ne.symm notIdle)

/-- **Bounded waiting.** A ready process at index `k` of the queue is dispatched
within `21 * (k + 1)` calls of `scheduleTask`, as long as it stays ready; and between
two dispatches of it every other process that was ready throughout had one. -/
theorem bounded_waiting (run : Run allowed (boot (fun _ => true) garbage) S) :
    (∀ r k, (values S.state.procs.queue)[k]? = some r →
      ∀ calls S', Course allowed (fun s => s.procs.isReady r = true) S calls S' → 21 * (k + 1) ≤ calls.length →
        ∃ call ∈ calls, dispatches r call = true) ∧
    ∀ r s₁, S.state.procs.idleProcessPCB ≠ some r → scheduleTask.run S.state = .ok ((), s₁) →
      dispatches r (S.state, s₁) = true → ∀ q, q ≠ r → S.state.procs.idleProcessPCB ≠ some q →
      ∀ calls S₂, Course allowed (fun s => s.procs.isReady r = true ∧ s.procs.isReady q = true)
        { S with state := s₁, due := false } calls S₂ → (∀ call ∈ calls, dispatches r call = false) →
      ∀ s₃, scheduleTask.run S₂.state = .ok ((), s₃) → dispatches r (S₂.state, s₃) = true →
        calls.countP (dispatches q) = 1 := by
  constructor
  · intro r k index calls S' course long
    obtain ⟨inside, here⟩ := List.getElem?_eq_some_iff.mp index
    have tempered := tempered_reachable run
    have queued : values S.state.procs.queue = (values S.state.procs.queue).take k ++
      r :: (values S.state.procs.queue).drop (k + 1) := by
      rw [← here, List.getElem_cons_drop, List.take_append_drop]
    have start : Awaits r (21 * (k + 1)) [] S.state := by
      refine ⟨tempered, .inr ⟨_, _, queued, ?_⟩⟩
      have high := tempered.high
      unfold MAX_PRIO at high
      rw [List.length_take_of_le (Nat.le_of_lt inside), List.length_nil]
      omega
    obtain ⟨-, -, tempered', waits⟩ := (discipline _).keeps_course (calls_follow allowed)
      (fun _ _ _ ordered ready awaits ran => awaits_scheduled ordered awaits ready ran)
      (fun _ _ _ _ ordered _ running awaits chain =>
        awaits_turned awaits (chain.eased ⟨ordered.sound, ordered.table, running⟩))
      (holds_reachable run) start course
    refine waits.resolve_right ?_
    rintro ⟨pre, post, -, left⟩
    have low := tempered'.low
    omega
  · intro r s₁ notIdle ran dispatched q other notIdle' calls S₂ course others s₃ ran' dispatched'
    have ordered := ordered_reachable run
    have run₁ : Run allowed (boot (fun _ => true) garbage) { S with state := s₁, due := false } :=
      run.tail (.schedule ran)
    have idle := (shifts_relies (scheduled_of_run ordered ran).shifts ordered r).later.procs.idle
    have start : Rounds q r [] s₁ := by
      have running := (dispatched_of dispatched).2
      have listed := isReady_listed (ordered_reachable run₁).table course.starts.2 (idle ▸ notIdle')
      have last := others_of_running running (idle ▸ notIdle)
      have queued : q ∈ values s₁.procs.queue := by
        change q ∈ s₁.procs.others at listed
        rw [last] at listed
        exact (List.mem_append.mp listed).resolve_right fun same => other (List.mem_singleton.mp same)
      refine .inr (.inl ⟨?_, rfl⟩)
      rw [last]
      exact (List.singleton_sublist.mpr queued).append (.refl [r])
    obtain ⟨holds, ⟨ready, ready'⟩, rounds⟩ := (discipline _).keeps_course (calls_follow allowed)
      (fun _ _ _ ordered ready rounds ran => rounds_scheduled ordered rounds other ready.1 ready.2 ran)
      (fun _ _ _ _ ordered _ running rounds chain =>
        rounds_turned rounds (chain.eased ⟨ordered.sound, ordered.table, running⟩))
      (holds_reachable run₁) start course
    rcases rounds with ⟨call, member, again⟩ | ⟨before, -⟩ | ⟨-, one⟩
    · rw [others call member] at again
      cases again
    · -- A process that comes first is dispatched first.
      obtain ⟨expired, running⟩ := dispatched_of dispatched'
      obtain ⟨d, pre, mid, passes⟩ := passes_of_run holds.inv ran' expired (before.subset (by simp)) ready
      obtain rfl : d = r := Option.some.inj (passes.current.symm.trans running)
      rcases passes.order holds.inv ready' before with ⟨same, -⟩ | ⟨-, notR, -⟩
      · exact (other same.symm).elim
      · exact (notR rfl).elim
    · exact one

/-- Calls of the scheduler one after the other, while the condition holds. -/
def ticks (along : State → Bool) : Nat → System → Option (List (State × State) × System)
  | 0, S => if along S.state then some ([], S) else none
  | n + 1, S =>
    (ticks along n S).bind fun (calls, S₁) =>
      match scheduleTask.run S₁.state with
      | .ok ((), s) => if along s then some (calls ++ [(S₁.state, s)], { S₁ with state := s, due := false }) else none
      | .error _ => none

theorem ticks_course {along : State → Bool} (ran : ticks along n S = some (calls, S')) :
    Course allowed (fun s => along s = true) S calls S' ∧ calls.length = n := by
  induction n generalizing calls S' with
  | zero =>
    simp only [ticks] at ran
    split at ran
    · cases ran
      exact ⟨.start (by assumption), rfl⟩
    · cases ran
  | succ n ih =>
    obtain ⟨⟨calls₁, S₁⟩, before, last⟩ := Option.bind_eq_some_iff.mp ran
    obtain ⟨course, length⟩ := ih before
    dsimp only at last
    split at last
    · split at last
      · cases last
        exact ⟨.schedule course (by assumption) (by assumption), by rw [List.length_append, length]; rfl⟩
      · cases last
    · cases last

theorem ticks_one (ran : ticks (fun _ => true) 1 S = some (calls, S')) :
    ∃ s, scheduleTask.run S.state = .ok ((), s) ∧ calls = [(S.state, s)] ∧
    S' = { S with state := s, due := false } := by
  obtain ⟨⟨calls₁, S₁⟩, before, last⟩ := Option.bind_eq_some_iff.mp ran
  cases before
  dsimp only at last
  split at last
  · cases last
    exact ⟨_, by assumption, rfl, rfl⟩
  · cases last

/-- `init` was running, and its time was up; the shell waited at the head of the queue. -/
theorem bounded_waiting_shell : ∃ S calls S' s₁ calls' S₂ s₃,
    Run (fun _ _ => True) (boot (fun _ => true) (none, [])) S ∧ (values S.state.procs.queue)[0]? = some userlandRef ∧
    Course (fun _ _ => True) (fun s => s.procs.isReady userlandRef = true) S calls S' ∧ 21 * (0 + 1) ≤ calls.length ∧
    (∃ call ∈ calls, dispatches userlandRef call = true) ∧ scheduleTask.run S.state = .ok ((), s₁) ∧
    dispatches userlandRef (S.state, s₁) = true ∧
    Course (fun _ _ => True) (fun s => s.procs.isReady userlandRef = true ∧ s.procs.isReady initRef = true)
      { S with state := s₁, due := false } calls' S₂ ∧ (∀ call ∈ calls', dispatches userlandRef call = false) ∧
    scheduleTask.run S₂.state = .ok ((), s₃) ∧ dispatches userlandRef (S₂.state, s₃) = true ∧
    calls'.countP (dispatches initRef) = 1 := by
  have played : ((play (fun _ _ => true) [.schedule, .schedule] (boot (fun _ => true) (none, []))).bind fun S =>
      (ticks (fun s => s.procs.isReady userlandRef) 21 S).bind fun waiting =>
      (ticks (fun _ => true) 1 S).bind fun first =>
      (ticks (fun s => s.procs.isReady userlandRef && s.procs.isReady initRef) 4 first.2).bind fun round =>
      (ticks (fun _ => true) 1 round.2).map fun second => (S, waiting, first, round, second)).map
        (fun (S, _, first, round, second) => ((values S.state.procs.queue)[0]?, S.state.procs.idleProcessPCB,
          first.1.map (dispatches userlandRef), round.1.all (!dispatches userlandRef ·),
          second.1.map (dispatches userlandRef))) =
      some (some userlandRef, some idleRef, [true], true, [true]) := by decide +kernel
  obtain ⟨⟨S, waiting, first, round, second⟩, played, observed⟩ := Option.map_eq_some_iff.mp played
  obtain ⟨S', played, later⟩ := Option.bind_eq_some_iff.mp played
  obtain ⟨waiting', waited, later⟩ := Option.bind_eq_some_iff.mp later
  obtain ⟨first', ticked, later⟩ := Option.bind_eq_some_iff.mp later
  obtain ⟨round', went, later⟩ := Option.bind_eq_some_iff.mp later
  obtain ⟨second', ticked', same⟩ := Option.map_eq_some_iff.mp later
  cases same
  have run : Run (fun _ _ => True) (boot (fun _ => true) (none, [])) S := play_run (fun _ _ _ => trivial) played
  obtain ⟨s₁, ran, calls₁, after₁⟩ := ticks_one ticked
  obtain ⟨s₃, ran', calls₃, after₃⟩ := ticks_one ticked'
  simp only [calls₁, calls₃, List.map_cons, List.map_nil, Prod.mk.injEq, List.cons.injEq, and_true,
    List.all_eq_true, Bool.not_eq_true'] at observed
  obtain ⟨index, idle, dispatched, others, dispatched'⟩ := observed
  obtain ⟨course, length⟩ : Course (fun _ _ => True) _ _ _ _ ∧ _ := ticks_course waited
  obtain ⟨course', -⟩ : Course (fun _ _ => True) _ _ _ _ ∧ _ := ticks_course went
  rw [after₁] at course'
  simp only [Bool.and_eq_true] at course'
  have long : 21 * (0 + 1) ≤ waiting.1.length := Nat.le_of_eq length.symm
  obtain ⟨soon, once⟩ := bounded_waiting run
  refine ⟨S, _, _, s₁, _, _, s₃, run, index, course, long, soon _ 0 index _ _ course long,
    ran, dispatched, course', others,
    ran', dispatched', ?_⟩
  refine once userlandRef s₁ ?_ ran dispatched initRef (by decide) ?_ _ _ course' others s₃ ran' dispatched'
  · rw [idle]
    decide
  · rw [idle]
    decide

end QuesOs.Kernel
