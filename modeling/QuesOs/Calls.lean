import QuesOs.Turns

/-! Every system call proceeds by deeds of its own kinds, from the first action to
the last. -/
namespace QuesOs.Kernel
open Resumption Relation

variable {A : Deed → State → State → Prop} {s : State}

/-! ## Actions that look -/

theorem acts_get : Acts A c (get : K State) := acts_of_same fun _ => rfl

theorem acts_deref {α : Type} (a : Option α) : Acts A c (deref a) := acts_of_same fun _ => by
  cases a with
  | none => trivial
  | some a => rfl

theorem acts_lookup {α : Type} (a : Option α) : Acts A c (lookup a) := acts_of_same fun _ => by
  cases a with
  | none => trivial
  | some a => rfl

theorem acts_readPcb (process : Ref) : Acts A c (readPcb process) := acts_get.bind fun _ => acts_lookup _

theorem acts_currentPcb : Acts A c currentPcb :=
  acts_get.bind fun _ => (acts_deref _).bind fun process => (acts_readPcb process).bind fun _ => .pure _

theorem acts_processOf (looks : Covers A c .looks) (pid : Int) : Acts A c (processOf pid) := by
  refine acts_of_looks looks fun s acting => ?_
  obtain ⟨p, attended⟩ := acting.working.attended
  exact (processOf_spec acting.working.sound.grants attended pid).mono fun _ _ spec => spec.2

theorem acts_getPipe (looks : Covers A c .looks) (pipeId : Int) : Acts A c (getPipe pipeId) := by
  refine acts_of_does looks (fun _ => id) fun s acting _ => ?_
  refine (getPipe_spec acting.working.sound.grants acting.working.sound.pipes pipeId).mono ?_
  rintro _ s' ⟨-, h, grown, rfl⟩
  exact .cached pipeId grown

theorem acts_malloc (looks : Covers A c .looks) : Acts A c malloc := by
  refine acts_of_looks looks fun s acting => ?_
  rw [meets_malloc acting.working.sound.grants]
  exact ⟨_, s.heap.grown_allocate, rfl⟩

/-! ## Semaphores -/

theorem semPost_meets {sem : Int} (posts : CoversAt A c s (.posts sem)) (turn : Turn A c since s) :
    Meets (fun _ => True) (semPost sem) (fun _ => Turn A c since) s := by
  have working := turn.acting.working
  obtain ⟨p, attended⟩ := working.attended
  apply (semPost_spec working.sound.grants working.sound.sems attended sem).mono
  intro _ s' posted
  have does : Does s c (.posts sem) s' := .posted posted
  exact turn.does (posts s' turn.acting does) does fun _ _ => id

theorem acts_semInit {initialValue : Int} (inits : Covers A c (.inits initialValue)) :
    Acts A c (semInit initialValue) := by
  refine acts_of_does inits (fun _ => id) fun s acting _ => ?_
  refine (semInit_spec acting.working.sound.grants acting.working.sound.sems initialValue).mono ?_
  rintro _ s' ⟨-, h, sems, grown, added, rfl⟩
  exact .initiated grown added

/-- How `semWait` goes: it is passed in the end, by what was there at the start or
after a sleep. -/
theorem semWait_meets {sem : Int} {post : Int → State → State → Prop} (turn : Turn A c since s)
    (notIdle : since.procs.idleProcessPCB ≠ some c) (sleeps : Covers A c (.sleeps sem))
    (passed : ∀ a since' s₁ s', Turn A c since' s₁ → since'.procs.idleProcessPCB ≠ some c → s.Later s₁ →
      Passed s₁ c sem s' → post a since' s') :
    (semWait sem).Meets (fun _ => True) (Rest A c) (Again c) post since s := by
  have working := turn.acting.working
  obtain ⟨p, attended⟩ := working.attended
  obtain ⟨pid, p', block, ready, -⟩ := turn.acting.ready
  cases attended.block.symm.trans block
  unfold semWait
  rw [Program.meets_bind, Program.meets_lift]
  refine (semWaitEnter_spec working.sound.grants working.sound.sems attended sem).mono ?_
  rintro result s₁ (⟨absent, rfl, h, grown, rfl⟩ | ⟨x, found, entered⟩)
  · exact passed _ since s _ turn notIdle (.refl s) (.absent absent grown)
  · cases result with
    | inl result =>
      have zero : result = 0 := by
        cases entered
        rfl
      subst zero
      exact passed _ since s _ turn notIdle (.refl s) (.took found block entered)
    | inr callerPID =>
      obtain ⟨sound₁, wakes⟩ := entered.advance working
      have working₁ := working.lives sound₁ wakes.lives
      obtain ⟨p₁, attended₁⟩ := working₁.attended
      have block₁ := wakes.spared.kept block (by rw [ready]; decide)
      have pid : callerPID = p.pid := by
        cases entered
        rfl
      subst pid
      have target : s₁.procs.target p.pid = some c := by
        have caller : s₁.procs.callerPid = p.pid := by
          cases attended₁.block.symm.trans block₁
          exact attended₁.callerPid
        unfold Procs.target
        rw [caller, if_pos rfl, working₁.running]
      have moves : s₁.procs.moved p.pid .blocked = some (s₁.procs.moveState c p .blocked) :=
        moved_eq_some.mpr ⟨c, p, target, block₁, by rw [ready]; decide, by rw [ready]; decide, rfl⟩
      have positive := attended.pids c p block
      have valid : p.pid ≠ -1 := by omega
      rw [Program.meets_bind, Program.meets_discard]
      unfold blockTask
      rw [Program.meets_bind, Program.meets_lift]
      refine (changeStateWith_spec sound₁.grants attended₁ semPost p.pid (by decide) (by decide)).mono ?_
      rintro a s₂ ⟨rfl, h, grown, rfl⟩
      have slept : Does s c (.sleeps sem) _ :=
        .slept found block ready (turn.rest.notIdle notIdle) entered grown
      have rest := turn.rest.does (sleeps _ _ turn.acting slept) slept
      simp only [moves, Option.isSome_some, if_true, valid, if_false, Option.getD_some, Program.meets_bind,
        Program.meets_lift]
      rw [meets_currentPcb rest.working.running (Function.update_self ..)]
      simp only [if_true, Program.meets_bind, callTimerTick, Program.meets_suspend, Program.meets_pure]
      refine ⟨rest, fun s₃ again => ?_⟩
      have notIdle₃ : s₃.procs.idleProcessPCB ≠ some c := by
        rw [again.later.procs.idle]
        exact rest.notIdle notIdle
      have record : State.Records s₃ c sem := by
        refine again.records sem (.inl ?_)
        obtain ⟨member, rfl⟩ := find_some found
        cases entered
        exact List.mem_cons_self ..
      have turn₃ : Turn A c s₃ s₃ := ⟨again.acting, again.acting.working, .refl⟩
      obtain ⟨pid₃, p₃, block₃, ready₃, -⟩ := again.acting.ready
      rw [meets_endWait again.acting.working.running]
      exact passed _ s₃ s₃ _ turn₃ notIdle₃ ((slept.later working).trans again.later) (.woken block₃ ready₃ record)

theorem proceeds_semWait {sem : Int} (passes : Covers A c (.passes sem)) (sleeps : Covers A c (.sleeps sem)) :
    Proceeds A c (semWait sem) := by
  intro since s turn notIdle
  refine semWait_meets turn notIdle sleeps fun _ since' s₁ s' turn₁ notIdle₁ _ passed => ⟨?_, notIdle₁⟩
  have does : Does s₁ c (.passes sem) s' := .passed passed
  exact turn₁.does (passes _ _ turn₁.acting does) does fun _ _ => id

/-! ## Changing states -/

/-- A process that is still there has the pid and the semaphore it had. -/
theorem Working.same (working : Working s c) (later : s.Later s') (block : s.procs.pcbs r = some p)
    (block' : s'.procs.pcbs r = some p') : p'.pid = p.pid ∧ p'.semId = p.semId := by
  have settled : ∀ c' q, s.procs.newProcess c' ≠ some (r, q) := by
    intro c' q new
    have absent := (working.table.newApart c' r q new).1
    rw [block] at absent
    cases absent
  obtain ⟨q, was, pid, sem⟩ := later.procs.blocks r p' block' (working.table.below r p block) settled
  cases block.symm.trans was
  exact ⟨pid, sem⟩

/-- After a deed that may have stopped the process, the tick comes if it did. -/
theorem tick_meets {α : Type} {a : α} (turn : Turn A c since s) (allowed : A deed s s') (does : Does s c deed s')
    (stops : ∀ own, deed.stops own → pid = own) :
    (do if pid = (← currentPcb).2.pid then callTimerTick
        return a : Task α).Meets (fun _ => True) (Rest A c) (Again c)
      (fun _ since' s' => Turn A c since' s' ∧ since'.procs.idleProcessPCB = since.procs.idleProcessPCB) since s' := by
  have rest := turn.rest.does allowed does
  obtain ⟨p', attended⟩ := rest.working.attended
  rw [Program.meets_bind, Program.meets_lift, meets_currentPcb attended.running attended.block]
  by_cases own : pid = p'.pid
  · simp only [own, if_true, callTimerTick, Program.meets_bind]
    exact suspend_meets rest
  · simp only [own, if_false]
    refine ⟨turn.does allowed does fun pid' ready stop => own ?_, rfl⟩
    obtain ⟨p, block, -, rfl⟩ := ready
    rw [stops _ stop]
    exact (turn.acting.working.same (does.later turn.acting.working) block attended.block).1.symm

theorem Working.others_of_target (working : Working s c) (notIdle : s.procs.idleProcessPCB ≠ some c)
    (found : s.procs.target pid = some r) : r ∈ s.procs.others := by
  rcases working.target found with listed | ⟨idle, rfl⟩
  · exact listed
  · exact (notIdle idle).elim

theorem Proceeds.intro {α : Type} {p : Program State Fault α} (meets : ∀ since s, Turn A c since s →
    since.procs.idleProcessPCB ≠ some c → p.Meets (fun _ => True) (Rest A c) (Again c)
      (fun _ since' s' => Turn A c since' s' ∧ since'.procs.idleProcessPCB = since.procs.idleProcessPCB) since s) :
    Proceeds A c p := by
  intro since s turn notIdle
  refine (meets since s turn notIdle).mono fun _ since' s' after => ⟨after.1, ?_⟩
  rw [after.2]
  exact notIdle

theorem changeState_blocked_spec (acting : Acting s c) (notIdle : s.procs.idleProcessPCB ≠ some c) (pid : Int) :
    Meets bad (changeState pid .blocked) (fun a s' => (a = -1 ∧ Does s c .looks s') ∨
      (a = pid ∧ a ≠ -1 ∧ Does s c (.moves pid .blocked) s')) s := by
  obtain ⟨p, attended⟩ := acting.working.attended
  apply (changeStateWith_spec acting.working.sound.grants attended semPost pid (by decide) (by decide)).mono
  rintro a s' ⟨rfl, h, grown, rfl⟩
  obtain none | ⟨procs, moved⟩ := (s.procs.moved pid .blocked).eq_none_or_eq_some
  · rw [none]
    exact .inl ⟨rfl, .looked grown⟩
  · rw [moved]
    obtain ⟨r, q, target, block, notExited, notTerminated, rfl⟩ := moved_eq_some.mp moved
    have listed := acting.working.others_of_target notIdle target
    obtain ⟨-, q', block', rfl⟩ := target_some attended target
    have positive := attended.pids r q' block'
    refine .inr ⟨rfl, ?_, .moved grown target listed block notExited notTerminated (.inr rfl)⟩
    simp only [Option.isSome_some, if_true]
    omega

theorem proceeds_blockTask {pid : Int} (looks : Covers A c .looks) (moves : Covers A c (.moves pid .blocked)) :
    Proceeds A c (blockTask pid) := by
  apply Proceeds.intro
  intro since s turn notIdle
  unfold blockTask
  rw [Program.meets_bind, Program.meets_lift]
  apply (changeState_blocked_spec turn.acting (turn.rest.notIdle notIdle) pid).mono
  rintro a s' (⟨rfl, does⟩ | ⟨rfl, valid, does⟩)
  · rw [if_pos rfl]
    exact ⟨turn.does (looks _ _ turn.acting does) does fun _ _ => id, rfl⟩
  · rw [if_neg valid]
    exact tick_meets turn (moves _ _ turn.acting does) does fun own stop => stop.1

theorem Exited.same (working : Working s c) (exited : Exited s pid a s') : a = pid := by
  obtain ⟨p, attended⟩ := working.attended
  obtain ⟨target, block, notExited, notTerminated, grown, posts, now⟩ := exited
  obtain ⟨-, q, block', rfl⟩ := target_some attended target
  cases block.symm.trans block'
  have working' := working.withHeap grown
  have later : (s.withHeap _).Later _ := ⟨(posts.wakes working').lives.outlives, by rw [posts.pipes]; exact .refl _⟩
  exact (working'.same later block now).1

theorem killTask_meets {pid : Int} (looks : Covers A c .looks) (exits : Covers A c (.exits pid))
    (turn : Turn A c since s) (listed : ∀ r, s.procs.target pid = some r → r ∈ s.procs.others) :
    (killTask pid).Meets (fun _ => True) (Rest A c) (Again c)
      (fun _ since' s' => Turn A c since' s' ∧ since'.procs.idleProcessPCB = since.procs.idleProcessPCB) since s := by
  obtain ⟨p, attended⟩ := turn.acting.working.attended
  unfold killTask
  rw [Program.meets_bind, Program.meets_lift, meets_get]
  by_cases spared : pid = s.procs.userlandPid ∨ pid = s.procs.initPid
  · rw [if_pos spared]
    exact ⟨turn, rfl⟩
  · rw [if_neg spared, Program.meets_bind, Program.meets_lift]
    apply (changeState_exited_spec turn.acting.working pid).mono
    rintro a s' (⟨rfl, h, grown, rfl, -⟩ | exited)
    · rw [if_pos rfl]
      have does : Does s c .looks _ := .looked grown
      exact ⟨turn.does (looks _ _ turn.acting does) does fun _ _ => id, rfl⟩
    · have does : Does s c (.exits pid) s' := .exited listed exited
      have same := exited.same turn.acting.working
      subst same
      obtain ⟨r, target⟩ : ∃ r, s.procs.target a = some r := by
        cases exited
        exact ⟨_, by assumption⟩
      obtain ⟨-, q, block, rfl⟩ := target_some attended target
      have positive := attended.pids r q block
      have valid : q.pid ≠ -1 := by omega
      rw [if_neg valid]
      exact tick_meets turn (exits _ _ turn.acting does) does fun own stop => stop

theorem proceeds_killTask {pid : Int} (looks : Covers A c .looks) (exits : Covers A c (.exits pid)) :
    Proceeds A c (killTask pid) := by
  apply Proceeds.intro
  intro since s turn notIdle
  apply killTask_meets looks exits turn
  intro r target
  exact turn.acting.working.others_of_target (turn.rest.notIdle notIdle) target

theorem proceeds_killCurrent (looks : Covers A c .looks) (exits : ∀ pid, Covers A c (.exits pid)) :
    Proceeds A c killCurrent :=
  acts_currentPcb.proceeds.bind fun _ => proceeds_killTask looks (exits _)

theorem resumeTask_meets {pid : Int} (looks : Covers A c .looks) (moves : CoversAt A c s (.moves pid .ready))
    (turn : Turn A c since s) (notIdle : since.procs.idleProcessPCB ≠ some c) :
    Meets (fun _ => True) (resumeTask pid) (fun _ => Turn A c since) s := by
  obtain ⟨p, attended⟩ := turn.acting.working.attended
  apply (resumeTask_spec turn.acting.working.sound.grants attended pid).mono
  rintro a s' ⟨rfl, h, grown, rfl⟩
  obtain none | ⟨procs, moved⟩ := (s.procs.moved pid .ready).eq_none_or_eq_some
  · rw [none]
    have does : Does s c .looks _ := .looked grown
    exact turn.does (looks _ _ turn.acting does) does fun _ _ => id
  · rw [moved]
    obtain ⟨r, q, target, block, notExited, notTerminated, rfl⟩ := moved_eq_some.mp moved
    have listed := turn.acting.working.others_of_target (turn.rest.notIdle notIdle) target
    have does : Does s c (.moves pid .ready) _ :=
      .moved grown target listed block notExited notTerminated (.inl rfl)
    exact turn.does (moves _ turn.acting does) does fun _ _ stop => stop.2 rfl

theorem keeps_terminate {pid : Int} (looks : Covers A c .looks)
    (terminates : Covers A c (.terminates pid)) (since : State) :
    Keeps (fun _ => True) (Turn A c since) (changeState pid .terminated) := by
  intro s turn
  apply (changeState_terminated_spec turn.acting.working pid).mono
  rintro a s' (⟨rfl, h, grown, rfl, -⟩ | terminated)
  · have does : Does s c .looks _ := .looked grown
    exact turn.does (looks _ _ turn.acting does) does fun _ _ => id
  · have does : Does s c (.terminates pid) s' := .terminated terminated
    exact turn.does (terminates _ _ turn.acting does) does fun _ _ => id

theorem acts_logCurrent {event : Ref → Event} {deed : Deed} (covers : Covers A c deed) (goes : ∀ pid, ¬deed.stops pid)
    (does : ∀ s, Does s c deed { s with history := event c :: s.history }) : Acts A c (logCurrent event) := by
  apply acts_of_does covers goes
  intro s acting _
  unfold logCurrent
  rw [meets_modify, acting.working.running]
  exact does s

/-- `waitpid` from where it waits for the child. -/
theorem proceeds_watch (child : Ref) (looks : Covers A c .looks) (sleeps : ∀ sem, Covers A c (.sleeps sem))
    (watches : Covers A c (.watches child)) (terminates : ∀ pid, Covers A c (.terminates pid)) :
    Proceeds A c (do
      discard <| semWait (← readPcb child).semId
      let p ← readPcb child
      logCurrent (.waited · child p)
      changeState p.pid .terminated : Task Int) := by
  intro since s turn notIdle
  rw [Program.meets_bind, Program.meets_lift, meets_readPcb]
  obtain gone | ⟨p, block⟩ := (s.procs.pcbs child).eq_none_or_eq_some
  · rw [gone]
    trivial
  · rw [block, meets_lookup_some, Program.meets_bind, Program.meets_discard]
    apply semWait_meets turn notIdle (sleeps _)
    intro _ since' s₁ s₂ turn₁ notIdle₁ later passed
    rw [Program.meets_bind, Program.meets_lift, meets_readPcb]
    obtain gone | ⟨p₂, block₂⟩ := (s₂.procs.pcbs child).eq_none_or_eq_some
    · rw [gone]
      trivial
    · have past : Does s₁ c (.passes p.semId) s₂ := .passed passed
      have later₂ := later.trans (past.later turn₁.acting.working)
      rw [← (turn.acting.working.same later₂ block block₂).2] at passed
      have does : Does s₁ c (.watches child) _ := .watched passed block₂
      have watched := turn₁.does (watches _ _ turn₁.acting does) does fun _ _ => id
      rw [block₂, meets_lookup_some, Program.meets_bind, Program.meets_lift]
      unfold logCurrent
      have running : s₂.procs.currentProcessPCB = some c := watched.acting.working.running
      rw [meets_modify, running]
      exact (keeps_terminate looks (terminates _) since' _ watched).mono fun _ _ after => ⟨after, notIdle₁⟩

theorem proceeds_waitpid {pid : Int} (looks : Covers A c .looks) (awaits : ∀ child, Covers A c (.awaits child))
    (sleeps : ∀ sem, Covers A c (.sleeps sem)) (watches : ∀ child, Covers A c (.watches child))
    (terminates : ∀ pid, Covers A c (.terminates pid)) : Proceeds A c (waitpid pid) := by
  unfold waitpid
  apply (acts_processOf looks pid).proceeds.bind
  intro found
  cases found with
  | none => exact .pure _
  | some child =>
    apply (acts_logCurrent (awaits child) (fun _ => id) fun _ => .awaited).proceeds.bind
    intro _
    exact proceeds_watch child looks sleeps (watches child) terminates

theorem acts_nice {pid newPriority : Int} (tunes : Covers A c .tunes) (looks : Covers A c .looks) :
    Acts A c (nice pid newPriority) := by
  intro since _ s turn
  obtain ⟨p, attended⟩ := turn.acting.working.attended
  unfold nice
  rw [meets_bind]
  apply meets_getProcess turn.acting.working.sound.grants attended
  intro h grown
  obtain none | ⟨r, found⟩ := (s.procs.process pid).eq_none_or_eq_some
  · rw [none]
    have does : Does s c .looks _ := .looked grown
    exact turn.does (looks _ _ turn.acting does) does fun _ _ => id
  · obtain ⟨queued, q, block, -⟩ := process_some found
    rw [found]
    simp only [meets_bind, meets_modifyPcb, withHeap_procs, block, Option.map_some, meets_pure]
    have bounds : ∀ n : Int, 0 ≤ (if (if n < 0 then 0 else n) > MAX_PRIO then MAX_PRIO else if n < 0 then 0 else n) ∧
        (if (if n < 0 then 0 else n) > MAX_PRIO then MAX_PRIO else if n < 0 then 0 else n) ≤ MAX_PRIO := by
      intro n
      unfold MAX_PRIO
      split <;> split <;> omega
    have does : Does s c .tunes _ := .reniced grown queued block (bounds newPriority).1 (bounds newPriority).2
    exact turn.does (tunes _ _ turn.acting does) does fun _ _ => id

theorem proceeds_yield (tunes : Covers A c .tunes) : Proceeds A c yield := by
  apply Proceeds.intro
  intro since s turn _
  unfold yield
  rw [Program.meets_bind, Program.meets_lift, meets_modifyProcs]
  have does : Does s c .tunes _ := .yielded
  have after := turn.does (tunes _ _ turn.acting does) does fun _ _ => id
  rw [Program.meets_bind, callTimerTick]
  exact suspend_meets after.rest

/-! ## Pipes -/

theorem meets_readPipe_gone {pipe : Ref} {post : Pipe → State → Prop}
    (gone : ∀ p, s.pipes.pipes pipe = some p → p.freed = true) : Meets (fun _ => True) (readPipe pipe) post s := by
  unfold readPipe
  rw [meets_bind, meets_get]
  cases here : s.pipes.pipes pipe with
  | none => trivial
  | some p =>
    rw [Option.filter_some, gone p here]
    trivial

/-- A pipe pointer leads to an open pipe or to none. -/
theorem open_or_gone (pipes : Pipes) (pipe : Ref) :
    (∃ p, pipes.pipes pipe = some p ∧ p.freed = false) ∨ ∀ p, pipes.pipes pipe = some p → p.freed = true := by
  cases here : pipes.pipes pipe with
  | none =>
    right
    rintro p ⟨⟩
  | some p =>
    cases freed : p.freed with
    | false => exact .inl ⟨p, rfl, freed⟩
    | true =>
      right
      rintro _ ⟨⟩
      exact freed

theorem proceeds_pipeOpen {pipeId : Int} (passes : ∀ sem, Covers A c (.passes sem))
    (sleeps : ∀ sem, Covers A c (.sleeps sem))
    (opens : Covers A c (.opens pipeId)) (posts : ∀ s, CoversAt A c s (.posts s.pipes.allPipesSem)) :
    Proceeds A c (pipeOpen pipeId) := by
  unfold pipeOpen
  apply acts_get.proceeds.bind
  intro s₀
  rw [show (discard (semWait s₀.pipes.allPipesSem) : Task PUnit) = semWait s₀.pipes.allPipesSem >>= fun _ =>
    pure ⟨⟩ from rfl]
  apply ((proceeds_semWait (passes _) (sleeps _)).bind fun _ => .pure _).bind
  intro _
  apply Acts.proceeds
  intro since _ s turn
  obtain ⟨p, attended⟩ := turn.acting.working.attended
  apply (pipeOpenEntered_spec turn.acting.working.sound attended pipeId).mono
  rintro _ s' ⟨s₁, opened, posted⟩
  have does : Does s c (.opens pipeId) s₁ := .opened opened
  have middle := turn.does (opens _ _ turn.acting does) does fun _ _ => id
  rw [← (does.later turn.acting.working).pipes.mutex] at posted
  have does' : Does s₁ c (.posts s₁.pipes.allPipesSem) s' := .posted posted
  exact middle.does (posts _ _ middle.acting does') does' fun _ _ => id

theorem proceeds_pipeClose {pipeId : Int} (looks : Covers A c .looks) (passes : ∀ sem, Covers A c (.passes sem))
    (sleeps : ∀ sem, Covers A c (.sleeps sem)) (closes : Covers A c (.closes pipeId))
    (posts : ∀ s, CoversAt A c s (.posts s.pipes.allPipesSem)) : Proceeds A c (pipeClose pipeId) := by
  intro since s turn notIdle
  have sound := turn.acting.working.sound
  unfold pipeClose
  rw [Program.meets_bind, Program.meets_lift]
  apply (getPipe_spec sound.grants sound.pipes pipeId).mono
  rintro found s₀ ⟨rfl, h, grown, rfl⟩
  have look : Does s c .looks _ := .cached pipeId grown
  have turn₀ := turn.does (looks _ _ turn.acting look) look fun _ _ => id
  obtain absent | ⟨r, found⟩ := (s.pipes.find pipeId).eq_none_or_eq_some
  · rw [absent]
    have does : Does { s with heap := h, pipes := s.pipes.cache pipeId } c (.closes pipeId) _ := .missed absent
    exact ⟨turn₀.does (closes _ _ turn₀.acting does) does fun _ _ => id, notIdle⟩
  · rw [found]
    obtain ⟨-, p, here, -, same⟩ := pipe_find_some sound.pipes found
    simp only [Program.meets_bind, Program.meets_lift, meets_get, Program.meets_discard]
    apply semWait_meets turn₀ notIdle (sleeps _)
    intro _ since' s₁ s₂ turn₁ notIdle₁ later passed
    have past : Does s₁ c (.passes _) s₂ := .passed passed
    have turn₂ := turn₁.does (passes _ _ _ turn₁.acting past) past fun _ _ => id
    obtain ⟨p₂, here₂, same₂, -⟩ := (later.trans (past.later turn₁.acting.working)).pipes.blocks r p here
    rcases open_or_gone s₂.pipes r with ⟨p', here', isOpen⟩ | gone
    · cases here₂.symm.trans here'
      obtain ⟨q, attended⟩ := turn₂.acting.working.attended
      apply (pipeCloseEntered_spec turn₂.acting.working.sound attended here₂ isOpen pipeId).mono
      rintro _ s₄ ⟨s₃, closed, posted⟩
      have does : Does s₂ c (.closes pipeId) s₃ := .closed here₂ isOpen (same₂.trans same) closed
      have middle := turn₂.does (closes _ _ turn₂.acting does) does fun _ _ => id
      rw [← (does.later turn₂.acting.working).pipes.mutex] at posted
      have does' : Does s₃ c (.posts s₃.pipes.allPipesSem) s₄ := .posted posted
      exact ⟨middle.does (posts _ _ middle.acting does') does' fun _ _ => id, notIdle₁⟩
    · unfold pipeCloseEntered
      rw [meets_bind, meets_discard]
      exact meets_readPipe_gone gone

theorem proceeds_writeToPipe {pipe : Ref} {ch : Int8} (sleeps : ∀ sem, Covers A c (.sleeps sem))
    (puts : Covers A c (.puts pipe ch)) : Proceeds A c (writeToPipe pipe ch) := by
  intro since s turn notIdle
  unfold writeToPipe
  rw [Program.meets_bind, Program.meets_lift]
  rcases open_or_gone s.pipes pipe with ⟨p, here, isOpen⟩ | gone
  · rw [meets_readPipe here isOpen, Program.meets_bind, Program.meets_discard]
    apply semWait_meets turn notIdle (sleeps _)
    intro _ since' s₁ s₂ turn₁ notIdle₁ later passed
    obtain ⟨p₁, here₁, -, -, write, -⟩ := later.pipes.blocks pipe p here
    have here₂ : s₂.pipes.pipes pipe = some p₁ := by
      rw [passed.pipes, here₁]
    rw [Program.meets_lift]
    rcases open_or_gone s₂.pipes pipe with ⟨p', here', isOpen'⟩ | gone
    · cases here₂.symm.trans here'
      have past : Does s₁ c (.passes p.writeSemId) s₂ := .passed passed
      have working₂ := turn₁.acting.working.does past
      obtain ⟨q, attended⟩ := working₂.attended
      apply (writeBuffer_spec working₂.sound attended here₂ isOpen' ch).mono
      intro _ s₃ posted
      rw [← write] at passed
      have does : Does s₁ c (.puts pipe ch) s₃ := .put here₁ isOpen' passed posted
      exact ⟨turn₁.does (puts _ _ turn₁.acting does) does fun _ _ => id, notIdle₁⟩
    · unfold writeBuffer
      rw [meets_bind]
      exact meets_readPipe_gone gone
  · exact meets_readPipe_gone gone

theorem proceeds_pipeWriteLoop {pipe : Ref} (sleeps : ∀ sem, Covers A c (.sleeps sem))
    (puts : ∀ ch, Covers A c (.puts pipe ch)) (str : List Int8) : Proceeds A c (pipeWriteLoop pipe str) := by
  induction str with
  | nil => exact .pure _
  | cons ch str ih => exact .ite (.pure _) ((proceeds_writeToPipe sleeps (puts ch)).bind fun _ => ih)

theorem proceeds_pipeWrite {pipeId : Int} {str : List Int8} (looks : Covers A c .looks)
    (sleeps : ∀ sem, Covers A c (.sleeps sem)) (puts : ∀ pipe ch, Covers A c (.puts pipe ch)) :
    Proceeds A c (pipeWrite pipeId str) := by
  apply (acts_getPipe looks pipeId).proceeds.bind
  intro found
  cases found with
  | none => exact .pure _
  | some pipe => exact (proceeds_pipeWriteLoop sleeps (puts pipe) str).bind fun _ => .pure _

theorem proceeds_pipePutchar {pipeId : Int} {ch : Int8} (looks : Covers A c .looks)
    (sleeps : ∀ sem, Covers A c (.sleeps sem)) (puts : ∀ pipe, Covers A c (.puts pipe ch)) :
    Proceeds A c (pipePutchar pipeId ch) := by
  apply (acts_getPipe looks pipeId).proceeds.bind
  intro found
  cases found with
  | none => exact .pure _
  | some pipe => exact (proceeds_writeToPipe sleeps (puts pipe)).bind fun _ => .pure _

theorem proceeds_pipeRead {pipeId : Int} (looks : Covers A c .looks)
    (sleeps : ∀ sem, Covers A c (.sleeps sem)) (takes : ∀ pipe, Covers A c (.takes pipe)) :
    Proceeds A c (pipeRead pipeId) := by
  apply (acts_getPipe looks pipeId).proceeds.bind
  intro found
  cases found with
  | none => exact .pure _
  | some pipe =>
    intro since s turn notIdle
    rw [Program.meets_bind, Program.meets_lift]
    rcases open_or_gone s.pipes pipe with ⟨p, here, isOpen⟩ | gone
    · rw [meets_readPipe here isOpen, Program.meets_bind, Program.meets_discard]
      apply semWait_meets turn notIdle (sleeps _)
      intro _ since' s₁ s₂ turn₁ notIdle₁ later passed
      obtain ⟨p₁, here₁, -, read, -⟩ := later.pipes.blocks pipe p here
      have here₂ : s₂.pipes.pipes pipe = some p₁ := by
        rw [passed.pipes, here₁]
      rw [Program.meets_lift]
      rcases open_or_gone s₂.pipes pipe with ⟨p', here', isOpen'⟩ | gone
      · cases here₂.symm.trans here'
        have past : Does s₁ c (.passes p.readSemId) s₂ := .passed passed
        have working₂ := turn₁.acting.working.does past
        obtain ⟨q, attended⟩ := working₂.attended
        apply (readBuffer_spec working₂.sound attended here₂ isOpen').mono
        intro _ s₃ posted
        rw [← read] at passed
        have does : Does s₁ c (.takes pipe) s₃ := .took here₁ isOpen' passed posted
        exact ⟨turn₁.does (takes _ _ _ turn₁.acting does) does fun _ _ => id, notIdle₁⟩
      · unfold readBuffer
        rw [meets_bind]
        exact meets_readPipe_gone gone
    · exact meets_readPipe_gone gone

/-! ## Birth -/

theorem priority_gentle (P : Prop) [Decidable P] :
    0 ≤ (if P then FOREGROUND_PRIORITY else BACKGROUND_PRIORITY) ∧
      (if P then FOREGROUND_PRIORITY else BACKGROUND_PRIORITY) ≤ MAX_PRIO := by
  unfold FOREGROUND_PRIORITY BACKGROUND_PRIORITY MAX_PRIO
  split <;> omega

/-- With memory, only a wrong `foreground` keeps a new process from its block and its stack. -/
theorem allocateBlock_within {bad : Fault → Prop} {name : String} {foreground : Int} {fd : Int × Int}
    (counts : bad .overflow ∨ s.procs.pidCounter < INT_MAX) (short : bad .overrun ∨ name.length < NAME_SIZE)
    (working : Working s c) : Meets bad (allocateBlock name foreground fd) (fun goes s' => goes = false ∧ s' = s ∨
      goes = true ∧ ∃ p, p.fileDescriptors = fd ∧ p.stack = s.heap.allocate.requests ∧
        s' = { s with heap := s.heap.allocate.allocate, procs := { s.procs with
          pidCounter := s.procs.pidCounter + 1
          newProcess := Function.update s.procs.newProcess c (some (s.heap.requests, p)) } } ∧
        Does s c .creates s') s := by
  have grants := working.sound.grants
  obtain ⟨q, attended⟩ := working.attended
  unfold allocateBlock
  rw [meets_ite]
  refine ⟨fun _ => .inl ⟨rfl, rfl⟩, fun _ => ?_⟩
  rw [meets_bind, meets_malloc grants]
  simp only [meets_bind, meets_get]
  rw [meets_getpid (by exact attended.running) (by exact attended.block)]
  refine meets_copyName_within short ?_
  refine meets_increment_within counts fun _ => ?_
  rw [meets_modifyProcs, meets_malloc (by exact grants), meets_bind, meets_setNewProcess (by exact attended.running)]
  have grown : s.heap.Grown s.heap.allocate.allocate := s.heap.grown_allocate.trans (Heap.grown_allocate _)
  refine .inr ⟨rfl, _, rfl, rfl, rfl, ?_⟩
  exact .allocated attended.block grown (Nat.le_refl _) (Nat.lt_succ_of_lt (Nat.lt_succ_self _)) rfl rfl rfl
    (priority_gentle _) rfl

theorem allocateBlock_meets {name : String} {foreground : Int} {fd : Int × Int}
    (allocates : ∀ s', Acting s c → s'.procs.pcbs = s.procs.pcbs → Does s c .creates s' → A .creates s s')
    (turn : Turn A c since s) :
    Meets (fun _ => True) (allocateBlock name foreground fd) (fun _ => Turn A c since) s := by
  refine (allocateBlock_within (.inl trivial) (.inl trivial) turn.acting.working).mono ?_
  rintro goes s' (⟨-, rfl⟩ | ⟨-, p, -, -, rfl, does⟩)
  · exact turn
  · exact turn.does (allocates _ turn.acting rfl does) does fun _ _ => id

/-- What is done for a new process leaves the counter of the pids, once the process has its own. -/
def Fills (A : Deed → State → State → Prop) (c : Ref) : Prop :=
  ∀ s s', Acting s c → s'.procs.pidCounter = s.procs.pidCounter → Does s c .creates s' → A .creates s s'

theorem attachSemaphore_meets (creates : ∀ s', Acting s c → s'.procs.pcbs = s.procs.pcbs →
      s'.procs.pidCounter = s.procs.pidCounter → Does s c .creates s' → A .creates s s')
    (turn : Turn A c since s) : Meets (fun _ => True) attachSemaphore (fun _ s' => Turn A c since s' ∧
      ∀ r p, s'.procs.newProcess c = some (r, p) → 0 ≤ p.semId) s := by
  have sound := turn.acting.working.sound
  have running := turn.acting.working.running
  unfold attachSemaphore
  rw [meets_bind]
  apply (semInit_spec sound.grants sound.sems 0).mono
  rintro semId s' ⟨rfl, h, sems, grown, added, rfl⟩
  have given : s.sems.semId ≠ -1 := by
    have := sound.sems.nextId
    omega
  rw [meets_bind, meets_readNewProcess (by exact running)]
  obtain none | ⟨⟨r, p⟩, was⟩ := (s.procs.newProcess c).eq_none_or_eq_some
  · rw [none]
    trivial
  · rw [was, meets_lookup_some]
    simp only [given, if_false, meets_bind]
    rw [meets_setNewProcess (by exact running)]
    have does : Does s c .creates _ := .filled grown added was
    refine ⟨turn.does (creates _ turn.acting rfl rfl does) does fun _ _ => id, fun r' p' new => ?_⟩
    simp only [Function.update_self, Option.some.injEq, Prod.mk.injEq] at new
    rw [← new.2]
    exact sound.sems.nextId

theorem acts_attachSemaphore (creates : Fills A c) : Acts A c attachSemaphore := by
  intro since _ s turn
  have meets := attachSemaphore_meets (fun s' acting _ => creates s s' acting) turn
  exact meets.mono fun _ _ after => after.1

theorem initializeBlock_meets {name : String} {foreground : Int} {fd : Int × Int} (allocates : CoversAt A c s .creates)
    (creates : Fills A c) (passes : ∀ sem, Covers A c (.passes sem)) (sleeps : ∀ sem, Covers A c (.sleeps sem))
    (opens : ∀ pipeId, Covers A c (.opens pipeId)) (posts : ∀ s, CoversAt A c s (.posts s.pipes.allPipesSem))
    (turn : Turn A c since s) (notIdle : since.procs.idleProcessPCB ≠ some c) :
    (initializeBlock name foreground fd).Meets (fun _ => True) (Rest A c) (Again c)
      (fun _ since' s' => Turn A c since' s' ∧ since'.procs.idleProcessPCB ≠ some c) since s := by
  have opening : ∀ (P : Prop) [Decidable P] (pipeId : Int) {q : Task Bool}, Proceeds A c q →
      Proceeds A c (do if P then discard <| pipeOpen pipeId
                       q) := by
    intro P _ pipeId q rest
    apply Proceeds.ite _ rest
    apply Proceeds.bind _ fun _ => rest
    exact (proceeds_pipeOpen passes sleeps (opens pipeId) posts).bind fun _ => .pure _
  unfold initializeBlock
  rw [Program.meets_bind, Program.meets_lift]
  apply (allocateBlock_meets (fun s' acting _ => allocates s' acting) turn).mono
  intro goes s' after
  have rest := opening (fd.1 ≠ STDIN_PIPENO) fd.1
    (opening (fd.2 ≠ STDOUT_PIPENO) fd.2 (acts_attachSemaphore creates).proceeds)
  exact (Proceeds.ite rest (.pure _)) since s' after notIdle

theorem cpyArgsLoop_spec (grants : s.Grants) (src : List String) (dest : List Ref) :
    Meets bad (cpyArgsLoop src dest) (fun result s' => result.isSome ∧ ∃ h, s.heap.Grown h ∧ s' = s.withHeap h) s := by
  induction src generalizing s dest with
  | nil => exact ⟨rfl, s.heap, .refl _, rfl⟩
  | cons string src ih =>
    unfold cpyArgsLoop
    rw [meets_bind, meets_malloc grants]
    apply (ih (grants.withHeap s.heap.grown_allocate) _).mono
    rintro result s' ⟨some, h, grown, rfl⟩
    exact ⟨some, h, s.heap.grown_allocate.trans grown, rfl⟩

theorem cpyArgs_spec (grants : s.Grants) (dest : Option Ref) (src : List String) :
    Meets (fun _ => True) (cpyArgs dest src)
    (fun result s' => result.isSome ∧ ∃ h, s.heap.Grown h ∧ s' = s.withHeap h) s := by
  unfold cpyArgs
  split
  · trivial
  · exact (cpyArgsLoop_spec grants src []).mono fun _ _ => id

theorem enqueueNewProcess_meets {foreground : Int} {args : Option Ref} {strings : List Ref}
    (creates : ∀ s', Acting s c → s'.procs.pidCounter = s.procs.pidCounter → Does s c .creates s' → A .creates s s')
    (turn : Turn A c since s) :
    Meets (fun _ => True) (enqueueNewProcess foreground args strings) (fun _ => Turn A c since) s := by
  obtain ⟨q, attended⟩ := turn.acting.working.attended
  obtain ⟨_, q', block, ready, -⟩ := turn.acting.ready
  cases attended.block.symm.trans block
  unfold enqueueNewProcess
  rw [meets_bind, meets_readNewProcess attended.running]
  obtain none | ⟨⟨r, p⟩, was⟩ := (s.procs.newProcess c).eq_none_or_eq_some
  · rw [none]
    trivial
  · rw [was, meets_lookup_some]
    simp only [meets_bind, meets_get]
    apply (enqueue_spec turn.acting.working.sound.grants r).mono
    rintro queue s' ⟨listed, h, grown, rfl⟩
    rw [meets_currentPcb (by exact attended.running) (by exact attended.block)]
    rw [meets_setNewProcess (by exact attended.running)]
    simp only [withHeap_procs, meets_modifyProcs, meets_pure]
    have parent : (if q.pid = s.procs.userlandPid ∧ foreground = 0 then s.procs.initPid else p.ppid) = p.ppid ∨
        (if q.pid = s.procs.userlandPid ∧ foreground = 0 then s.procs.initPid else p.ppid) = s.procs.initPid := by
      split <;> simp
    have after : ∀ s', s'.procs.pidCounter = s.procs.pidCounter → Does s c .creates s' → Turn A c since s' :=
      fun s' same does => turn.does (creates _ turn.acting same does) does fun _ _ => id
    exact after _ rfl (.published attended.block (by rw [ready]; decide) grown was listed parent)

theorem acts_enqueueNewProcess {foreground : Int} {args : Option Ref} {strings : List Ref}
    (creates : Fills A c) : Acts A c (enqueueNewProcess foreground args strings) :=
  fun _ _ s turn => enqueueNewProcess_meets (creates s) turn

theorem proceeds_fillNewProcess {argv : List String} {foreground : Int} (looks : Covers A c .looks)
    (creates : Fills A c) : Proceeds A c (fillNewProcess argv foreground) := by
  unfold fillNewProcess
  apply (acts_malloc looks).proceeds.bind
  intro args since s turn notIdle
  rw [Program.meets_bind, Program.meets_lift]
  apply (cpyArgs_spec turn.acting.working.sound.grants args argv).mono
  rintro result s' ⟨some, h, grown, rfl⟩
  obtain ⟨strings, rfl⟩ := Option.isSome_iff_exists.mp some
  have does : Does s c .looks _ := .looked grown
  have after := turn.does (looks _ _ turn.acting does) does fun _ _ => id
  exact (acts_enqueueNewProcess creates).proceeds since _ after notIdle

theorem descriptorsOf_spec (attended : s.procs.Attended c p) (fd : Option (Int × Int)) :
    Meets bad (descriptorsOf fd) (fun _ s' => s' = s) s := by
  cases fd with
  | some fd => rfl
  | none =>
    unfold descriptorsOf
    rw [meets_bind, meets_currentPcb attended.running attended.block]
    rfl

theorem startTask_meets {process : Option Ref} {argv : List String} {foreground : Int} {fd : Option (Int × Int)}
    (looks : Covers A c .looks) (allocates : CoversAt A c s .creates) (creates : Fills A c)
    (passes : ∀ sem, Covers A c (.passes sem)) (sleeps : ∀ sem, Covers A c (.sleeps sem))
    (opens : ∀ pipeId, Covers A c (.opens pipeId)) (posts : ∀ s, CoversAt A c s (.posts s.pipes.allPipesSem))
    (turn : Turn A c since s) (notIdle : since.procs.idleProcessPCB ≠ some c) :
    (startTask process argv foreground fd).Meets (fun _ => True) (Rest A c) (Again c)
      (fun _ since' s' => Turn A c since' s' ∧ since'.procs.idleProcessPCB ≠ some c) since s := by
  unfold startTask
  split
  · exact ⟨turn, notIdle⟩
  · obtain ⟨p, attended⟩ := turn.acting.working.attended
    rw [Program.meets_bind, Program.meets_lift]
    refine meets_deref_any fun name _ => ?_
    rw [Program.meets_bind, Program.meets_lift]
    apply (descriptorsOf_spec attended fd).mono
    rintro fd _ rfl
    rw [Program.meets_bind]
    apply (initializeBlock_meets allocates creates passes sleeps opens posts turn notIdle).mono
    rintro goes since' s' ⟨turn', notIdle'⟩
    exact (Proceeds.ite (proceeds_fillNewProcess looks creates) (.pure _)) since' s' turn' notIdle'

/-! ## Ctrl+C -/

/-- A process that is looked at is found by its pid. -/
theorem Working.target_eq (working : Working s c) (here : r = c ∨ r ∈ values s.procs.queue)
    (block : s.procs.pcbs r = some p) : s.procs.target p.pid = some r := by
  obtain ⟨q, attended⟩ := working.attended
  unfold Procs.target
  by_cases own : p.pid = s.procs.callerPid
  · rw [if_pos own, attended.running]
    rw [attended.callerPid] at own
    exact congrArg some (working.table.unique c r q p attended.block block own.symm)
  · rw [if_neg own]
    rcases here with rfl | queued
    · cases attended.block.symm.trans block
      exact (own attended.callerPid.symm).elim
    · unfold Procs.process
      apply find_eq_some queued
      · simp [block]
      · intro r' queued' same
        obtain ⟨p', block', same⟩ := (Option.any_eq_true _ _).mp same
        exact working.table.unique r' r p' p block' block (by simpa using same)

/-- What is looked at while children are terminated stays where it is. -/
def Turn.Watches (A : Deed → State → State → Prop) (c : Ref) (since : State) (queue : List Ref) (s : State) : Prop :=
  Turn A c since s ∧ values s.procs.queue = queue

/-- The loop leaves out the last one. -/
theorem keeps_rest {inv : State → Prop} {it : List Ref} {loop : Ref → List Ref → K Unit}
    (each : ∀ next rest, it = next :: rest → Keeps (fun _ => True) inv (loop next rest)) :
    Keeps (fun _ => True) inv (match it with
      | [] => pure ()
      | [_] => pure ()
      | next :: rest => loop next rest) := by
  rcases it with _ | ⟨next, _ | ⟨after, rest⟩⟩
  · exact .pure _
  · exact .pure _
  · exact each next (after :: rest) rfl

theorem keeps_terminateChildrenLoop {pid : Int} {queue : List Ref} {since : State} (looks : Covers A c .looks)
    (terminates : ∀ pid, Covers A c (.terminates pid)) (disowns : Covers A c .disowns) (current : Ref) (it : List Ref)
    (listed : ∀ r ∈ current :: it, r = c ∨ r ∈ queue) :
    Keeps (fun _ => True) (Turn.Watches A c since queue) (terminateChildrenLoop pid current it) := by
  have each : ∀ next rest, it = next :: rest →
      Keeps (fun _ => True) (Turn.Watches A c since queue) (terminateChildrenLoop pid next rest) := by
    intro next rest same
    exact keeps_terminateChildrenLoop looks terminates disowns next rest fun r member =>
      listed r (List.mem_cons_of_mem _ (same ▸ member))
  have rest := keeps_rest each
  intro s ⟨turn, same⟩
  unfold terminateChildrenLoop
  rw [meets_bind, meets_readPcb]
  obtain gone | ⟨p, block⟩ := (s.procs.pcbs current).eq_none_or_eq_some
  · rw [gone]
    trivial
  · rw [block, meets_lookup_some]
    have target := turn.acting.working.target_eq (same ▸ listed current (List.mem_cons_self ..)) block
    -- Whatever `changeState` does, the child is dead afterwards.
    have dead : Meets (fun _ => True) (changeState p.pid .terminated) (fun _ s' => Turn.Watches A c since queue s' ∧
        ∃ p', s'.procs.pcbs current = some p' ∧ p'.state = .terminated) s := by
      apply (changeState_terminated_spec turn.acting.working p.pid).mono
      rintro a s' (⟨rfl, h, grown, rfl, refused⟩ | terminated)
      · have does : Does s c .looks _ := .looked grown
        refine ⟨⟨turn.does (looks _ _ turn.acting does) does fun _ _ => id, same⟩, p, block, ?_⟩
        rcases refused current p target block with ⟨-, impossible⟩ | gone
        · exact (impossible rfl).elim
        · exact gone
      · have does : Does s c (.terminates p.pid) s' := .terminated terminated
        have after := turn.does (terminates _ _ _ turn.acting does) does fun _ _ => id
        obtain ⟨target', queued, block', notTerminated, grown, reparented, now⟩ := terminated
        cases target.symm.trans target'
        obtain ⟨ppid, rfl⟩ := reparented.relabelled
        exact ⟨⟨after, same⟩, _, Function.update_self .., rfl⟩
    by_cases child : p.ppid = pid
    · simp only [child, if_true, meets_bind, meets_discard]
      refine dead.mono ?_
      rintro _ s₁ ⟨⟨turn₁, same₁⟩, p₁, block₁, dead₁⟩
      simp only [meets_get, meets_modifyPcb, block₁, Option.map_some]
      have does : Does s₁ c .disowns _ := .disowned block₁ dead₁
      exact rest _ ⟨turn₁.does (disowns _ _ turn₁.acting does) does fun _ _ => id, same₁⟩
    · simp only [child, if_false]
      exact rest s ⟨turn, same⟩
termination_by it.length
decreasing_by simp [same]

theorem keeps_terminateChildren {pid : Int} {since : State} (looks : Covers A c .looks)
    (terminates : ∀ pid, Covers A c (.terminates pid)) (disowns : Covers A c .disowns) :
    Keeps (fun _ => True) (Turn A c since) (terminateChildren pid) := by
  intro s turn
  obtain ⟨p, attended⟩ := turn.acting.working.attended
  unfold terminateChildren
  rw [meets_bind, meets_malloc turn.acting.working.sound.grants, meets_bind]
  rw [meets_currentPcb (by exact attended.running) (by exact attended.block)]
  have does : Does s c .looks _ := .looked s.heap.grown_allocate
  have begun := turn.does (looks _ _ turn.acting does) does fun _ _ => id
  have loop : Keeps (fun _ => True) (Turn.Watches A c since (values s.procs.queue))
      (terminateChildrenLoop pid c (values s.procs.queue)) :=
    keeps_terminateChildrenLoop looks terminates disowns c _ fun r member => List.mem_cons.mp member
  simp only [meets_bind, meets_get, Option.isSome_some, if_true, withHeap_procs]
  refine (loop _ ⟨begun, rfl⟩).mono ?_
  rintro _ s' ⟨after, -⟩
  have does : Does s' c .looks _ := .looked (s'.heap.grown_release s.heap.requests)
  exact after.does (looks _ _ after.acting does) does fun _ _ => id

theorem killCurrentForeground_meets (looks : Covers A c .looks) (terminates : ∀ pid, Covers A c (.terminates pid))
    (disowns : Covers A c .disowns) (exits : ∀ pid, Covers A c (.exits pid)) (turn : Turn A c since s) :
    killCurrentForeground.Meets (fun _ => True) (Rest A c) (Again c)
      (fun _ since' s' => Turn A c since' s' ∧ since'.procs.idleProcessPCB = since.procs.idleProcessPCB) since s := by
  have working := turn.acting.working
  obtain ⟨p, attended⟩ := working.attended
  unfold killCurrentForeground
  rw [Program.meets_bind, Program.meets_lift, meets_currentPcb attended.running attended.block]
  rw [Program.meets_bind, Program.meets_lift, meets_get]
  by_cases foreground : s.procs.isForeground p
  · -- The idle process is in the background.
    have notIdle : since.procs.idleProcessPCB ≠ some c := by
      rw [← turn.rest.idle]
      intro idle
      have background := (idle_ready working.table idle attended.block).2
      simp [Procs.isForeground, background] at foreground
    rw [if_pos foreground, Program.meets_bind, Program.meets_lift]
    apply (keeps_terminateChildren looks terminates disowns s turn).mono
    intro _ s' after
    unfold killCurrent
    obtain ⟨p', attended'⟩ := after.acting.working.attended
    rw [Program.meets_bind, Program.meets_lift, meets_currentPcb attended'.running attended'.block]
    apply killTask_meets looks (exits _) after
    intro r target
    exact after.acting.working.others_of_target (after.rest.notIdle notIdle) target
  · rw [if_neg foreground, Program.meets_bind, Program.meets_lift]
    apply (find_spec working.sound.grants _).mono
    rintro found s₁ ⟨rfl, h, grown, rfl⟩
    have does : Does s c .looks _ := .looked grown
    have looked := turn.does (looks _ _ turn.acting does) does fun _ _ => id
    cases found : (values s.procs.queue).find? fun r => (s.procs.pcbs r).any s.procs.isForeground with
    | none => exact ⟨looked, rfl⟩
    | some r =>
      have queued := List.mem_of_find?_eq_some found
      obtain ⟨apart, q, block⟩ := working.table.other (List.mem_append_left _ queued)
      rw [Program.meets_bind, Program.meets_lift, meets_readPcb]
      simp only [withHeap_procs, block, meets_lookup_some, Program.meets_bind, Program.meets_lift]
      apply (keeps_terminateChildren looks terminates disowns _ looked).mono
      intro _ s₂ after
      rw [meets_readPcb]
      obtain gone | ⟨q', block'⟩ := (s₂.procs.pcbs r).eq_none_or_eq_some
      · rw [gone]
        trivial
      · rw [block', meets_lookup_some]
        apply killTask_meets looks (exits _) after
        intro r' target
        obtain ⟨_, attended'⟩ := after.acting.working.attended
        obtain ⟨-, q'', block'', pid⟩ := target_some attended' target
        have here := after.acting.working.table.unique r' r q'' q' block'' block' pid
        subst here
        have listed := (after.acting.working.table.listed r').mp (by rw [block']; simp)
        refine listed.resolve_left fun idle => apart ?_
        rw [idle, after.rest.idle, turn.rest.idle]

/-! ## Every call -/

/-- The kinds of deeds that a call makes. -/
def Call.makes : Call → Deed → Prop
  | .startTask .., .looks | .startTask .., .creates | .startTask .., .passes _ | .startTask .., .sleeps _
  | .startTask .., .opens _ | .startTask .., .posts _ => True
  | .killCurrent, .looks | .killCurrent, .exits _ => True
  | .killTask _, .looks => True
  | .killTask pid, .exits target => target = pid
  | .blockTask _, .looks => True
  | .blockTask pid, .moves target newState => target = pid ∧ newState = .blocked
  | .resumeTask _, .looks => True
  | .resumeTask pid, .moves target newState => target = pid ∧ newState = .ready
  | .waitpid _, .looks | .waitpid _, .awaits _ | .waitpid _, .sleeps _ | .waitpid _, .watches _
  | .waitpid _, .terminates _ => True
  | .nice .., .looks | .nice .., .tunes | .yield, .tunes => True
  | .semInit initialValue, .inits value => value = initialValue
  | .semWait id, .passes sem | .semWait id, .sleeps sem | .semPost id, .posts sem => sem = id
  | .pipeOpen _, .passes _ | .pipeOpen _, .sleeps _ | .pipeOpen _, .posts _ => True
  | .pipeOpen pipeId, .opens target => target = pipeId
  | .pipeClose _, .looks | .pipeClose _, .passes _ | .pipeClose _, .sleeps _ | .pipeClose _, .posts _ => True
  | .pipeClose pipeId, .closes target => target = pipeId
  | .pipeRead _, .looks | .pipeRead _, .sleeps _ | .pipeRead _, .takes _ => True
  | .pipePutchar .., .looks | .pipePutchar .., .sleeps _ | .pipePutchar .., .puts .. => True
  | .pipeWrite .., .looks | .pipeWrite .., .sleeps _ | .pipeWrite .., .puts .. => True
  | .killCurrentForeground, .looks | .killCurrentForeground, .terminates _ | .killCurrentForeground, .disowns
  | .killCurrentForeground, .exits _ => True
  | _, _ => False

/-- Where the call, made at the start, makes a deed. -/
def Call.finds (start : State) : Call → Deed → State → State → Prop
  | .startTask .., .creates, s, s' => s = start ∨ s'.procs.pidCounter = s.procs.pidCounter
  | .startTask .., .posts sem, s, _ | .pipeOpen _, .posts sem, s, _ | .pipeClose _, .posts sem, s, _ =>
    sem = s.pipes.allPipesSem
  | .resumeTask _, .moves .., s, _ | .semPost _, .posts _, s, _ => s = start
  | _, _, _, _ => True

/-- The call makes such deeds only. -/
theorem call_meets_at {call : Call} (covers : ∀ deed, call.makes deed →
      ∀ s s', call.finds start deed s s' → Acting s c →
      Does s c deed s' → A deed s s')
    (turn : Turn A c since start) (calls : call.isInterrupt = true ∨ since.procs.idleProcessPCB ≠ some c) :
    call.perform.Meets (fun _ => True) (Rest A c) (Again c) (fun _ => Turn A c) since start := by
  have goes : ∀ {p : Task Int}, since.procs.idleProcessPCB ≠ some c → Proceeds A c p →
      p.Meets (fun _ => True) (Rest A c) (Again c) (fun _ => Turn A c) since start := by
    intro p notIdle proceeds
    exact (proceeds since start turn notIdle).mono fun _ _ _ after => after.1
  have each : ∀ {deed : Deed}, call.makes deed → (∀ s s', call.finds start deed s s') → Covers A c deed :=
    fun makes finds s s' => covers _ makes s s' (finds s s')
  cases call with
  | startTask process argv foreground fd =>
    have notIdle := calls.resolve_left Bool.false_ne_true
    have meets : (startTask process argv foreground fd).Meets (fun _ => True) (Rest A c) (Again c) _ since start :=
      startTask_meets (each trivial fun _ _ => trivial) (fun s' => covers .creates trivial start s' (.inl rfl))
        (fun s s' acting same => covers .creates trivial s s' (.inr same) acting) (fun _ =>
          each trivial fun _ _ => trivial)
        (fun _ => each trivial fun _ _ => trivial) (fun _ => each trivial fun _ _ => trivial)
        (fun s s' => covers (.posts _) trivial s s' rfl) turn notIdle
    exact meets.mono fun _ _ _ after => after.1
  | killCurrent =>
    apply goes (calls.resolve_left Bool.false_ne_true)
    exact proceeds_killCurrent (each trivial fun _ _ => trivial) fun _ => each trivial fun _ _ => trivial
  | killTask pid =>
    apply goes (calls.resolve_left Bool.false_ne_true)
    exact proceeds_killTask (each trivial fun _ _ => trivial) (each rfl fun _ _ => trivial)
  | blockTask pid =>
    apply goes (calls.resolve_left Bool.false_ne_true)
    exact proceeds_blockTask (each trivial fun _ _ => trivial) (each ⟨rfl, rfl⟩ fun _ _ => trivial)
  | resumeTask pid =>
    exact resumeTask_meets (each trivial fun _ _ => trivial) (fun s' =>
      covers (.moves pid .ready) ⟨rfl, rfl⟩ start s' rfl)
      turn (calls.resolve_left Bool.false_ne_true)
  | waitpid pid =>
    apply goes (calls.resolve_left Bool.false_ne_true)
    exact proceeds_waitpid (each trivial fun _ _ => trivial) (fun _ => each trivial fun _ _ => trivial)
      (fun _ => each trivial fun _ _ => trivial) (fun _ => each trivial fun _ _ => trivial)
      fun _ => each trivial fun _ _ => trivial
  | nice pid newPriority =>
    apply goes (calls.resolve_left Bool.false_ne_true)
    exact (acts_nice (each trivial fun _ _ => trivial) (each trivial fun _ _ => trivial)).proceeds
  | yield =>
    apply goes (calls.resolve_left Bool.false_ne_true)
    exact proceeds_yield (each trivial fun _ _ => trivial)
  | semInit initialValue =>
    apply goes (calls.resolve_left Bool.false_ne_true)
    exact (acts_semInit (each rfl fun _ _ => trivial)).proceeds
  | semWait id =>
    apply goes (calls.resolve_left Bool.false_ne_true)
    exact proceeds_semWait (each rfl fun _ _ => trivial) (each rfl fun _ _ => trivial)
  | semPost id => exact semPost_meets (fun s' => covers (.posts id) rfl start s' rfl) turn
  | pipeOpen pipeId =>
    apply goes (calls.resolve_left Bool.false_ne_true)
    exact proceeds_pipeOpen (fun _ => each trivial fun _ _ => trivial) (fun _ => each trivial fun _ _ => trivial)
      (each rfl fun _ _ => trivial) fun s s' => covers (.posts _) trivial s s' rfl
  | pipeClose pipeId =>
    apply goes (calls.resolve_left Bool.false_ne_true)
    exact proceeds_pipeClose (each trivial fun _ _ => trivial) (fun _ => each trivial fun _ _ => trivial)
      (fun _ => each trivial fun _ _ => trivial) (each rfl fun _ _ => trivial)
      fun s s' => covers (.posts _) trivial s s' rfl
  | pipeRead pipeId =>
    apply goes (calls.resolve_left Bool.false_ne_true)
    exact proceeds_pipeRead (each trivial fun _ _ => trivial) (fun _ => each trivial fun _ _ => trivial)
      fun _ => each trivial fun _ _ => trivial
  | pipePutchar pipeId ch =>
    apply goes (calls.resolve_left Bool.false_ne_true)
    exact proceeds_pipePutchar (each trivial fun _ _ => trivial) (fun _ => each trivial fun _ _ => trivial)
      fun _ => each trivial fun _ _ => trivial
  | pipeWrite pipeId str =>
    apply goes (calls.resolve_left Bool.false_ne_true)
    exact proceeds_pipeWrite (each trivial fun _ _ => trivial) (fun _ => each trivial fun _ _ => trivial)
      fun _ _ => each trivial fun _ _ => trivial
  | killCurrentForeground =>
    have meets := killCurrentForeground_meets (each trivial fun _ _ => trivial) (fun _ =>
      each trivial fun _ _ => trivial)
      (each trivial fun _ _ => trivial) (fun _ => each trivial fun _ _ => trivial) turn
    exact meets.mono fun _ _ _ after => after.1

/-- **Every call makes deeds of its own kinds only**, up to each of its pauses. -/
theorem call_meets {call : Call} (covers : ∀ deed, call.makes deed → Covers A c deed) (turn : Turn A c since s)
    (calls : call.isInterrupt = true ∨ since.procs.idleProcessPCB ≠ some c) :
    call.perform.Meets (fun _ => True) (Rest A c) (Again c) (fun _ => Turn A c) since s :=
  call_meets_at (fun deed makes s₁ s₂ _ => covers deed makes s₁ s₂) turn calls

end QuesOs.Kernel
