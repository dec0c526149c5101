import QuesOs.Families
import QuesOs.Lifecycle

/-! Who is inside `waitpid`. The semaphore of a process is posted when it exits and
once more when it is freed, at the most, and the first one to come out of `waitpid`
marks it `TERMINATED`: whoever else waits for it may be left with a freed block. -/
namespace QuesOs.Kernel
open Resumption Threads Relation

variable {allowed : State → Call → Prop} {garbage : Option Ref × List Ref} {S : System} {s : State}

/-- The processes inside `waitpid`, from where they found the child to where they read
its block, each with its child. -/
def insiders : List Event → List (Ref × Ref)
  | [] => []
  | .awaits process child :: history => (process, child) :: (insiders history).filter (·.1 ≠ process)
  | .waited process _ _ :: history => (insiders history).filter (·.1 ≠ process)
  | _ :: history => insiders history

/-- The process is neither `EXITED` nor `TERMINATED`. -/
def Procs.lives (procs : Procs) (r : Ref) : Bool :=
  (procs.pcbs r).any fun p => p.state ≠ .exited && p.state ≠ .terminated

/-! ## Events -/

/-- Events that nobody goes into or comes out of `waitpid` with, and nobody dies of. -/
def Event.isPlain : Event → Bool
  | .awaits .. | .waited .. | .terminated .. => false
  | _ => true

/-- Only such events were added. -/
def State.Adds (s s' : State) : Prop := ∃ new, s'.history = new ++ s.history ∧ ∀ event ∈ new, event.isPlain = true

theorem State.Adds.trans (first : s.Adds s') (second : s'.Adds s'') : s.Adds s'' := by
  obtain ⟨new, rfl', plain⟩ := first
  obtain ⟨new', rfl'', plain'⟩ := second
  refine ⟨new' ++ new, by rw [rfl'', rfl', List.append_assoc], fun event member => ?_⟩
  exact (List.mem_append.mp member).elim (plain' event) (plain event)

theorem State.Adds.of_same {s s' : State} (same : s'.history = s.history) : s.Adds s' := ⟨[], same, by simp⟩

theorem State.Adds.one {s s' : State} (same : s'.history = event :: s.history)
    (plain : event.isPlain = true) : s.Adds s' :=
  ⟨[event], same, by simpa using plain⟩

theorem State.Adds.insiders {s s' : State} (adds : s.Adds s') : insiders s'.history = insiders s.history := by
  obtain ⟨new, same, plain⟩ := adds
  rw [same]
  clear same
  induction new with
  | nil => rfl
  | cons event new ih =>
    have rest := ih fun event member => plain event (List.mem_cons_of_mem _ member)
    have first := plain event (List.mem_cons_self ..)
    cases event <;> first | exact rest | cases first

theorem State.Adds.deaths {s s' : State} (adds : s.Adds s') : s'.deaths = s.deaths := by
  obtain ⟨new, same, plain⟩ := adds
  unfold State.deaths
  rw [same, List.filter_append, List.filter_eq_nil_iff.mpr, List.nil_append]
  intro event member
  have first := plain event member
  cases event <;> first | exact Bool.false_ne_true | cases first

theorem Posts.adds (posts : Posts s sem s') : s.Adds s' := by
  have skipped : ∀ (pids : List Int) (id : Int), ∀ event ∈ (pids.map (Event.skipped id)).reverse,
    event.isPlain = true := by
    intro pids id event member
    obtain ⟨pid, -, rfl⟩ := List.mem_map.mp (List.mem_reverse.mp member)
    rfl
  rcases posts with ⟨-, h, grown, rfl⟩ | ⟨x, found, posted⟩
  · exact .of_same rfl
  · cases posted with
    | @handed pids pid rest procs blockedPids h queued inVain resumed left grown =>
      refine ⟨.handed x.id s.procs.callerPid pid s.procs :: (pids.map (.skipped x.id)).reverse,
        rfl, fun event member => ?_⟩
      rcases List.mem_cons.mp member with rfl | older
      · rfl
      · exact skipped pids x.id event older
    | raised inVain grown =>
      refine ⟨.raised x.id s.procs.callerPid s.procs :: (x.pids.map (.skipped x.id)).reverse,
        rfl, fun event member => ?_⟩
      rcases List.mem_cons.mp member with rfl | older
      · rfl
      · exact skipped x.pids x.id event older

theorem Entered.adds (entered : Entered s c p x a s') : s.Adds s' := by
  cases entered with
  | took positive grown => exact .one rfl rfl
  | queued empty grown last => exact .one rfl rfl

theorem Passed.adds (passed : Passed s c sem s') : s.Adds s' := by
  cases passed with
  | absent absent grown => exact .of_same rfl
  | took found block entered => exact entered.adds
  | woken block ready record => exact .of_same rfl
  | forced found block dead entered grown => exact entered.adds.trans (.of_same rfl)

/-- What a deed adds to the history; the three that are told apart are those of `waitpid`. -/
theorem Does.adds (does : Does s c deed s') (others : (∀ child, deed ≠ .awaits child) ∧
      (∀ child, deed ≠ .watches child) ∧
    ∀ pid, deed ≠ .terminates pid) : s.Adds s' := by
  cases does with
  | awaited => exact (others.1 _ rfl).elim
  | watched passed block => exact (others.2.1 _ rfl).elim
  | terminated terminated => exact (others.2.2 _ rfl).elim
  | passed passed => exact passed.adds
  | slept found block ready notIdle entered grown => exact entered.adds.trans (.of_same rfl)
  | posted posts => exact posts.adds
  | initiated grown added => exact .one rfl rfl
  | exited listed exited =>
    obtain ⟨target, block, notExited, notTerminated, grown, posts, now⟩ := exited
    have posted := posts.adds
    exact (State.Adds.of_same rfl).trans (posted.trans (.of_same rfl))
  | filled grown added was => exact .one rfl rfl
  | opened opened =>
    cases opened with
    | found found grown => exact .one rfl rfl
    | created absent grown created =>
      cases created
      refine ⟨[_, _, _, _], rfl, fun event member => ?_⟩
      simp only [List.mem_cons, List.not_mem_nil, or_false] at member
      rcases member with rfl | rfl | rfl | rfl <;> rfl
  | missed absent => exact .one rfl rfl
  | closed here isOpen same closed => cases closed <;> exact .one rfl rfl
  | put here isOpen passed posts => exact passed.adds.trans ((State.Adds.of_same rfl).trans posts.adds)
  | took here isOpen passed posts => exact passed.adds.trans ((State.Adds.of_same rfl).trans posts.adds)
  | _ => exact .of_same rfl

/-! ## Waiting for somebody who is there -/

/-- A process waits only for one that is not `TERMINATED`. -/
def attends : Deed → State → State → Prop
  | .awaits child, s, _ => ∃ q, s.procs.pcbs child = some q ∧ q.state ≠ .terminated
  | _, _, _ => True

/-- The call is no `waitpid` of a process that is `TERMINATED`. -/
def Prompt (s : State) : Call → Prop
  | .waitpid pid => ∀ r ∈ s.procs.target pid, ∀ p ∈ s.procs.pcbs r, p.state ≠ .terminated
  | _ => True

instance (s : State) : (call : Call) → Decidable (Prompt s call)
  | .waitpid pid => inferInstanceAs (Decidable (∀ r ∈ s.procs.target pid, ∀ p ∈ s.procs.pcbs r, p.state ≠ .terminated))
  | .startTask .. | .killCurrent | .killTask _ | .blockTask _ | .resumeTask _ | .nice
    .. | .yield | .semInit _ | .semWait _
  | .semPost _ | .pipeOpen _ | .pipeClose _ | .pipeRead _ | .pipePutchar .. | .pipeWrite .. | .killCurrentForeground =>
    .isTrue trivial

theorem waitpid_meets {pid : Int} (turn : Turn attends c s s) (notIdle : s.procs.idleProcessPCB ≠ some c)
    (prompt : Prompt s (.waitpid pid)) :
    (waitpid pid).Meets (fun _ => True) (Rest attends c) (Again c) (fun _ => Turn attends c) s s := by
  have working := turn.acting.working
  obtain ⟨p, attended⟩ := working.attended
  unfold waitpid
  rw [Program.meets_bind, Program.meets_lift]
  apply (processOf_spec working.sound.grants attended pid).mono
  rintro found s₁ ⟨rfl, h, grown, rfl⟩
  have look : Does s c .looks _ := .looked grown
  have idles : attends .looks s (s.withHeap h) := trivial
  have turn₁ := turn.does idles look fun _ _ => id
  cases target : s.procs.target pid with
  | none => exact turn₁
  | some child =>
    obtain ⟨-, q, block, -⟩ := target_some attended target
    dsimp only
    rw [Program.meets_bind, Program.meets_lift]
    unfold logCurrent
    have running : (s.withHeap h).procs.currentProcessPCB = some c := working.running
    rw [meets_modify, running]
    have does : Does (s.withHeap h) c (.awaits child) _ := .awaited
    have there : ∃ q, s.procs.pcbs child = some q ∧ q.state ≠ .terminated := ⟨q, block, prompt child target q block⟩
    have turn₂ := turn₁.does (by exact there) does fun _ _ => id
    have watch := proceeds_watch (A := attends) (c := c) child (fun _ _ _ _ => trivial) (fun _ _ _ _ _ => trivial)
      (fun _ _ _ _ => trivial) (fun _ _ _ _ _ => trivial)
    exact (watch s _ turn₂ notIdle).mono fun _ _ _ after => after.1

theorem calls_attend (prompt : ∀ s call, allowed s call → Prompt s call) :
    (discipline attends).Calls (Issues allowed) := by
  rintro s p c ⟨call, permitted, rfl, awake⟩ ordered ⟨r, pid, running, ready⟩ running'
  obtain rfl : r = c := Option.some.inj (running.symm.trans running')
  have acting : Acting s r := ⟨⟨ordered.sound, ordered.table, running⟩, pid, ready⟩
  refine follows_of_meets acting fun turn => ?_
  have calls := awake.imp_right fun apart (idle : s.procs.idleProcessPCB = some r) => apart (running.trans idle.symm)
  have waits := prompt s call permitted
  cases call with
  | waitpid pid => exact waitpid_meets turn (calls.resolve_left Bool.false_ne_true) waits
  | _ =>
    refine call_meets (fun deed makes s₁ s₂ _ _ => ?_) turn calls
    cases deed <;> trivial

/-! ## Who is still there -/

/-- Whenever a process was marked `TERMINATED`, nobody who lives was inside `waitpid` of it. -/
def Alone : List Event → Prop
  | [] => True
  | .terminated pid before _ :: history =>
    (∀ w ∈ insiders history, before.lives w.1 = true → ∀ q ∈ before.pcbs w.2, q.pid ≠ pid) ∧ Alone history
  | _ :: history => Alone history

instance : (history : List Event) → Decidable (Alone history)
  | [] => .isTrue trivial
  | .terminated pid before _ :: history =>
    have := instDecidableAlone history
    inferInstanceAs (Decidable ((∀ w ∈ insiders history, before.lives w.1 = true → ∀ q ∈ before.pcbs w.2, q.pid ≠ pid) ∧
      Alone history))
  | .created .. :: history | .took .. :: history | .arrived .. :: history | .handed
    .. :: history | .skipped .. :: history
  | .raised .. :: history | .awaits .. :: history | .waited .. :: history | .pipeMade
    _ :: history | .pipeOpened _ :: history
  | .pipeClosed _ :: history | .reaped .. :: history => instDecidableAlone history

theorem alone_older (new : List Event) {older : List Event} (alone : Alone (new ++ older)) : Alone older := by
  induction new with
  | nil => exact alone
  | cons event new ih =>
    cases event with
    | terminated pid before after => exact ih alone.2
    | _ => exact ih alone

/-- Whoever lives and is inside `waitpid` waits for a process that is not `TERMINATED`. -/
structure State.Heeded (s : State) : Prop where
  settled : ∀ w ∈ insiders s.history, w.1 < s.heap.requests ∧ ∀ c q, s.procs.newProcess c ≠ some (w.1, q)
  heeded : ∀ w ∈ insiders s.history, s.procs.lives w.1 = true → ∃ q, s.procs.pcbs w.2 = some q ∧ q.state ≠ .terminated

theorem lives_of_later {s s' : State} (outlives : s.Outlives s') (aged : s.procs.Aged s'.procs)
    (old : r < s.heap.requests)
    (settled : ∀ c q, s.procs.newProcess c ≠ some (r, q)) (lives : s'.procs.lives r = true) :
    s.procs.lives r = true := by
  obtain ⟨p', block', alive⟩ := (Option.any_eq_true _ _).mp lives
  obtain ⟨p, block, -⟩ := outlives.blocks r p' block' old settled
  obtain ⟨q, block'', ages⟩ := aged r p block
  cases block'.symm.trans block''
  simp only [Procs.lives, block, Option.any_some]
  simp only [Bool.and_eq_true, decide_eq_true_eq] at alive ⊢
  constructor
  · intro exited
    exact (ages (.inl exited)).elim (fun same => alive.1 (same.trans exited)) alive.2
  · intro terminated
    exact (ages (.inr terminated)).elim (fun same => alive.2 (same.trans terminated)) alive.2

/-- Who was there and not `TERMINATED` still is. -/
def Procs.Spares (procs procs' : Procs) : Prop :=
  ∀ r p, procs.pcbs r = some p → p.state ≠ .terminated → ∃ p', procs'.pcbs r = some p' ∧ p'.state ≠ .terminated

theorem Procs.Spares.trans {procs procs' procs'' : Procs} (first : procs.Spares procs')
    (second : procs'.Spares procs'') :
    procs.Spares procs'' := by
  intro r p block alive
  obtain ⟨p', block', alive'⟩ := first r p block alive
  exact second r p' block' alive'

theorem spares_moveState {procs : Procs} (q : Pcb) {newState : ProcessState} (stays : newState ≠ .terminated) :
    procs.Spares (procs.moveState r q newState) := by
  intro r' p block alive
  by_cases here : r' = r
  · subst here
    exact ⟨_, Function.update_self .., stays⟩
  · exact ⟨p, by simpa only [Procs.moveState, Function.update_of_ne here] using block, alive⟩

/-- Nobody was terminated, or it is on record. -/
theorem Life.spares (table : s.procs.Table n) (life : Life s s') :
    (s'.deaths = s.deaths ∧ s.procs.Spares s'.procs) ∨ s.deaths.length < s'.deaths.length := by
  cases life with
  | wake wake =>
    refine .inl ⟨wake.relative.2.2.2.1, fun r p block alive => ?_⟩
    rcases wake.spared.pcbs r with same | ⟨q, was, -, now⟩
    · exact ⟨p, same.trans block, alive⟩
    · exact ⟨_, now, by simp⟩
  | moved grown deaths listed block notExited notTerminated alive procs =>
    rw [procs]
    exact .inl ⟨deaths, spares_moveState _ alive⟩
  | terminated grown queued block notTerminated reparented block' procs deaths =>
    right
    rw [deaths]
    exact Nat.lt_succ_self _
  | @disowned r p grown deaths block dead procs =>
    refine .inl ⟨deaths, fun r' p' block' alive => ⟨p', ?_, alive⟩⟩
    have other : r' ≠ r := by
      rintro rfl
      cases block.symm.trans block'
      exact alive dead
    simpa only [procs, Function.update_of_ne other] using block'
  | tuned grown deaths priority procs =>
    refine .inl ⟨deaths, fun r p block alive => ⟨{ p with priority := priority r }, ?_, alive⟩⟩
    rw [procs]
    simp [block]
  | allocated grown deaths running block low high pid ppid ready procs =>
    exact .inl ⟨deaths, fun r p block' alive => ⟨p, by rw [procs]; exact block', alive⟩⟩
  | filled grown deaths was procs =>
    exact .inl ⟨deaths, fun r p block' alive => ⟨p, by rw [procs]; exact block', alive⟩⟩
  | @published c q r p queue ppid arguments grown deaths running block alive was listed parent procs =>
    refine .inl ⟨deaths, fun r' p' block' alive' => ⟨p', ?_, alive'⟩⟩
    have other : r' ≠ r := by
      rintro rfl
      cases (table.newApart c r' p was).1.symm.trans block'
    simpa only [procs, Function.update_of_ne other] using block'

theorem Lives.spares (table : s.procs.Table s.heap.requests) (lives : Lives s s') :
    (s'.deaths = s.deaths ∧ s.procs.Spares s'.procs) ∨ s.deaths.length < s'.deaths.length := by
  induction lives with
  | refl => exact .inl ⟨rfl, fun r p block alive => ⟨p, block, alive⟩⟩
  | tail lives life ih =>
    rcases ih with ⟨deaths, spares⟩ | more <;> rcases life.spares (Lives.table table lives)
      with ⟨deaths', spares'⟩ | more'
    · exact .inl ⟨deaths'.trans deaths, spares.trans spares'⟩
    · exact .inr (deaths ▸ more')
    · exact .inr (deaths' ▸ more)
    · exact .inr (Nat.lt_trans more more')

/-- Whatever leaves the insiders and the living children keeps them heeded. -/
theorem State.Heeded.kept {s s' : State} (heeded : s.Heeded) (fewer : ∀ w ∈ insiders s'.history, w ∈ insiders s.history)
    (outlives : s.Outlives s') (aged : s.procs.Aged s'.procs)
    (spares : ∀ w ∈ insiders s.history, s.procs.lives w.1 = true →
      ∀ p, s.procs.pcbs w.2 = some p → p.state ≠ .terminated → ∃ p', s'.procs.pcbs w.2 = some p' ∧
      p'.state ≠ .terminated) :
    s'.Heeded := by
  refine ⟨fun w inside => ?_, fun w inside lives => ?_⟩
  · obtain ⟨old, settled⟩ := heeded.settled w (fewer w inside)
    refine ⟨Nat.lt_of_lt_of_le old outlives.grown.requests, fun c q new => ?_⟩
    obtain ⟨q', was⟩ := outlives.pending c w.1 q new old
    exact settled c q' was
  · obtain ⟨old, settled⟩ := heeded.settled w (fewer w inside)
    have before := lives_of_later outlives aged old settled lives
    obtain ⟨q, block, alive⟩ := heeded.heeded w (fewer w inside) before
    exact spares w (fewer w inside) before q block alive

theorem insiders_watched (history : List Event) (process child : Ref) (p : Pcb) :
    ∀ w ∈ insiders (.waited process child p :: history), w ∈ insiders history := fun _ inside =>
  (List.mem_filter.mp inside).1

theorem Does.heeds (working : Working s c) (allowed : attends deed s s') (does : Does s c deed s')
    (heeds : Alone s.history → s.Heeded) : Alone s'.history → s'.Heeded := by
  intro alone
  obtain ⟨sound, lives⟩ := does.advance working
  have outlives := lives.outlives
  have aged := lives.aged working.table
  -- Most deeds neither add an insider nor terminate anybody.
  have plain : s.Adds s' → s'.Heeded := by
    intro adds
    obtain ⟨new, same, -⟩ := id adds
    have heeded := heeds (alone_older new (same ▸ alone))
    refine heeded.kept (fun w inside => adds.insiders ▸ inside) outlives aged fun w inside _ p block alive => ?_
    rcases lives.spares working.table with ⟨-, spares⟩ | more
    · exact spares w.2 p block alive
    · rw [adds.deaths] at more
      exact (Nat.lt_irrefl _ more).elim
  cases deed with
  | awaits child =>
    cases does
    have heeded := heeds alone
    obtain ⟨p, attended⟩ := working.attended
    refine ⟨fun w inside => ?_, fun w inside living => ?_⟩
    · rcases List.mem_cons.mp inside with rfl | older
      · refine ⟨working.table.below c p attended.block, fun c' q new => ?_⟩
        cases attended.block.symm.trans (working.table.newApart c' c q new).1
      · exact heeded.settled w (List.mem_filter.mp older).1
    · rcases List.mem_cons.mp inside with rfl | older
      · exact allowed
      · exact heeded.heeded w (List.mem_filter.mp older).1 living
  | watches child =>
    cases does with
    | @watched s₁ _ p passed block =>
      obtain ⟨new, same, -⟩ := passed.adds
      have heeded := heeds (alone_older new (same ▸ (show Alone s₁.history from alone)))
      refine heeded.kept (fun w inside => ?_) outlives aged fun w inside _ q block' alive => ?_
      · rw [← passed.adds.insiders]
        exact insiders_watched _ _ _ _ w inside
      · rcases (passed.advance working).2.lives.spares working.table with ⟨-, spares⟩ | more
        · exact spares w.2 q block' alive
        · rw [passed.adds.deaths] at more
          exact (Nat.lt_irrefl _ more).elim
  | terminates pid =>
    cases does with
    | terminated terminated =>
      obtain @⟨r, p, h, procs, p', target, queued, block, notTerminated, grown, reparented, block'⟩ := terminated
      have heeded := heeds alone.2
      refine heeded.kept (fun w inside => inside) outlives aged fun w inside living q there alive => ?_
      obtain ⟨relabel, relabelled⟩ := reparented.relabelled
      have pid : p'.pid = p.pid := by
        rw [relabelled] at block'
        obtain ⟨q', was, rfl⟩ := Option.map_eq_some_iff.mp block'
        cases block.symm.trans was
        rfl
      have other : w.2 ≠ r := by
        intro same
        rw [same, block] at there
        cases there
        exact alone.1 w inside living p (by rw [same, block]; rfl) pid.symm
      refine ⟨{ q with ppid := relabel w.2 q }, ?_, alive⟩
      simp only [Procs.moveState, Function.update_of_ne other]
      rw [relabelled]
      simp [there]
  | _ => exact plain (does.adds (by simp))

theorem Shift.heeds (shift : Shift s s') (heeds : Alone s.history → s.Heeded) :
    Alone s'.history → s'.Heeded := by
  intro alone
  have outlives := shift.outlives
  cases shift with
  | rotated grown same =>
    exact (heeds alone).kept (fun w inside => inside) outlives (.refl _) fun w _ _ q block alive => ⟨q, block, alive⟩
  | @reaped c p s₁ h queue currentProcessPCB working reaped grown others =>
    obtain @⟨s₂, block, dead, chain⟩ := reaped
    have block₂ := (chain.wakes working).spared.kept block (by rw [dead]; simp)
    have heeds₂ : Alone s₂.history → s₂.Heeded :=
      chain.keeps working heeds fun s₃ s₄ deed working₃ heeds₃ reaps does => by
      refine does.heeds working₃ ?_ heeds₃
      cases deed <;> trivial
    have heeded := heeds₂ alone
    refine ⟨fun w inside => ?_, fun w inside living => ?_⟩
    · obtain ⟨old, settled⟩ := heeded.settled w inside
      exact ⟨Nat.lt_of_lt_of_le old grown.requests, settled⟩
    · have other : w.1 ≠ c := by
        intro same
        simp [Procs.lives, same] at living
      have before : s₂.procs.lives w.1 = true := by
        simpa only [Procs.lives, Function.update_of_ne other] using living
      obtain ⟨q, block', alive⟩ := heeded.heeded w inside before
      have stays : w.2 ≠ c := by
        intro same
        rw [same, block₂] at block'
        cases block'
        exact alive dead
      exact ⟨q, by simpa only [Function.update_of_ne stays] using block', alive⟩

/-- **Nobody who lives is left inside `waitpid` of a process that was freed**, if nobody
was when it was marked `TERMINATED`, nor came later. -/
theorem waiters_heeded (prompt : ∀ s call, allowed s call → Prompt s call)
    (run : Run allowed (boot (fun _ => true) garbage) S) (alone : Alone S.state.history) :
    ∀ w ∈ insiders S.state.history, S.state.procs.lives w.1 = true → S.state.procs.pcbs w.2 ≠ none := by
  have heeds : Alone S.state.history → S.state.Heeded := run_keeps (calls_attend prompt)
    (J := fun s => Alone s.history → s.Heeded) (fun _ => ⟨nofun, nofun⟩)
    (fun _ _ _ _ working heeds allowed does => does.heeds working allowed heeds)
    (fun _ _ _ heeds shift => shift.heeds heeds) run
  intro w inside lives
  obtain ⟨q, block, -⟩ := (heeds alone).heeded w inside lives
  simp [block]

/-- The shell waited for a process, which ended, was marked `TERMINATED` and freed. -/
theorem waiters_heeded_one : ∃ S, Run Prompt (boot (fun _ => true) (none, [])) S ∧ S.state.procs.relative 41 = none ∧
    ∀ w ∈ insiders S.state.history, S.state.procs.lives w.1 = true → S.state.procs.pcbs w.2 ≠ none := by
  have played : ((play (fun s call => decide (Prompt s call)) [.schedule, .call .yield, .schedule,
      .call (.startTask (some 0) ["p"] 1 (some (0, 1))), .call (.waitpid 4), .schedule,
      .resume, .call .yield, .schedule,
      .call .killCurrent, .schedule, .resume, .call .yield, .schedule, .resume, .call .yield, .schedule]
      (boot (fun _ => true) (none, []))).map fun S => (S.state.procs.relative 41, decide (Alone S.state.history),
      S.state.deaths.length)) = some (none, true, 1) := by decide +kernel
  obtain ⟨S, played, observed⟩ := Option.map_eq_some_iff.mp played
  obtain ⟨freed, alone, -⟩ : _ ∧ _ ∧ _ := by simpa only [Prod.mk.injEq] using observed
  have run : Run Prompt (boot (fun _ => true) (none, [])) S := play_run (fun _ _ => of_decide_eq_true) played
  exact ⟨S, run, freed, waiters_heeded (fun _ _ => id) run (of_decide_eq_true alone)⟩

/-- The shell and a child of it waited for another child. The shell came out first and marked that
`TERMINATED`; it was freed while the first was still in `waitpid`. -/
theorem waiters_heeded_fails : ¬∀ S, Run (fun _ _ => True) (boot (fun _ => true) (none, [])) S →
    ∀ w ∈ insiders S.state.history, S.state.procs.lives w.1 = true → S.state.procs.pcbs w.2 ≠ none := by
  intro always
  have played :
    ((play (fun _ _ => true) (List.replicate 3 .schedule ++ [.call (.startTask (some 0) ["p"] 1 (some (0, 1))),
        .call (.startTask (some 0) ["q"] 1 (some (0, 1))), .call (.waitpid 4)] ++ List.replicate 6 .schedule ++
      [.call (.waitpid 4)] ++ List.replicate 3 .schedule ++ [.call .killCurrent, .schedule, .resume] ++
      List.replicate 5 .schedule)
      (boot (fun _ => true) (none, []))).map fun S => (insiders S.state.history, S.state.procs.lives 50,
      S.state.procs.relative 41)) = some ([(50, 41)], true, none) := by decide +kernel
  obtain ⟨S, played, observed⟩ := Option.map_eq_some_iff.mp played
  obtain ⟨inside, lives, freed⟩ : _ ∧ _ ∧ _ := by simpa only [Prod.mk.injEq] using observed
  have run : Run (fun _ _ => True) (boot (fun _ => true) (none, [])) S := play_run (fun _ _ _ => trivial) played
  have there := always S run (50, 41) (by rw [inside]; simp) lives
  exact there (Option.map_eq_none_iff.mp freed)

end QuesOs.Kernel
