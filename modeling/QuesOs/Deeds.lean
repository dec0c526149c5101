import QuesOs.ProcessActions

/-! One action of a process at a time, by its kind. Whatever a system call or a
reap comes to is a chain of these deeds; every deed leaves the kernel in order,
keeps what the others rely on, and keeps its process running unless it is of a
kind that stops it. -/
namespace QuesOs.Kernel
open Resumption Relation

inductive Deed where
  | looks
  | awaits (child : Ref)
  | passes (sem : Int)
  | sleeps (sem : Int)
  | watches (child : Ref)
  | posts (sem : Int)
  | inits (initialValue : Int)
  | moves (pid : Int) (newState : ProcessState)
  | exits (pid : Int)
  | terminates (pid : Int)
  | disowns
  | tunes
  | creates
  | opens (pipeId : Int)
  | closes (pipeId : Int)
  | puts (pipe : Ref) (c : Int8)
  | takes (pipe : Ref)
  | destroys

/-- How a process gets past a `semWait`: the semaphore is not there, it takes a
unit, it goes on after it slept, or it is dead and cannot be blocked. -/
inductive Passed (s : State) (c : Ref) (sem : Int) : State → Prop
  | absent (absent : s.sems.find sem = none) (grown : s.heap.Grown h) : Passed s c sem (s.withHeap h)
  | took (found : s.sems.find sem = some x) (block : s.procs.pcbs c = some p) (entered : Entered s c p x (.inl 0) s') :
    Passed s c sem s'
  | woken (block : s.procs.pcbs c = some p) (ready : p.state = .ready)
    (record : (c, sem) ∈ s.procs.waiting ∨ (c, sem) ∈ s.procs.granted) :
    Passed s c sem { s with procs := s.procs.endWait c sem }
  | forced (found : s.sems.find sem = some x) (block : s.procs.pcbs c = some p) (dead : p.state = .terminated)
    (entered : Entered s c p x (.inr pid) s₁) (grown : s₁.heap.Grown h) :
    Passed s c sem { s₁ with heap := h, procs := s₁.procs.endWait c sem }

inductive Does (s : State) (c : Ref) : Deed → State → Prop
  | looked (grown : s.heap.Grown h) : Does s c .looks (s.withHeap h)
  | cached (pipeId : Int) (grown : s.heap.Grown h) :
    Does s c .looks { s with heap := h, pipes := s.pipes.cache pipeId }
  | awaited : Does s c (.awaits child) { s with history := .awaits c child :: s.history }
  | passed (passed : Passed s c sem s') : Does s c (.passes sem) s'
  | slept (found : s.sems.find sem = some x) (block : s.procs.pcbs c = some p) (ready : p.state = .ready)
    (notIdle : s.procs.idleProcessPCB ≠ some c) (entered : Entered s c p x (.inr pid) s₁) (grown : s₁.heap.Grown h) :
    Does s c (.sleeps sem) { s₁ with heap := h, procs := s₁.procs.moveState c p .blocked }
  | watched (passed : Passed s c p.semId s₁) (block : s₁.procs.pcbs child = some p) :
    Does s c (.watches child) { s₁ with history := .waited c child p :: s₁.history }
  | posted (posts : Posts s sem s') : Does s c (.posts sem) s'
  | initiated (grown : s.heap.Grown h) (added : s.sems.Added initialValue s.heap.requests h.requests sems) :
    Does s c (.inits initialValue) { s with
      heap := h, sems, history := .created s.sems.semId initialValue :: s.history }
  | moved (grown : s.heap.Grown h) (target : s.procs.target pid = some r) (listed : r ∈ s.procs.others)
    (block : s.procs.pcbs r = some p) (notExited : p.state ≠ .exited) (notTerminated : p.state ≠ .terminated)
    (alive : newState = .ready ∨ newState = .blocked) :
    Does s c (.moves pid newState) { s with heap := h, procs := s.procs.moveState r p newState }
  | exited (listed : ∀ r, s.procs.target pid = some r → r ∈ s.procs.others) (exited : Exited s pid a s') :
    Does s c (.exits pid) s'
  | terminated (terminated : Terminated s pid a s') : Does s c (.terminates pid) s'
  | disowned (block : s.procs.pcbs r = some p) (dead : p.state = .terminated) :
    Does s c .disowns { s with procs := { s.procs with
      pcbs := Function.update s.procs.pcbs r (some { p with ppid := s.procs.initPid }) } }
  | reniced (grown : s.heap.Grown h) (queued : r ∈ values s.procs.queue) (block : s.procs.pcbs r = some p)
    (low : 0 ≤ priority) (high : priority ≤ MAX_PRIO) :
    Does s c .tunes { s with heap := h, procs := { s.procs with
      pcbs := Function.update s.procs.pcbs r (some { p with priority }) } }
  | yielded : Does s c .tunes { s with procs := { s.procs with currentCycles := 0 } }
  | allocated (block : s.procs.pcbs c = some q) (grown : s.heap.Grown h) (low : s.heap.requests ≤ r)
    (high : r < h.requests) (pid : p.pid = s.procs.pidCounter) (ppid : p.ppid = q.pid) (ready : p.state = .ready)
    (gentle : 0 ≤ p.priority ∧ p.priority ≤ MAX_PRIO) (unset : p.semId = -1) :
    Does s c .creates { s with heap := h, procs := { s.procs with
      pidCounter := s.procs.pidCounter + 1, newProcess := Function.update s.procs.newProcess c (some (r, p)) } }
  | filled (grown : s.heap.Grown h) (added : s.sems.Added 0 s.heap.requests h.requests sems)
    (was : s.procs.newProcess c = some (r, p)) :
    Does s c .creates { s with
      heap := h, sems
      procs := { s.procs with
        newProcess := Function.update s.procs.newProcess c (some (r, { p with semId := s.sems.semId })) }
      history := .created s.sems.semId 0 :: s.history }
  | published (block : s.procs.pcbs c = some q) (alive : q.state ≠ .terminated) (grown : s.heap.Grown h)
    (was : s.procs.newProcess c = some (r, p)) (listed : values queue = values s.procs.queue ++ [r])
    (parent : ppid = p.ppid ∨ ppid = s.procs.initPid) :
    Does s c .creates { s with heap := h, procs := { s.procs with
      queue
      pcbs := Function.update s.procs.pcbs r (some { p with arguments := some arguments, ppid })
      readyCount := s.procs.readyCount + 1
      newProcess := Function.update s.procs.newProcess c none } }
  | opened (opened : Opened s pipeId s') : Does s c (.opens pipeId) s'
  | missed (absent : s.pipes.find pipeId = none) :
    Does s c (.closes pipeId) { s with history := .pipeClosed pipeId :: s.history }
  | closed (here : s.pipes.pipes r = some p) (isOpen : p.freed = false) (same : p.id = pipeId)
    (closed : Closed s r p pipeId s') : Does s c (.closes pipeId) s'
  | put (here : s.pipes.pipes r = some p) (isOpen : p.freed = false) (passed : Passed s c p.writeSemId s₁)
    (posts : Posts { s₁ with pipes := s₁.pipes.modify r (·.put ch) } p.readSemId s') : Does s c (.puts r ch) s'
  | took (here : s.pipes.pipes r = some p) (isOpen : p.freed = false) (passed : Passed s c p.readSemId s₁)
    (posts : Posts { s₁ with pipes := s₁.pipes.modify r Pipe.take } p.writeSemId s') : Does s c (.takes r) s'
  | destroyed (block : s.procs.pcbs c = some p) (dead : p.state = .terminated) (grown : s.heap.Grown h) :
    Does s c .destroys { s with heap := h, sems := s.sems.close p.semId }

variable {s : State}

/-! ## Every deed leaves the kernel in order -/

theorem Passed.pipes (passed : Passed s c sem s') : s'.pipes = s.pipes := by
  cases passed with
  | absent absent grown => rfl
  | took found block entered => cases entered; rfl
  | woken block ready record => rfl
  | forced found block dead entered grown => cases entered; rfl

theorem Passed.advance (working : Working s c) (passed : Passed s c sem s') : Sound s' ∧ Wakes s s' := by
  cases passed with
  | absent absent grown => exact ⟨(working.withHeap grown).sound, .single (.quiet grown rfl rfl)⟩
  | took found block entered => exact entered.advance working
  | woken block ready record =>
    exact ⟨⟨working.sound.grants, working.sound.sems, working.sound.pipes⟩, .single (.quiet (.refl _) rfl rfl)⟩
  | forced found block dead entered grown =>
    obtain ⟨sound, wakes⟩ := entered.advance working
    have after := (working.lives sound wakes.lives).withHeap grown
    refine ⟨⟨after.sound.grants, after.sound.sems, after.sound.pipes⟩, wakes.tail (.quiet grown rfl rfl)⟩

theorem Working.passed (working : Working s c) (passed : Passed s c sem s') : Working s' c :=
  working.lives (passed.advance working).1 (passed.advance working).2.lives

/-- A write to a pipe leaves the kernel in order. -/
theorem Working.writePipe (working : Working s c) (r : Ref) {f : Pipe → Pipe}
    (same : ∀ p, (f p).id = p.id ∧ (f p).freed = p.freed) : Working { s with pipes := s.pipes.modify r f } c :=
  working.lives (working.sound.writePipe r same) (.single (.wake (.quiet (.refl _) rfl rfl)))

theorem Does.advance (working : Working s c) (does : Does s c deed s') : Sound s' ∧ Lives s s' := by
  have sound := working.sound
  have calm : ∀ {s' : State}, s.heap.Grown s'.heap → s'.deaths = s.deaths → s'.procs = s.procs → Lives s s' :=
    fun grown deaths procs => .single (.wake (.quiet grown deaths (by rw [procs])))
  have grow : ∀ {h : Heap}, s.heap.Grown h → Sound (s.withHeap h) := fun grown => (working.withHeap grown).sound
  cases does with
  | looked grown => exact ⟨grow grown, calm grown rfl rfl⟩
  | cached pipeId grown =>
    exact ⟨⟨(grow grown).grants, (grow grown).sems, (grow grown).pipes.cache pipeId⟩, calm grown rfl rfl⟩
  | awaited => exact ⟨⟨sound.grants, sound.sems, sound.pipes⟩, calm (.refl _) rfl rfl⟩
  | passed passed => exact ⟨(passed.advance working).1, (passed.advance working).2.lives⟩
  | @slept sem x p pid s₁ h found block ready notIdle entered grown =>
    obtain ⟨sound₁, wakes⟩ := entered.advance working
    have working₁ := working.lives sound₁ wakes.lives
    have sound₂ := (working₁.withHeap grown).sound
    refine ⟨⟨sound₂.grants, sound₂.sems, sound₂.pipes⟩, ?_⟩
    have alive : p.state ≠ .blocked := by rw [ready]; decide
    have block₁ := wakes.spared.kept block alive
    have notIdle₁ : s₁.procs.idleProcessPCB ≠ some c := by
      rw [wakes.spared.idle]
      exact notIdle
    refine wakes.lives.tail (.moved grown rfl (working₁.listed notIdle₁) block₁ ?_ ?_ (by decide) rfl)
    · rw [ready]
      decide
    · rw [ready]
      decide
  | @watched s₁ child p passed block =>
    obtain ⟨sound₁, wakes⟩ := passed.advance working
    exact ⟨⟨sound₁.grants, sound₁.sems, sound₁.pipes⟩, wakes.lives.tail (.wake (.quiet (.refl _) rfl rfl))⟩
  | posted posts => exact ⟨posts.sound sound, (posts.wakes working).lives⟩
  | initiated grown added =>
    exact ⟨⟨(grow grown).grants, sound.sems.add added, (grow grown).pipes⟩, calm grown rfl rfl⟩
  | moved grown target listed block notExited notTerminated alive =>
    refine ⟨⟨(grow grown).grants, (grow grown).sems, (grow grown).pipes⟩, .single ?_⟩
    refine .moved grown rfl listed block notExited notTerminated ?_ rfl
    rcases alive with rfl | rfl <;> decide
  | exited listed exited => exact exited.advance working listed
  | terminated terminated => exact terminated.advance working
  | disowned block dead =>
    exact ⟨⟨sound.grants, sound.sems, sound.pipes⟩, .single (.disowned (.refl _) rfl block dead rfl)⟩
  | @reniced h r p priority grown queued block low high =>
    refine ⟨⟨(grow grown).grants, (grow grown).sems, (grow grown).pipes⟩, .single ?_⟩
    refine .tuned grown rfl (fun r' => if r' = r then priority else (s.procs.pcbs r').elim 0 Pcb.priority) ?_
    dsimp only
    rw [Procs.mk.injEq]
    refine ⟨rfl, rfl, funext fun r' => ?_, rfl, rfl, rfl, rfl, rfl, rfl, rfl, rfl, rfl⟩
    by_cases here : r' = r
    · simp [here, block]
    · cases other : s.procs.pcbs r' <;> simp [here, other]
  | yielded =>
    refine ⟨⟨sound.grants, sound.sems, sound.pipes⟩, .single ?_⟩
    refine .tuned (.refl _) rfl (fun r' => (s.procs.pcbs r').elim 0 Pcb.priority) ?_
    dsimp only
    rw [Procs.mk.injEq]
    refine ⟨rfl, rfl, funext fun r' => ?_, rfl, rfl, rfl, rfl, rfl, rfl, rfl, rfl, rfl⟩
    cases s.procs.pcbs r' <;> simp
  | allocated block grown low high pid ppid ready gentle unset =>
    exact ⟨⟨(grow grown).grants, (grow grown).sems, (grow grown).pipes⟩,
      .single (.allocated grown rfl working.running block low high pid ppid ready rfl)⟩
  | filled grown added was =>
    exact ⟨⟨(grow grown).grants, sound.sems.add added, (grow grown).pipes⟩, .single (.filled grown rfl was rfl)⟩
  | published block alive grown was listed parent =>
    exact ⟨⟨(grow grown).grants, (grow grown).sems, (grow grown).pipes⟩,
      .single (.published grown rfl working.running block alive was listed parent rfl)⟩
  | opened opened =>
    obtain ⟨procs, grown, -⟩ := opened.procs
    refine ⟨opened.sound sound, calm grown ?_ procs⟩
    cases opened with
    | found found grown => rfl
    | created absent grown created =>
      cases created
      rfl
  | missed absent => exact ⟨⟨sound.grants, sound.sems, sound.pipes⟩, calm (.refl _) rfl rfl⟩
  | closed here isOpen same closed =>
    obtain ⟨procs, grown⟩ := closed.procs
    refine ⟨closed.sound sound, calm grown ?_ procs⟩
    cases closed <;> rfl
  | @put r p s₁ ch _ here isOpen passed posts =>
    have working₁ := (working.passed passed).writePipe r (f := (·.put ch)) fun _ => ⟨rfl, rfl⟩
    refine ⟨posts.sound working₁.sound, ?_⟩
    have written : Wake s₁ { s₁ with pipes := s₁.pipes.modify r (·.put ch) } := .quiet (.refl _) rfl rfl
    exact Wakes.lives (((passed.advance working).2.tail written).trans (posts.wakes working₁))
  | @took r p s₁ _ here isOpen passed posts =>
    have working₁ := (working.passed passed).writePipe r (f := Pipe.take) fun _ => ⟨rfl, rfl⟩
    refine ⟨posts.sound working₁.sound, ?_⟩
    have written : Wake s₁ { s₁ with pipes := s₁.pipes.modify r Pipe.take } := .quiet (.refl _) rfl rfl
    exact Wakes.lives (((passed.advance working).2.tail written).trans (posts.wakes working₁))
  | destroyed block dead grown =>
    exact ⟨⟨(grow grown).grants, (sound.sems.close _).grown grown.requests, (grow grown).pipes⟩, calm grown rfl rfl⟩

/-! ## Every deed that does not stop its process leaves it ready -/

/-- Deeds that stop the process with the pid when it does them. -/
def Deed.stops (pid : Int) : Deed → Prop
  | .sleeps _ => True
  | .moves target newState => target = pid ∧ newState ≠ .ready
  | .exits target => target = pid
  | _ => False

/-- The running process is not in the queue. -/
theorem Working.unqueued (working : Working s c) : c ∉ values s.procs.queue := by
  intro queued
  by_cases idle : s.procs.idleProcessPCB = some c
  · obtain ⟨r, p, isIdle, -, -, -, away⟩ := working.table.idle
    cases isIdle.symm.trans idle
    exact away (List.mem_append_left _ queued)
  · have once := working.table.once
    unfold Procs.others at once
    rw [working.running] at once
    have last : c ∈ (Option.filter (fun r => decide (some r ≠ s.procs.idleProcessPCB)) (some c)).toList := by
      simp [Ne.symm idle]
    exact (List.nodup_append.mp once).2.2 c queued c last rfl

/-- The process with the block is ready. -/
def Procs.Ready (procs : Procs) (c : Ref) (pid : Int) : Prop :=
  ∃ p, procs.pcbs c = some p ∧ p.state = .ready ∧ p.pid = pid

theorem Procs.Spared.ready {procs procs' : Procs} (spared : procs.Spared procs') (ready : procs.Ready c pid) :
    procs'.Ready c pid := by
  obtain ⟨p, block, state, same⟩ := ready
  exact ⟨p, spared.kept block (by rw [state]; decide), state, same⟩

/-- A process other than the one that moves stays ready. -/
theorem Procs.Ready.moveState {procs : Procs} (ready : procs.Ready c pid) (other : c ≠ r) (q : Pcb)
    (newState : ProcessState) : (procs.moveState r q newState).Ready c pid := by
  obtain ⟨p, block, state, same⟩ := ready
  exact ⟨p, by simpa only [Procs.moveState, Function.update_of_ne other] using block, state, same⟩

theorem Does.ready (working : Working s c) (ready : s.procs.Ready c pid) (does : Does s c deed s')
    (goes : ¬deed.stops pid) : s'.procs.Ready c pid := by
  obtain ⟨p, block, state, same⟩ := id ready
  obtain ⟨_, attended⟩ := working.attended
  -- What is found under another pid is another process.
  have apart : ∀ {r target : _}, s.procs.target target = some r → target ≠ pid → c ≠ r := by
    rintro r target found other rfl
    obtain ⟨-, q, block', pid'⟩ := target_some attended found
    cases block.symm.trans block'
    exact other (pid'.symm.trans same)
  cases does with
  | looked grown => exact ready
  | cached pipeId grown => exact ready
  | awaited => exact ready
  | passed passed => exact (passed.advance working).2.spared.ready ready
  | slept found block' ready' notIdle entered grown => exact (goes trivial).elim
  | watched passed block' => exact (passed.advance working).2.spared.ready ready
  | posted posts => exact (posts.wakes working).spared.ready ready
  | initiated grown added => exact ready
  | @moved h target r q newState grown found listed block' notExited notTerminated alive =>
    by_cases here : target = pid
    · have stays : newState = .ready := Decidable.not_not.mp fun moves => goes ⟨here, moves⟩
      by_cases own : c = r
      · subst own
        cases block.symm.trans block'
        exact ⟨_, Function.update_self .., stays, same⟩
      · exact ready.moveState own q newState
    · exact ready.moveState (apart found here) q newState
  | exited listed exited =>
    obtain ⟨target, block', notExited, notTerminated, grown, posts, now⟩ := exited
    have woken := (posts.wakes (working.withHeap grown)).spared.ready ready
    exact woken.moveState (apart target goes) _ _
  | terminated terminated =>
    obtain ⟨target, queued, block', notTerminated, grown, reparented, now⟩ := terminated
    have other : c ≠ _ := fun same => working.unqueued (same ▸ queued)
    obtain ⟨ppid, rfl⟩ := reparented.relabelled
    refine Procs.Ready.moveState ?_ other _ _
    exact ⟨{ p with ppid := ppid c p }, by simp [block], state, same⟩
  | @disowned r q block' dead =>
    have other : c ≠ r := fun here => by
      subst here
      cases block.symm.trans block'
      rw [state] at dead
      cases dead
    exact ⟨p, by simpa only [Function.update_of_ne other] using block, state, same⟩
  | @reniced h r q priority grown queued block' low high =>
    have other : c ≠ r := fun same => working.unqueued (same ▸ queued)
    exact ⟨p, by simpa only [Function.update_of_ne other] using block, state, same⟩
  | yielded => exact ready
  | allocated block' grown low high pid' ppid ready' gentle unset => exact ready
  | filled grown added was => exact ready
  | @published q h r p' queue ppid arguments block' alive grown was listed parent =>
    have other : c ≠ r := fun here => by
      have absent := (working.table.newApart c r p' was).1
      rw [← here, block] at absent
      cases absent
    exact ⟨p, by simpa only [Function.update_of_ne other] using block, state, same⟩
  | opened opened =>
    rw [opened.procs.1]
    exact ready
  | missed absent => exact ready
  | closed here isOpen same' closed =>
    rw [closed.procs.1]
    exact ready
  | @put r q s₁ ch _ here isOpen passed posts =>
    have working₁ := (working.passed passed).writePipe r (f := (·.put ch)) fun _ => ⟨rfl, rfl⟩
    refine (posts.wakes working₁).spared.ready ?_
    exact (passed.advance working).2.spared.ready ready
  | @took r q s₁ _ here isOpen passed posts =>
    have working₁ := (working.passed passed).writePipe r (f := Pipe.take) fun _ => ⟨rfl, rfl⟩
    refine (posts.wakes working₁).spared.ready ?_
    exact (passed.advance working).2.spared.ready ready
  | destroyed block' dead grown => exact ready

/-! ## What stays the same whatever the others do -/

/-- No process comes back, and none changes its pid or its semaphore. -/
structure State.Outlives (s s' : State) : Prop where
  grown : s.heap.Grown s'.heap
  idle : s'.procs.idleProcessPCB = s.procs.idleProcessPCB
  blocks : ∀ r p', s'.procs.pcbs r = some p' → r < s.heap.requests → (∀ c q, s.procs.newProcess c ≠ some (r, q)) →
    ∃ p, s.procs.pcbs r = some p ∧ p'.pid = p.pid ∧ p'.semId = p.semId
  pending : ∀ c r p', s'.procs.newProcess c = some (r, p') → r < s.heap.requests →
    ∃ p, s.procs.newProcess c = some (r, p)

theorem State.Outlives.refl (s : State) : s.Outlives s :=
  ⟨.refl _, rfl, fun _ p' block _ _ => ⟨p', block, rfl, rfl⟩, fun _ _ p' new _ => ⟨p', new⟩⟩

theorem State.Outlives.trans (first : s.Outlives s') (second : s'.Outlives s'') : s.Outlives s'' := by
  refine ⟨first.grown.trans second.grown, second.idle.trans first.idle, fun r p'' block low settled => ?_,
    fun c r p'' new low => ?_⟩
  · have settled' : ∀ c q, s'.procs.newProcess c ≠ some (r, q) := fun c q new => by
      obtain ⟨p, was⟩ := first.pending c r q new low
      exact settled c p was
    obtain ⟨p', block', pid', sem'⟩ := second.blocks r p'' block (Nat.lt_of_lt_of_le low first.grown.requests) settled'
    obtain ⟨p, was, pid, sem⟩ := first.blocks r p' block' low settled
    exact ⟨p, was, pid'.trans pid, sem'.trans sem⟩
  · obtain ⟨p', new'⟩ := second.pending c r p'' new (Nat.lt_of_lt_of_le low first.grown.requests)
    exact first.pending c r p' new' low

/-- Writes to processes that leave their pids and their semaphores. -/
theorem outlives_of_same {s s' : State} (framed : s.Framed s') (newProcess : s'.procs.newProcess = s.procs.newProcess)
    (blocks : ∀ r p', s'.procs.pcbs r = some p' → ∃ p, s.procs.pcbs r = some p ∧ p'.pid = p.pid ∧ p'.semId = p.semId) :
    s.Outlives s' :=
  ⟨framed.grown, framed.idle, fun r p' block _ _ => blocks r p' block, fun _ _ p' new _ => ⟨p', newProcess ▸ new⟩⟩

theorem same_moveState {procs : Procs} {newState : ProcessState} (block : procs.pcbs r = some p) :
    ∀ r' p', (procs.moveState r p newState).pcbs r' = some p' →
      ∃ q, procs.pcbs r' = some q ∧ p'.pid = q.pid ∧ p'.semId = q.semId := by
  intro r' p' block'
  by_cases here : r' = r
  · subst here
    simp only [Procs.moveState, Function.update_self, Option.some.injEq] at block'
    exact ⟨p, block, by rw [← block'], by rw [← block']⟩
  · simp only [Procs.moveState, Function.update_of_ne here] at block'
    exact ⟨p', block', rfl, rfl⟩

theorem Life.outlives (life : Life s s') : s.Outlives s' := by
  have framed := life.framed
  cases life with
  | wake wake =>
    cases wake with
    | quiet grown deaths procs =>
      refine outlives_of_same framed (by rw [procs]) fun r p' block => ⟨p', ?_, rfl, rfl⟩
      rwa [procs] at block
    | woken grown deaths listed block notExited notTerminated procs =>
      refine outlives_of_same framed (by rw [procs]; rfl) ?_
      rw [procs]
      exact same_moveState block
  | moved grown deaths listed block notExited notTerminated alive procs =>
    refine outlives_of_same framed (by rw [procs]; rfl) ?_
    rw [procs]
    exact same_moveState block
  | terminated grown queued block notTerminated reparented block' procs deaths =>
    obtain ⟨ppid, rfl⟩ := reparented.relabelled
    refine outlives_of_same framed (by rw [procs]; rfl) fun r p' now => ?_
    rw [procs] at now
    obtain ⟨q, was, pid, sem⟩ := same_moveState block' r p' now
    obtain ⟨q', was', rfl⟩ := Option.map_eq_some_iff.mp was
    exact ⟨q', was', pid, sem⟩
  | @disowned r p grown deaths block dead procs =>
    refine outlives_of_same framed (by rw [procs]) fun r' p' now => ?_
    rw [procs] at now
    by_cases here : r' = r
    · subst here
      simp only [Function.update_self, Option.some.injEq] at now
      exact ⟨p, block, by rw [← now], by rw [← now]⟩
    · simp only [Function.update_of_ne here] at now
      exact ⟨p', now, rfl, rfl⟩
  | tuned grown deaths priority procs =>
    refine outlives_of_same framed (by rw [procs]) fun r p' now => ?_
    rw [procs] at now
    obtain ⟨q, was, rfl⟩ := Option.map_eq_some_iff.mp now
    exact ⟨q, was, rfl, rfl⟩
  | @allocated c q r p grown deaths running block low high pid ppid ready procs =>
    refine ⟨grown, framed.idle, fun r' p' now _ _ => ⟨p', ?_, rfl, rfl⟩, fun c' r' p' new old => ?_⟩
    · rwa [procs] at now
    · rw [procs] at new
      by_cases here : c' = c
      · subst here
        simp only [Function.update_self, Option.some.injEq, Prod.mk.injEq] at new
        exact (Nat.not_lt.mpr low (new.1 ▸ old)).elim
      · simp only [Function.update_of_ne here] at new
        exact ⟨p', new⟩
  | @filled c r p semId grown deaths was procs =>
    refine ⟨grown, framed.idle, fun r' p' now _ _ => ⟨p', ?_, rfl, rfl⟩, fun c' r' p' new old => ?_⟩
    · rwa [procs] at now
    · rw [procs] at new
      by_cases here : c' = c
      · subst here
        simp only [Function.update_self, Option.some.injEq, Prod.mk.injEq] at new
        exact ⟨p, by rw [← new.1, was]⟩
      · simp only [Function.update_of_ne here] at new
        exact ⟨p', new⟩
  | @published c q r p queue ppid arguments grown deaths running block alive was listed parent procs =>
    refine ⟨grown, framed.idle, fun r' p' now _ settled => ?_, fun c' r' p' new old => ?_⟩
    · rw [procs] at now
      have here : r' ≠ r := fun same => settled c p (same ▸ was)
      simp only [Function.update_of_ne here] at now
      exact ⟨p', now, rfl, rfl⟩
    · rw [procs] at new
      by_cases here : c' = c
      · subst here
        simp at new
      · simp only [Function.update_of_ne here] at new
        exact ⟨p', new⟩

theorem Lives.outlives (lives : Lives s s') : s.Outlives s' := by
  induction lives with
  | refl => exact .refl _
  | tail _ life ih => exact ih.trans life.outlives

/-- No pipe comes back, and none changes its id or its semaphores. -/
structure Pipes.Kept (pipes pipes' : Pipes) : Prop where
  mutex : pipes'.allPipesSem = pipes.allPipesSem
  blocks : ∀ r p, pipes.pipes r = some p → ∃ p', pipes'.pipes r = some p' ∧ p'.id = p.id ∧
    p'.readSemId = p.readSemId ∧ p'.writeSemId = p.writeSemId ∧ (p.freed = true → p'.freed = true)

theorem Pipes.Kept.refl (pipes : Pipes) : pipes.Kept pipes :=
  ⟨rfl, fun _ p here => ⟨p, here, rfl, rfl, rfl, id⟩⟩

theorem Pipes.Kept.trans {pipes pipes' pipes'' : Pipes} (first : pipes.Kept pipes') (second : pipes'.Kept pipes'') :
    pipes.Kept pipes'' := by
  refine ⟨second.mutex.trans first.mutex, fun r p here => ?_⟩
  obtain ⟨p', here', same, read, write, freed⟩ := first.blocks r p here
  obtain ⟨p'', here'', same', read', write', freed'⟩ := second.blocks r p' here'
  exact ⟨p'', here'', same'.trans same, read'.trans read, write'.trans write, fun gone => freed' (freed gone)⟩

theorem Pipes.kept_cache (pipes : Pipes) (pipeId : Int) : pipes.Kept (pipes.cache pipeId) :=
  ⟨rfl, fun _ p here => ⟨p, here, rfl, rfl, rfl, id⟩⟩

theorem Pipes.kept_modify (pipes : Pipes) (r : Ref) {f : Pipe → Pipe} (same : ∀ p, (f p).id = p.id ∧
    (f p).readSemId = p.readSemId ∧ (f p).writeSemId = p.writeSemId ∧ (p.freed = true → (f p).freed = true)) :
    pipes.Kept (pipes.modify r f) := by
  refine ⟨rfl, fun r' p here => ?_⟩
  by_cases this : r' = r
  · subst this
    exact ⟨f p, by simp [Pipes.modify, here], same p⟩
  · exact ⟨p, by simpa only [Pipes.modify, Function.update_of_ne this] using here, rfl, rfl, rfl, id⟩

theorem Pipes.kept_remove {pipes : Pipes} (proper : pipes.Proper n) (pipeId : Int) :
    pipes.Kept (pipes.remove pipeId) := by
  obtain absent | ⟨r, found⟩ := (pipes.find pipeId).eq_none_or_eq_some
  · rw [remove_none proper absent]
    exact .refl _
  · have freed := pipes.kept_modify r (f := fun p => { p with freed := true }) fun _ => ⟨rfl, rfl, rfl, fun _ => rfl⟩
    refine ⟨allPipesSem_remove pipes pipeId, fun r' p here => ?_⟩
    rw [(remove_some proper found).2.1]
    exact freed.blocks r' p here

theorem Opened.leaves (sound : Sound s) (opened : Opened s pipeId s') : s.pipes.Kept s'.pipes := by
  cases opened with
  | found found grown =>
    exact (s.pipes.kept_cache pipeId).trans (Pipes.kept_modify _ _ fun _ => ⟨rfl, rfl, rfl, id⟩)
  | created absent grown created =>
    refine (s.pipes.kept_cache pipeId).trans (Pipes.Kept.trans ?_ (Pipes.kept_modify _ _ fun _ => ⟨rfl, rfl, rfl, id⟩))
    obtain ⟨grown', low, high, readSem, writeSem, listed⟩ := created
    refine ⟨rfl, fun r' p here => ⟨p, ?_, rfl, rfl, rfl, id⟩⟩
    have old := Nat.lt_of_lt_of_le (sound.pipes.below r' p here) (Nat.le_trans grown.requests low)
    simpa only [Function.update_of_ne (Nat.ne_of_lt old)] using here

theorem Closed.leaves (sound : Sound s) (closed : Closed s r p pipeId s') : s.pipes.Kept s'.pipes := by
  have left := s.pipes.kept_modify r (f := Pipe.leave) fun _ => ⟨rfl, rfl, rfl, id⟩
  cases closed with
  | kept more => exact left
  | last last grown =>
    exact left.trans (Pipes.kept_remove (sound.pipes.modify r (f := Pipe.leave) fun _ => ⟨rfl, rfl⟩) pipeId)

theorem Does.kept (sound : Sound s) (does : Does s c deed s') : s.pipes.Kept s'.pipes := by
  cases does with
  | cached pipeId grown => exact s.pipes.kept_cache pipeId
  | passed passed =>
    rw [passed.pipes]
    exact .refl _
  | slept found block ready notIdle entered grown =>
    cases entered
    exact .refl _
  | watched passed block =>
    dsimp only
    rw [passed.pipes]
    exact .refl _
  | posted posts =>
    rw [posts.pipes]
    exact .refl _
  | exited listed exited =>
    obtain ⟨target, block', notExited, notTerminated, grown, posts, now⟩ := exited
    dsimp only
    rw [posts.pipes]
    exact .refl _
  | terminated terminated =>
    cases terminated
    exact .refl _
  | opened opened => exact opened.leaves sound
  | closed here isOpen same closed => exact closed.leaves sound
  | put here isOpen passed posts =>
    rw [posts.pipes, passed.pipes]
    exact s.pipes.kept_modify _ fun _ => ⟨rfl, rfl, rfl, id⟩
  | took here isOpen passed posts =>
    rw [posts.pipes, passed.pipes]
    exact s.pipes.kept_modify _ fun _ => ⟨rfl, rfl, rfl, id⟩
  | _ => exact .refl _

/-- What nobody ever undoes. -/
structure State.Later (s s' : State) : Prop where
  procs : s.Outlives s'
  pipes : s.pipes.Kept s'.pipes

theorem State.Later.refl (s : State) : s.Later s := ⟨.refl s, .refl _⟩

theorem State.Later.trans (first : s.Later s') (second : s'.Later s'') : s.Later s'' :=
  ⟨first.procs.trans second.procs, first.pipes.trans second.pipes⟩

theorem Does.later (working : Working s c) (does : Does s c deed s') : s.Later s' :=
  ⟨(does.advance working).2.outlives, does.kept working.sound⟩

end QuesOs.Kernel
