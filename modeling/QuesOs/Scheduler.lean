import QuesOs.Calls

/-! `scheduleTask`. The search of the ready process to run goes through the queue
once: it puts back who is blocked or has exited, gives up who was terminated, and
ends because `readyCount` is exact. Reaping never pauses, for nobody blocks the
dead. -/
namespace QuesOs.Kernel
open Resumption Relation

variable {bad : Fault → Prop} {s : State}

/-! ## Reaping -/

/-- The deeds that a process is reaped by. -/
def Deed.reaps : Deed → Prop
  | .looks | .passes _ | .posts _ | .closes _ | .destroys => True
  | .puts _ ch => ch = -1
  | _ => False

/-- These at most wake somebody. -/
theorem Does.wakes (working : Working s c) (does : Does s c deed s') (reaps : deed.reaps) : Wakes s s' := by
  cases does with
  | looked grown => exact .single (.quiet grown rfl rfl)
  | cached pipeId grown => exact .single (.quiet grown rfl rfl)
  | passed passed => exact (passed.advance working).2
  | posted posts => exact posts.wakes working
  | missed absent => exact .single (.quiet (.refl _) rfl rfl)
  | closed here isOpen same closed =>
    obtain ⟨procs, grown⟩ := closed.procs
    refine .single (.quiet grown ?_ (by rw [procs]))
    cases closed <;> rfl
  | @put r p s₁ ch _ here isOpen passed posts =>
    have working₁ := (working.passed passed).writePipe r (f := (·.put ch)) fun _ => ⟨rfl, rfl⟩
    have written : Wake s₁ { s₁ with pipes := s₁.pipes.modify r (·.put ch) } := .quiet (.refl _) rfl rfl
    exact ((passed.advance working).2.tail written).trans (posts.wakes working₁)
  | destroyed block dead grown => exact .single (.quiet grown rfl rfl)
  | _ => exact reaps.elim

/-- A dead process is being reaped, and has come this far. -/
structure Dying (c : Ref) (p : Pcb) (since s : State) : Prop where
  working : Working s c
  block : s.procs.pcbs c = some p
  dead : p.state = .terminated
  start : Working since c
  chain : Chain (fun deed _ _ => deed.reaps) c since s

theorem Dying.does (dying : Dying c p since s) (does : Does s c deed s') (reaps : deed.reaps) : Dying c p since s' := by
  have wakes := does.wakes dying.working reaps
  have block := wakes.spared.kept dying.block (by rw [dying.dead]; decide)
  exact ⟨dying.working.does does, block, dying.dead, dying.start, dying.chain.tail ⟨deed, reaps, does⟩⟩

/-- Waiting raises nothing. -/
theorem Spare.entered (spare : Spare bad n s.sems) (entered : Entered s c p x a s') : Spare bad n s'.sems := by
  cases entered with
  | took positive grown => exact Spare.modify (k := 0) spare x.ref fun y => by dsimp only; omega
  | queued empty grown last => exact Spare.modify (k := 0) spare x.ref fun y => by dsimp only; omega

theorem Spare.passed (spare : Spare bad n s.sems) (passed : Passed s c sem s') : Spare bad n s'.sems := by
  cases passed with
  | absent absent grown => exact spare
  | took found block entered => exact spare.entered entered
  | woken block ready record => exact spare
  | @forced x p pid s₁ h found block dead entered grown =>
    have spare₁ : Spare bad n s₁.sems := spare.entered entered
    exact spare₁

theorem Dying.look (dying : Dying c p since s) (grown : s.heap.Grown h) : Dying c p since (s.withHeap h) :=
  dying.does (.looked grown) trivial

/-- The program goes on to its end: it neither pauses nor fails badly. -/
def Ends {α : Type} (bad : Fault → Prop) (p : Program State Fault α) (post : α → State → Prop) (s : State) : Prop :=
  ∀ since, p.Meets bad (fun _ _ => False) (fun _ _ => True) (fun a _ => post a) since s

section
variable {α β : Type} {p : Program State Fault α}

theorem Ends.pure {a : α} {post : α → State → Prop} (here : post a s) : Ends bad (Pure.pure a) post s := fun _ => here

theorem Ends.lift {f : K α} {post : α → State → Prop} (meets : Meets bad f post s) : Ends bad (liftM f) post s :=
  fun _ => meets

theorem Ends.bind {f : α → Program State Fault β} {middle : α → State → Prop} {post : β → State → Prop}
    (first : Ends bad p middle s) (rest : ∀ a s', middle a s' → Ends bad (f a) post s') :
    Ends bad (p >>= f) post s := by
  intro since
  rw [Program.meets_bind]
  exact (first since).mono fun a since' s' here => rest a s' here since'

theorem Ends.discard {post : State → Prop} (ends : Ends bad p (fun _ => post) s) :
    Ends bad (Functor.discard p) (fun _ => post) s := by
  intro since
  rw [Program.meets_discard]
  exact ends since

theorem Ends.bind_get {f : State → Program State Fault α} {post : α → State → Prop} (rest : Ends bad (f s) post s) :
    Ends bad (liftM (get : K State) >>= f) post s :=
  fun since => rest since

theorem Ends.mono {post post' : α → State → Prop} (ends : Ends bad p post s) (weaker : ∀ a s', post a s' → post' a s') :
    Ends bad p post' s :=
  fun since => (ends since).mono fun a _ s' => weaker a s'

end

/-- A dead process gets past every `semWait`. -/
theorem semWait_dying (dying : Dying c p since s) (sem : Int) : Ends bad (semWait sem) (fun _ => Passed s c sem) s := by
  obtain ⟨q, attended⟩ := dying.working.attended
  cases attended.block.symm.trans dying.block
  unfold semWait
  apply Ends.bind (.lift (semWaitEnter_spec dying.working.sound.grants dying.working.sound.sems attended sem))
  rintro result s₁ (⟨absent, rfl, h, grown, rfl⟩ | ⟨x, found, entered⟩)
  · exact .pure (.absent absent grown)
  · cases result with
    | inl result =>
      have zero : result = 0 := by
        cases entered
        rfl
      subst zero
      exact .pure (.took found dying.block entered)
    | inr callerPID =>
      obtain ⟨sound₁, wakes⟩ := entered.advance dying.working
      have working₁ := dying.working.lives sound₁ wakes.lives
      obtain ⟨p₁, attended₁⟩ := working₁.attended
      have block₁ := wakes.spared.kept dying.block (by rw [dying.dead]; decide)
      have pid : callerPID = p.pid := by
        cases entered
        rfl
      subst pid
      have target := working₁.target_eq (.inl rfl) block₁
      have stays : s₁.procs.moved p.pid .blocked = none := by
        unfold Procs.moved
        simp [target, block₁, dying.dead]
      have refused : Ends bad (blockTask p.pid) (fun _ s₂ => ∃ h, s₁.heap.Grown h ∧ s₂ = s₁.withHeap h) s₁ := by
        unfold blockTask
        apply Ends.bind (.lift (changeStateWith_spec sound₁.grants attended₁ semPost p.pid (by decide) (by decide)))
        rintro a s₂ ⟨rfl, h, grown, rfl⟩
        rw [stays]
        exact .pure ⟨h, grown, rfl⟩
      apply Ends.bind (.discard refused)
      rintro _ s₂ ⟨h, grown, rfl⟩
      have passed : Passed s c sem { s₁ with heap := h, procs := s₁.procs.endWait c sem } :=
        .forced found dying.block dying.dead entered grown
      have ended : Meets bad (endWait sem) (fun _ => Passed s c sem) (s₁.withHeap h) :=
        (meets_endWait (by exact working₁.running)).mpr passed
      exact (Ends.lift ended).bind fun _ _ passed => .pure passed

/-- A dead process is being reaped, and so many posts are left. -/
def Reaps (bad : Fault → Prop) (n : Nat) (c : Ref) (p : Pcb) (since s : State) : Prop :=
  Dying c p since s ∧ Spare bad n s.sems

theorem dying_pipePutchar (dying : Reaps bad (n + 1) c p since s) (pipeId : Int) :
    Ends bad (pipePutchar pipeId (-1)) (fun _ => Reaps bad n c p since) s := by
  obtain ⟨dying, spare⟩ := dying
  have sound := dying.working.sound
  unfold pipePutchar
  apply Ends.bind (.lift (getPipe_spec sound.grants sound.pipes pipeId))
  rintro found s₁ ⟨rfl, h, grown, rfl⟩
  have dying₁ := dying.does (.cached pipeId grown) trivial
  obtain absent | ⟨r, found⟩ := (s.pipes.find pipeId).eq_none_or_eq_some
  · rw [absent]
    exact .pure ⟨dying₁, spare.less (Nat.le_succ _)⟩
  · rw [found]
    obtain ⟨-, q, here, isOpen, -⟩ := pipe_find_some sound.pipes found
    have written : Ends bad (writeToPipe r (-1)) (fun _ => Reaps bad n c p since)
        { s with heap := h, pipes := s.pipes.cache pipeId } := by
      unfold writeToPipe
      have read : Meets bad (readPipe r) (fun q' s' => q' = q ∧
        s' = { s with heap := h, pipes := s.pipes.cache pipeId })
          { s with heap := h, pipes := s.pipes.cache pipeId } := (meets_readPipe (by exact here) isOpen).mpr ⟨rfl, rfl⟩
      apply Ends.bind (.lift read)
      rintro q _ ⟨rfl, rfl⟩
      apply Ends.bind (.discard (semWait_dying dying₁ q.writeSemId))
      intro _ s₂ passed
      have working₂ := dying₁.working.passed passed
      obtain ⟨q', attended⟩ := working₂.attended
      apply Ends.lift
      have spare₂ : Spare bad (n + 1) s₂.sems := Spare.passed (by exact spare) passed
      apply (writeBuffer_within (spare₂.less (Nat.le_add_left 1 n)) working₂.sound attended
        (by rw [passed.pipes]; exact here) isOpen (-1)).mono
      intro _ s₃ posts
      have does : Does { s with heap := h, pipes := s.pipes.cache pipeId } c (.puts r (-1)) s₃ :=
        .put here isOpen passed posts
      exact ⟨dying₁.does does rfl, Spare.posts (by exact spare₂) posts⟩
    exact written.bind fun _ _ after => .pure after

theorem dying_pipeClose (dying : Reaps bad (n + 1) c p since s) (pipeId : Int) :
    Ends bad (pipeClose pipeId) (fun _ => Reaps bad n c p since) s := by
  obtain ⟨dying, spare⟩ := dying
  have sound := dying.working.sound
  unfold pipeClose
  apply Ends.bind (.lift (getPipe_spec sound.grants sound.pipes pipeId))
  rintro found s₁ ⟨rfl, h, grown, rfl⟩
  have dying₁ := dying.does (.cached pipeId grown) trivial
  obtain absent | ⟨r, found⟩ := (s.pipes.find pipeId).eq_none_or_eq_some
  · rw [absent]
    have does : Does { s with heap := h, pipes := s.pipes.cache pipeId } c (.closes pipeId) _ := .missed absent
    exact .lift ⟨dying₁.does does trivial, spare.less (Nat.le_succ _)⟩
  · rw [found]
    obtain ⟨-, q, here, isOpen, same⟩ := pipe_find_some sound.pipes found
    apply Ends.bind_get
    apply Ends.bind (.discard (semWait_dying dying₁ _))
    intro _ s₂ passed
    have dying₂ := dying₁.does (.passed passed) trivial
    obtain ⟨q', attended⟩ := dying₂.working.attended
    have here₂ : s₂.pipes.pipes r = some q := by
      rw [passed.pipes]
      exact here
    apply Ends.lift
    have spare₂ : Spare bad (n + 1) s₂.sems := Spare.passed (by exact spare) passed
    apply (pipeCloseEntered_within (spare₂.less (Nat.le_add_left 1 n)) dying₂.working.sound
      attended here₂ isOpen pipeId).mono
    rintro _ s₄ ⟨s₃, closed, posts⟩
    exact ⟨(dying₂.does (.closed here₂ isOpen same closed) trivial).does (.posted posts) trivial,
      (spare₂.closed closed).posts posts⟩

theorem freeStrings_spec (strings : List Ref) :
    Meets bad (freeStrings strings) (fun _ s' => ∃ h, s.heap.Grown h ∧ s' = s.withHeap h) s := by
  induction strings generalizing s with
  | nil => exact ⟨_, .refl _, rfl⟩
  | cons string strings ih =>
    unfold freeStrings
    rw [meets_bind, meets_free]
    apply ih.mono
    rintro _ s' ⟨h, grown, rfl⟩
    exact ⟨h, (Heap.grown_release _ _).trans grown, rfl⟩

/-- Who is in the process table has arguments. -/
theorem meets_readArguments {post : Option Ref × List Ref → State → Prop} (table : s.procs.Table n)
    (block : s.procs.pcbs c = some p)
    (here : ∀ arguments, post arguments s) : Meets bad (readArguments p) post s := by
  obtain ⟨arguments, given⟩ := Option.isSome_iff_exists.mp (table.given c p block)
  unfold readArguments
  rw [given]
  exact here arguments

theorem dying_freeArguments (dying : Reaps bad (n + 1) c p since s) :
    Meets bad (freeArguments p) (fun _ => Reaps bad n c p since) s := by
  obtain ⟨dying, spare⟩ := dying
  have finish : ∀ {s}, Dying c p since s → Spare bad n s.sems → ∀ argv : Option Ref,
      Meets bad (do argv.forM free; discard <| semClose p.semId) (fun _ => Reaps bad n c p since) s := by
    intro s dying spare argv
    rw [meets_bind]
    refine (freeOption_spec argv).mono ?_
    rintro _ s' ⟨h, grown, rfl⟩
    have dying' := dying.look grown
    rw [meets_discard]
    apply (semClose_spec dying'.working.sound.grants dying'.working.sound.sems p.semId).mono
    rintro _ s' ⟨h', grown', rfl⟩
    exact ⟨dying'.does (.destroyed dying'.block dying'.dead grown') trivial, spare.close p.semId⟩
  unfold freeArguments
  rw [meets_bind]
  refine meets_readArguments dying.working.table dying.block ?_
  rintro ⟨argv, strings⟩
  dsimp only
  rw [meets_bind]
  apply (freeStrings_spec strings).mono
  rintro _ s₁ ⟨h₁, grown₁, rfl⟩
  have dying₁ := dying.look grown₁
  rw [meets_bind]
  apply (semValue_spec dying₁.working.sound.grants p.semId).mono
  rintro value s₂ ⟨rfl, h₂, grown₂, rfl⟩
  have dying₂ := dying₁.look grown₂
  split
  · rw [meets_bind, meets_discard]
    obtain ⟨q, attended⟩ := dying₂.working.attended
    apply (semPost_within (Spare.raises (by exact spare.less (Nat.le_add_left 1 n)) _)
      dying₂.working.sound.grants dying₂.working.sound.sems attended).mono
    intro _ s₃ posts
    exact finish (dying₂.does (.posted posts) trivial) (Spare.posts (by exact spare) posts) argv
  · exact finish dying₂ (spare.less (Nat.le_succ _)) argv

/-- What `freeProcess` does for the dead process `c`, up to its blocks. -/
inductive Reaped (s : State) (c : Ref) (p : Pcb) : State → Prop
  | intro (block : s.procs.pcbs c = some p) (dead : p.state = .terminated)
    (chain : Chain (fun deed _ _ => deed.reaps) c s s') :
    Reaped s c p { s' with history := .reaped p (s.pipes, s.sems) (s'.pipes, s'.sems) :: s'.history }

theorem Chain.wakes (chain : Chain (fun deed _ _ => deed.reaps) c s s') (working : Working s c) : Wakes s s' := by
  induction chain with
  | refl => exact .refl
  | tail chain last ih =>
    obtain ⟨deed, reaps, does⟩ := last
    exact ih.trans (does.wakes (Chain.working chain working) reaps)

theorem Reaped.wakes (reaped : Reaped s c p s') (working : Working s c) : Wakes s s' := by
  obtain ⟨block, dead, chain⟩ := reaped
  exact (chain.wakes working).tail (.quiet (.refl _) rfl rfl)

theorem Reaped.working (reaped : Reaped s c p s') (working : Working s c) : Working s' c := by
  have wakes := reaped.wakes working
  obtain ⟨block, dead, chain⟩ := reaped
  have sound := (chain.working working).sound
  exact working.lives ⟨sound.grants, sound.sems, sound.pipes⟩ wakes.lives

theorem Reaped.block (reaped : Reaped s c p s') (working : Working s c) : s'.procs.pcbs c = some p := by
  have wakes := reaped.wakes working
  obtain ⟨block, dead, chain⟩ := reaped
  exact wakes.spared.kept block (by rw [dead]; decide)

theorem dying_freePipes (dying : Reaps bad (n + 3) c p since s) (fd : Int × Int) :
    Ends bad (freePipes fd) (fun _ => Reaps bad n c p since) s := by
  have input : ∀ s', Reaps bad (n + 1) c p since s' → Ends bad (do
      if fd.1 ≠ STDIN_PIPENO then discard <| pipeClose fd.1) (fun _ => Reaps bad n c p since) s' := by
    intro s' dying'
    split
    · exact (dying_pipeClose dying' _).discard
    · exact .pure ⟨dying'.1, dying'.2.less (Nat.le_succ _)⟩
  unfold freePipes
  dsimp only
  split
  · apply (dying_pipePutchar dying _).discard.bind
    intro _ s' dying'
    exact (dying_pipeClose dying' _).discard.bind fun _ => input
  · exact input s ⟨dying.1, dying.2.less (Nat.add_le_add_left (by decide) n)⟩

/-- `freeProcess` of a dead process runs to its end; it posts up to four times. -/
theorem freeProcess_dying (spare : Spare bad (n + 4) s.sems) (working : Working s c) (block : s.procs.pcbs c = some p)
    (dead : p.state = .terminated) :
    Ends bad (freeProcess c p) (fun _ s' => ∃ s₁ h, Reaped s c p s₁ ∧ Spare bad n s₁.sems ∧
      s₁.heap.Grown h ∧ s' = { s₁ with
      heap := h
      procs := { s₁.procs with
        pidCounter := s₁.procs.pidCounter - if p.pid = s₁.procs.pidCounter - 1 then 1 else 0
        pcbs := Function.update s₁.procs.pcbs c none } }) s := by
  have dying : Reaps bad (n + 4) c p s s := ⟨⟨working, block, dead, working, .refl⟩, spare⟩
  unfold freeProcess
  apply Ends.bind_get
  apply Ends.bind (.lift (dying_freeArguments dying))
  intro _ s₁ dying₁
  apply (dying_freePipes dying₁ p.fileDescriptors).bind
  intro _ s₂ dying₂
  apply Ends.bind_get
  have logged : Meets bad (log _) (fun _ s₃ => Reaped s c p s₃ ∧ Spare bad n s₃.sems) s₂ :=
    meets_log.mpr ⟨.intro block dead dying₂.1.chain, dying₂.2⟩
  apply Ends.bind (.lift logged)
  rintro _ s₃ ⟨reaped, spare₃⟩
  have working₃ := reaped.working working
  have grown : s₃.heap.Grown ((s₃.heap.release p.stack).release c) :=
    (Heap.grown_release _ _).trans (Heap.grown_release _ _)
  apply Ends.lift
  unfold freeBlocks
  rw [meets_bind, meets_currentPcb working₃.running (reaped.block working)]
  exact ⟨s₃, _, reaped, spare₃, grown, rfl⟩

/-! ## Choosing the next process -/

/-- What the scheduler does at a time: it lets processes change places, or it gives
up a dead one and takes the next. -/
inductive Shift (s : State) : State → Prop
  | rotated (grown : s.heap.Grown h)
    (same : (Procs.others { s.procs with queue, currentProcessPCB }).Perm s.procs.others) :
    Shift s { s with heap := h, procs := { s.procs with queue, currentProcessPCB, currentCycles } }
  | reaped (working : Working s c) (reaped : Reaped s c p s₁) (grown : s₁.heap.Grown h)
    (others : s₁.procs.others.Perm (c :: Procs.others { s₁.procs with queue, currentProcessPCB })) :
    Shift s { s₁ with
      heap := h
      procs := { s₁.procs with
        pidCounter := s₁.procs.pidCounter - if p.pid = s₁.procs.pidCounter - 1 then 1 else 0
        queue, currentProcessPCB
        pcbs := Function.update s₁.procs.pcbs c none } }

/-- The semaphores, the pipes and the process table are in order. -/
structure Ordered (s : State) : Prop where
  sound : Sound s
  table : s.procs.Table s.heap.requests

theorem Working.ordered (working : Working s c) : Ordered s := ⟨working.sound, working.table⟩

theorem Shift.sound (shift : Shift s s') (sound : Sound s) : Sound s' := by
  cases shift with
  | rotated grown same =>
    exact ⟨sound.grants.grown grown, sound.sems.grown grown.requests, sound.pipes.grown grown.requests⟩
  | reaped working reaped grown others =>
    have sound₁ := ((reaped.working working).withHeap grown).sound
    exact ⟨sound₁.grants, sound₁.sems, sound₁.pipes⟩

/-- Some may wake, then the queue turns. -/
theorem Shift.turning (shift : Shift s s') : ∃ s₁, Wakes s s₁ ∧ Turning s₁ s' := by
  cases shift with
  | rotated grown same => exact ⟨s, .refl, .dispatched grown rfl same rfl⟩
  | @reaped c p s₁ h queue currentProcessPCB working reaped grown others =>
    have dead : p.state = .terminated := by
      cases reaped
      assumption
    exact ⟨s₁, reaped.wakes working, .reaped grown rfl (reaped.block working) dead others rfl⟩

theorem Shift.ordered (shift : Shift s s') (ordered : Ordered s) : Ordered s' := by
  obtain ⟨s₁, wakes, turning⟩ := shift.turning
  exact ⟨shift.sound ordered.sound, turning.table (wakes.lives.table ordered.table)⟩

theorem Shift.outlives (shift : Shift s s') : s.Outlives s' := by
  cases shift with
  | rotated grown same => exact ⟨grown, rfl, fun _ p' block _ _ => ⟨p', block, rfl, rfl⟩, fun _ _ p' new _ => ⟨p', new⟩⟩
  | @reaped c p s₁ h queue currentProcessPCB working reaped grown others =>
    refine (reaped.wakes working).lives.outlives.trans ?_
    refine ⟨grown, rfl, fun r p' block _ _ => ⟨p', ?_, rfl, rfl⟩, fun _ _ p' new _ => ⟨p', new⟩⟩
    by_cases here : r = c
    · subst here
      simp at block
    · simpa only [Function.update_of_ne here] using block

theorem Shift.kept (shift : Shift s s') : s.pipes.Kept s'.pipes := by
  cases shift with
  | rotated grown same => exact .refl _
  | reaped working reaped grown others =>
    obtain ⟨block, dead, chain⟩ := reaped
    exact (chain.later working).pipes

/-- The process was terminated. -/
def Procs.isDead (procs : Procs) (r : Ref) : Bool := (procs.pcbs r).any (·.state = .terminated)

theorem Procs.Spared.isDead {procs procs' : Procs} (spared : procs.Spared procs') (r : Ref) :
    procs'.isDead r = procs.isDead r := by
  unfold Procs.isDead
  rcases spared.pcbs r with same | ⟨p, block, blocked, now⟩
  · rw [same]
  · rw [block, now]
    simp [blocked]

/-- Who runs next, and how the queue is left: `front` is searched up to its first
ready process. -/
def Chosen (s : State) (front back : List Ref) (s' : State) : Prop :=
  ∃ pre r mid, front = pre ++ r :: mid ∧ (∀ x ∈ pre, s.procs.isReady x = false) ∧
    s'.procs.currentProcessPCB = some r ∧ (∃ pid, s'.procs.Ready r pid) ∧
    values s'.procs.queue = mid ++ back ++ pre.filter (!s.procs.isDead ·) ∧ ReflTransGen Shift s s'

/-- The search goes on after one that cannot run. -/
theorem Chosen.after (chosen : Chosen s₁ front back₁ s') (shift : Shift s s₁)
    (backs : back₁ = back ++ [c].filter (!s.procs.isDead ·))
    (asleep : s.procs.isReady c = false)
    (same : ∀ r ∈ front, s₁.procs.isDead r = s.procs.isDead r ∧ (s.procs.isReady r → s₁.procs.isReady r)) :
    Chosen s (c :: front) back s' := by
  obtain ⟨pre, r, mid, rfl, passed, current, ready, queue, shifts⟩ := chosen
  have passed' : ∀ x ∈ c :: pre, s.procs.isReady x = false := by
    intro x member
    rcases List.mem_cons.mp member with rfl | member
    · exact asleep
    · refine Bool.eq_false_iff.mpr fun ready => ?_
      have awake := (same x (List.mem_append_left _ member)).2 ready
      rw [passed x member] at awake
      cases awake
  refine ⟨c :: pre, r, mid, rfl, passed', current, ready, ?_, shifts.head shift⟩
  have left : pre.filter (!s₁.procs.isDead ·) = pre.filter (!s.procs.isDead ·) :=
    List.filter_congr fun x member => by rw [(same x (List.mem_append_left _ member)).1]
  have together : (c :: pre).filter (!s.procs.isDead ·) = [c].filter (!s.procs.isDead ·) ++
    pre.filter (!s.procs.isDead ·) :=
    List.filter_append [c] pre
  rw [queue, backs, left, together]
  simp only [List.append_assoc]

theorem others_of_running {procs : Procs} (running : procs.currentProcessPCB = some c)
    (notIdle : procs.idleProcessPCB ≠ some c) :
    procs.others = values procs.queue ++ [c] := by
  unfold Procs.others
  rw [running]
  simp [Ne.symm notIdle]

theorem scheduleLoop_spec {s : State} (front : List Ref) {back : List Ref} {fuel : Nat} (working : Working s c)
    (notIdle : s.procs.idleProcessPCB ≠ some c) (split : c :: values s.procs.queue = front ++ back)
    (ready : ∃ r ∈ front, s.procs.isReady r = true) (enough : front.length ≤ fuel)
    (spare : Spare bad (4 * front.length) s.sems) :
    Meets bad (scheduleLoop fuel) (fun _ => Chosen s front back) s := by
  induction front generalizing s c back fuel with
  | nil => simp at ready
  | cons first front ih =>
    obtain ⟨rfl, queued⟩ := List.cons.inj split
    obtain ⟨p, attended⟩ := working.attended
    have others := others_of_running working.running notIdle
    have once : c ∉ front ∧ (values s.procs.queue).Nodup := by
      have nodup := working.table.once
      rw [others] at nodup
      refine ⟨fun member => working.unqueued ?_, (List.nodup_append.mp nodup).1⟩
      rw [queued]
      exact List.mem_append_left _ member
    cases fuel with
    | zero => simp at enough
    | succ fuel =>
      unfold scheduleLoop
      rw [meets_bind, meets_currentPcb attended.running attended.block, meets_ite]
      constructor
      · intro isReady
        refine ⟨[], c, front, rfl, (fun _ none => by cases none), working.running, ?_, by simp [queued], .refl⟩
        exact ⟨p.pid, p, attended.block, isReady, rfl⟩
      · intro asleep
        -- The ready one is further on.
        have ready' : ∃ r ∈ front, s.procs.isReady r = true := by
          obtain ⟨r, member, isReady⟩ := ready
          rcases List.mem_cons.mp member with rfl | later
          · simp [Procs.isReady, attended.block, asleep] at isReady
          · exact ⟨r, later, isReady⟩
        obtain ⟨next, front', rfl⟩ : ∃ next front', front = next :: front' := by
          cases front with
          | nil => simp at ready'
          | cons next front' => exact ⟨next, front', rfl⟩
        have listed : next ∈ values s.procs.queue := by
          rw [queued]
          exact List.mem_cons_self ..
        have nextOther := (working.table.other (List.mem_append_left _ listed)).1
        have fewer : (next :: front').length ≤ fuel := Nat.le_of_succ_le_succ enough
        have goOn : ∀ s₁ back₁, Shift s s₁ → Spare bad (4 * (next :: front').length) s₁.sems →
            s₁.procs.currentProcessPCB = some next →
            values s₁.procs.queue = front' ++ back₁ → back₁ = back ++ [c].filter (!s.procs.isDead ·) →
            (∀ r ∈ next :: front', s₁.procs.isDead r = s.procs.isDead r ∧ (s.procs.isReady r → s₁.procs.isReady r)) →
            Meets bad (scheduleLoop fuel) (fun _ => Chosen s (c :: next :: front') back) s₁ := by
          intro s₁ back₁ shift spare₁ current queue backs same
          have ordered := shift.ordered working.ordered
          have notIdle₁ : s₁.procs.idleProcessPCB ≠ some next := by
            rw [shift.outlives.idle]
            exact nextOther.symm
          obtain ⟨r, member, isReady⟩ := ready'
          have rest := ih ⟨ordered.sound, ordered.table, current⟩ notIdle₁ (by rw [queue]; rfl)
            ⟨r, member, (same r member).2 isReady⟩ fewer spare₁
          exact rest.mono fun _ _ chosen =>
            chosen.after shift backs (by simp [Procs.isReady, attended.block, asleep]) same
        by_cases dead : p.state = .terminated
        · rw [if_pos dead, meets_bind]
          apply (Program.Meets.complete (freeProcess_dying spare working attended.block dead s)).mono
          rintro _ _ ⟨s₁, h, reaped, spare₁, grown, rfl⟩
          have spared := (reaped.wakes working).spared
          simp only [meets_bind, meets_get, meets_modifyProcs]
          apply (dequeue_spec (by rw [spared.queue]; exact queued)).mono
          rintro ⟨queue, _⟩ _ ⟨listed', rfl, h', grown', rfl⟩
          have gone : [c].filter (!s.procs.isDead ·) = [] := by simp [Procs.isDead, attended.block, dead]
          have now : ∀ queue : Queue Ref, Procs.others { s₁.procs with queue, currentProcessPCB := some next } =
              values queue ++ [next] := fun _ => others_of_running rfl (by rw [spared.idle]; exact nextOther.symm)
          refine goOn _ back (.reaped working reaped (grown.trans grown') ?_) spare₁ rfl listed'
            (by rw [gone, List.append_nil]) ?_
          · rw [now, listed', spared.others, others, queued]
            have last : ((next :: front' ++ back) ++ [c]).Perm (c :: (next :: front' ++ back)) :=
              List.perm_append_singleton _ _
            exact last.trans (.cons c (List.perm_append_singleton next (front' ++ back)).symm)
          · intro r member
            have other : r ≠ c := fun same => once.1 (same ▸ member)
            have left : Function.update s₁.procs.pcbs c none r = s₁.procs.pcbs r := Function.update_of_ne other _ _
            constructor
            · change (Function.update s₁.procs.pcbs c none r).any _ = _
              rw [left]
              exact spared.isDead r
            · intro isReady
              obtain ⟨q, block, state⟩ := (Option.any_eq_true _ _).mp isReady
              change (Function.update s₁.procs.pcbs c none r).any _ = _
              rw [left, spared.kept block (by rw [of_decide_eq_true state]; decide)]
              exact state
        · have alive : [c].filter (!s.procs.isDead ·) = [c] := by simp [Procs.isDead, attended.block, dead]
          rw [if_neg dead]
          simp only [meets_bind, meets_get]
          apply (enqueue_spec working.sound.grants c).mono
          rintro queue _ ⟨requeued, h, grown, rfl⟩
          simp only [meets_modifyProcs]
          apply (dequeue_spec (by rw [requeued, queued]; rfl)).mono
          rintro ⟨queue', _⟩ _ ⟨listed', rfl, h', grown', rfl⟩
          have now : ∀ queue : Queue Ref, Procs.others { s.procs with queue, currentProcessPCB := some next } =
              values queue ++ [next] := fun _ => others_of_running rfl nextOther.symm
          refine goOn _ (back ++ [c]) (.rotated (grown.trans grown') ?_) (spare.less (Nat.le_add_right _ 4)) rfl
            (by simpa using listed') (by rw [alive]) ?_
          · have turned : Procs.others { s.procs with queue := queue', currentProcessPCB := some next } =
                (front' ++ back ++ [c]) ++ [next] :=
                by rw [now, show values queue' = front' ++ back ++ [c] from listed']
            refine (List.Perm.of_eq turned).trans ?_
            rw [others, queued]
            exact List.perm_append_singleton next (front' ++ back ++ [c])
          · exact fun _ _ => ⟨rfl, id⟩

/-- What `scheduleTask` comes to: the current process keeps running, or the first
ready one of the others is dispatched, or there is none and the idle one rests. -/
inductive Scheduled (s : State) : State → Prop
  | kept (running : s.procs.currentProcessPCB = some c) (block : s.procs.pcbs c = some p) (ready : p.state = .ready)
    (cycles : 0 < s.procs.currentCycles) :
    Scheduled s { s with procs := { s.procs with currentCycles := s.procs.currentCycles - 1 } }
  | dispatched (some : 0 < s.procs.readyCount) (chosen : Chosen s s.procs.others [] s₁)
    (running : s₁.procs.currentProcessPCB = Option.some r) (block : s₁.procs.pcbs r = Option.some p) :
    Scheduled s { s₁ with procs := { s₁.procs with currentCycles := p.priority } }
  | rested (none : s.procs.readyCount ≤ 0) (grown : s.heap.Grown h) (queued : values queue = s.procs.others)
    (idle : s.procs.idleProcessPCB = Option.some r) (block : s.procs.pcbs r = Option.some p)
    (ready : p.state = .ready) :
    Scheduled s { s with
      heap := h
      procs := { s.procs with
        queue, currentProcessPCB := s.procs.idleProcessPCB, currentCycles := p.priority } }

theorem choose_spec (spare : Spare bad (4 * s.procs.others.length) s.sems)
    (ordered : Ordered s) (grown : s.heap.Grown h)
    {queue : Queue Ref} (queued : values queue = s.procs.others) : Meets bad scheduleTask.choose (fun _ => Scheduled s)
      { s with heap := h, procs := { s.procs with queue } } := by
  have table := ordered.table
  unfold scheduleTask.choose
  rw [meets_bind, meets_get]
  by_cases some : s.procs.readyCount > 0
  · rw [if_pos some]
    -- `readyCount` is exact, so there is one to be found.
    obtain ⟨r, member, ready⟩ : ∃ r ∈ s.procs.others, s.procs.isReady r = true := by
      rw [table.counted] at some
      exact List.countP_pos_iff.mp (Int.natCast_pos.mp some)
    obtain ⟨first, rest, all⟩ : ∃ first rest, s.procs.others = first :: rest := by
      cases others : s.procs.others with
      | nil => simp [others] at member
      | cons first rest => exact ⟨first, rest, rfl⟩
    have apart := (table.other (by rw [all]; exact List.mem_cons_self ..)).1
    simp only [meets_bind]
    apply (dequeue_spec (by rw [queued, all])).mono
    rintro ⟨queue', _⟩ _ ⟨listed, rfl, h', grown', rfl⟩
    simp only [meets_modifyProcs, State.withHeap]
    have shift : Shift s { s with
        heap := h', procs := { s.procs with queue := queue', currentProcessPCB := Option.some first } } := by
      refine .rotated (grown.trans grown') ?_
      have turned : Procs.others { s.procs with queue := queue', currentProcessPCB := Option.some first } =
        values queue' ++ [first] :=
        others_of_running rfl (Ne.symm apart)
      rw [turned, show values queue' = rest from listed, all]
      exact List.perm_append_singleton first rest
    have ordered' := shift.ordered ordered
    have length : queue'.length = rest.length := by
      rw [← show values queue' = rest from listed]
      exact (List.length_map ..).symm
    have working : Working { s with
        heap := h', procs := { s.procs with queue := queue', currentProcessPCB := Option.some first } } first :=
      ⟨ordered'.sound, ordered'.table, rfl⟩
    have split : first :: values queue' = s.procs.others ++ [] := by
      rw [List.append_nil, all]
      exact congrArg _ listed
    have enough : s.procs.others.length ≤ queue'.length + 1 := by
      rw [all, length]
      exact Nat.le_refl _
    apply (scheduleLoop_spec s.procs.others working (Ne.symm apart) split ⟨r, member, ready⟩ enough spare).mono
    rintro _ s₁ ⟨pre, r, mid, split, passed, current, ⟨pid, p, block, isReady, rfl⟩, left, shifts⟩
    rw [meets_currentPcb current block]
    refine .dispatched some ⟨pre, r, mid, split, passed, current, ?_, left, shifts.head shift⟩ current block
    exact ⟨p.pid, p, block, isReady, rfl⟩
  · rw [if_neg some]
    obtain ⟨r, p, idle, block, ready, -⟩ := table.idle
    simp only [meets_bind, meets_modifyProcs]
    rw [meets_currentPcb (by exact idle) (by exact block)]
    exact .rested (Int.not_lt.mp some) grown queued idle block ready

/-- **`scheduleTask` always comes to an end**, whatever the processes are at, if the posts of
those that are reaped fit. -/
theorem scheduleTask_spec (spare : Spare bad (4 * s.procs.others.length) s.sems) (ordered : Ordered s) :
    Meets bad scheduleTask (fun _ => Scheduled s) s := by
  have table := ordered.table
  unfold scheduleTask
  rw [meets_bind, meets_get]
  cases running : s.procs.currentProcessPCB with
  | none =>
    have queued : values s.procs.queue = s.procs.others := by
      unfold Procs.others
      rw [running]
      simp
    exact choose_spec spare ordered (.refl _) queued
  | some c =>
    obtain ⟨p, attended⟩ := Working.attended ⟨ordered.sound, ordered.table, running⟩
    obtain ⟨r, q, idle, block, -⟩ := table.idle
    simp only [meets_bind, meets_readPcb, attended.block, meets_lookup_some, meets_get]
    by_cases keeps : p.state = .ready ∧ s.procs.currentCycles > 0
    · rw [if_pos keeps]
      exact .kept running attended.block keeps.1 keeps.2
    · rw [if_neg keeps]
      simp only [meets_bind, meets_get, idle, meets_deref_some, meets_readPcb, block, meets_lookup_some]
      by_cases same : p.pid = q.pid
      · have here := table.unique c r p q attended.block block same
        subst here
        have queued : values s.procs.queue = s.procs.others := by
          unfold Procs.others
          rw [running, idle]
          simp
        simp only [same, ne_eq, not_true, if_false]
        have chosen := choose_spec spare ordered (.refl _) queued
        rw [← idle]
        exact chosen
      · have notIdle : s.procs.idleProcessPCB ≠ some c := by
          intro isIdle
          cases idle.symm.trans isIdle
          cases block.symm.trans attended.block
          exact same rfl
        simp only [ne_eq, same, not_false_eq_true, if_true, meets_bind, meets_get]
        apply (enqueue_spec ordered.sound.grants c).mono
        rintro queue _ ⟨listed, h, grown, rfl⟩
        rw [meets_modifyProcs]
        exact choose_spec spare ordered grown (by rw [listed, others_of_running running notIdle])

end QuesOs.Kernel
