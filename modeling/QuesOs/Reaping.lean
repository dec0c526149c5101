import QuesOs.PipeBlocks

/-! `freeProcess` deed by deed: which semaphores it posts, and how it finds the pipe that
it ends. Whatever its deeds and the turning of the queue keep, the scheduler keeps. -/
namespace QuesOs.Kernel
open Resumption Threads Relation

variable {bad : Fault → Prop} {s : State}

/-! ## The deeds of `freeProcess` -/

/-- The deeds that the process is given up by, from these pipes and semaphores on. The
end of what it wrote goes to the pipe that was there at the start, and only its own
semaphore was touched before. -/
def retires (p : Pcb) (before : Pipes × Sems) : Deed → State → State → Prop
  | .looks, _, _ | .passes _, _, _ | .closes _, _, _ | .destroys, _, _ => True
  | .posts sem, s, _ => sem = p.semId ∨ sem = s.pipes.allPipesSem
  | .puts r ch, s, _ => ch = -1 ∧ p.fileDescriptors.2 ≠ STDOUT_PIPENO ∧ before.1.find p.fileDescriptors.2 = some r ∧
      s.pipes.pipes = before.1.pipes ∧ ∀ sem, sem ≠ p.semId → s.sems.find sem = before.2.find sem
  | _, _, _ => False

theorem reaps_of_retires (retired : retires p before deed s s') : deed.reaps := by
  cases deed with
  | puts r ch => exact retired.1
  | _ => first | exact retired | trivial

/-- The process `c` is dead, and `freeProcess` has come this far with it. -/
structure Retiring (c : Ref) (p : Pcb) (since s : State) : Prop where
  working : Working s c
  block : s.procs.pcbs c = some p
  dead : p.state = .terminated
  start : Working since c
  chain : Chain (retires p (since.pipes, since.sems)) c since s

theorem chain_reaps (chain : Chain (retires p before) c since s) : Chain (fun deed _ _ => deed.reaps) c since s := by
  refine ReflTransGen.mono (fun s s' last => ?_) _ _ chain
  obtain ⟨deed, retired, does⟩ := last
  exact ⟨deed, reaps_of_retires retired, does⟩

theorem Retiring.dying (retiring : Retiring c p since s) : Dying c p since s :=
  ⟨retiring.working, retiring.block, retiring.dead, retiring.start, chain_reaps retiring.chain⟩

theorem Retiring.does (retiring : Retiring c p since s) (does : Does s c deed s')
    (retired : retires p (since.pipes, since.sems) deed s s') : Retiring c p since s' := by
  have dying := retiring.dying.does does (reaps_of_retires retired)
  exact ⟨dying.working, dying.block, dying.dead, dying.start, retiring.chain.tail ⟨deed, retired, does⟩⟩

/-- So far the pipes are as they were, and of the semaphores all but its own. -/
structure Untouched (p : Pcb) (since s : State) : Prop where
  pipes : s.pipes = since.pipes
  sems : ∀ sem, sem ≠ p.semId → s.sems.find sem = since.sems.find sem

theorem Posts.find_other (sound : Sound s) (posts : Posts s posted s') (apart : sem ≠ posted) :
    s'.sems.find sem = s.sems.find sem := by
  rcases posts with ⟨-, h, grown, rfl⟩ | ⟨x, found, posted⟩
  · rfl
  · cases posted with
    | handed queued inVain resumed left grown => exact Sems.find_modify_other sound.sems (fun _ => rfl) found apart
    | raised inVain grown => exact Sems.find_modify_other sound.sems (fun _ => rfl) found apart

theorem retiring_freeArguments [Lenient bad] (retiring : Retiring c p since s) (untouched : Untouched p since s) :
    Meets bad (freeArguments p) (fun _ s' => Retiring c p since s' ∧ Untouched p since s') s := by
  have finish : ∀ {s}, Retiring c p since s → Untouched p since s → ∀ argv : Option Ref,
      Meets bad (do argv.forM free; discard <| semClose p.semId) (fun _ s' => Retiring c p since s' ∧
        Untouched p since s') s := by
    intro s retiring untouched argv
    rw [meets_bind]
    refine (freeOption_spec argv).mono ?_
    rintro _ s' ⟨h, grown, rfl⟩
    have looked := retiring.does (.looked grown) trivial
    rw [meets_discard]
    apply (semClose_spec looked.working.sound.grants looked.working.sound.sems p.semId).mono
    rintro _ s' ⟨h', grown', rfl⟩
    refine ⟨looked.does (.destroyed looked.block looked.dead grown') trivial, untouched.pipes, fun sem apart => ?_⟩
    exact (find_close_other s.sems apart).trans (untouched.sems sem apart)
  unfold freeArguments
  rw [meets_bind]
  refine meets_readArguments retiring.working.table retiring.block fun ⟨argv, strings⟩ => ?_
  dsimp only
  rw [meets_bind]
  apply (freeStrings_spec strings).mono
  rintro _ s₁ ⟨h₁, grown₁, rfl⟩
  have looked := retiring.does (.looked grown₁) trivial
  rw [meets_bind]
  apply (semValue_spec looked.working.sound.grants p.semId).mono
  rintro value s₂ ⟨rfl, h₂, grown₂, rfl⟩
  have counted := looked.does (.looked grown₂) trivial
  split
  · rw [meets_bind, meets_discard]
    obtain ⟨q, attended⟩ := counted.working.attended
    apply (semPost_spec counted.working.sound.grants counted.working.sound.sems attended p.semId).mono
    intro _ s₃ posts
    refine finish (counted.does (.posted posts) (.inl rfl)) ⟨posts.pipes.trans untouched.pipes,
      fun sem apart => ?_⟩ argv
    exact (posts.find_other counted.working.sound apart).trans (untouched.sems sem apart)
  · exact finish counted ⟨untouched.pipes, untouched.sems⟩ argv

theorem retiring_pipePutchar [Lenient bad] (retiring : Retiring c p since s) (untouched : Untouched p since s)
    (output : p.fileDescriptors.2 ≠ STDOUT_PIPENO) :
    Ends bad (pipePutchar p.fileDescriptors.2 (-1)) (fun _ => Retiring c p since) s := by
  have sound := retiring.working.sound
  unfold pipePutchar
  apply Ends.bind (.lift (getPipe_spec sound.grants sound.pipes p.fileDescriptors.2))
  rintro found s₁ ⟨rfl, h, grown, rfl⟩
  have cached := retiring.does (.cached p.fileDescriptors.2 grown) trivial
  obtain absent | ⟨r, found⟩ := (s.pipes.find p.fileDescriptors.2).eq_none_or_eq_some
  · rw [absent]
    exact .pure cached
  · rw [found]
    obtain ⟨-, q, here, isOpen, -⟩ := pipe_find_some sound.pipes found
    have written : Ends bad (writeToPipe r (-1)) (fun _ => Retiring c p since)
        { s with heap := h, pipes := s.pipes.cache p.fileDescriptors.2 } := by
      unfold writeToPipe
      have read : Meets bad (readPipe r) (fun q' s' => q' = q ∧
        s' = { s with heap := h, pipes := s.pipes.cache p.fileDescriptors.2 })
          { s with heap := h, pipes := s.pipes.cache p.fileDescriptors.2 } :=
          (meets_readPipe (by exact here) isOpen).mpr ⟨rfl, rfl⟩
      apply Ends.bind (.lift read)
      rintro q _ ⟨rfl, rfl⟩
      apply Ends.bind (.discard (semWait_dying cached.dying q.writeSemId))
      intro _ s₂ passed
      have working₂ := cached.working.passed passed
      obtain ⟨q', attended⟩ := working₂.attended
      apply Ends.lift
      apply (writeBuffer_spec working₂.sound attended (by rw [passed.pipes]; exact here) isOpen (-1)).mono
      intro _ s₃ posts
      have does : Does { s with heap := h, pipes := s.pipes.cache p.fileDescriptors.2 } c (.puts r (-1)) s₃ :=
        .put here isOpen passed posts
      refine cached.does does ⟨rfl, output, ?_, ?_, untouched.sems⟩
      · rw [← untouched.pipes]
        exact found
      · rw [← untouched.pipes]
        rfl
    exact written.bind fun _ _ after => .pure after

theorem retiring_pipeClose [Lenient bad] (retiring : Retiring c p since s) (pipeId : Int) :
    Ends bad (pipeClose pipeId) (fun _ => Retiring c p since) s := by
  have sound := retiring.working.sound
  unfold pipeClose
  apply Ends.bind (.lift (getPipe_spec sound.grants sound.pipes pipeId))
  rintro found s₁ ⟨rfl, h, grown, rfl⟩
  have cached := retiring.does (.cached pipeId grown) trivial
  obtain absent | ⟨r, found⟩ := (s.pipes.find pipeId).eq_none_or_eq_some
  · rw [absent]
    have does : Does { s with heap := h, pipes := s.pipes.cache pipeId } c (.closes pipeId) _ := .missed absent
    exact .lift (cached.does does trivial)
  · rw [found]
    obtain ⟨-, q, here, isOpen, same⟩ := pipe_find_some sound.pipes found
    apply Ends.bind_get
    apply Ends.bind (.discard (semWait_dying cached.dying _))
    intro _ s₂ passed
    have past := cached.does (.passed passed) trivial
    obtain ⟨q', attended⟩ := past.working.attended
    have here₂ : s₂.pipes.pipes r = some q := by
      rw [passed.pipes]
      exact here
    apply Ends.lift
    apply (pipeCloseEntered_spec past.working.sound attended here₂ isOpen pipeId).mono
    rintro _ s₄ ⟨s₃, closed, posts⟩
    have does : Does s₂ c (.closes pipeId) s₃ := .closed here₂ isOpen same closed
    have left := past.does does trivial
    have mutex : s₃.pipes.allPipesSem = s₂.pipes.allPipesSem := (does.later past.working).pipes.mutex
    exact left.does (.posted posts) (.inr mutex.symm)

theorem retiring_freePipes [Lenient bad] (retiring : Retiring c p since s) (untouched : Untouched p since s) :
    Ends bad (freePipes p.fileDescriptors) (fun _ => Retiring c p since) s := by
  have input : ∀ s', Retiring c p since s' → Ends bad (do
      if p.fileDescriptors.1 ≠ STDIN_PIPENO then discard <| pipeClose p.fileDescriptors.1) (fun _ =>
        Retiring c p since) s' := by
    intro s' retiring'
    split
    · exact (retiring_pipeClose retiring' _).discard
    · exact .pure retiring'
  unfold freePipes
  dsimp only
  split
  · apply (retiring_pipePutchar retiring untouched (by assumption)).discard.bind
    intro _ s' retiring'
    exact (retiring_pipeClose retiring' _).discard.bind fun _ => input
  · exact input s retiring

/-- What `freeProcess` does for the dead process `c`, up to its blocks. -/
inductive Retired (s : State) (c : Ref) (p : Pcb) : State → Prop
  | intro (block : s.procs.pcbs c = some p) (dead : p.state = .terminated)
    (chain : Chain (retires p (s.pipes, s.sems)) c s s') :
    Retired s c p { s' with history := .reaped p (s.pipes, s.sems) (s'.pipes, s'.sems) :: s'.history }

theorem Retired.reaped (retired : Retired s c p s') : Reaped s c p s' := by
  obtain ⟨block, dead, chain⟩ := retired
  exact .intro block dead (chain_reaps chain)

theorem freeProcess_retires [Lenient bad] (working : Working s c) (block : s.procs.pcbs c = some p)
    (dead : p.state = .terminated) :
    Ends bad (freeProcess c p) (fun _ s' => ∃ s₁ h, Retired s c p s₁ ∧ s₁.heap.Grown h ∧ s' = { s₁ with
      heap := h
      procs := { s₁.procs with
        pidCounter := s₁.procs.pidCounter - if p.pid = s₁.procs.pidCounter - 1 then 1 else 0
        pcbs := Function.update s₁.procs.pcbs c none } }) s := by
  have retiring : Retiring c p s s := ⟨working, block, dead, working, .refl⟩
  unfold freeProcess
  apply Ends.bind_get
  apply Ends.bind (.lift (retiring_freeArguments retiring ⟨rfl, fun _ _ => rfl⟩))
  rintro _ s₁ ⟨retiring₁, untouched⟩
  apply (retiring_freePipes retiring₁ untouched).bind
  intro _ s₂ retiring₂
  apply Ends.bind_get
  have logged : Meets bad (log _) (fun _ => Retired s c p) s₂ := meets_log.mpr (.intro block dead retiring₂.chain)
  apply Ends.bind (.lift logged)
  intro _ s₃ retired
  have working₃ := retired.reaped.working working
  have grown : s₃.heap.Grown ((s₃.heap.release p.stack).release c) :=
    (Heap.grown_release _ _).trans (Heap.grown_release _ _)
  apply Ends.lift
  unfold freeBlocks
  rw [meets_bind, meets_currentPcb working₃.running (retired.reaped.block working)]
  exact ⟨s₃, _, retired, grown, rfl⟩

/-! ## The scheduler -/

/-- What the turning of the queue and the end of a process keep. -/
structure Lasts (J : State → Prop) : Prop where
  turned : ∀ {s h} queue currentProcessPCB currentCycles, s.heap.Grown h → J s →
    J { s with heap := h, procs := { s.procs with queue, currentProcessPCB, currentCycles } }
  retired : ∀ {s c p s₁ h} queue currentProcessPCB, Working s c → Retired s c p s₁ → s₁.heap.Grown h → J s →
    J { s₁ with heap := h, procs := { s₁.procs with
      pidCounter := s₁.procs.pidCounter - if p.pid = s₁.procs.pidCounter - 1 then 1 else 0
      queue, currentProcessPCB, pcbs := Function.update s₁.procs.pcbs c none } }

variable {J : State → Prop}

/-- Without a process to look at the search fails. -/
theorem scheduleLoop_nobody (fuel : Nat) (nobody : s.procs.currentProcessPCB = none) {post : Unit → State → Prop} :
    Meets (fun _ => True) (scheduleLoop fuel) post s := by
  cases fuel with
  | zero => trivial
  | succ fuel =>
    unfold scheduleLoop currentPcb
    simp [nobody, deref]

theorem scheduleLoop_lasts (lasts : Lasts J) (fuel : Nat) {s : State} (working : Working s c)
    (notIdle : s.procs.idleProcessPCB ≠ some c) (start : J s) :
    Meets (fun _ => True) (scheduleLoop fuel) (fun _ => J) s := by
  induction fuel generalizing s c with
  | zero => trivial
  | succ fuel ih =>
    obtain ⟨p, attended⟩ := working.attended
    have others := others_of_running working.running notIdle
    unfold scheduleLoop
    rw [meets_bind, meets_currentPcb attended.running attended.block, meets_ite]
    refine ⟨fun _ => start, fun asleep => ?_⟩
    by_cases dead : p.state = .terminated
    · rw [if_pos dead, meets_bind]
      apply (Program.Meets.complete (freeProcess_retires working attended.block dead s)).mono
      rintro _ _ ⟨s₁, h, retired, grown, rfl⟩
      have spared := (retired.reaped.wakes working).spared
      simp only [meets_bind, meets_get]
      cases queued : s.procs.queue with
      | nil =>
        rw [spared.queue, queued]
        exact scheduleLoop_nobody fuel rfl
      | cons node rest =>
        apply (dequeue_spec (by rw [spared.queue, queued]; rfl)).mono
        rintro ⟨queue, _⟩ _ ⟨listed, rfl, h', grown', rfl⟩
        have apart : some node.value ≠ s.procs.idleProcessPCB := by
          refine (working.table.other (List.mem_append_left _ ?_)).1
          rw [queued]
          exact List.mem_cons_self ..
        have now : ∀ queue : Queue Ref, Procs.others { s₁.procs with queue, currentProcessPCB := some node.value } =
            values queue ++ [node.value] := fun _ => others_of_running rfl (by rw [spared.idle]; exact apart.symm)
        have shift : Shift s { s₁ with heap := h', procs := { s₁.procs with
            pidCounter := s₁.procs.pidCounter - if p.pid = s₁.procs.pidCounter - 1 then 1 else 0
            queue, currentProcessPCB := some node.value, pcbs := Function.update s₁.procs.pcbs c none } } := by
          refine .reaped working retired.reaped (grown.trans grown') ?_
          rw [now, listed, spared.others, others, queued]
          have last : ((node.value :: values rest) ++ [c]).Perm (c :: (node.value :: values rest)) :=
            List.perm_append_singleton _ _
          exact last.trans (.cons c (List.perm_append_singleton _ _).symm)
        have ordered := shift.ordered working.ordered
        refine ih ⟨ordered.sound, ordered.table, rfl⟩ ?_
          (lasts.retired queue _ working retired (grown.trans grown') start)
        rw [shift.outlives.idle]
        exact apart.symm
    · rw [if_neg dead]
      simp only [meets_bind, meets_get]
      apply (enqueue_spec working.sound.grants c).mono
      rintro queue _ ⟨requeued, h, grown, rfl⟩
      simp only [meets_modifyProcs]
      obtain ⟨next, rest, split⟩ : ∃ next rest, values s.procs.queue ++ [c] = next :: rest := by
        cases values s.procs.queue with
        | nil => exact ⟨c, [], rfl⟩
        | cons next rest => exact ⟨next, rest ++ [c], rfl⟩
      apply (dequeue_spec (by rw [requeued, split])).mono
      rintro ⟨queue', _⟩ _ ⟨listed, rfl, h', grown', rfl⟩
      have apart : some next ≠ s.procs.idleProcessPCB := by
        refine (working.table.other ?_).1
        rw [others, split]
        exact List.mem_cons_self ..
      have now : ∀ queue : Queue Ref, Procs.others { s.procs with queue, currentProcessPCB := some next } =
          values queue ++ [next] := fun _ => others_of_running rfl apart.symm
      have shift :
        Shift s { s with heap := h', procs := { s.procs with queue := queue', currentProcessPCB := some next } } := by
        refine .rotated (grown.trans grown') ?_
        rw [now, others, split, listed]
        exact List.perm_append_singleton next rest
      have ordered := shift.ordered working.ordered
      have turned :
        J { s with heap := h', procs := { s.procs with queue := queue', currentProcessPCB := some next } } :=
        lasts.turned queue' (some next) s.procs.currentCycles (grown.trans grown') start
      exact ih ⟨ordered.sound, ordered.table, rfl⟩ apart.symm turned

theorem choose_lasts (lasts : Lasts J) (ordered : Ordered s) (grown : s.heap.Grown h) {queue : Queue Ref}
    (queued : values queue = s.procs.others) (start : J s) :
    Meets (fun _ => True) scheduleTask.choose (fun _ => J) { s with heap := h, procs := { s.procs with queue } } := by
  have table := ordered.table
  -- The one that runs next gets its cycles.
  have runs : ∀ s, J s → Meets (fun _ => True) currentPcb (fun current s' =>
      J { s' with procs := { s'.procs with currentCycles := current.2.priority } }) s := by
    intro s here
    cases running : s.procs.currentProcessPCB with
    | none =>
      unfold currentPcb
      simp [running, deref]
    | some c =>
      cases block : s.procs.pcbs c with
      | none =>
        unfold currentPcb
        simp [running, block, lookup]
      | some p =>
        rw [meets_currentPcb running block]
        exact lasts.turned s.procs.queue s.procs.currentProcessPCB p.priority (.refl _) here
  unfold scheduleTask.choose
  rw [meets_bind, meets_get]
  by_cases some : s.procs.readyCount > 0
  · rw [if_pos some]
    simp only [meets_bind]
    cases all : s.procs.others with
    | nil =>
      rw [table.counted, all] at some
      exact absurd some (Int.lt_irrefl 0)
    | cons first rest =>
      have apart := (table.other (by rw [all]; exact List.mem_cons_self ..)).1
      apply (dequeue_spec (by rw [queued, all])).mono
      rintro ⟨queue', _⟩ _ ⟨listed, rfl, h', grown', rfl⟩
      simp only [meets_modifyProcs, State.withHeap]
      have shift : Shift s { s with
          heap := h', procs := { s.procs with queue := queue', currentProcessPCB := Option.some first } } := by
        refine .rotated (grown.trans grown') ?_
        have turned : Procs.others { s.procs with queue := queue', currentProcessPCB := Option.some first } =
            values queue' ++ [first] := others_of_running rfl (Ne.symm apart)
        rw [turned, show values queue' = rest from listed, all]
        exact List.perm_append_singleton first rest
      have ordered' := shift.ordered ordered
      have turned :
        J { s with heap := h', procs := { s.procs with queue := queue', currentProcessPCB := Option.some first } } :=
        lasts.turned queue' (Option.some first) s.procs.currentCycles (grown.trans grown') start
      exact (scheduleLoop_lasts lasts _ ⟨ordered'.sound, ordered'.table, rfl⟩ (Ne.symm apart) turned).mono fun _ => runs
  · rw [if_neg some]
    simp only [meets_bind, meets_modifyProcs]
    have rested :
      J { s with heap := h, procs := { s.procs with queue, currentProcessPCB := s.procs.idleProcessPCB } } :=
      lasts.turned queue s.procs.idleProcessPCB s.procs.currentCycles grown start
    exact runs _ rested

/-- **Whatever the turning of the queue and the end of a process keep, `scheduleTask` keeps.** -/
theorem scheduleTask_lasts (lasts : Lasts J) (ordered : Ordered s) (start : J s) :
    Meets (fun _ => True) scheduleTask (fun _ => J) s := by
  have table := ordered.table
  unfold scheduleTask
  rw [meets_bind, meets_get]
  cases running : s.procs.currentProcessPCB with
  | none =>
    have queued : values s.procs.queue = s.procs.others := by
      unfold Procs.others
      rw [running]
      simp
    exact choose_lasts lasts ordered (.refl _) queued start
  | some c =>
    obtain ⟨p, attended⟩ := Working.attended ⟨ordered.sound, ordered.table, running⟩
    obtain ⟨r, q, idle, block, -⟩ := table.idle
    simp only [meets_bind, meets_readPcb, attended.block, meets_lookup_some, meets_get]
    by_cases keeps : p.state = .ready ∧ s.procs.currentCycles > 0
    · rw [if_pos keeps]
      exact lasts.turned s.procs.queue s.procs.currentProcessPCB (s.procs.currentCycles - 1) (.refl _) start
    · rw [if_neg keeps]
      simp only [meets_bind, meets_get, idle, meets_deref_some, meets_readPcb, block, meets_lookup_some]
      by_cases same : p.pid = q.pid
      · have here := table.unique c r p q attended.block block same
        subst here
        have queued : values s.procs.queue = s.procs.others := by
          unfold Procs.others
          rw [running, idle]
          simp
        simp only [same, ne_eq, not_true, if_false]
        have chosen := choose_lasts lasts ordered (.refl _) queued start
        rw [← idle]
        exact chosen
      · have notIdle : s.procs.idleProcessPCB ≠ some c := by
          intro isIdle
          cases idle.symm.trans isIdle
          cases block.symm.trans attended.block
          exact same rfl
        simp only [ne_eq, same, not_false_eq_true, if_true, meets_bind, meets_get]
        apply (enqueue_spec ordered.sound.grants c).mono
        rintro queue _ ⟨listed, h, grown, rfl⟩
        rw [meets_modifyProcs]
        exact choose_lasts lasts ordered grown (by rw [listed, others_of_running running notIdle]) start

end QuesOs.Kernel
