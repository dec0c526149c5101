import QuesOs.ProcessTable

/-! What the kernel's actions do to the process table, in steps. Every action
leaves the semaphores and the pipes in order; what it does to the processes is
a chain of steps, and most actions at most wake some. -/
namespace QuesOs.Kernel
open Resumption Relation

variable {bad : Fault → Prop} {s : State}

abbrev Wakes : State → State → Prop := ReflTransGen Wake
abbrev Lives : State → State → Prop := ReflTransGen Life

theorem Wakes.lives (wakes : Wakes s s') : Lives s s' := ReflTransGen.mono (fun _ _ => Life.wake) _ _ wakes

theorem Lives.table (table : s.procs.Table s.heap.requests) (lives : Lives s s') : s'.procs.Table s'.heap.requests := by
  induction lives with
  | refl => exact table
  | tail _ life ih => exact life.table ih

/-- What no action of a process touches. -/
structure State.Framed (s s' : State) : Prop where
  current : s'.procs.currentProcessPCB = s.procs.currentProcessPCB
  idle : s'.procs.idleProcessPCB = s.procs.idleProcessPCB
  init : s'.procs.initPid = s.procs.initPid
  userland : s'.procs.userlandPid = s.procs.userlandPid
  grown : s.heap.Grown s'.heap

theorem Life.framed (life : Life s s') : s.Framed s' := by
  cases life with
  | wake wake =>
    cases wake with
    | quiet grown deaths procs => exact ⟨by rw [procs], by rw [procs], by rw [procs], by rw [procs], grown⟩
    | woken grown deaths listed block notExited notTerminated procs =>
      constructor <;> simp only [procs, Procs.moveState, grown]
  | moved grown deaths listed block notExited notTerminated alive procs =>
    constructor <;> simp only [procs, Procs.moveState, grown]
  | terminated grown queued block notTerminated reparented block' procs deaths =>
    obtain ⟨ppid, rfl⟩ := reparented.relabelled
    constructor <;> simp only [procs, Procs.moveState, grown]
  | disowned grown deaths block dead procs => constructor <;> simp only [procs, grown]
  | tuned grown deaths priority procs => exact ⟨by rw [procs], by rw [procs], by rw [procs], by rw [procs], grown⟩
  | allocated grown deaths running block low high pid ppid ready procs => constructor <;> simp only [procs, grown]
  | filled grown deaths was procs => constructor <;> simp only [procs, grown]
  | published grown deaths running block alive was listed parent procs => constructor <;> simp only [procs, grown]

theorem Lives.framed (lives : Lives s s') : s.Framed s' := by
  induction lives with
  | refl => exact ⟨rfl, rfl, rfl, rfl, .refl _⟩
  | tail _ life ih =>
    have last := life.framed
    exact ⟨last.current.trans ih.current, last.idle.trans ih.idle, last.init.trans ih.init,
      last.userland.trans ih.userland, ih.grown.trans last.grown⟩

/-- Between the two, blocked processes may have become ready. -/
structure Procs.Spared (procs procs' : Procs) : Prop where
  pidCounter : procs'.pidCounter = procs.pidCounter
  queue : procs'.queue = procs.queue
  newProcess : procs'.newProcess = procs.newProcess
  cycles : procs'.currentCycles = procs.currentCycles
  idle : procs'.idleProcessPCB = procs.idleProcessPCB
  current : procs'.currentProcessPCB = procs.currentProcessPCB
  userland : procs'.userlandPid = procs.userlandPid
  init : procs'.initPid = procs.initPid
  pcbs : ∀ r, procs'.pcbs r = procs.pcbs r ∨
    ∃ p, procs.pcbs r = some p ∧ p.state = .blocked ∧ procs'.pcbs r = some { p with state := .ready }

theorem Wake.spared (wake : Wake s s') : s.procs.Spared s'.procs := by
  cases wake with
  | quiet grown deaths procs =>
    rw [procs]
    exact ⟨rfl, rfl, rfl, rfl, rfl, rfl, rfl, rfl, fun _ => .inl rfl⟩
  | @woken r p grown deaths listed block notExited notTerminated procs =>
    rw [procs]
    refine ⟨rfl, rfl, rfl, rfl, rfl, rfl, rfl, rfl, fun r' => ?_⟩
    by_cases here : r' = r
    · subst here
      simp only [Procs.moveState, Function.update_self, block]
      cases state : p.state with
      | ready => exact .inl (by rw [← state])
      | blocked => exact .inr ⟨p, rfl, state, rfl⟩
      | exited => exact (notExited state).elim
      | terminated => exact (notTerminated state).elim
    · exact .inl (Function.update_of_ne here _ _)

theorem Wakes.spared (wakes : Wakes s s') : s.procs.Spared s'.procs := by
  induction wakes with
  | refl => exact ⟨rfl, rfl, rfl, rfl, rfl, rfl, rfl, rfl, fun _ => .inl rfl⟩
  | tail _ wake ih =>
    have last := wake.spared
    refine ⟨last.pidCounter.trans ih.pidCounter, last.queue.trans ih.queue, last.newProcess.trans ih.newProcess,
      last.cycles.trans ih.cycles, last.idle.trans ih.idle, last.current.trans ih.current,
      last.userland.trans ih.userland, last.init.trans ih.init, fun r => ?_⟩
    rcases last.pcbs r with same | ⟨p, block, blocked, now⟩
    · rw [same]
      exact ih.pcbs r
    · rcases ih.pcbs r with same | ⟨p', block', blocked', then'⟩
      · exact .inr ⟨p, same ▸ block, blocked, now⟩
      · rw [then', Option.some.injEq] at block
        rw [← block] at blocked
        cases blocked

theorem Procs.Spared.others {procs procs' : Procs} (spared : procs.Spared procs') : procs'.others = procs.others := by
  unfold Procs.others
  rw [spared.queue, spared.current, spared.idle]

/-- A process that is ready stays so, and one that is dead too. -/
theorem Procs.Spared.kept {procs procs' : Procs} (spared : procs.Spared procs') (block : procs.pcbs r = some p)
    (notBlocked : p.state ≠ .blocked) : procs'.pcbs r = some p := by
  rcases spared.pcbs r with same | ⟨q, block', blocked, -⟩
  · rw [same, block]
  · cases block.symm.trans block'
    exact (notBlocked blocked).elim

/-- The kernel is in order while the process `c` is the current one. -/
structure Working (s : State) (c : Ref) : Prop where
  sound : Sound s
  table : s.procs.Table s.heap.requests
  running : s.procs.currentProcessPCB = some c

theorem Working.lives (working : Working s c) (sound : Sound s') (lives : Lives s s') : Working s' c :=
  ⟨sound, lives.table working.table, lives.framed.current.trans working.running⟩

theorem Working.listed (working : Working s c) (notIdle : s.procs.idleProcessPCB ≠ some c) : c ∈ s.procs.others := by
  unfold Procs.others
  rw [working.running]
  simp [Ne.symm notIdle]

theorem Working.attended (working : Working s c) : ∃ p, s.procs.Attended c p := by
  have block : s.procs.pcbs c ≠ none := by
    refine (working.table.listed c).mpr ?_
    by_cases idle : s.procs.idleProcessPCB = some c
    · exact .inl idle.symm
    · exact .inr (working.listed idle)
  obtain ⟨p, block⟩ := Option.ne_none_iff_exists'.mp block
  refine ⟨p, working.running, block, fun r queued => ?_, fun r q block => (working.table.pids r q block).1⟩
  exact (working.table.listed r).mpr (.inr (List.mem_append_left _ queued))

/-- What `changeState` finds is the idle process only when that is the current one. -/
theorem Working.target (working : Working s c) (found : s.procs.target pid = some r) :
    r ∈ s.procs.others ∨ s.procs.idleProcessPCB = some r ∧ r = c := by
  obtain ⟨p, attended⟩ := working.attended
  obtain ⟨rfl | queued, -⟩ := target_some attended found
  · by_cases idle : s.procs.idleProcessPCB = some r
    · exact .inr ⟨idle, rfl⟩
    · exact .inl (working.listed idle)
  · exact .inl (List.mem_append_left _ queued)

/-- The idle process is ready, in the background. -/
theorem idle_ready {procs : Procs} (table : procs.Table n) (idle : procs.idleProcessPCB = some r)
    (block : procs.pcbs r = some p) : p.state = .ready ∧ p.foreground = 0 := by
  obtain ⟨r', p', isIdle, block', ready, background, -⟩ := table.idle
  cases isIdle.symm.trans idle
  cases block.symm.trans block'
  exact ⟨ready, background⟩

theorem deaths_skipped (sem : Int) (pids : List Int) (history : List Event) :
    ((pids.map (Event.skipped sem)).reverse ++ history).filter Event.isDeath = history.filter Event.isDeath := by
  rw [List.filter_append, List.filter_eq_nil_iff.mpr, List.nil_append]
  intro event member
  obtain ⟨pid, -, rfl⟩ := List.mem_map.mp (List.mem_reverse.mp member)
  simp [Event.isDeath]

/-- A post wakes at most one process. -/
theorem Posts.wakes (working : Working s c) (posts : Posts s semId s') : Wakes s s' := by
  rcases posts with ⟨-, h, grown, rfl⟩ | ⟨sem, found, posted⟩
  · exact .single (.quiet grown rfl rfl)
  · cases posted with
    | @handed skipped pid rest procs blockedPids h queued inVain resumed left grown =>
      obtain ⟨r, p, target, block, notExited, notTerminated, rfl⟩ := moved_eq_some.mp resumed
      have woken : Wake s { s with heap := h, procs := s.procs.moveState r p .ready } := by
        rcases working.target target with listed | ⟨idle, -⟩
        · exact .woken grown rfl listed block notExited notTerminated rfl
        · -- resuming the idle process changes nothing
          have ready := (idle_ready working.table idle block).1
          refine .quiet grown rfl ?_
          have same : Function.update s.procs.pcbs r (some { p with state := .ready }) = s.procs.pcbs := by
            rw [← ready, ← block, Function.update_eq_self]
          simp [Procs.moveState, same, ready]
      refine .tail (.single woken) (.quiet (.refl _) ?_ rfl)
      exact deaths_skipped sem.id skipped s.history
    | raised inVain grown =>
      exact .single (.quiet grown (deaths_skipped sem.id sem.pids s.history) rfl)

/-! ## Reparenting -/

@[simp] theorem meets_modifyPcb {process : Ref} {f : Pcb → Pcb} {post : Unit → State → Prop} :
    Meets bad (modifyPcb process f) post s ↔ post () { s with procs := { s.procs with
      pcbs := Function.update s.procs.pcbs process ((s.procs.pcbs process).map f) } } := Iff.rfl

/-- One process after the other. -/
theorem adoptAmong_cons (procs : Procs) (pid : Int) (r : Ref) (rest : List Ref) :
    (procs.adoptAmong pid [r]).adoptAmong pid rest = procs.adoptAmong pid (r :: rest) := by
  simp only [Procs.adoptAmong, Option.map_map, Procs.mk.injEq, true_and, and_true]
  funext x
  cases procs.pcbs x with
  | none => rfl
  | some p =>
    simp only [Option.map_some, Function.comp_apply, List.mem_cons, Option.some.injEq]
    by_cases here : x = r
    · by_cases child : p.ppid = pid ∧ p.state ≠ .terminated
      · simp [here, child]
      · simp [here, child]
    · simp [here]

/-- What one look at a process does. -/
theorem adopt_one (procs : Procs) (pid : Int) (block : procs.pcbs r = some p) :
    procs.adoptAmong pid [r] = if p.ppid = pid ∧ p.state ≠ .terminated then { procs with
      pcbs := Function.update procs.pcbs r ((procs.pcbs r).map fun p => { p with ppid := procs.initPid }) }
    else procs := by
  have others : ∀ x, x ≠ r → (procs.pcbs x).map (fun p => { p with
      ppid := if x ∈ [r] ∧ p.ppid = pid ∧ p.state ≠ .terminated then procs.initPid else p.ppid }) = procs.pcbs x := by
    intro x other
    cases procs.pcbs x <;> simp [other]
  by_cases child : p.ppid = pid ∧ p.state ≠ .terminated
  · rw [if_pos child]
    simp only [Procs.adoptAmong, Procs.mk.injEq, true_and, and_true]
    funext x
    by_cases here : x = r
    · subst here
      simp [block, child]
    · rw [Function.update_of_ne here]
      exact others x here
  · rw [if_neg child]
    obtain ⟨⟩ := procs
    simp only [Procs.adoptAmong, Procs.mk.injEq, true_and, and_true] at others block ⊢
    funext x
    by_cases here : x = r
    · subst here
      simp [block, child]
    · exact others x here

theorem sees_adopted (procs : Procs) (pid ppid : Int) (among rest : List Ref) :
    (procs.adoptAmong pid among).seesAmong ppid rest ↔ procs.seesAmong ppid rest := by
  unfold Procs.seesAmong Procs.adoptAmong
  simp

theorem sees_cons (procs : Procs) (ppid : Int) (block : procs.pcbs r = some p) (rest : List Ref) :
    procs.seesAmong ppid (r :: rest) ↔ (p.pid = ppid ∧ p.state ≠ .terminated ∧ p.state ≠ .exited) ∨
      procs.seesAmong ppid rest := by
  unfold Procs.seesAmong
  simp [block]

/-- The parent is seen here, if the process is not its own parent. -/
def Pcb.raises (q : Pcb) (ppid : Int) : Bool := q.pid = ppid && q.state ≠ .terminated && q.state ≠ .exited

/-- One round of `sendTaskToInit`'s loop, then the next one unless there is none. -/
theorem meets_sendTaskToInitLoop {pid : Int} (killed : s.procs.pcbs r = some p) (block : s.procs.pcbs process = some q)
    {it : List Ref} {hasParent : Bool} {post : Bool → State → Prop} :
    Meets bad (sendTaskToInitLoop pid (some r) process it hasParent) post s ↔
      Meets bad (match it with
        | next :: after :: rest => sendTaskToInitLoop pid (some r) next (after :: rest) (hasParent || q.raises p.ppid)
        | _ => pure (hasParent || q.raises p.ppid)) post { s with procs := s.procs.adoptAmong pid [process] } := by
  rw [adopt_one s.procs pid block]
  conv_lhs => unfold sendTaskToInitLoop
  simp only [meets_bind, meets_deref_some, meets_readPcb, killed, block, meets_lookup_some, meets_ite, meets_get,
    meets_modifyPcb]
  rcases it with _ | ⟨next, _ | ⟨after, rest⟩⟩
  · by_cases child : q.ppid = pid ∧ q.state ≠ .terminated <;> simp [child, Pcb.raises]
  · by_cases child : q.ppid = pid ∧ q.state ≠ .terminated <;> simp [child, Pcb.raises]
  · by_cases child : q.ppid = pid ∧ q.state ≠ .terminated <;> simp [child, Pcb.raises]

/-- The loop of `sendTaskToInit`. Whether the parent was seen is only told of a
process that is not its own parent. -/
theorem sendTaskToInitLoop_spec {s : State} {p : Pcb} {pid : Int} (killed : s.procs.pcbs r = some p)
    (process : Ref) (it : List Ref)
    (live : ∀ x ∈ process :: it, s.procs.pcbs x ≠ none) (hasParent : Bool) :
    Meets bad (sendTaskToInitLoop pid (some r) process it hasParent) (fun result s' =>
      s' = { s with procs := s.procs.adoptAmong pid (process :: it.dropLast) } ∧
      (p.ppid ≠ pid → (result = true ↔ hasParent = true ∨ s.procs.seesAmong p.ppid (process :: it.dropLast)))) s := by
  obtain ⟨q, block⟩ := Option.ne_none_iff_exists'.mp (live process (List.mem_cons_self ..))
  have raises : q.raises p.ppid = true ↔ q.pid = p.ppid ∧ q.state ≠ .terminated ∧ q.state ≠ .exited := by
    simp [Pcb.raises, and_assoc]
  have none : ¬s.procs.seesAmong p.ppid [] := by simp [Procs.seesAmong]
  have ends : (p.ppid ≠ pid → ((hasParent || q.raises p.ppid) = true ↔
      hasParent = true ∨ s.procs.seesAmong p.ppid [process])) := fun _ => by
    rw [sees_cons s.procs p.ppid block, Bool.or_eq_true, raises]
    simp only [none, or_false]
  rw [meets_sendTaskToInitLoop killed block]
  match it with
  | [] => exact ⟨rfl, ends⟩
  | [_] => exact ⟨rfl, ends⟩
  | next :: after :: rest =>
    have killed' : (s.procs.adoptAmong pid [process]).pcbs r = some { p with
        ppid := if r ∈ [process] ∧ p.ppid = pid ∧ p.state ≠ .terminated then s.procs.initPid else p.ppid } := by
      simp [Procs.adoptAmong, killed]
    have live' : ∀ x ∈ next :: after :: rest, (s.procs.adoptAmong pid [process]).pcbs x ≠ Option.none := by
      intro x member
      simpa [Procs.adoptAmong] using live x (List.mem_cons_of_mem _ member)
    refine (sendTaskToInitLoop_spec (by exact killed') next (after :: rest) (by exact live') _).mono ?_
    rintro result s' ⟨rfl, seen⟩
    refine ⟨?_, fun notOwn => ?_⟩
    · simp only [adoptAmong_cons]
      rfl
    · have same : (if r ∈ [process] ∧ p.ppid = pid ∧ p.state ≠ .terminated then s.procs.initPid else p.ppid) = p.ppid :=
        if_neg fun own => notOwn own.2.1
      simp only [same, sees_adopted] at seen
      rw [seen notOwn, Bool.or_eq_true, raises, or_assoc]
      exact or_congr_right (sees_cons s.procs p.ppid block _).symm

theorem meets_getProcess {post : Option Ref → State → Prop} (grants : s.Grants) (attended : s.procs.Attended c q)
    (pid : Int) (meets : ∀ h, s.heap.Grown h → post (s.procs.process pid) (s.withHeap h)) :
    Meets bad (getProcess pid) post s := by
  refine (getProcess_spec grants attended.queue pid).mono ?_
  rintro found s' ⟨rfl, h, grown, rfl⟩
  exact meets h grown

/-- The children that are looked at go to `init`, and so does the process when
no living parent is seen. -/
theorem sendTaskToInit_spec (working : Working s c) (found : s.procs.process pid = some r)
    (block : s.procs.pcbs r = some p) : Meets bad (sendTaskToInit pid) (fun _ s' => ∃ h procs, s.heap.Grown h ∧
      s.procs.Reparented r p procs ∧ s' = { s with heap := h, procs }) s := by
  obtain ⟨q, attended⟩ := working.attended
  have pid_eq : p.pid = pid := by
    obtain ⟨-, p', block', same⟩ := process_some found
    cases block.symm.trans block'
    exact same
  unfold sendTaskToInit
  rw [meets_bind, meets_malloc working.sound.grants, meets_bind]
  refine meets_getProcess (working.sound.grants.withHeap (Heap.grown_allocate _)) (by exact attended) pid ?_
  intro h grown
  simp only [meets_bind, meets_get, withHeap_procs, attended.running, found, Option.isSome_some, if_true]
  have live : ∀ x ∈ c :: values s.procs.queue, s.procs.pcbs x ≠ none := by
    intro x member
    rcases List.mem_cons.mp member with rfl | queued
    · rw [attended.block]
      simp
    · exact attended.queue x queued
  refine (sendTaskToInitLoop_spec (by exact block) c _ (by exact live) false).mono ?_
  rintro hasParent s₁ ⟨rfl, seen⟩
  have examined : s.procs.examined = c :: (values s.procs.queue).dropLast := by
    unfold Procs.examined
    rw [attended.running]
    rfl
  have all := Heap.Grown.trans (Heap.grown_allocate s.heap) grown
  have adopted : s.procs.adoptAmong pid (c :: (values s.procs.queue).dropLast) = s.procs.adopt p.pid := by
    rw [← examined, ← pid_eq]
    rfl
  have own : p.ppid ≠ p.pid → (s.procs.adopt p.pid).pcbs r = some p := by
    intro notOwn
    simp [Procs.adopt, Procs.adoptAmong, block, notOwn]
  have saw : p.ppid ≠ p.pid → (hasParent = true ↔ s.procs.sees p.ppid) := by
    intro notOwn
    rw [seen (pid_eq ▸ notOwn)]
    simp only [Bool.false_eq_true, false_or, Procs.sees, examined]
    rfl
  simp only [withHeap_procs, adopted]
  cases hasParent with
  | true =>
    refine ⟨_, s.procs.adopt p.pid, all.trans (Heap.grown_release _ _), ?_, rfl⟩
    refine ⟨⟨_, rfl⟩, fun _ _ => rfl, fun notOwn _ => own notOwn, fun notOwn unseen => ?_⟩
    exact (unseen ((saw notOwn).mp rfl)).elim
  | false =>
    simp only [Bool.not_false, if_true, meets_bind, meets_deref_some, meets_modifyPcb, meets_pure]
    refine ⟨_, _, all.trans (Heap.grown_release _ _), ?_, rfl⟩
    refine ⟨⟨fun x p' => if x = r then s.procs.initPid else
      if x ∈ s.procs.examined ∧ p'.ppid = p.pid ∧ p'.state ≠ .terminated then s.procs.initPid else p'.ppid, ?_⟩,
        ?_, ?_, ?_⟩
    · simp only [Procs.adopt, Procs.adoptAmong, Procs.mk.injEq, true_and, and_true]
      funext x
      by_cases here : x = r
      · subst here
        simp [block]
      · simp [here]
    · intro x other
      simp only [Function.update_of_ne other]
    · intro notOwn sees
      exact absurd ((saw notOwn).mpr sees) (by decide)
    · intro notOwn _
      simp only [Function.update_self, own notOwn, Option.map_some]
      rfl

/-! ## Changing states -/

/-- What `changeState` found and left as it was. -/
def Refused (s : State) (pid : Int) (newState : ProcessState) (a : Int) (s' : State) : Prop :=
  a = -1 ∧ ∃ h, s.heap.Grown h ∧ s' = s.withHeap h ∧
    ∀ r p, s.procs.target pid = some r → s.procs.pcbs r = some p →
      p.state = .exited ∧ newState ≠ .terminated ∨ p.state = .terminated

/-- What `changeState(pid, EXITED)` does to a process that it finds alive. -/
inductive Exited (s : State) (pid : Int) : Int → State → Prop
  | intro (target : s.procs.target pid = some r) (block : s.procs.pcbs r = some p)
    (notExited : p.state ≠ .exited) (notTerminated : p.state ≠ .terminated) (grown : s.heap.Grown h)
    (posts : Posts (s.withHeap h) p.semId s₁) (block' : s₁.procs.pcbs r = some p') :
    Exited s pid p'.pid { s₁ with procs := s₁.procs.moveState r p' .exited }

/-- What `changeState(pid, TERMINATED)` does to a process of the queue. -/
inductive Terminated (s : State) (pid : Int) : Int → State → Prop
  | intro (target : s.procs.target pid = some r) (queued : r ∈ values s.procs.queue)
    (block : s.procs.pcbs r = some p) (notTerminated : p.state ≠ .terminated) (grown : s.heap.Grown h)
    (reparented : s.procs.Reparented r p procs) (block' : procs.pcbs r = some p') :
    Terminated s pid p'.pid { s with
      heap := h
      procs := procs.moveState r p' .terminated
      history := .terminated p'.pid s.procs (procs.moveState r p' .terminated) :: s.history }

theorem Working.withHeap (working : Working s c) (grown : s.heap.Grown h) : Working (s.withHeap h) c :=
  working.lives ⟨working.sound.grants.grown grown, working.sound.sems.grown grown.requests,
    working.sound.pipes.grown grown.requests⟩ (.single (.wake (.quiet grown rfl rfl)))

theorem Working.posts (working : Working s c) (posts : Posts s semId s') : Working s' c :=
  working.lives (posts.sound working.sound) (posts.wakes working).lives

theorem changeState_exited_spec [Lenient bad] (working : Working s c) (pid : Int) :
    Meets bad (changeState pid .exited) (fun a s' => Refused s pid .exited a s' ∨ Exited s pid a s') s := by
  obtain ⟨q, attended⟩ := working.attended
  unfold changeState changeStateWith
  rw [meets_bind]
  refine (processOf_spec working.sound.grants attended pid).mono ?_
  rintro found s' ⟨rfl, h, grown, rfl⟩
  have working' := working.withHeap grown
  obtain none | ⟨r, target⟩ := (s.procs.target pid).eq_none_or_eq_some
  · rw [none]
    refine .inl ⟨rfl, h, grown, rfl, fun r p target => ?_⟩
    rw [none] at target
    cases target
  · obtain ⟨-, p, block, -⟩ := target_some attended target
    simp only [target, changeProcess, meets_bind, meets_readPcb, withHeap_procs, block, meets_lookup_some, meets_ite,
      meets_get, if_true, reduceCtorEq, if_false, ne_eq, not_false_eq_true, and_true, meets_discard]
    constructor
    · intro dead
      refine .inl ⟨rfl, h, grown, rfl, fun r' p' target' block' => ?_⟩
      cases target.symm.trans target'
      cases block.symm.trans block'
      exact dead.imp_left fun exited => ⟨exited, by decide⟩
    · intro alive
      obtain ⟨q', attended'⟩ := working'.attended
      refine (semPost_spec working'.sound.grants working'.sound.sems attended' _).mono ?_
      intro _ s₁ posts
      have working₁ := working'.posts posts
      obtain ⟨p', block'⟩ : ∃ p', s₁.procs.pcbs r = some p' := by
        rcases (posts.wakes working').spared.pcbs r with same | ⟨p', -, -, now⟩
        · exact ⟨p, same.trans block⟩
        · exact ⟨_, now⟩
      simp only [block', meets_lookup_some, meets_modifyProcs, meets_pure]
      exact .inr (.intro target block (fun h => alive (.inl h)) (fun h => alive (.inr h)) grown posts block')

/-- For a process that is not in the queue, `sendTaskToInit` follows `NULL`. -/
theorem sendTaskToInit_absent (working : Working s c) (absent : s.procs.process pid = none) :
    Meets (fun _ => True) (sendTaskToInit pid) (fun _ _ => False) s := by
  obtain ⟨q, attended⟩ := working.attended
  unfold sendTaskToInit
  rw [meets_bind, meets_malloc working.sound.grants, meets_bind]
  refine meets_getProcess (working.sound.grants.withHeap (Heap.grown_allocate _)) (by exact attended) pid ?_
  intro h grown
  simp only [meets_bind, meets_get, withHeap_procs, attended.running, absent]
  unfold sendTaskToInitLoop
  simp only [meets_bind]
  trivial

/-- The current process cannot be terminated: `sendTaskToInit` would look for it
in the queue, and follow the `NULL` it gets. -/
theorem changeState_terminated_spec (working : Working s c) (pid : Int) :
    Meets (fun _ => True) (changeState pid .terminated)
      (fun a s' => Refused s pid .terminated a s' ∨ Terminated s pid a s') s := by
  obtain ⟨q, attended⟩ := working.attended
  unfold changeState changeStateWith
  rw [meets_bind]
  refine (processOf_spec working.sound.grants attended pid).mono ?_
  rintro found s' ⟨rfl, h, grown, rfl⟩
  have working' := working.withHeap grown
  obtain none | ⟨r, target⟩ := (s.procs.target pid).eq_none_or_eq_some
  · rw [none]
    refine .inl ⟨rfl, h, grown, rfl, fun r p target => ?_⟩
    rw [none] at target
    cases target
  · obtain ⟨-, p, block, pid_eq⟩ := target_some attended target
    simp only [target, changeProcess, meets_bind, meets_readPcb, withHeap_procs, block, meets_lookup_some, meets_ite,
      meets_get, reduceCtorEq, if_true, if_false, ne_eq, not_true, and_false, false_or, meets_discard]
    constructor
    · intro dead
      refine .inl ⟨rfl, h, grown, rfl, fun r' p' target' block' => ?_⟩
      cases target.symm.trans target'
      cases block.symm.trans block'
      exact .inr dead
    · intro alive
      rw [pid_eq]
      obtain absent | ⟨r', found⟩ := (s.procs.process pid).eq_none_or_eq_some
      · exact (sendTaskToInit_absent working' absent).mono fun _ _ impossible => impossible.elim
      · obtain ⟨queued, q', block', same⟩ := process_some found
        have here : r' = r := working.table.unique r' r q' p block' block (same.trans pid_eq.symm)
        subst here
        refine (sendTaskToInit_spec (r := r') (p := p) working' found (by exact block)).mono ?_
        rintro _ s₁ ⟨h', procs, grown', reparented, rfl⟩
        obtain ⟨ppid, relabelled⟩ := reparented.relabelled
        have now : procs.pcbs r' = some { p with ppid := ppid r' p } := by
          rw [relabelled]
          simp [block]
        have terminated : Terminated s pid (Pcb.pid { p with ppid := ppid r' p }) _ :=
          .intro target queued block alive (grown.trans grown') reparented now
        simp only [now, meets_lookup_some, meets_modifyProcs, meets_log, meets_pure]
        exact .inr terminated

theorem Refused.advance (working : Working s c) (refused : Refused s pid newState a s') : Sound s' ∧ Wakes s s' := by
  obtain ⟨-, h, grown, rfl, -⟩ := refused
  exact ⟨(working.withHeap grown).sound, .single (.quiet grown rfl rfl)⟩

theorem Exited.advance (working : Working s c) (listed : ∀ r, s.procs.target pid = some r → r ∈ s.procs.others)
    (exited : Exited s pid a s') : Sound s' ∧ Lives s s' := by
  obtain @⟨r, p, h, s₁, p', target, block, notExited, notTerminated, grown, posts, block'⟩ := exited
  have working' := working.withHeap grown
  have working₁ := working'.posts posts
  have wakes := posts.wakes working'
  refine ⟨⟨working₁.sound.grants, working₁.sound.sems, working₁.sound.pipes⟩, ?_⟩
  have allocated : Life s (s.withHeap _) := .wake (.quiet grown rfl rfl)
  refine .tail (.head allocated wakes.lives) ?_
  have alive : ∀ p', s₁.procs.pcbs r = some p' → p'.state ≠ .exited ∧ p'.state ≠ .terminated := by
    intro p' now
    rcases wakes.spared.pcbs r with same | ⟨p, was, -, woken⟩
    · rw [now, withHeap_procs, block, Option.some.injEq] at same
      rw [same]
      exact ⟨notExited, notTerminated⟩
    · rw [now, Option.some.injEq] at woken
      simp [woken]
  refine .moved (.refl _) rfl ?_ block' (alive _ block').1 (alive _ block').2 (by decide) rfl
  rw [wakes.spared.others]
  exact listed _ target

theorem Terminated.advance (working : Working s c) (terminated : Terminated s pid a s') : Sound s' ∧ Lives s s' := by
  obtain ⟨target, queued, block, notTerminated, grown, reparented, block'⟩ := terminated
  have sound := (working.withHeap grown).sound
  refine ⟨⟨sound.grants, sound.sems, sound.pipes⟩, .single ?_⟩
  refine .terminated grown queued block notTerminated reparented block' rfl ?_
  obtain ⟨ppid, relabelled⟩ := reparented.relabelled
  have same := block'
  rw [relabelled] at same
  simp only [block, Option.map_some, Option.some.injEq] at same
  rw [← same]
  rfl

theorem Entered.sound (sound : Sound s) (entered : Entered s c p sem a s') : Sound s' := by
  cases entered with
  | took positive grown =>
    refine ⟨sound.grants.grown grown, ?_, sound.pipes.grown grown.requests⟩
    dsimp only
    exact (sound.sems.grown grown.requests).modify _ (fun _ => ⟨rfl, rfl⟩) fun _ plain => ⟨rfl, plain.2⟩
  | queued empty grown last =>
    refine ⟨sound.grants.grown grown, ?_, sound.pipes.grown grown.requests⟩
    dsimp only
    exact (sound.sems.grown grown.requests).modify _ (fun _ => ⟨rfl, rfl⟩) fun _ plain => ⟨rfl, plain.2⟩

theorem Entered.advance (working : Working s c) (entered : Entered s c p sem a s') : Sound s' ∧ Wakes s s' := by
  refine ⟨entered.sound working.sound, ?_⟩
  cases entered with
  | took positive grown => exact .single (.quiet grown rfl rfl)
  | queued empty grown last => exact .single (.quiet grown rfl rfl)

/-- Without a unit to take, a process that is ready leaves its turn in `semWait`. -/
theorem semWait_leaves (sound : Sound s) (attended : s.procs.Attended c p) (ready : p.state = .ready)
    {id : Int} (found : s.sems.find id = some sem) (empty : sem.value ≤ 0) {post : Int → State → State → Prop} :
    (semWait id).Meets bad (fun _ s' => s'.pipes = s.pipes ∧ ∃ sem', s'.sems.find id = some sem' ∧ sem'.value ≤ 0)
      (fun _ _ => False) post since s := by
  unfold semWait
  rw [Program.meets_bind, Program.meets_lift]
  refine (semWaitEnter_spec sound.grants sound.sems attended id).mono ?_
  rintro result s₁ (⟨missing, -⟩ | ⟨sem', found', entered⟩)
  · cases missing.symm.trans found
  · obtain rfl := Option.some.inj (found.symm.trans found')
    have sound₁ := entered.sound sound
    cases entered with
    | took positive grown => omega
    | queued _ grown last =>
      have attended₁ : (s.procs.beginWait c sem.id).Attended c p :=
        ⟨attended.running, attended.block, attended.queue, attended.pids⟩
      have moved : (s.procs.beginWait c sem.id).moved p.pid .blocked =
        some ((s.procs.beginWait c sem.id).moveState c p .blocked) := by
        refine moved_eq_some.mpr ⟨c, p, ?_, attended.block, by rw [ready]; decide, by rw [ready]; decide, rfl⟩
        exact (if_pos attended₁.callerPid.symm).trans attended.running
      have valid : p.pid ≠ -1 := by
        have := attended.pids c p attended.block
        omega
      dsimp only
      rw [Program.meets_bind, Program.meets_discard]
      unfold blockTask changeState
      rw [Program.meets_bind, Program.meets_lift]
      refine (changeStateWith_spec (by exact sound₁.grants) (by exact attended₁) semPost p.pid
        (by decide) (by decide)).mono ?_
      rintro pid s' ⟨rfl, h, grown', rfl⟩
      simp only [moved, Option.isSome_some, if_true, Option.getD_some]
      have blocked : ((s.procs.beginWait c sem.id).moveState c p .blocked).pcbs c =
        some { p with state := .blocked } := by
        simp [Procs.moveState]
      rw [if_neg valid, Program.meets_bind, Program.meets_lift,
        meets_currentPcb (by exact attended.running) (by exact blocked), if_pos rfl, Program.meets_bind]
      exact ⟨⟨rfl, _, find_modify_self (fun _ => rfl) found, empty⟩, fun _ never => never.elim⟩

end QuesOs.Kernel
