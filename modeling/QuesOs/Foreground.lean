import QuesOs.Reparenting
import QuesOs.PipeMutex

/-! Whom Ctrl+C kills: the running process, if it is in the foreground, or the first
in the queue that is, dead or alive. While that one is dead nobody else is killed, and
the kill fails as well where a child of it is running or memory is short. -/
namespace QuesOs.Kernel
open Resumption Threads

variable {s s' s'' : State} {c t r : Ref} {p q : Pcb} {pid : Int}

/-! ## What `terminateChildren` changes -/

/-- How many requests the loop has made in the end, and whom it terminates. -/
def State.examined (s : State) (pid : Int) : Nat → List Int → List Ref → Nat × List Ref
  | asked, _, [] => (asked, [])
  | asked, adopted, r :: rest =>
    match s.procs.pcbs r with
    | none => s.examined pid asked adopted rest
    | some p =>
      if s.procs.presentPpid adopted p = pid then
        if p.state = .terminated ∨ ¬s.heap.Grants asked then s.examined pid (asked + 1) adopted rest
        else
          let later := s.examined pid (asked + 3) (if s.heap.Grants (asked + 1) then p.pid :: adopted else adopted) rest
          (later.1, r :: later.2)
      else s.examined pid asked adopted rest

/-- Some processes were terminated, and parents changed. -/
structure State.Alters (s : State) (among : List Ref) (s' : State) : Prop where
  sems : s'.sems = s.sems
  pipes : s'.pipes = s.pipes
  current : s'.procs.currentProcessPCB = s.procs.currentProcessPCB
  queue : s'.procs.queue = s.procs.queue
  initPid : s'.procs.initPid = s.procs.initPid
  userlandPid : s'.procs.userlandPid = s.procs.userlandPid
  blocks : ∀ r p, s.procs.pcbs r = some p →
    ∃ ppid, s'.procs.pcbs r = some { p with ppid, state := if r ∈ among then .terminated else p.state }
  absent : ∀ r, s.procs.pcbs r = none → s'.procs.pcbs r = none

theorem State.Alters.refl (s : State) : s.Alters [] s :=
  ⟨rfl, rfl, rfl, rfl, rfl, rfl, fun _ p block => ⟨p.ppid, block⟩, fun _ => id⟩

theorem State.Alters.trans {among among' : List Ref} (first : s.Alters among s') (second : s'.Alters among' s'') :
    s.Alters (among ++ among') s'' := by
  refine ⟨second.sems.trans first.sems, second.pipes.trans first.pipes, second.current.trans first.current,
    second.queue.trans first.queue, second.initPid.trans first.initPid, second.userlandPid.trans first.userlandPid,
    fun r p block => ?_, fun r none => second.absent r (first.absent r none)⟩
  obtain ⟨ppid, block'⟩ := first.blocks r p block
  obtain ⟨ppid', block''⟩ := second.blocks r _ block'
  refine ⟨ppid', block''.trans ?_⟩
  by_cases here : r ∈ among <;> by_cases here' : r ∈ among' <;> simp [here, here']

theorem State.Alters.lists (alters : s.Alters among s') (lists : s.procs.Lists c) : s'.procs.Lists c := by
  refine lists.kept alters.current alters.queue fun r => ?_
  unfold Procs.pidOf
  cases block : s.procs.pcbs r with
  | none => rw [alters.absent r block]
  | some p =>
    obtain ⟨ppid, block'⟩ := alters.blocks r p block
    rw [block']
    rfl

/-- Somebody has another parent. -/
theorem State.Alters.moved (block : s.procs.pcbs r = some p) (h : Heap) (ppid : Int) :
    s.Alters [] (s.withPcbs h (Function.update s.procs.pcbs r (some { p with ppid }))) := by
  refine ⟨rfl, rfl, rfl, rfl, rfl, rfl, fun x q block' => ?_, fun x none => ?_⟩
  · by_cases here : x = r
    · subst here
      cases block.symm.trans block'
      exact ⟨ppid, Function.update_self ..⟩
    · exact ⟨q.ppid, (Function.update_of_ne here ..).trans block'⟩
  · have other : x ≠ r := by
      rintro rfl
      cases none.symm.trans block
    exact (Function.update_of_ne other ..).trans none

/-- Somebody is dead, and children of his have another parent. -/
theorem State.Alters.buried (block : s.procs.pcbs r = some p) (h : Heap) (history : List Event) (readyCount : Int)
    (viewed : List Ref) : s.Alters [r] { s with
      heap := h
      history
      procs := { s.procs with
        readyCount
        pcbs := Function.update (s.procs.adoptAmong p.pid viewed).pcbs r
          (some { p with ppid := s.procs.initPid, state := .terminated }) } } := by
  refine ⟨rfl, rfl, rfl, rfl, rfl, rfl, fun x q block' => ?_, fun x none => ?_⟩
  · by_cases here : x = r
    · subst here
      cases block.symm.trans block'
      refine ⟨s.procs.initPid, (Function.update_self ..).trans ?_⟩
      rw [if_pos (List.mem_singleton_self x)]
    · refine ⟨if x ∈ viewed ∧ q.ppid = p.pid ∧ q.state ≠ .terminated then s.procs.initPid else q.ppid, ?_⟩
      rw [if_neg (mt List.mem_singleton.mp here)]
      exact (Function.update_of_ne here ..).trans (congrArg (Option.map _) block')
  · have other : x ≠ r := by
      rintro rfl
      cases none.symm.trans block
    exact (Function.update_of_ne other ..).trans (congrArg (Option.map _) none)

variable {asked : Nat} {adopted : List Int} {rest : List Ref}

theorem examineChildren_alters (midway : Midway s c asked adopted rest s') : Meets (fun _ => True)
    (rest.forM (examineChild pid)) (fun _ s'' => s.heap.Asked (s.examined pid asked adopted rest).1 s''.heap ∧
      s'.Alters (s.examined pid asked adopted rest).2 s'') s' := by
  induction rest generalizing s' asked adopted with
  | nil => exact ⟨midway.asked, .refl _⟩
  | cons r rest ih =>
    have among := List.dropLast_subset _ (midway.among r (List.mem_cons_self ..))
    obtain ⟨q, block⟩ := Option.ne_none_iff_exists'.mp (midway.lists.alive r (midway.queue ▸ among))
    obtain ⟨p, was, rfl⟩ := Option.map_eq_some_iff.mp ((midway.blocks r (List.mem_cons_self ..)).symm.trans block)
    have now : s'.heap.Grants 0 ↔ s.heap.Grants asked := midway.asked.later 0
    rw [List.forM_eq_forM, List.forM_cons, meets_bind]
    refine ((examineChild_queued midway.lists (midway.queue ▸ among) block pid).mono ?_).allow fun _ _ => trivial
    intro _ s₁ examined
    unfold State.examined
    simp only [was]
    cases examined with
    | passed other =>
      rw [if_neg other]
      exact ih midway.tail
    | spared child why more =>
      rw [if_pos child, if_pos (why.imp_right (mt now.mpr))]
      refine (ih (midway.spared block more _).1).mono ?_
      rintro _ s'' ⟨asked', alters⟩
      exact ⟨asked', (State.Alters.moved block _ _).trans alters⟩
    | buried child alive found again more readyCount history =>
      rw [if_pos child, if_neg (not_or.mpr ⟨alive, not_not.mpr (now.mp found)⟩)]
      refine (ih (midway.buried block more readyCount history rfl).1).mono ?_
      rintro _ s'' ⟨asked', alters⟩
      exact ⟨asked', (State.Alters.buried block _ _ _ _).trans alters⟩

theorem terminateChildren_alters (lists : s.procs.Lists c) (pid : Int) : Meets (fun _ => True) (terminateChildren pid)
    (fun _ s' => s.heap.Asked (s.examined pid 1 [] s.examines).1 s'.heap ∧
      s.Alters (s.examined pid 1 [] s.examines).2 s') s := by
  obtain ⟨q, block⟩ := lists.current
  refine meets_terminateChildren lists pid fun h₁ asked₁ => ?_
  have lists₁ : (s.withHeap h₁).procs.Lists c := lists
  refine ((examineChild_running lists₁ block pid).mono ?_).allow fun _ _ => trivial
  rintro _ _ ⟨-, h₂, asked₂, rfl⟩
  refine (examineChildren_alters (.start lists block (asked₁.trans asked₂) _)).mono ?_
  rintro _ s' ⟨asked', alters⟩ h asked₃
  have all : s.Alters _ s' := (State.Alters.moved block _ _).trans alters
  exact ⟨asked'.trans asked₃, all.sems, all.pipes, all.current, all.queue, all.initPid,
    all.userlandPid, all.blocks, all.absent⟩

/-! ## Where `semPost` ends -/

theorem State.Steady.lists (steady : s.Steady s') (lists : s.procs.Lists c) : s'.procs.Lists c :=
  lists.kept steady.current steady.queue steady.pids

theorem resumeTask_ends {bad : Fault → Prop} (lists : s.procs.Lists c) (pid : Int) :
    Meets bad (resumeTask pid) (fun _ s' => s'.sems = s.sems ∧ s'.procs.Lists c) s := by
  obtain ⟨q, running⟩ := lists.current
  have ends : Meets bad (resumeTask pid) (fun _ s' => s'.sems = s.sems) s := by
    unfold resumeTask changeStateWith
    rw [meets_bind]
    refine (processOf_asks lists.running running lists.alive pid).mono ?_
    rintro found s₁ ⟨rfl, h, -, rfl⟩
    cases found : if pid = q.pid then some c else s.sought pid with
    | none => rfl
    | some r =>
      have listed : r ∈ c :: values s.procs.queue := by
        split at found
        · cases found
          exact List.mem_cons_self ..
        · unfold State.sought at found
          split at found
          · exact List.mem_cons_of_mem _ (process_some found).1
          · cases found
      obtain ⟨p, block⟩ := Option.ne_none_iff_exists'.mp (lists.blocks r listed)
      simp [changeProcess, block, meets_ite]
  exact (ends.and (steady_detached.wakes pid s)).mono fun _ s' both => ⟨both.1, both.2.lists lists⟩

theorem semPostLoop_ends {bad : Fault → Prop} {ref : Ref} {b : Sem} {rounds : Nat} (lists : s.procs.Lists c) (id : Int)
    (block : s.sems.at ref = some b) (waiters : rounds ≤ b.blockedPids.length) :
    Meets bad (semPostLoop ref id rounds) (fun _ s' =>
      ∃ left, s'.sems.at ref = some { b with blockedPids := left }) s := by
  induction rounds generalizing s b with
  | zero => exact ⟨b.blockedPids, block⟩
  | succ rounds ih =>
    unfold semPostLoop
    simp only [meets_bind, meets_readSem_at, block, meets_lookup_some]
    cases queue : b.blockedPids with
    | nil => simp [queue] at waiters
    | cons node rest =>
      rw [queue] at waiters
      simp only [dequeue, meets_bind, meets_free, meets_pure, meets_modifySem, meets_deref_some,
        meets_get, withHeap_sems]
      refine (resumeTask_ends (by exact lists) _).mono ?_
      rintro woken s' ⟨sems, lists'⟩
      have now : s'.sems.at ref = some { b with blockedPids := rest } := by
        rw [sems, at_modify _ _ fun _ => by rfl]
        exact congrArg (Option.map _) block
      simp only [meets_ite, meets_bind, meets_modifyProcs, meets_log]
      refine ⟨fun _ => ⟨rest, now⟩, fun _ => ?_⟩
      exact ih (b := { b with blockedPids := rest }) (by exact lists') now (Nat.le_of_succ_le_succ waiters)

/-- The semaphore can be posted: it is free, has a queue, and one more is still an `int`. -/
def Sem.Postable (sem : Sem) : Prop := sem.lock = 0 ∧ sem.queueRef ≠ none ∧ sem.value < INT_MAX

instance (sem : Sem) : Decidable sem.Postable := inferInstanceAs (Decidable (_ ∧ _))

/-- The semaphore that `semPost` finds can be posted. -/
def State.Posts (s : State) (id : Int) : Prop := ∀ sem, s.findable id = some sem → sem.Postable

theorem semPost_ends (guarded : s.Guarded) (lists : s.procs.Lists c) (id : Int) :
    Meets (fun _ => ¬s.Posts id) (semPost id) (fun _ s' => s.Posts id ∧ s.Steady s') s := by
  have ends : Meets (fun _ => ¬s.Posts id) (semPost id) (fun _ _ => s.Posts id) s := by
    unfold semPost
    rw [meets_bind]
    refine (findSem_asks id).mono ?_
    rintro found s' ⟨rfl, h, asked, rfl⟩
    cases found : s.findable id with
    | none =>
      intro sem here
      cases found.symm.trans here
    | some sem =>
      have listed := (findable_some found).2
      have block : s.sems.at sem.ref = some sem := guarded.at_found listed
      have posts : s.Posts id ↔ sem.Postable :=
        ⟨fun all => all sem found, fun here _ found' => Option.some.inj (found.symm.trans found') ▸ here⟩
      rw [posts]
      simp only [acquireSem, acquire, meets_bind, meets_readSem_at, withHeap_sems, block,
        meets_lookup_some, meets_discard]
      by_cases free : sem.lock = 0
      · rw [if_pos free, meets_pure, meets_modifySem]
        cases queueRef : sem.queueRef with
        | none => exact fun fine => fine.2.1 queueRef
        | some queueRef' =>
          have now : (s.sems.modify sem.ref fun x => { x with lock := 1 }).at sem.ref =
            some { sem with lock := 1 } := by
            rw [at_modify _ _ fun _ => by rfl]
            exact congrArg (Option.map _) block
          have queued : sem.queueRef ≠ none := by simp [queueRef]
          rw [meets_deref_some]
          by_cases room : sem.value < INT_MAX
          · have long : sem.blockedPids.length ≤ { sem with lock := 1 }.blockedPids.length := Nat.le_refl _
            refine (semPostLoop_ends (by exact lists) id (by exact now) long).mono ?_
            rintro resumed s₁ ⟨left, there⟩
            cases resumed with
            | true => exact ⟨free, queued, room⟩
            | false =>
              simp only [Bool.not_false, if_true, meets_bind, meets_get, meets_readSem_at, there, meets_lookup_some]
              exact meets_increment_within (.inr room) fun _ => ⟨free, queued, room⟩
          · -- Whoever has a unit keeps nobody waiting, so the value is raised.
            have nobody : sem.blockedPids = [] := by
              have positive : 0 < sem.value := Int.lt_of_lt_of_le (by decide) (Int.not_lt.mp room)
              exact (guarded.sems.settled sem (find_some listed).1 positive).1
            rw [nobody]
            simp only [List.length_nil, semPostLoop, meets_bind, meets_pure, Bool.not_false,
              if_true, meets_get, meets_readSem_at, withHeap_sems,
              now, meets_lookup_some]
            unfold increment
            rw [if_neg room]
            exact fun fine => room fine.2.2
      · rw [if_neg free]
        exact fun fine => free fine.1
  exact ends.and (steady_elementary.posts id s)

/-! ## Where `killTask` ends -/

/-- How many requests it takes to find the process. -/
def Procs.seeks (procs : Procs) (r : Ref) : Nat := if procs.currentProcessPCB = some r then 0 else 1

/-- The process is alive and found, and its semaphore can be posted. -/
structure State.Exits (s : State) (r : Ref) (p : Pcb) : Prop where
  alive : p.state = .ready ∨ p.state = .blocked
  found : s.procs.currentProcessPCB = some r ∨ s.heap.Grants 0
  posts : ∀ sem, s.heap.Grants (s.procs.seeks r) → s.sems.find p.semId = some sem → sem.Postable

theorem Procs.Lists.seeks (lists : s.procs.Lists c) (running : s.procs.pcbs c = some q)
    (listed : r ∈ c :: values s.procs.queue) (block : s.procs.pcbs r = some p) :
    s.procs.seeks r = (if p.pid = q.pid then 0 else 1) ∧ (if p.pid = q.pid then some c else s.sought p.pid) =
      if s.procs.currentProcessPCB = some r ∨ s.heap.Grants 0 then some r else none := by
  rcases List.mem_cons.mp listed with rfl | member
  · cases running.symm.trans block
    simp [Procs.seeks, lists.running]
  · have other := lists.other running member block
    have away : s.procs.currentProcessPCB ≠ some r := by
      intro here
      cases lists.running.symm.trans here
      exact (List.nodup_cons.mp lists.once).1 member
    simp only [Procs.seeks, away, other, if_false, false_or, true_and]
    unfold State.sought
    rw [lists.process member block]

/-- The process, which is running or in the queue, exits where it can, and `changeState` fails where it cannot. -/
theorem exit_ends (guarded : s.Guarded) (lists : s.procs.Lists c) (listed : r ∈ c :: values s.procs.queue)
    (block : s.procs.pcbs r = some p) : Meets (fun _ => ¬s.Exits r p) (changeState p.pid .exited) (fun a s' =>
      (a = -1 ∧ ¬s.Exits r p ∨ a = p.pid ∧ s.Exits r p ∧ ∃ p', s'.procs.pcbs r = some p' ∧ p'.state = .exited) ∧
        s.Steady s') s := by
  refine Meets.and ?_ (steady_elementary.changes steady_elementary.posts p.pid .exited s)
  obtain ⟨q, running⟩ := lists.current
  obtain ⟨seeks, sought⟩ := lists.seeks running listed block
  unfold changeState changeStateWith
  rw [meets_bind]
  refine (processOf_asks lists.running running lists.alive p.pid).mono ?_
  rintro _ s₁ ⟨rfl, h, asked, rfl⟩
  rw [← seeks] at asked
  rw [sought]
  by_cases found : s.procs.currentProcessPCB = some r ∨ s.heap.Grants 0
  · rw [if_pos found]
    simp only [changeProcess, meets_bind, meets_readPcb, withHeap_procs, block, meets_lookup_some, ne_eq, reduceCtorEq,
      not_false_eq_true, and_true, meets_get, if_true, meets_discard, meets_ite, if_false]
    refine ⟨fun dead => .inl ⟨rfl, fun exits => ?_⟩, fun living => ?_⟩
    · rcases exits.alive with here | here <;> simp [here] at dead
    · have alive : p.state = .ready ∨ p.state = .blocked := by
        cases state : p.state <;> simp [state] at living ⊢
      have posts : (s.withHeap h).Posts p.semId ↔ s.Exits r p := by
        have later : (s.withHeap h).heap.Grants 0 ↔ s.heap.Grants (s.procs.seeks r) := asked.later 0
        unfold State.Posts State.findable
        constructor
        · intro all
          refine ⟨alive, found, fun sem granted here => all sem ?_⟩
          rw [if_pos (later.mpr granted)]
          exact here
        · intro exits sem here
          split at here
          · rename_i granted
            exact exits.posts sem (later.mp granted) here
          · cases here
      have ends : Meets _ _ _ _ := semPost_ends (guarded.grown asked.grown) (c := c) (by exact lists) p.semId
      rw [posts] at ends
      refine ends.mono ?_
      rintro _ s₂ ⟨exits, steady⟩
      have pid : s₂.procs.pidOf r = some p.pid := (steady.pids r).trans (congrArg (Option.map Pcb.pid) block)
      obtain ⟨p₂, block₂, same⟩ := Option.map_eq_some_iff.mp pid
      simp only [block₂, meets_lookup_some, meets_modifyProcs, meets_pure]
      exact .inr ⟨same, exits, _, Function.update_self .., rfl⟩
  · rw [if_neg found]
    exact .inl ⟨rfl, fun exits => found exits.found⟩

/-! ## Where `killCurrentForeground` ends -/

/-- A process that Ctrl+C is meant for: in the foreground, ready or blocked, neither `init` nor the shell. -/
def Procs.Live (procs : Procs) (r : Ref) : Prop := (procs.currentProcessPCB = some r ∨ r ∈ values procs.queue) ∧
  ∃ p, procs.pcbs r = some p ∧ procs.isForeground p = true ∧ (p.state = .ready ∨ p.state = .blocked)

/-- The turn returns something else than -1, or will, and one of these processes has exited. -/
def Procs.Struck (procs : Procs) (outcome : Outcome State Fault Int) : Prop :=
  (∃ pid s', pid ≠ -1 ∧ (outcome = .finished pid s' ∨ outcome = .paused (pure pid) s')) ∧
    ∃ r p, procs.Live r ∧ outcome.state.procs.pcbs r = some p ∧ p.state = .exited

theorem Procs.Struck.not_missed {procs : Procs} (struck : procs.Struck (.finished (-1) s)) : False := by
  obtain ⟨⟨pid, s', hit, here | here⟩, -⟩ := struck
  · cases here
    exact hit rfl
  · cases here

theorem killTask_ends {procs : Procs} (guarded : s.Guarded) (lists : s.procs.Lists c)
    (listed : r ∈ c :: values s.procs.queue)
    (block : s.procs.pcbs r = some p) (killable : ¬(p.pid = s.procs.userlandPid ∨ p.pid = s.procs.initPid))
    (positive : 0 < p.pid) (live : s.Exits r p → procs.Live r) :
    (killTask p.pid).Ends procs.Struck s ↔ s.Exits r p := by
  have spec := exit_ends guarded lists listed block
  unfold killTask
  rw [Program.ends_bind, meets_get]
  dsimp only
  rw [if_neg killable, Program.ends_bind]
  constructor
  · intro ends
    obtain ⟨a, s', ran, after⟩ := ends.returns
    obtain ⟨⟨rfl, -⟩ | ⟨-, exits, -⟩, -⟩ := (meets_of_run ran).mp spec
    · exact (Program.ends_pure.mp after).not_missed.elim
    · exact exits
  · intro exits
    refine (spec.allow fun _ not => not exits).mono ?_
    rintro a s' ⟨⟨-, never⟩ | ⟨rfl, -, p', exited⟩, steady⟩
    · exact (never exits).elim
    · have lists' := steady.lists lists
      obtain ⟨q, running⟩ := lists'.current
      have hit : p.pid ≠ -1 := by omega
      rw [if_neg hit, Program.ends_bind, meets_currentPcb lists'.running running]
      split
      · exact Program.ends_suspend.mpr ⟨⟨p.pid, s', hit, .inr rfl⟩, r, p', live exits, exited⟩
      · exact Program.ends_pure.mpr ⟨⟨p.pid, s', hit, .inl rfl⟩, r, p', live exits, exited⟩

/-- The process is alive and can be made to exit so many requests later, when these have been terminated. -/
structure State.Remains (s : State) (asked : Nat) (among : List Ref) (r : Ref) (p : Pcb) : Prop where
  alive : p.state = .ready ∨ p.state = .blocked
  spared : r ∉ among
  found : s.procs.currentProcessPCB = some r ∨ s.heap.Grants asked
  posts : ∀ sem, s.heap.Grants (asked + s.procs.seeks r) → s.sems.find p.semId = some sem → sem.Postable

/-- `terminateChildren` and `killTask` make the process exit: no living child of it is running, each child is
found again, and the process itself remains to be killed. -/
structure State.Kills (s : State) (r : Ref) (p : Pcb) : Prop extends
    s.Remains (s.examined p.pid 1 [] s.examines).1 (s.examined p.pid 1 [] s.examines).2 r p where
  running : s.procs.SparesRunning p.pid
  finds : s.Finds p.pid 1 [] s.examines

theorem State.Alters.exits_iff {among : List Ref} (alters : s.Alters among s')
    (requests : s.heap.Asked asked s'.heap) (ppid : Int) :
    s'.Exits r { p with ppid, state := if r ∈ among then .terminated else p.state } ↔ s.Remains asked among r p := by
  have seeks : s'.procs.seeks r = s.procs.seeks r := by
    unfold Procs.seeks
    rw [alters.current]
  have now : s'.heap.Grants 0 ↔ s.heap.Grants asked := requests.later 0
  have later : s'.heap.Grants (s'.procs.seeks r) ↔ s.heap.Grants (asked + s.procs.seeks r) := seeks ▸ requests.later _
  constructor
  · intro exits
    have alive := exits.alive
    have found := exits.found
    have posts := exits.posts
    rw [alters.current, now] at found
    rw [alters.sems] at posts
    by_cases here : r ∈ among
    · simp [here] at alive
    · rw [if_neg here] at alive
      exact ⟨alive, here, found, fun sem granted => posts sem (later.mpr granted)⟩
  · rintro ⟨alive, here, found, posts⟩
    refine ⟨?_, ?_, fun sem granted => ?_⟩
    · rw [if_neg here]
      exact alive
    · rw [alters.current, now]
      exact found
    · rw [alters.sems]
      exact posts sem (later.mp granted)

/-- What is done with the process that Ctrl+C picks. -/
theorem kills_iff {procs : Procs} {rest : Task Int} (guarded : s.Guarded) (lists : s.procs.Lists c)
    (listed : r ∈ c :: values s.procs.queue) (block : s.procs.pcbs r = some p)
    (killable : ¬(p.pid = s.procs.userlandPid ∨ p.pid = s.procs.initPid)) (positive : 0 < p.pid)
    (live : p.state = .ready ∨ p.state = .blocked → procs.Live r)
    (kills : ∀ among s', s.Alters among s' → (rest.Ends procs.Struck s' ↔ (killTask p.pid).Ends procs.Struck s')) :
    Meets (fun _ => False) (terminateChildren p.pid) (fun _ s' => rest.Ends procs.Struck s') s ↔ s.Kills r p := by
  have spec : Meets (fun _ => ¬(s.procs.SparesRunning p.pid ∧ s.Finds p.pid 1 [] s.examines)) (terminateChildren p.pid)
      (fun _ s' => (s.procs.SparesRunning p.pid ∧ s.Finds p.pid 1 [] s.examines) ∧
        s.heap.Asked (s.examined p.pid 1 [] s.examines).1 s'.heap ∧
        s.Alters (s.examined p.pid 1 [] s.examines).2 s') s :=
    (((terminateChildren_spec lists p.pid).allow fun _ null => null.2).and (terminateChildren_alters lists p.pid)).mono
      fun _ _ both => ⟨⟨both.1.1, both.1.2.1⟩, both.2⟩
  have each : ∀ (a : Unit) s', s.heap.Asked (s.examined p.pid 1 [] s.examines).1 s'.heap ∧
      s.Alters (s.examined p.pid 1 [] s.examines).2 s' → (rest.Ends procs.Struck s' ↔
        s.Remains (s.examined p.pid 1 [] s.examines).1 (s.examined p.pid 1 [] s.examines).2 r p) := by
    rintro - s' ⟨requests, alters⟩
    obtain ⟨ppid, block'⟩ := alters.blocks r p block
    have guarded' : s'.Guarded :=
      guarded.withSems requests.grown alters.pipes (alters.sems ▸ guarded.sems.grown requests.grown.requests)
    have listed' : r ∈ c :: values s'.procs.queue := alters.queue ▸ listed
    have killable' : ¬(p.pid = s'.procs.userlandPid ∨ p.pid = s'.procs.initPid) := by
      rw [alters.userlandPid, alters.initPid]
      exact killable
    rw [kills _ s' alters, ← alters.exits_iff requests ppid]
    refine killTask_ends guarded' (alters.lists lists) listed' block' killable' positive fun exits => live ?_
    exact ((alters.exits_iff requests ppid).mp exits).alive
  rw [meets_fine spec each]
  exact ⟨fun ⟨⟨running, finds⟩, remains⟩ => ⟨remains, running, finds⟩, fun kills =>
    ⟨⟨kills.running, kills.finds⟩, kills.toRemains⟩⟩

/-- One of the processes that Ctrl+C is meant for has exited, and -1 is not returned. -/
def State.HitsLive (s : State) : Prop := killCurrentForeground.Ends s.procs.Struck s

/-- The running process is in the foreground and is killed, or the first of the queue that is, if there is memory for
`find`. -/
def State.Strikes (s : State) : Prop := ∃ c q, s.procs.currentProcessPCB = some c ∧ s.procs.pcbs c = some q ∧
  if s.procs.isForeground q then s.Kills c q
  else s.heap.Grants 0 ∧
    ∃ r p, (values s.procs.queue).find? (fun r => (s.procs.pcbs r).any s.procs.isForeground) = some r ∧
    s.procs.pcbs r = some p ∧ (s.after 1).Kills r p

theorem Procs.isForeground_killable {procs : Procs} (here : procs.isForeground p = true) :
    ¬(p.pid = procs.userlandPid ∨ p.pid = procs.initPid) := by
  simp only [Procs.isForeground, Bool.and_eq_true, decide_eq_true_eq] at here
  exact not_or.mpr ⟨here.2, here.1.2⟩

theorem State.Located.positive (located : s.Located) (block : s.procs.pcbs r = some p) : 0 < p.pid :=
  (located.numbered.pids r p.pid (congrArg (Option.map Pcb.pid) block)).1

theorem hitsLive_iff (located : s.Located) (guarded : s.Guarded) : s.HitsLive ↔ s.Strikes := by
  obtain ⟨c, lists⟩ := located.lists
  obtain ⟨q, running⟩ := lists.current
  have strikes : s.Strikes ↔ if s.procs.isForeground q then s.Kills c q else s.heap.Grants 0 ∧ ∃ r p,
      (values s.procs.queue).find? (fun r => (s.procs.pcbs r).any s.procs.isForeground) = some r ∧
        s.procs.pcbs r = some p ∧ (s.after 1).Kills r p := by
    constructor
    · rintro ⟨c', q', current, block, here⟩
      cases lists.running.symm.trans current
      cases running.symm.trans block
      exact here
    · exact fun here => ⟨c, q, lists.running, running, here⟩
  rw [strikes]
  unfold State.HitsLive killCurrentForeground
  rw [Program.ends_bind, meets_currentPcb lists.running running, Program.ends_bind, meets_get]
  dsimp only
  by_cases own : s.procs.isForeground q = true
  · rw [if_pos own, if_pos own, Program.ends_bind]
    refine kills_iff guarded lists (List.mem_cons_self ..) running (Procs.isForeground_killable own)
      (located.positive running)
      (fun alive => ⟨.inl lists.running, q, running, own, alive⟩) fun among s' alters => ?_
    obtain ⟨ppid, running'⟩ := alters.blocks c q running
    unfold killCurrent
    rw [Program.ends_bind, meets_currentPcb (alters.lists lists).running running']
  · rw [if_neg own, if_neg own, Program.ends_bind, meets_find]
    by_cases granted : s.heap.Grants 0
    · rw [if_pos granted]
      cases found : (values s.procs.queue).find? fun r => (s.procs.pcbs r).any s.procs.isForeground with
      | none =>
        constructor
        · exact fun ends => (Program.ends_pure.mp ends).not_missed.elim
        · rintro ⟨-, r, p, none, -⟩
          cases none
      | some r =>
        have member := List.mem_of_find?_eq_some found
        have picked := List.find?_some found
        obtain ⟨p, block, foreground⟩ := (Option.any_eq_true _ _).mp picked
        have kills : (s.heap.Grants 0 ∧ ∃ r' p', some r = some r' ∧ s.procs.pcbs r' = some p' ∧
          (s.after 1).Kills r' p') ↔
            (s.after 1).Kills r p := by
          constructor
          · rintro ⟨-, r', p', ⟨⟩, block', here⟩
            cases block.symm.trans block'
            exact here
          · exact fun here => ⟨granted, r, p, rfl, block, here⟩
        have asked : s.heap.Asked 1 (s.after 1).heap := ⟨rfl, rfl, rfl⟩
        have guarded' : (s.after 1).Guarded := guarded.grown asked.grown
        rw [kills]
        dsimp only
        rw [Program.ends_bind, meets_readPcb]
        change Meets _ (lookup (s.procs.pcbs r)) _ _ ↔ _
        rw [block, meets_lookup_some, Program.ends_bind]
        refine kills_iff guarded' (by exact lists) (List.mem_cons_of_mem _ member) block
          (Procs.isForeground_killable foreground)
          (located.positive block) (fun alive => ⟨.inr member, p, block, foreground, alive⟩) fun among s' alters => ?_
        obtain ⟨ppid, block'⟩ := alters.blocks r p block
        rw [Program.ends_bind, meets_readPcb, block', meets_lookup_some]
    · rw [if_neg granted]
      constructor
      · exact fun ends => (Program.ends_pure.mp ends).not_missed.elim
      · exact fun here => (granted here.1).elim

/-! ## Every run -/

variable {grants : Nat → Bool} {garbage : Option Ref × List Ref} {allowed : State → Call → Prop} {S S₀ : System}

theorem guarded_reachable (first : Step machine (Issues allowed) (boot grants garbage) S₀) (run : Run allowed S₀ S) :
    S.state.Guarded := by
  have calls : guarding.Calls (Issues allowed) := by
    rintro s p t ⟨call, -, rfl, -⟩ guarded - -
    exact guarding_follows (every_perform guards_sweeping call) guarded
  exact (guarding.holds_run calls (guarding_boot grants garbage) (.head first run)).inv

/-- **Ctrl+C hits a live target** exactly where the one that it picks is alive, no living child of that one is
running, each of the children that are looked for is found again, and there is memory to find it. -/
theorem ctrlC_hits_iff (first : Step machine (Issues allowed) (boot grants garbage) S₀) (run : Run allowed S₀ S) :
    S.state.HitsLive ↔ S.state.Strikes :=
  hitsLive_iff (located_reachable first run) (guarded_reachable first run)

/-- Without children the loop makes no request and terminates nobody. -/
theorem State.examined_childless {refs : List Ref}
    (childless : ∀ r ∈ refs, ∀ p, s.procs.pcbs r = some p → p.ppid ≠ pid) :
    s.examined pid asked [] refs = (asked, []) := by
  induction refs generalizing asked with
  | nil => rfl
  | cons r rest ih =>
    have later := fun asked => @ih asked fun x member => childless x (List.mem_cons_of_mem _ member)
    unfold State.examined
    cases block : s.procs.pcbs r with
    | none => exact later asked
    | some p =>
      have present : s.procs.presentPpid [] p ≠ pid := by
        simpa [Procs.presentPpid] using childless r (List.mem_cons_self ..) p block
      dsimp only
      rw [if_neg present]
      exact later asked

/-- The shell is running, and its child in the foreground, which is ready, is in the queue. -/
theorem ctrlC_hits_shell : ∃ S₀ S, Step machine (Issues fun _ _ => True) (boot (fun _ => true) (none, [])) S₀ ∧
    Run (fun _ _ => True) S₀ S ∧ S.state.HitsLive := by
  have played : (play (fun _ _ => true) [.call .yield, .schedule, .call (.startTask (some 0) ["p"] 1 (some (0, 1)))]
      ⟨initState (fun _ => true) (none, []), fun _ => none, false⟩).any (fun S =>
        S.state.procs.currentProcessPCB = some 35 ∧
          (S.state.procs.pcbs 35).map S.state.procs.isForeground = some false ∧
        S.state.heap.Grants 0 ∧ S.state.heap.Grants 2 ∧
        (values S.state.procs.queue).find? (fun r => (S.state.procs.pcbs r).any S.state.procs.isForeground) = some 41 ∧
        (S.state.procs.pcbs 41).any (fun p => p.pid = 4 ∧ p.state = .ready ∧
          (S.state.sems.find p.semId).all fun sem => sem.Postable) ∧
        ∀ r ∈ 35 :: values S.state.procs.queue, (S.state.procs.pcbs r).all (·.ppid ≠ 4)) = true := by decide +kernel
  obtain ⟨S, played, observed⟩ := (Option.any_eq_true _ _).mp played
  obtain ⟨running, apart, granted, later, chosen, target, childless⟩ := of_decide_eq_true observed
  have run : Run (fun _ _ => True) _ S := play_run (fun _ _ _ => trivial) played
  obtain ⟨q, block, apart⟩ := Option.map_eq_some_iff.mp apart
  obtain ⟨p, target, here⟩ := (Option.any_eq_true _ _).mp target
  obtain ⟨pid, ready, posts⟩ := of_decide_eq_true here
  have nobody : ∀ r ∈ 35 :: values S.state.procs.queue, ∀ p', S.state.procs.pcbs r = some p' → p'.ppid ≠ p.pid := by
    intro r member p' block'
    rw [pid]
    simpa [block'] using childless r member
  have queued : ∀ r ∈ (S.state.after 1).examines, ∀ p', S.state.procs.pcbs r = some p' → p'.ppid ≠ p.pid := by
    intro r member
    refine nobody r (List.mem_cons_of_mem _ ?_)
    rw [State.examines] at member
    split at member
    · exact List.dropLast_subset _ member
    · cases member
  have first := initState_step (Issues fun _ _ => True) (fun _ => true) (none, [])
  have asked : S.state.heap.Asked 1 (S.state.after 1).heap := ⟨rfl, rfl, rfl⟩
  refine ⟨_, S, first, run, (ctrlC_hits_iff first run).mpr ⟨35, q, running, block, ?_⟩⟩
  rw [if_neg (by simp [apart])]
  have examined : (S.state.after 1).examined p.pid 1 [] (S.state.after 1).examines = (1, []) :=
    State.examined_childless queued
  refine ⟨granted, 41, p, chosen, target, ⟨.inl ready, ?_, ?_, fun sem _ found => ?_⟩, ?_, .of_childless queued⟩
  · rw [examined]
    exact List.not_mem_nil
  · rw [examined]
    exact .inr ((asked.later 1).mpr later)
  · have here : S.state.sems.find p.semId = some sem := found
    simpa [here] using posts
  · intro c p' running' block' child
    cases running.symm.trans running'
    exact (nobody 35 (List.mem_cons_self ..) p' block' child).elim

/-- The first end of a pipeline has exited and the other one has not, and the shell is running. -/
theorem ctrlC_misses : ∃ S₀ S, Step machine (Issues fun _ _ => True) (boot (fun _ => true) (none, [])) S₀ ∧
    Run (fun _ _ => True) S₀ S ∧ (∃ r, S.state.procs.Live r) ∧ ¬S.state.HitsLive := by
  have played : (play (fun _ _ => true) [.call .yield, .schedule, .call (.startTask (some 0) ["p"] 1 (some (0, 5))),
      .call (.startTask (some 0) ["p"] 1 (some (5, 1))), .call .yield, .schedule, .resume, .call .yield, .schedule,
      .call .killCurrent, .schedule, .call .yield, .schedule]
      ⟨initState (fun _ => true) (none, []), fun _ => none, false⟩).any (fun S =>
      decide (63 ∈ values S.state.procs.queue) &&
        (S.state.procs.pcbs 63).any (fun p => S.state.procs.isForeground p ∧ p.state = .ready) &&
        match killCurrentForeground.execute S.state with
        | .ok (.finished a _) => decide (a = -1)
        | _ => false) = true := by decide +kernel
  obtain ⟨S, played, observed⟩ := (Option.any_eq_true _ _).mp played
  simp only [Bool.and_eq_true] at observed
  obtain ⟨⟨queued, live⟩, missed⟩ := observed
  obtain ⟨p, block, here⟩ := (Option.any_eq_true _ _).mp live
  obtain ⟨foreground, ready⟩ := of_decide_eq_true here
  refine ⟨_, S, initState_step .., play_run (fun _ _ _ => trivial) played,
    ⟨63, .inr (of_decide_eq_true queued), p, block, foreground, .inl ready⟩, ?_⟩
  rintro ⟨outcome, ran, struck⟩
  rw [ran] at missed
  cases outcome with
  | finished a s' =>
    cases of_decide_eq_true missed
    exact struck.not_missed
  | paused rest s' => cases missed

end QuesOs.Kernel
