import QuesOs.Foreground
import QuesOs.ProcessBlocks

/-! `freeProcess` undoes `startTask`: a process that is started, killed, taken off the
queue and freed leaves the heap, the semaphores and the pipes as they were. -/
namespace QuesOs.Kernel
open Resumption

variable {bad : Fault → Prop} {s s' : State} {c r : Ref} {p q : Pcb} {fd : Int × Int}

/-! ## `startTask` -/

theorem Joined.working (joined : Joined s c pipeId console taken s') (working : Working s c) : Working s' c := by
  refine ⟨joined.ordered.sound, ?_, ?_⟩
  · rw [joined.procs]
    exact working.table.grown joined.takes.grown.requests
  · rw [joined.procs]
    exact working.running

theorem Joined.free (joined : Joined s c pipeId console taken s') (free : s.MutexFree) :
    s'.MutexFree := free.same joined.mutex

/-- What `initializeBlock` comes to, step by step. -/
inductive Initialized (s : State) (c : Ref) (fd : Int × Int) : Ref → Pcb → Node Sem → Multiset Ref → State → Prop
  | intro {r : Ref} {p : Pcb} {block input output ready : State} (allocated : Allocated s c fd r p block)
    (ordered : InOrder block c)
    (opened : Joined block c fd.1 STDIN_PIPENO taken input) (opened' : Joined input c fd.2 STDOUT_PIPENO taken' output)
    (attached : Attached output c r p x ready) :
    Initialized s c fd r { p with semId := output.sems.semId } x (taken + taken') ready

/-- The same of `startTask`. -/
inductive Started (s : State) (c : Ref) (fd : Int × Int) : Int → State → Prop
  | intro {r : Ref} {p : Pcb} {initialized ready : State} (initializes : Initialized s c fd r p x taken initialized)
    (published : Published initialized c r p args strings node ready) : Started s c fd p.pid ready

theorem Initialized.procs (initializes : Initialized s c fd r p x taken s') : s'.procs = { s.procs with
    pidCounter := s.procs.pidCounter + 1, newProcess := Function.update s.procs.newProcess c (some (r, p)) } := by
  cases initializes with
  | intro allocated ordered opened opened' attached =>
    rw [attached.procs, opened'.procs, opened.procs, allocated.procs]
    simp only [Function.update_idem]

/-- A pipe is only opened for a descriptor that is not that of the console. -/
def Piped (fd : Int × Int) : Prop := fd.1 ≠ STDIN_PIPENO ∨ fd.2 ≠ STDOUT_PIPENO

/-- Of so many pipes each can count one more process, or have its semaphores numbered, and the mutex can be put back. -/
structure State.Fits (s : State) (n : Nat) : Prop where
  counted : ∀ r p, s.pipes.pipes r = some p → p.totalProcesses + n ≤ INT_MAX
  numbered : s.sems.semId + 2 * n < INT_MAX
  mutex : ∀ m, s.mutex = some m → m.value ≤ INT_MAX

theorem State.Fits.opens (fits : s.Fits (n + 1)) (pipeId : Int) : s.Opens pipeId := by
  obtain ⟨counted, numbered, mutex⟩ := fits
  refine ⟨fun r p _ here => ?_, by omega, mutex⟩
  have := counted r p here
  omega

theorem State.Fits.same (fits : s.Fits n) (sems : s'.sems = s.sems) (pipes : s'.pipes = s.pipes) : s'.Fits n := by
  obtain ⟨counted, numbered, mutex⟩ := fits
  refine ⟨pipes ▸ counted, sems ▸ numbered, ?_⟩
  unfold State.mutex
  rw [sems, pipes]
  exact mutex

/-- What is opened is counted once. -/
theorem Joined.fits {console : Int} {n : Nat} (joined : Joined s c pipeId console taken s')
    (small : 1 + (n : Int) ≤ INT_MAX) (fits : s.Fits (n + 1)) :
    s'.Fits n := by
  obtain ⟨counted, numbered, mutex⟩ := fits
  rw [← joined.mutex] at mutex
  cases joined.joins with
  | none same =>
    refine ⟨fun r p here => ?_, by omega, mutex⟩
    have := counted r p here
    omega
  | pipe other gained =>
    cases gained with
    | joined history found drops =>
      refine ⟨fun r p here => ?_, by dsimp only; omega, mutex⟩
      rcases modify_eq_some here with ⟨rfl, pipe, there, rfl⟩ | ⟨-, there⟩
      · have := counted r pipe there
        dsimp only
        omega
      · have := counted r p there
        omega
    | @made h node a b h' history absent drops makes =>
      refine ⟨fun r p here => ?_, by dsimp only [Sems.push]; omega, mutex⟩
      rcases modify_eq_some here with ⟨rfl, pipe, there, rfl⟩ | ⟨away, there⟩
      · rcases push_eq_some there with ⟨-, rfl⟩ | ⟨away, -⟩
        · exact small
        · exact (away rfl).elim
      · rcases push_eq_some there with ⟨same, -⟩ | ⟨-, there⟩
        · exact (away same).elim
        · have := counted r p there
          omega

theorem openFor_joins (ordered : InOrder s c) (pipeId console : Int) (fits : bad .overflow ∨ s.Fits (n + 1))
    (free : pipeId ≠ console → s.MutexFree) {g : Unit → Task β} {post : β → State → Prop}
    (rest : ∀ s', (∃ taken, Joined s c pipeId console taken s') → Ends bad (g ()) post s') :
    Ends bad (if pipeId ≠ console then discard (pipeOpen pipeId) >>= g else g ()) post s :=
  Ends.whenever (fun other => pipeOpen_joins (fits.imp_right (·.opens pipeId)) ordered other (free other))
    (fun same => Joined.none ordered (not_not.mp same)) rest

/-- One more process can be counted everywhere. -/
structure State.Spacious (s : State) : Prop extends s.Fits 2 where
  pid : s.procs.pidCounter < INT_MAX

theorem initializeBlock_initializes (spacious : bad .overflow ∨ s.Spacious)
    (working : Working s c) (guarded : s.Guarded)
    (free : Piped fd → s.MutexFree) {name : String} (short : name.length < NAME_SIZE) (foreground : Int) :
    Ends bad (initializeBlock name foreground fd) (fun goes s' => goes = false ∧ s' = s ∨
      goes = true ∧ ∃ r p x taken, Initialized s c fd r p x taken s' ∧ Working s' c) s := by
  unfold initializeBlock
  apply Ends.bind (.lift ((allocateBlock_takes (spacious.imp_right State.Spacious.pid) working short foreground fd).and
    (built_allocateBlock guards_sweeping name foreground fd s guarded)))
  rintro goes block ⟨⟨rfl, rfl⟩ | ⟨rfl, r, p, allocated⟩, guarded₁⟩
  · exact .pure (.inl ⟨rfl, rfl⟩)
  have mutex : block.mutex = s.mutex := by
    unfold State.mutex
    rw [allocated.sems, allocated.pipes]
  have ordered := allocated.working.inOrder guarded₁
  have fits₁ : bad .overflow ∨ block.Fits 2 := spacious.imp_right fun spacious =>
    spacious.toFits.same allocated.sems allocated.pipes
  rw [if_pos rfl]
  apply openFor_joins ordered fd.1 STDIN_PIPENO fits₁ fun other => (free (.inl other)).same mutex
  rintro input ⟨taken, opened⟩
  have fits₂ : bad .overflow ∨ input.Fits 1 := fits₁.imp_right (opened.fits (n := 1) (by decide))
  apply openFor_joins opened.ordered fd.2 STDOUT_PIPENO fits₂ fun other =>
    (free (.inr other)).same (opened.mutex.trans mutex)
  rintro output ⟨taken', opened'⟩
  have fits₃ : bad .overflow ∨ output.Fits 0 := fits₂.imp_right (opened'.fits (n := 0) (by decide))
  have numbered : bad .overflow ∨ output.sems.semId < INT_MAX := fits₃.imp_right fun fits =>
    by simpa using fits.numbered
  have was : output.procs.newProcess c = some (r, p) := by
    rw [opened'.procs, opened.procs, allocated.procs]
    exact Function.update_self ..
  apply Ends.lift
  refine (attachSemaphore_takes numbered (opened'.working (opened.working allocated.working)) was).mono ?_
  rintro _ s' ⟨rfl, x, attached⟩
  exact .inr ⟨rfl, r, _, x, _, .intro allocated ordered opened opened' attached, attached.working⟩

theorem startTask_starts (spacious : bad .overflow ∨ s.Spacious) (working : Working s c)
    (block : s.procs.pcbs c = some q) (alive : q.state ≠ .terminated) (guarded : s.Guarded)
    (free : Piped fd → s.MutexFree) (process : Ref) {name : String} (short : name.length < NAME_SIZE)
    (named : argv.head? = some name) (foreground : Int) :
    Ends bad (startTask (some process) argv foreground (some fd)) (fun pid s' =>
      (pid = -1 ∧ s' = s ∨ Started s c fd pid s') ∧
      s'.Guarded) s := by
  refine Ends.keeps ?_ (every_startTask guards_sweeping (some process) argv foreground (some fd)) guarded
  unfold startTask
  rw [named]
  have reads : Meets bad (deref (some name)) (fun name' s' => name = name' ∧ s = s') s := ⟨rfl, rfl⟩
  apply Ends.bind (.lift reads)
  rintro _ _ ⟨rfl, rfl⟩
  have given : Meets bad (descriptorsOf (some fd)) (fun fd' s' => fd = fd' ∧ s = s') s := ⟨rfl, rfl⟩
  apply Ends.bind (.lift given)
  rintro _ _ ⟨rfl, rfl⟩
  apply (initializeBlock_initializes spacious working guarded free short foreground).bind
  rintro goes s₁ (⟨rfl, rfl⟩ | ⟨rfl, r, p, x, taken, initializes, working₁⟩)
  · exact .pure (.inl ⟨rfl, rfl⟩)
  have procs := initializes.procs
  have block₁ : s₁.procs.pcbs c = some q := by rw [procs, block]
  have was : s₁.procs.newProcess c = some (r, p) := by
    rw [procs]
    exact Function.update_self ..
  refine (fillNewProcess_takes working₁ block₁ alive was argv foreground).mono ?_
  rintro _ s₂ ⟨rfl, args, strings, node, published⟩
  exact .inr (.intro initializes published)

/-! ## Both ends of a pipe -/

/-- The semaphores of a pipe: that of its readers, and that of its writers. -/
def State.ends (s : State) (pipeId : Int) : Option (Option Sem × Option Sem) :=
  (s.pipes.find pipeId).bind fun r => (s.pipes.pipes r).map fun pipe =>
    (s.sems.find pipe.readSemId, s.sems.find pipe.writeSemId)

theorem ends_of (found : s.pipes.find pipeId = some r) (here : s.pipes.pipes r = some pipe) :
    s.ends pipeId = some (s.sems.find pipe.readSemId, s.sems.find pipe.writeSemId) := by
  unfold State.ends
  rw [found, Option.bind_some, here, Option.map_some]

/-- The semaphores of the pipes were given out. -/
def State.Numbered (s : State) : Prop :=
  ∀ r pipe, s.pipes.pipes r = some pipe → pipe.readSemId < s.sems.semId ∧ pipe.writeSemId < s.sems.semId

theorem Books.numbered (books : Books s) : s.Numbered := by
  intro r pipe here
  have card : s.pipes.card r = some pipe.card := by
    unfold Pipes.card
    rw [here, Option.map_some]
  exact ⟨books.below (.reads r) _ ⟨_, card, rfl⟩, books.below (.writes r) _ ⟨_, card, rfl⟩⟩

theorem Joins.numbered {pipeId console : Int} (joins : Joins s pipeId console taken s')
    (numbered : s.Numbered) : s'.Numbered := by
  intro x pipe' here
  cases joins with
  | none same => exact numbered x pipe' here
  | pipe other gained =>
    cases gained with
    | joined history found drops =>
      rcases modify_eq_some here with ⟨rfl, pipe, there, rfl⟩ | ⟨-, there⟩
      · exact numbered x pipe there
      · exact numbered x pipe' there
    | @made h node a b h' history absent drops makes =>
      obtain ⟨first, second⟩ : a.value.id = s.sems.semId ∧ b.value.id = s.sems.semId + 1 := makes.ids
      have fresh : ∀ pipe, pipe = Pipe.fresh pipeId a.value.id b.value.id →
          pipe.readSemId < s.sems.semId + 1 + 1 ∧ pipe.writeSemId < s.sems.semId + 1 + 1 := by
        rintro pipe rfl
        simp only [Pipe.fresh]
        omega
      have older : ∀ pipe, s.pipes.pipes x = some pipe →
          pipe.readSemId < s.sems.semId + 1 + 1 ∧ pipe.writeSemId < s.sems.semId + 1 + 1 := by
        intro pipe there
        have := numbered x pipe there
        omega
      rcases modify_eq_some here with ⟨rfl, pipe, there, rfl⟩ | ⟨-, there⟩
      · rcases push_eq_some there with ⟨-, new⟩ | ⟨-, there⟩
        · exact fresh pipe new
        · exact older pipe there
      · rcases push_eq_some there with ⟨-, new⟩ | ⟨-, there⟩
        · exact fresh pipe' new
        · exact older pipe' there

theorem hasId_modify {pipes : Pipes} {f : Pipe → Pipe} (kept : ∀ p, (f p).id = p.id) (r : Ref)
    (pipeId : Int) (x : Ref) :
    (pipes.modify r f).hasId pipeId x = pipes.hasId pipeId x := by
  unfold Pipes.hasId Pipes.modify
  by_cases this : x = r
  · subst this
    cases here : pipes.pipes x <;> simp [kept]
  · simp only [Function.update_of_ne this]

theorem find_modify_pipe {pipes : Pipes} {f : Pipe → Pipe} (kept : ∀ p, (f p).id = p.id) (r : Ref) (pipeId : Int) :
    (pipes.modify r f).find pipeId = pipes.find pipeId :=
  List.find?_congr fun x _ => hasId_modify kept r pipeId x

theorem find_push_pipe {pipes : Pipes} {node : Node Ref} {new : Pipe}
    (older : ∀ r ∈ values pipes.pipeQueue, r ≠ node.value)
    (apart : new.id ≠ pipeId) : (pipes.push node new).find pipeId = pipes.find pipeId := by
  have away : (pipes.push node new).hasId pipeId node.value = false := by simp [Pipes.hasId, Pipes.push, apart]
  have before : (values pipes.pipeQueue).find? ((pipes.push node new).hasId pipeId) = pipes.find pipeId :=
    List.find?_congr fun x listed => congrArg (Option.any fun p : Pipe => decide (p.id = pipeId))
      (Function.update_of_ne (older x listed) ..)
  unfold Pipes.find
  change (values (pipes.pipeQueue ++ [node])).find? _ = _
  rw [values, List.map_append, List.find?_append, List.map_singleton, List.find?_cons_of_neg (by simp [away]),
    List.find?_nil, Option.or_none]
  exact before

theorem modify_ids {pipes : Pipes} {f : Pipe → Pipe} (kept : ∀ p, (f p).readSemId = p.readSemId ∧
      (f p).writeSemId = p.writeSemId)
    (r : Ref) (here : pipes.pipes x = some pipe) : ∃ pipe', (pipes.modify r f).pipes x = some pipe' ∧
      pipe'.readSemId = pipe.readSemId ∧ pipe'.writeSemId = pipe.writeSemId := by
  by_cases this : x = r
  · subst this
    exact ⟨f pipe, (Function.update_self ..).trans (congrArg (Option.map f) here), kept pipe⟩
  · exact ⟨pipe, (Function.update_of_ne this ..).trans here, rfl, rfl⟩

theorem Sems.find_push_self {sems : Sems} {node : Node Sem}
    (older : ∀ sem ∈ values sems.semQueue, sem.id ≠ node.value.id) :
    (sems.push node).find node.value.id = some node.value := by
  unfold find push values
  rw [List.map_append, List.find?_append, List.find?_eq_none.mpr (by simpa [values] using older)]
  simp

/-- What keeps the pipes and the older semaphores keeps both ends. -/
theorem ends_kept (proper : s.pipes.Proper n) (numbered : s.Numbered)
    (find : s'.pipes.find pipeId = s.pipes.find pipeId)
    (kept : ∀ r pipe, s.pipes.find pipeId = some r → s.pipes.pipes r = some pipe →
      ∃ pipe', s'.pipes.pipes r = some pipe' ∧
      pipe'.readSemId = pipe.readSemId ∧ pipe'.writeSemId = pipe.writeSemId)
    (sems : ∀ id < s.sems.semId, s'.sems.find id = s.sems.find id) : s'.ends pipeId = s.ends pipeId := by
  cases found : s.pipes.find pipeId with
  | none =>
    unfold State.ends
    rw [find, found, Option.bind_none, Option.bind_none]
  | some r =>
    obtain ⟨-, pipe, here, -⟩ := pipe_find_some proper found
    obtain ⟨pipe', here', sameRead, sameWrite⟩ := kept r pipe found here
    obtain ⟨lowRead, lowWrite⟩ := numbered r pipe here
    rw [ends_of found here, ends_of (find.trans found) here', sameRead, sameWrite, sems _ lowRead, sems _ lowWrite]

/-- The semaphores of a pipe that nobody used yet. -/
structure New (a b : Sem) : Prop where
  nobody : a.blockedPids = []
  empty : a.value = 0
  room : 0 < b.value

/-- Whichever pipe is opened, nobody waits at the ends of a new one, and it has room. -/
theorem Joined.ends {console : Int} (joined : Joined s c opened console taken s')
    (ordered : InOrder s c) (numbered : s.Numbered)
    (pipeId : Int) : s'.ends pipeId = s.ends pipeId ∨
      ∃ a b, s'.ends pipeId = some (some a, some b) ∧ New a b := by
  have proper := ordered.sound.pipes
  have proper' := joined.ordered.sound.pipes
  cases joined.joins with
  | none same => exact .inl rfl
  | pipe other gained =>
    cases gained with
    | joined history found drops =>
      refine .inl (ends_kept proper numbered ?_ ?_ fun _ _ => rfl)
      · exact List.find?_congr fun x _ => hasId_modify (fun _ => by rfl) _ _ x
      · exact fun x pipe _ here => modify_ids (fun _ => ⟨by rfl, by rfl⟩) _ (by exact here)
    | @made h node a b h' history absent drops makes =>
      obtain ⟨first, second⟩ : a.value.id = s.sems.semId ∧ b.value.id = s.sems.semId + 1 := makes.ids
      have below : ∀ sem ∈ values s.sems.semQueue, sem.id < s.sems.semId :=
        fun sem member => (ordered.sound.sems.below sem member).2
      have older := makes.older drops proper
      by_cases this : pipeId = opened
      · subst this
        have listed : node.value ∈ values (s.pipes.pipeQueue ++ [node]) :=
          List.mem_map_of_mem (List.mem_append_right _ (List.mem_singleton_self _))
        have here : (((s.pipes.cache pipeId).push node (.fresh pipeId a.value.id b.value.id)).modify node.value
            fun p => { p with totalProcesses := p.totalProcesses + 1 }).pipes node.value =
            some { Pipe.fresh pipeId a.value.id b.value.id with totalProcesses := 0 + 1 } := by
          simp [Pipes.modify, Pipes.push, Pipe.fresh]
        have found := pipe_find_eq proper' (by exact listed) (hasId_iff.mpr ⟨_, here, rfl⟩)
        have foundA : ((s.sems.push a).push b).find a.value.id = some a.value := by
          rw [Sems.find_push b (by omega)]
          refine Sems.find_push_self fun sem member => ?_
          have := below sem member
          omega
        have foundB : ((s.sems.push a).push b).find b.value.id = some b.value := by
          refine Sems.find_push_self fun sem member => ?_
          rw [Sems.push, values, List.map_append, List.mem_append] at member
          rcases member with member | last
          · have := below sem member
            omega
          · obtain rfl := List.mem_singleton.mp last
            omega
        refine .inr ⟨a.value, b.value, ?_, makes.nobody.1, makes.empty, ?_⟩
        · exact (ends_of found here).trans (congrArg some (Prod.ext foundA foundB))
        · rw [makes.room]
          decide
      · refine .inl (ends_kept proper numbered ?_ ?_ fun id low => ?_)
        · exact (find_modify_pipe (fun _ => by rfl) _ _).trans (find_push_pipe (by exact older) (Ne.symm this))
        · intro x pipe found here
          have away := older x (pipe_find_some proper found).1
          exact modify_ids (fun _ => ⟨by rfl, by rfl⟩) _ ((Function.update_of_ne away ..).trans here)
        · exact (Sems.find_push b (by omega)).trans (Sems.find_push a (by omega))

theorem standing_pid (procs : Procs) (x : Ref) (pid : Int) :
    (procs.pcbs x).any (·.pid = pid) = (procs.standing x).any fun standing => decide (standing.1 = pid) := by
  unfold Procs.standing
  cases procs.pcbs x <;> rfl

/-- Processes that stand alike are found alike, and who cannot be resumed there could not be here. -/
theorem moved_alike {procs procs' : Procs} (attended : procs.Attended c q)
    (current : procs'.currentProcessPCB = procs.currentProcessPCB)
    (queue : procs'.queue = procs.queue)
    (same : ∀ x ∈ c :: values procs.queue, procs'.standing x = procs.standing x) {pid : Int}
    (inVain : procs'.moved pid newState = none) : procs.moved pid newState = none := by
  have caller : procs'.callerPid = procs.callerPid := by
    obtain ⟨q', block', here⟩ := Option.map_eq_some_iff.mp
      ((same c (List.mem_cons_self ..)).trans (congrArg (Option.map fun p : Pcb => (p.pid, p.state)) attended.block))
    unfold Procs.callerPid
    rw [current, attended.running, Option.bind_some, Option.bind_some, block', attended.block]
    exact congrArg Prod.fst here
  have target : procs'.target pid = procs.target pid := by
    unfold Procs.target Procs.process
    rw [caller, current, queue]
    congr 1
    refine List.find?_congr fun x listed => ?_
    rw [standing_pid, standing_pid, same x (List.mem_cons_of_mem _ listed)]
  by_contra moves
  obtain ⟨after, moved⟩ := Option.ne_none_iff_exists'.mp moves
  obtain ⟨x, p, found, block, notExited, notTerminated, -⟩ := moved_eq_some.mp moved
  have listed : x ∈ c :: values procs.queue := List.mem_cons.mpr (target_some attended found).1
  obtain ⟨p', block', here⟩ := Option.map_eq_some_iff.mp
    ((same x listed).trans (congrArg (Option.map fun p : Pcb => (p.pid, p.state)) block))
  have state : p'.state = p.state := congrArg Prod.snd here
  have again : procs'.moved pid newState = some (procs'.moveState x p' newState) :=
    moved_eq_some.mpr ⟨x, p', target.trans found, block', state ▸ notExited, state ▸ notTerminated, rfl⟩
  cases inVain.symm.trans again

/-! ## Off the queue -/

/-- Takes the process off the queue. -/
def unqueue (pid : Int) : K Ref := do
  let procs := (← get).procs
  let (queue, removed) ← takeElement procs.queue fun r => decide (procs.pidOf r = some pid)
  modifyProcs fun procs => { procs with queue }
  deref removed

theorem unqueue_drops (working : Working s c) (queue : s.procs.queue = older ++ [node])
    (block : s.procs.pcbs node.value = some p) :
    Meets bad (unqueue p.pid) (fun removed s' => removed = node.value ∧ ∃ h, s.heap.Drops {node.ref} h ∧
      s' = { s with heap := h, procs := { s.procs with queue := older } }) s := by
  have lists := working.lists
  have own : s.procs.pidOf node.value = some p.pid := congrArg (Option.map Pcb.pid) block
  have listed : node.value ∈ values s.procs.queue := by
    rw [queue]
    exact List.mem_map_of_mem (List.mem_append_right _ (List.mem_singleton_self _))
  have others : ∀ x ∈ older, ¬decide (s.procs.pidOf x.value = some p.pid) = true := by
    intro x member same
    have queued : x.value ∈ values s.procs.queue := by
      rw [queue]
      exact List.mem_map_of_mem (List.mem_append_left _ member)
    have one := lists.unique _ (List.mem_cons_of_mem _ queued) _ (List.mem_cons_of_mem _ listed)
      ((of_decide_eq_true same).trans own.symm)
    have once := (List.nodup_cons.mp lists.once).2
    rw [queue, values, List.map_append, List.nodup_append] at once
    exact once.2.2 _ (List.mem_map_of_mem member) _ (List.mem_singleton_self _) one
  have later :=
    @find_later _ older [] node (fun x => decide (s.procs.pidOf x.value = some p.pid)) others (decide_eq_true own)
  rw [← queue, List.append_nil] at later
  unfold unqueue
  simp only [meets_bind, meets_get]
  refine (takeElement_drops later.1).mono ?_
  rintro _ s' ⟨rfl, h, drops, rfl⟩
  rw [later.2]
  exact ⟨rfl, h, drops, rfl⟩

/-! ## `freeProcess` -/

/-- The writers of the pipe have a unit to take. -/
def State.HasRoom (s : State) (pipeId : Int) : Prop :=
  ∀ readers sem, s.ends pipeId = some (readers, some sem) → 0 < sem.value

/-- The readers of the pipe can be given one more unit. -/
def State.Signals (s : State) (pipeId : Int) : Prop :=
  ∀ sem writers, s.ends pipeId = some (some sem, writers) → sem.value < INT_MAX

/-- Those at the front of the readers of an output pipe, of whom only the last can be resumed. -/
def State.Drains (s : State) (pipeId : Int) (passed : Queue Caller) : Prop :=
  passed = [] ∨ pipeId ≠ STDOUT_PIPENO ∧ ∃ sem writers left, s.ends pipeId = some (some sem, writers) ∧
    sem.blockedPids = passed ++ left ∧
    ∀ node ∈ passed.dropLast, s.procs.moved node.value.pid .ready = none

theorem State.Passes.drains (passes : s.Passes pipe.readSemId passed) (found : s.pipes.find pipeId = some r)
    (here : s.pipes.pipes r = some pipe) (other : pipeId ≠ STDOUT_PIPENO) : s.Drains pipeId passed := by
  rcases passes with none | ⟨sem, left, there, split, inVain⟩
  · exact .inl none
  · exact .inr ⟨other, sem, _, left,
      (ends_of found here).trans (congrArg (fun readers => some (readers, _)) there), split, inVain⟩

/-- A pipe that was opened is found. -/
theorem Joined.found {console : Int} (joined : Joined s c pipeId console taken s') (other : pipeId ≠ console) :
    ∃ r, s'.pipes.find pipeId = some r := by
  have proper' := joined.ordered.sound.pipes
  cases joined.joins with
  | none same => exact (other same).elim
  | pipe _ gained =>
    cases gained with
    | joined history found drops => exact ⟨_, (find_modify_pipe (fun _ => by rfl) _ _).trans found⟩
    | @made h node a b h' history absent drops makes =>
      have listed : node.value ∈ values (s.pipes.pipeQueue ++ [node]) :=
        List.mem_map_of_mem (List.mem_append_right _ (List.mem_singleton_self _))
      refine ⟨node.value, pipe_find_eq proper' (by exact listed) ?_⟩
      refine (hasId_modify (fun _ => by rfl) _ _ _).trans ?_
      simp [Pipes.hasId, Pipes.push, Pipe.fresh]

theorem Joined.nothing {console : Int} (joined : Joined s c pipeId console taken s')
    (same : pipeId = console) : taken = 0 ∧ s' = s := by
  cases joined.joins with
  | none _ => exact ⟨rfl, rfl⟩
  | pipe other gained => exact (other same).elim

theorem freePipes_undoes {taken taken' : Multiset Ref} {block input output : State}
    (fits : bad .overflow ∨ ∀ m, s.mutex = some m → m.value ≤ INT_MAX)
    (signals : fd.2 ≠ STDOUT_PIPENO → bad .overflow ∨ s.Signals fd.2) (ordered₀ : InOrder block c)
    (counted : block.Counted)
    (opened : Joined block c fd.1 STDIN_PIPENO taken input) (opened' : Joined input c fd.2 STDOUT_PIPENO taken' output)
    (matched : output.Matches s) (ordered : InOrder s c) (free : Piped fd → s.MutexFree)
    (room : fd.2 ≠ STDOUT_PIPENO → s.HasRoom fd.2) : Ends bad (freePipes fd) (fun _ s' =>
      (∃ passed, s.Drains fd.2 passed ∧ s.heap.Drops (entryBlocks passed + taken' + taken) s'.heap) ∧
      block.Matches s' ∧ InOrder s' c) s := by
  have closes : ∀ s₂, (∃ passed, s.Drains fd.2 passed ∧ s.heap.Drops (entryBlocks passed + taken') s₂.heap) →
    input.Matches s₂ →
      InOrder s₂ c → s₂.mutex = s.mutex →
      Ends bad (if fd.1 ≠ STDIN_PIPENO then discard (pipeClose fd.1) else pure ()) (fun _ s' =>
        (∃ passed, s.Drains fd.2 passed ∧ s.heap.Drops (entryBlocks passed + taken' + taken) s'.heap) ∧
        block.Matches s' ∧ InOrder s' c) s₂ := by
    rintro s₂ ⟨passed, drains, drops⟩ matched₂ ordered₂ mutex
    split
    · rename_i other
      refine (pipeClose_undoes (mutex ▸ fits) opened.joins matched₂ ordered₀.sound.pipes counted ordered₂ other
        ((free (.inl other)).same mutex)).mono ?_
      rintro _ s' ⟨drops', matched', -, -, ordered'⟩
      exact ⟨⟨passed, drains, drops.trans drops'⟩, matched', ordered'⟩
    · rename_i same
      obtain ⟨rfl, rfl⟩ := opened.nothing (not_not.mp same)
      exact .pure ⟨⟨passed, drains, by rwa [add_zero]⟩, matched₂, ordered₂⟩
  unfold freePipes
  by_cases other : fd.2 ≠ STDOUT_PIPENO
  · rw [if_pos other]
    obtain ⟨r, found⟩ := opened'.found other
    rw [← matched.find] at found
    obtain ⟨-, pipe, here, -⟩ := pipe_find_some ordered.sound.pipes found
    have raises : Raises bad s.sems pipe.readSemId := (signals other).imp_right fun signals sem there =>
      signals sem _ ((ends_of found here).trans (congrArg (fun readers => some (readers, _)) there))
    apply (pipePutchar_flushes raises ordered found here (fun sem there => ?_) (-1)).bind
    · rintro _ s₁ ⟨⟨passed, passes, drops⟩, matched₁, mutex, ordered₁⟩
      apply (pipeClose_undoes (mutex ▸ fits) opened'.joins (matched.trans matched₁) opened.ordered.sound.pipes
        (opened.joins.counted counted) ordered₁ other ((free (.inr other)).same mutex)).bind
      rintro _ s₂ ⟨drops₂, matched₂, -, mutex₂, ordered₂⟩
      exact closes s₂ ⟨passed, passes.drains found here other, drops.trans drops₂⟩ matched₂ ordered₂
        (mutex₂.trans mutex)
    · exact room other _ sem ((ends_of found here).trans (congrArg (fun writers => some (_, writers)) there))
  · rw [if_neg other]
    obtain ⟨rfl, rfl⟩ := opened'.nothing (not_not.mp other)
    exact closes s ⟨[], .inl rfl, .refl _⟩ matched ordered rfl

theorem freeBlocks_drops (ordered : InOrder s c) (process : Ref) (p : Pcb) :
    Meets bad (freeBlocks process p) (fun _ s' =>
    s.heap.Drops ({p.stack} + {process}) s'.heap ∧ s'.sems = s.sems ∧ s'.pipes = s.pipes) s := by
  obtain ⟨q, attended⟩ := ordered.attended
  unfold freeBlocks
  rw [meets_bind, meets_currentPcb attended.running attended.block]
  simp only [meets_bind, meets_modifyProcs, meets_free]
  exact ⟨(s.heap.drops_release _).trans (Heap.drops_release _ _), rfl, rfl⟩

theorem State.Matches.same (sems : s'.sems = s.sems) (pipes : s'.pipes = s.pipes) : s.Matches s' := by
  refine ⟨?_, congrArg Pipes.pipeQueue pipes, fun r _ => congrArg (Pipes.card · r) pipes⟩
  rw [sems]
  exact .refl s.sems

theorem State.Drains.back {start : State} (drains : s.Drains pipeId passed)
    (ends : s.ends pipeId = start.ends pipeId ∨ ∃ a b, s.ends pipeId = some (some a, some b) ∧ New a b)
    (inVain : ∀ pid, s.procs.moved pid .ready = none → start.procs.moved pid .ready = none) :
    start.Drains pipeId passed := by
  rcases drains with none | ⟨other, sem, writers, left, here, split, unmoved⟩
  · exact .inl none
  rcases ends with same | ⟨a, b, there, new⟩
  · exact .inr ⟨other, sem, writers, left, same ▸ here, split, fun node member => inVain _ (unmoved node member)⟩
  · cases there.symm.trans here
    rw [new.nobody] at split
    exact .inl (List.append_eq_nil_iff.mp split.symm).1

theorem State.HasRoom.later {start : State} (room : start.HasRoom pipeId)
    (ends : s.ends pipeId = start.ends pipeId ∨ ∃ a b, s.ends pipeId = some (some a, some b) ∧ New a b) :
    s.HasRoom pipeId := by
  intro readers sem here
  rcases ends with same | ⟨a, b, there, new⟩
  · exact room readers sem (same ▸ here)
  · cases there.symm.trans here
    exact new.room

theorem State.Signals.later {start : State} (signals : start.Signals pipeId)
    (ends : s.ends pipeId = start.ends pipeId ∨ ∃ a b, s.ends pipeId = some (some a, some b) ∧ New a b) :
    s.Signals pipeId := by
  intro sem writers here
  rcases ends with same | ⟨a, b, there, new⟩
  · exact signals sem writers (same ▸ here)
  · cases there.symm.trans here
    rw [new.empty]
    decide

theorem freeProcess_undoes {taken taken' : Multiset Ref} {start block input output : State}
    (fits : bad .overflow ∨ ∀ m, output.mutex = some m → m.value ≤ INT_MAX)
    (signals : fd.2 ≠ STDOUT_PIPENO → bad .overflow ∨ start.Signals fd.2) (ordered₀ : InOrder block c)
    (counted : block.Counted) (opened : Joined block c fd.1 STDIN_PIPENO taken input)
    (opened' : Joined input c fd.2 STDOUT_PIPENO taken' output) (numbered : output.Numbered)
    (free : Piped fd → output.MutexFree)
    (ends : output.ends fd.2 = start.ends fd.2 ∨
      ∃ a b, output.ends fd.2 = some (some a, some b) ∧ New a b)
    (room : fd.2 ≠ STDOUT_PIPENO → start.HasRoom fd.2) (inVain : ∀ pid, s.procs.moved pid .ready = none →
      start.procs.moved pid .ready = none)
    (fresh : Fresh output 0 x h) (ordered : InOrder s c) (sems : s.sems = output.sems.push x)
    (pipes : s.pipes = output.pipes)
    (descriptors : p.fileDescriptors = fd) (own : p.semId = output.sems.semId) {args : Ref} {strings : List Ref}
    (arguments : p.arguments = some (some args, strings)) : Ends bad (freeProcess r p) (fun _ s' =>
      (∃ passed, start.Drains fd.2 passed ∧ s.heap.Drops
        (strings + {args} + semBlocks x + (entryBlocks passed + taken' + taken) + ({p.stack} + {r})) s'.heap) ∧
        block.Matches s') s := by
  have queue : s.sems.semQueue = output.sems.semQueue ++ [x] := by
    rw [sems]
    rfl
  have built := built_freeArguments guards_sweeping.toElementary p s ordered.guarded
  unfold freeProcess
  apply Ends.bind_get
  apply Ends.bind
    (.lift ((freeArguments_drops ordered arguments queue (fresh.id.trans own.symm) fresh.nobody fresh.value).and built))
  rintro _ s₁ ⟨⟨h₁, sems₁, history₁, drops₁, without, same⟩, guarded₁⟩
  have pipes₁ : s₁.pipes = output.pipes := by
    rw [same]
    exact pipes
  have kept : ∀ id < output.sems.semId, s₁.sems.find id = output.sems.find id := by
    intro id low
    have apart : id ≠ x.value.id := by
      rw [fresh.id]
      exact Int.ne_of_lt low
    rw [same]
    change sems₁.find id = _
    rw [without.others id (by omega), sems, Sems.find_push x apart]
  have ordered₁ : InOrder s₁ c := by
    have sound := ordered.sound
    have attended := ordered.attended
    subst same
    exact ⟨⟨sound.grants.withHeap drops₁.grown, (without.proper _ sound.sems).grown drops₁.grown.requests,
      sound.pipes.grown drops₁.grown.requests⟩, guarded₁, attended⟩
  have ends₁ : s₁.ends fd.2 = output.ends fd.2 := by
    refine ends_kept opened'.ordered.sound.pipes numbered (by rw [pipes₁]) (fun r pipe _ here => ?_) kept
    exact ⟨pipe, pipes₁ ▸ here, rfl, rfl⟩
  have matched₁ : output.Matches s₁ := by
    refine ⟨?_, by rw [pipes₁], fun r _ => by rw [pipes₁]⟩
    rw [same]
    exact without.same
  have mutex₁ : s₁.mutex = output.mutex := by
    unfold State.mutex
    rw [pipes₁, kept _ opened'.ordered.guarded.sems.early.2]
  rw [← ends₁] at ends
  rw [descriptors]
  apply (freePipes_undoes (mutex₁ ▸ fits) (fun other => (signals other).imp_right (·.later ends))
    ordered₀ counted opened opened'
    matched₁ ordered₁ (fun piped => (free piped).same mutex₁) fun other => (room other).later ends).bind
  rintro _ s₂ ⟨⟨passed, drains, drops₂⟩, matched₂, ordered₂⟩
  apply Ends.bind_get
  have logged : Meets bad (log (.reaped p (s.pipes, s.sems) (s₂.pipes, s₂.sems))) (fun _ s₃ =>
    ∃ history, s₃ = { s₂ with history }) s₂ :=
    ⟨_, rfl⟩
  apply Ends.bind (.lift logged)
  rintro _ _ ⟨history₂, rfl⟩
  apply Ends.lift
  have sound₂ := ordered₂.sound
  have ordered₃ : InOrder { s₂ with history := history₂ } c :=
    ⟨⟨sound₂.grants, sound₂.sems, sound₂.pipes⟩, ⟨ordered₂.guarded.sems, ordered₂.guarded.pipes⟩, ordered₂.attended⟩
  refine (freeBlocks_drops ordered₃ r p).mono ?_
  rintro _ s' ⟨drops₃, sems', pipes'⟩
  have heap₁ : s₁.heap = h₁ := by rw [same]
  rw [heap₁] at drops₂
  refine ⟨⟨passed, drains.back ends (same ▸ inVain), (drops₁.trans drops₂).trans drops₃⟩, ?_⟩
  exact matched₂.trans (.same sems' pipes')

/-! ## Together -/

/-- The process is killed, and taken off the queue. -/
def terminateAndUnqueue (pid : Int) : K Ref := do
  discard <| changeState pid .terminated
  unqueue pid

/-- A process is started, killed, taken off the queue and freed. -/
def startAndFree (process : Ref) (argv : List String) (foreground : Int) (fd : Int × Int) : Task Unit := do
  let pid ← startTask (some process) argv foreground (some fd)
  if pid = -1 then return
  else
    let removed ← terminateAndUnqueue pid
    freeProcess removed (← readPcb removed)

/-- Nothing is left of the process: the semaphores and the pipes are the same, and so
are the live blocks, each as often, but for the entries of readers of the output pipe
that were taken off its queue. -/
structure Undone (s : State) (pipeId : Int) (s' : State) : Prop where
  matched : s.Matches s'
  blocks : ∃ passed, s.Drains pipeId passed ∧ s.heap.Drops (entryBlocks passed) s'.heap

/-- What was taken is given back, and some more. -/
theorem Heap.Takes.undone {h h' h'' : Heap} {taken dropped more : Multiset Ref} (takes : h.Takes taken h')
    (drops : h'.Drops dropped h'')
    (same : dropped = taken + more) : h.Drops more h'' := by
  refine ⟨takes.grown.trans drops.grown, ?_⟩
  rw [drops.blocks, takes.blocks, same, add_comm h.blocks taken]
  exact add_tsub_add_eq_tsub_left ..

/-- What comes of a process that was started, until it is freed. -/
structure Doomed (s : State) (c r : Ref) (p : Pcb) (node : Node Ref) (s' : State) : Prop where
  drops : s.heap.Drops {node.ref} s'.heap
  sems : s'.sems = s.sems
  pipes : s'.pipes = s.pipes
  queue : s.procs.queue = s'.procs.queue ++ [node]
  current : s'.procs.currentProcessPCB = some c
  block : ∃ ppid, s'.procs.pcbs r = some { p with ppid, state := .terminated }
  others : ∀ x ≠ r, s'.procs.standing x = s.procs.standing x
  ordered : InOrder s' c

theorem terminate_dooms (working : Working s c) (guarded : s.Guarded)
    (queue : s.procs.queue = older ++ [node]) (here : node.value = r)
    (block : s.procs.pcbs r = some p) (alive : p.state ≠ .terminated) :
    Meets bad (terminateAndUnqueue p.pid) (fun removed s' => r = removed ∧ Doomed s c r p node s') s := by
  have queued : r ∈ values s.procs.queue := by
    rw [queue, ← here]
    exact List.mem_map_of_mem (List.mem_append_right _ (List.mem_singleton_self _))
  unfold terminateAndUnqueue
  rw [meets_bind, meets_discard]
  refine ((terminate_buries working queued block alive).and
    (built_changeState guards_sweeping.toElementary p.pid .terminated s guarded)).mono ?_
  rintro _ s₁ ⟨buried, guarded₁⟩
  obtain ⟨ppid, block₁⟩ := buried.block
  refine (unqueue_drops (p := { p with ppid, state := .terminated }) buried.working (buried.queue.trans queue)
    (here ▸ block₁)).mono ?_
  rintro _ s' ⟨rfl, h, drops, rfl⟩
  have ordered := (buried.working.inOrder guarded₁).withHeap drops.grown
  obtain ⟨q, attended⟩ := ordered.attended
  refine ⟨here.symm, buried.drops.after drops, buried.sems, buried.pipes, queue, attended.running,
    ⟨ppid, block₁⟩, buried.others,
    ⟨ordered.sound.grants, ordered.sound.sems, ordered.sound.pipes⟩, ⟨ordered.guarded.sems, ordered.guarded.pipes⟩,
    q, attended.running, attended.block, fun x listed => attended.queue x ?_, attended.pids⟩
  rw [withHeap_procs, buried.queue, queue, values, List.map_append]
  exact List.mem_append_left _ listed

theorem Initialized.making (initializes : Initialized s c fd r p x taken s') : Working s' c ∧
    p.state = .ready ∧ s'.procs.pcbs r = none := by
  have was : s'.procs.newProcess c = some (r, p) := by
    rw [initializes.procs]
    exact Function.update_self ..
  cases initializes with
  | intro allocated ordered opened opened' attached =>
    have table := attached.working.table
    exact ⟨attached.working, table.newReady c r _ was, (table.newApart c r _ was).1⟩

theorem Books.open_counted (books : Books s) : s.Counted := by
  intro r p here isOpen
  have card : s.pipes.card r = some p.card := congrArg (Option.map Pipe.card) here
  exact (books.counted r _ card isOpen).2

/-- Who cannot be resumed while the dead process is off the queue could not be before it was started. -/
theorem Doomed.inVain (working : Working s c) (initializes : Initialized s c fd r p x taken initialized)
    (published : Published initialized c r p args strings node ready) (doomed : Doomed ready c r p' node s') (pid : Int)
    (unmoved : s'.procs.moved pid .ready = none) : s.procs.moved pid .ready = none := by
  obtain ⟨q, attended⟩ := working.attended
  have procs₀ := initializes.procs
  obtain ⟨ppid, procs₁⟩ := published.procs
  obtain ⟨-, -, absent⟩ := initializes.making
  rw [procs₀] at absent
  have queue₁ : ready.procs.queue = s.procs.queue ++ [node] := by rw [procs₁, procs₀]
  have queue₂ : s'.procs.queue = s.procs.queue := (List.append_inj_left' (queue₁.symm.trans doomed.queue) rfl).symm
  refine moved_alike attended (doomed.current.trans attended.running.symm) queue₂ (fun y member => ?_) unmoved
  have other : y ≠ r := by
    rintro rfl
    exact working.lists.blocks _ member absent
  rw [doomed.others y other, procs₁, procs₀]
  exact congrArg (Option.map fun p : Pcb => (p.pid, p.state)) (Function.update_of_ne other ..)

theorem freeProcess_doomed (fits : bad .overflow ∨ s.Spacious)
    (signals : fd.2 ≠ STDOUT_PIPENO → bad .overflow ∨ s.Signals fd.2)
    (working : Working s c) (books : Books s) (free : Piped fd → s.MutexFree)
    (room : fd.2 ≠ STDOUT_PIPENO → s.HasRoom fd.2) (initializes : Initialized s c fd r p x taken initialized)
    {args : Ref} {strings : List Ref} (published : Published initialized c r p args strings node ready)
    (doomed : Doomed ready c r { p with arguments := some (some args, strings), ppid } node s') (ppid' : Int) :
    Ends bad (freeProcess r { p with arguments := some (some args, strings), ppid := ppid', state := .terminated })
      (fun _ => Undone s fd.2) s' := by
  have inVain := doomed.inVain working initializes published
  cases initializes with
  | @intro taken₁ taken₂ x r p block input output ready allocated ordered opened opened' attached =>
    have same : s.ends = block.ends := by
      unfold State.ends
      rw [allocated.sems, allocated.pipes]
    have numbered : block.Numbered := by
      unfold State.Numbered
      rw [allocated.sems, allocated.pipes]
      exact books.numbered
    have counted : block.Counted := by
      unfold State.Counted
      rw [allocated.pipes]
      exact books.open_counted
    have mutex : block.mutex = s.mutex := by
      unfold State.mutex
      rw [allocated.sems, allocated.pipes]
    have mutex₂ : output.mutex = s.mutex := opened'.mutex.trans (opened.mutex.trans mutex)
    have numbered₁ := opened.joins.numbered numbered
    have ends : output.ends fd.2 = s.ends fd.2 ∨
        ∃ a b, output.ends fd.2 = some (some a, some b) ∧ New a b := by
      rw [same]
      rcases opened'.ends opened.ordered numbered₁ fd.2 with kept | new
      · rw [kept]
        exact opened.ends ordered numbered fd.2
      · exact .inr new
    obtain ⟨h, fresh⟩ := attached.fresh
    refine Ends.mono (freeProcess_undoes
      (p := { p with semId := output.sems.semId, arguments := some (some args, strings), ppid := ppid',
                     state := .terminated })
      (mutex₂ ▸ fits.imp_right (·.mutex)) signals ordered counted opened opened' (opened'.joins.numbered numbered₁)
      (fun piped => opened'.free (opened.free ((free piped).same mutex))) ends room inVain fresh doomed.ordered
      (doomed.sems.trans (published.sems.trans attached.sems))
      (doomed.pipes.trans (published.pipes.trans attached.pipes))
      allocated.fileDescriptors rfl rfl) ?_
    rintro _ s'' ⟨⟨passed, drains, drops⟩, matched⟩
    refine ⟨(State.Matches.same allocated.sems allocated.pipes).trans matched, passed, drains, ?_⟩
    have takes :=
      (((allocated.takes.trans opened.takes).trans opened'.takes).trans attached.takes).trans published.takes
    refine takes.undone (doomed.drops.trans drops) ?_
    abel

theorem startAndFree_undoes (spacious : bad .overflow ∨ s.Spacious)
    (signals : fd.2 ≠ STDOUT_PIPENO → bad .overflow ∨ s.Signals fd.2) (working : Working s c)
    (block : s.procs.pcbs c = some q) (alive : q.state ≠ .terminated) (guarded : s.Guarded)
    (books : Books s) (free : Piped fd → s.MutexFree) (room : fd.2 ≠ STDOUT_PIPENO → s.HasRoom fd.2)
    (process : Ref) {name : String}
    (short : name.length < NAME_SIZE) (named : argv.head? = some name) (foreground : Int) :
    Ends bad (startAndFree process argv foreground fd) (fun _ => Undone s fd.2) s := by
  unfold startAndFree
  apply (startTask_starts spacious working block alive guarded free process short named foreground).bind
  rintro pid s₁ ⟨⟨rfl, rfl⟩ | started, guarded₁⟩
  · exact .pure ⟨.refl _, [], .inl rfl, .refl _⟩
  cases started with
  | @intro x taken args strings node r p initialized ready initializes published =>
    obtain ⟨-, isReady, -⟩ := initializes.making
    obtain ⟨ppid, procs₁⟩ := published.procs
    have block₁ : s₁.procs.pcbs r = some { p with arguments := some (some args, strings), ppid } := by
      rw [procs₁]
      exact Function.update_self ..
    have queue₁ : s₁.procs.queue = s.procs.queue ++ [node] := by rw [procs₁, initializes.procs]
    have valid : p.pid ≠ -1 := by
      have positive : 0 < p.pid := (published.working.table.pids r _ block₁).1
      omega
    rw [if_neg valid]
    apply Ends.bind
      (.lift (terminate_dooms published.working guarded₁ queue₁ published.here block₁ (by simp [isReady])))
    rintro _ s₂ ⟨rfl, doomed⟩
    obtain ⟨ppid', block₂⟩ := doomed.block
    have read : Meets bad (readPcb r) (fun p' s' =>
        { p with arguments := some (some args, strings), ppid := ppid', state := .terminated } = p' ∧ s₂ = s') s₂ := by
      rw [meets_readPcb, block₂, meets_lookup_some]
      exact ⟨rfl, rfl⟩
    apply Ends.bind (.lift read)
    rintro _ _ ⟨rfl, rfl⟩
    exact freeProcess_doomed spacious signals working books free room initializes published doomed ppid'

/-- While the mutex of the pipes is held, a process that is ready leaves its turn in `pipeOpen`. -/
theorem pipeOpen_held (sound : Sound s) (attended : s.procs.Attended c p)
    (ready : p.state = .ready) (held : ¬s.MutexFree)
    (pipeId : Int) {post : Unit → State → State → Prop} : (discard (pipeOpen pipeId) : Task Unit).Meets bad
      (fun _ s' => ¬s'.MutexFree) (fun _ _ => False) post since s := by
  obtain ⟨m, there, empty⟩ : ∃ m, s.mutex = some m ∧ m.value ≤ 0 := by
    unfold State.MutexFree at held
    push Not at held
    exact held
  unfold pipeOpen
  rw [Program.meets_discard, Program.meets_bind, Program.meets_lift, meets_get,
    Program.meets_bind, Program.meets_discard]
  refine Program.Meets.weaken (semWait_leaves sound attended ready there empty) (fun _ s' stops =>
    ?_) (fun _ _ never => never)
    fun _ _ _ same => same
  obtain ⟨pipes, m', there', empty'⟩ := stops
  intro free
  have positive := free m' ((congrArg s'.sems.find (congrArg Pipes.allPipesSem pipes)).trans there')
  omega

/-- Where a pipe is wanted and the mutex is held, `initializeBlock` waits before it has more than the block. -/
theorem initializeBlock_held (spacious : bad .overflow ∨ s.Spacious) (working : Working s c)
    (block : s.procs.pcbs c = some q) (ready : q.state = .ready) (piped : Piped fd)
    (held : ¬s.MutexFree) {name : String} (short : name.length < NAME_SIZE) (foreground : Int) :
    (initializeBlock name foreground fd).Meets bad (fun _ s' => ¬s'.MutexFree)
      (fun _ _ => False) (fun goes _ s' => goes = false ∧ s' = s) since s := by
  unfold initializeBlock
  rw [Program.meets_bind, Program.meets_lift]
  refine (allocateBlock_takes (spacious.imp_right State.Spacious.pid) working short foreground fd).mono ?_
  rintro goes s₁ (⟨rfl, rfl⟩ | ⟨rfl, r, p, allocated⟩)
  · exact ⟨rfl, rfl⟩
  have block₁ : s₁.procs.pcbs c = some q := by rw [allocated.procs, block]
  have held₁ : ¬s₁.MutexFree :=
    fun free => held (free.same (by unfold State.mutex; rw [allocated.sems, allocated.pipes]))
  obtain ⟨q', attended⟩ := allocated.working.attended
  cases attended.block.symm.trans block₁
  rw [if_pos rfl]
  by_cases first : fd.1 ≠ STDIN_PIPENO
  · rw [if_pos first, Program.meets_bind]
    exact pipeOpen_held allocated.working.sound attended ready held₁ fd.1
  · rw [if_neg first, if_pos (piped.resolve_left first), Program.meets_bind]
    exact pipeOpen_held allocated.working.sound attended ready held₁ fd.2

theorem startAndFree_held (spacious : bad .overflow ∨ s.Spacious) (working : Working s c)
    (block : s.procs.pcbs c = some q) (ready : q.state = .ready) (piped : Piped fd)
    (held : ¬s.MutexFree) (process : Ref) {name : String} (short : name.length < NAME_SIZE)
    (named : argv.head? = some name)
    (foreground : Int) : (startAndFree process argv foreground fd).Meets bad (fun _ s' =>
      ¬s'.MutexFree) (fun _ _ => False)
      (fun _ _ s' => Undone s fd.2 s') since s := by
  unfold startAndFree startTask descriptorsOf
  rw [Program.meets_bind, if_neg (by simp), named, Program.meets_bind, Program.meets_lift,
    meets_deref_some, Program.meets_bind,
    Program.meets_lift, meets_pure, Program.meets_bind]
  refine (initializeBlock_held spacious working block ready piped held short foreground).mono ?_
  rintro goes _ s₁ ⟨rfl, rfl⟩
  exact ⟨.refl _, [], .inl rfl, .refl _⟩

/-! ## After boot -/

/-- The state with other live blocks. -/
def State.withLive (s : State) (live : List Ref) : State := s.withHeap { s.heap with live }

theorem Working.withLive (working : Working s c) (live : List Ref) : Working (s.withLive live) c :=
  ⟨⟨working.sound.grants, working.sound.sems, working.sound.pipes⟩, working.table, working.running⟩

theorem Books.withLive (books : Books s) (live : List Ref) : Books (s.withLive live) :=
  ⟨books.counted, books.absent, books.semaphores, books.positive, books.below, books.apart⟩

/-- Every counter that the process raises can be raised. -/
structure State.HasCounts (s : State) (fd : Int × Int) : Prop extends s.Spacious where
  signals : fd.2 ≠ STDOUT_PIPENO → s.Signals fd.2

/-- **`freeProcess` undoes `startTask`**, whichever blocks are live: a process that is started, killed, taken
off the queue and freed leaves the semaphores, the pipes and their counts as they were, and the live blocks,
each as often, but for entries of those who wait to read from its output pipe, of whom only the last can be
resumed. Nothing else fails than a counter that was full; where a pipe is wanted and the mutex of the pipes is
held, `startTask` may wait for it. -/
theorem freeProcess_undoes_startTask (run : Run allowed (boot (fun _ => true) garbage) S)
    (due : S.due = false) (process : Ref)
    {name : String} (short : name.length < NAME_SIZE) (arguments : List String) (foreground : Int) (fd : Int × Int)
    (room : fd.2 ≠ STDOUT_PIPENO → S.state.HasRoom fd.2) (live : List Ref) :
    (∃ s', (startAndFree process (name :: arguments) foreground fd).execute (S.state.withLive live) =
      .ok (.finished () s') ∧
      Undone (S.state.withLive live) fd.2 s') ∨
    (Piped fd ∧ ¬S.state.MutexFree ∧ ∃ rest s',
      (startAndFree process (name :: arguments) foreground fd).execute (S.state.withLive live) =
      .ok (.paused rest s')) ∨
    (startAndFree process (name :: arguments) foreground fd).execute (S.state.withLive live) = .error .overflow ∧
      ¬S.state.HasCounts fd := by
  have holds := holds_reachable run
  obtain ⟨c, pid, running, q, block, ready, -⟩ := holds.turn due
  have ordered : Ordered S.state := holds.inv
  have working := (Working.mk ordered.sound ordered.table running).withLive live
  have guarded : S.state.Guarded := by
    rcases Relation.ReflTransGen.cases_head run with rfl | ⟨S₀, first, rest⟩
    · cases due
    · exact guarded_reachable first rest
  have books := (books_reachable run).withLive live
  have named : (name :: arguments).head? = some name := rfl
  -- What does not fit may overflow, and nothing else may fail.
  let bad : Fault → Prop := fun fault => fault = .overflow ∧ ¬S.state.HasCounts fd
  have fits : bad .overflow ∨ S.state.HasCounts fd := (em' _).imp_left fun full => ⟨rfl, full⟩
  have spacious : bad .overflow ∨ (S.state.withLive live).Spacious :=
    fits.imp_right fun fits => ⟨⟨fits.counted, fits.numbered, fits.mutex⟩, fits.pid⟩
  have signals : fd.2 ≠ STDOUT_PIPENO → bad .overflow ∨ (S.state.withLive live).Signals fd.2 :=
    fun other => fits.imp_right fun fits => fits.signals other
  by_cases held : Piped fd ∧ ¬S.state.MutexFree
  · have meets : Program.Meets bad _ _ _ _ (S.state.withLive live) (S.state.withLive live) :=
      startAndFree_held spacious working (by exact block) ready held.1 (by exact held.2) process short named foreground
    rcases meets.ends with ⟨outcome, ran, comes⟩ | ⟨fault, failed, rfl, full⟩
    · cases outcome with
      | finished _ s' => exact .inl ⟨s', ran, comes⟩
      | paused rest s' => exact .inr (.inl ⟨held.1, held.2, rest, s', ran⟩)
    · exact .inr (.inr ⟨failed, full⟩)
  · have free : Piped fd → S.state.MutexFree := fun piped => not_not.mp fun not => held ⟨piped, not⟩
    have undone : Ends bad _ _ _ :=
      startAndFree_undoes spacious signals working (by exact block) (by rw [ready]; decide)
      ⟨guarded.sems, guarded.pipes⟩ books (by exact free) (by exact room) process short named foreground
    rcases (undone (S.state.withLive live)).ends with ⟨outcome, ran, comes⟩ | ⟨fault, failed, rfl, full⟩
    · cases outcome with
      | finished _ s' => exact .inl ⟨s', ran, comes⟩
      | paused rest s' => exact comes.1.elim
    · exact .inr (.inr ⟨failed, full⟩)

theorem freeProcess_undoes_first : (∃ s', (startAndFree 0 ["cat", "file"] 0 (0, 7)).execute
      ((initState (fun _ => true) (none, [])).withLive [5, 5]) = .ok (.finished () s') ∧
      Undone ((initState (fun _ => true) (none, [])).withLive [5, 5]) 7 s') ∨
    (Piped (0, 7) ∧ ¬(initState (fun _ => true) (none, [])).MutexFree ∧ ∃ rest s',
      (startAndFree 0 ["cat", "file"] 0 (0, 7)).execute ((initState (fun _ => true) (none, [])).withLive [5, 5]) =
        .ok (.paused rest s')) ∨
    (startAndFree 0 ["cat", "file"] 0 (0, 7)).execute
    ((initState (fun _ => true) (none, [])).withLive [5, 5]) = .error .overflow ∧
      ¬(initState (fun _ => true) (none, [])).HasCounts (0, 7) := by
  have run : Run (fun _ _ => True) (boot (fun _ => true) (none, [])) ⟨initState (fun _ => true) (none, []),
    fun _ => none, false⟩ :=
    .single (initState_step _ _ _)
  have absent : (initState (fun _ => true) (none, [])).pipes.find 7 = none := by decide
  have room : (initState (fun _ => true) (none, [])).HasRoom 7 := by
    intro readers sem ends
    unfold State.ends at ends
    rw [absent] at ends
    cases ends
  exact freeProcess_undoes_startTask run rfl 0 (by decide) ["file"] 0 (0, 7) (fun _ => room) [5, 5]

end QuesOs.Kernel
