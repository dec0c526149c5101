import QuesOs.Children
import QuesOs.PipeBlocks

/-! What `startTask` takes from the heap, and what `freeProcess` gives back: the block
of the process and its stack, its semaphore, its arguments, its node in the queue,
and the pipes that were made for it. -/
namespace QuesOs.Kernel
open Resumption

variable {bad : Fault → Prop} {s s' s₁ s₂ : State} {c r : Ref} {p q : Pcb}

/-! ## The kernel in between -/

/-- The kernel is in order, and the process `c` is running. -/
structure InOrder (s : State) (c : Ref) : Prop where
  sound : Sound s
  guarded : s.Guarded
  attended : ∃ q, s.procs.Attended c q

/-- Nobody who opens or closes a pipe waits. -/
def State.MutexFree (s : State) : Prop := ∀ m, s.mutex = some m → 0 < m.value

theorem Working.inOrder (working : Working s c) (guarded : s.Guarded) : InOrder s c :=
  ⟨working.sound, guarded, working.attended⟩

theorem InOrder.atRest (ordered : InOrder s c) (free : s.MutexFree) : AtRest s :=
  ⟨ordered.sound, ordered.guarded, ⟨c, ordered.attended⟩, free⟩

theorem AtRest.inOrder (atRest : AtRest s') (ordered : InOrder s c) (same : s'.procs = s.procs) : InOrder s' c :=
  ⟨atRest.sound, atRest.guarded, same ▸ ordered.attended⟩

theorem InOrder.withHeap (ordered : InOrder s c) (grown : s.heap.Grown h) : InOrder (s.withHeap h) c :=
  ⟨⟨ordered.sound.grants.withHeap grown, ordered.sound.sems.grown grown.requests,
    ordered.sound.pipes.grown grown.requests⟩,
    ordered.guarded.grown grown, ordered.attended⟩

theorem State.MutexFree.same (free : s.MutexFree) (mutex : s'.mutex = s.mutex) : s'.MutexFree :=
  fun m there => free m (mutex.symm.trans there)

/-! ## Pipes -/

/-- A program is run under a condition, and what follows in any case. -/
theorem Ends.whenever {β : Type} {P : Prop} [Decidable P] {f : Task Unit} {g : Unit → Task β} {middle : State → Prop}
    {post : β → State → Prop} (first : P → Ends bad f (fun _ => middle) s) (skip : ¬P → middle s)
    (rest : ∀ s', middle s' → Ends bad (g ()) post s') : Ends bad (if P then f >>= g else g ()) post s := by
  split
  · exact (first (by assumption)).bind fun _ => rest
  · exact rest s (skip (by assumption))

/-- What is opened for a descriptor, which is nothing for that of the console. -/
inductive Joins (s : State) (pipeId console : Int) : Multiset Ref → State → Prop
  | none (same : pipeId = console) : Joins s pipeId console 0 s
  | pipe {after : State} (other : pipeId ≠ console) (gained : Gained s pipeId taken after) :
    Joins s pipeId console taken after

/-- Open pipes have been opened more often than closed. -/
def State.Counted (s : State) : Prop := ∀ r p, s.pipes.pipes r = some p → p.freed = false → 0 < p.totalProcesses

/-- The same with one more descriptor. -/
structure Joined (s : State) (c : Ref) (pipeId console : Int) (taken : Multiset Ref) (s' : State) : Prop where
  takes : s.heap.Takes taken s'.heap
  joins : Joins s pipeId console taken s'
  ordered : InOrder s' c
  procs : s'.procs = s.procs
  mutex : s'.mutex = s.mutex

theorem pipeOpen_joins {pipeId console : Int} (within : bad .overflow ∨ s.Opens pipeId) (ordered : InOrder s c)
    (other : pipeId ≠ console) (free : s.MutexFree) :
    Ends bad (discard (pipeOpen pipeId) : Task Unit) (fun _ s' => ∃ taken, Joined s c pipeId console taken s') s := by
  have atRest := ordered.atRest free
  apply Ends.discard
  refine (pipeOpen_gains within atRest).mono ?_
  rintro _ s' ⟨⟨taken, takes, gained⟩, atRest'⟩
  obtain ⟨procs, -, mutex⟩ := gained.mutex atRest
  exact ⟨taken, takes, .pipe other gained, atRest'.inOrder ordered procs, procs, mutex⟩

theorem Joined.none (ordered : InOrder s c) {pipeId console : Int} (same : pipeId = console) :
    ∃ taken, Joined s c pipeId console taken s :=
  ⟨0, (Heap.Drops.refl _).nothing, .none same, ordered, rfl, rfl⟩

theorem modify_eq_some {pipes : Pipes} {f : Pipe → Pipe} (here : (pipes.modify r f).pipes x = some pipe') :
    (x = r ∧ ∃ pipe, pipes.pipes r = some pipe ∧ pipe' = f pipe) ∨ x ≠ r ∧ pipes.pipes x = some pipe' := by
  change Function.update pipes.pipes r _ x = _ at here
  by_cases this : x = r
  · rw [this, Function.update_self] at here
    obtain ⟨pipe, there, rfl⟩ := Option.map_eq_some_iff.mp here
    exact .inl ⟨this, pipe, there, rfl⟩
  · rw [Function.update_of_ne this] at here
    exact .inr ⟨this, here⟩

theorem push_eq_some {pipes : Pipes} {node : Node Ref} {new : Pipe} (here : (pipes.push node new).pipes x = some pipe) :
    x = node.value ∧ pipe = new ∨ x ≠ node.value ∧ pipes.pipes x = some pipe := by
  change Function.update pipes.pipes node.value (some new) x = some pipe at here
  by_cases this : x = node.value
  · rw [this, Function.update_self, Option.some.injEq] at here
    exact .inl ⟨this, here.symm⟩
  · rw [Function.update_of_ne this] at here
    exact .inr ⟨this, here⟩

theorem Joins.counted {pipeId console : Int} (joins : Joins s pipeId console taken s')
    (counted : s.Counted) : s'.Counted := by
  intro x pipe' here isOpen
  cases joins with
  | none same => exact counted x pipe' here isOpen
  | pipe other gained =>
    cases gained with
    | joined history found drops =>
      rcases modify_eq_some here with ⟨rfl, pipe, there, rfl⟩ | ⟨-, there⟩
      · exact Int.lt_add_one_of_le (Int.le_of_lt (counted x pipe there isOpen))
      · exact counted x pipe' there isOpen
    | made history absent drops makes =>
      rcases modify_eq_some here with ⟨rfl, pipe, there, rfl⟩ | ⟨away, there⟩
      · rcases push_eq_some there with ⟨-, rfl⟩ | ⟨away, -⟩
        · exact Int.zero_lt_one
        · exact (away rfl).elim
      · rcases push_eq_some there with ⟨same, -⟩ | ⟨-, there⟩
        · exact (away same).elim
        · exact counted x pipe' there isOpen

/-- What was taken when the pipe was opened is given back when it is closed. -/
theorem pipeClose_undoes {pipeId console : Int} (fits : bad .overflow ∨ ∀ m, s₂.mutex = some m →
      m.value ≤ INT_MAX) (joins : Joins s pipeId console taken s₁) (matched : s₁.Matches s₂)
    (proper : s.pipes.Proper s.heap.requests) (counted : s.Counted) (ordered : InOrder s₂ c) (other : pipeId ≠ console)
    (free : s₂.MutexFree) : Ends bad (discard (pipeClose pipeId) : Task Unit) (fun _ s' => s₂.heap.Drops taken s'.heap ∧
      s.Matches s' ∧ s'.procs = s₂.procs ∧ s'.mutex = s₂.mutex ∧ InOrder s' c) s₂ := by
  have atRest := ordered.atRest free
  apply Ends.discard
  cases joins with
  | none same => exact (other same).elim
  | pipe _ gained =>
    cases gained with
    | joined history found drops =>
      refine (pipeClose_joined fits matched atRest proper rfl found ?_ rfl).mono ?_
      · obtain ⟨-, p, here, isOpen, -⟩ := pipe_find_some proper found
        rintro p' here'
        cases here.symm.trans here'
        exact counted _ p here isOpen
      · rintro _ s' ⟨⟨dropped, matches', procs, mutex⟩, atRest'⟩
        exact ⟨dropped, matches', procs, mutex, atRest'.inOrder ordered procs⟩
    | @made h node a b h' history absent drops makes =>
      refine (pipeClose_made fits matched atRest (makes.older drops proper) rfl makes.nobody rfl).mono ?_
      rintro _ s' ⟨⟨dropped, matches', procs, mutex, -⟩, atRest'⟩
      have same : semBlocks a + semBlocks b + ({node.ref} + {node.value}) =
        {node.value} + semBlocks a + semBlocks b + {node.ref} := by
        abel
      exact ⟨same ▸ dropped, matches', procs, mutex, atRest'.inOrder ordered procs⟩

/-! ## Birth -/

/-- The block of a process in the making, and its stack. -/
structure Allocated (s : State) (c : Ref) (fd : Int × Int) (r : Ref) (p : Pcb) (s' : State) : Prop where
  takes : s.heap.Takes ({r} + {p.stack}) s'.heap
  fileDescriptors : p.fileDescriptors = fd
  sems : s'.sems = s.sems
  pipes : s'.pipes = s.pipes
  procs : s'.procs = { s.procs with
    pidCounter := s.procs.pidCounter + 1, newProcess := Function.update s.procs.newProcess c (some (r, p)) }
  working : Working s' c

theorem allocateBlock_takes (counts : bad .overflow ∨ s.procs.pidCounter < INT_MAX)
    (working : Working s c) {name : String}
    (short : name.length < NAME_SIZE) (foreground : Int) (fd : Int × Int) : Meets bad (allocateBlock name foreground fd)
      (fun goes s' => goes = false ∧ s' = s ∨ goes = true ∧ ∃ r p, Allocated s c fd r p s') s := by
  refine (allocateBlock_within counts (.inr short) working).mono ?_
  rintro goes s' (unmade | ⟨goes, p, fileDescriptors, stack, rfl, does⟩)
  · exact .inl unmade
  · have takes := s.heap.takes_allocate.trans (Heap.takes_allocate _)
    rw [← stack] at takes
    exact .inr ⟨goes, s.heap.requests, p, takes, fileDescriptors, rfl, rfl, rfl, working.does does⟩

/-- The semaphore of the process. -/
structure Attached (s : State) (c r : Ref) (p : Pcb) (x : Node Sem) (s' : State) : Prop where
  takes : s.heap.Takes (semBlocks x) s'.heap
  fresh : ∃ h, Fresh s 0 x h
  sems : s'.sems = s.sems.push x
  pipes : s'.pipes = s.pipes
  procs : s'.procs = { s.procs with
    newProcess := Function.update s.procs.newProcess c (some (r, { p with semId := s.sems.semId })) }
  working : Working s' c

theorem attachSemaphore_takes (within : bad .overflow ∨ s.sems.semId < INT_MAX) (working : Working s c)
    (was : s.procs.newProcess c = some (r, p)) :
    Meets bad attachSemaphore (fun goes s' => goes = true ∧ ∃ x, Attached s c r p x s') s := by
  have sound := working.sound
  unfold attachSemaphore
  rw [meets_bind]
  have counts : bad .overflow ∨ s.Counts 0 := within.imp_right fun room => ⟨by decide, fun _ => room⟩
  refine (semInit_takes sound.grants sound.sems counts).mono ?_
  rintro _ s₁ ⟨rfl, -, x, h, fresh, rfl⟩
  have given : s.sems.semId ≠ -1 := by
    have := sound.sems.nextId
    omega
  rw [meets_bind, meets_readNewProcess (by exact working.running)]
  simp only [was, meets_lookup_some, given, if_false, meets_bind]
  rw [meets_setNewProcess (by exact working.running)]
  have after : ∀ s', Does s c .creates s' → Working s' c := fun _ => working.does
  exact ⟨rfl, x, fresh.takes, ⟨h, fresh⟩, rfl, rfl, rfl, after _ (.filled fresh.takes.grown fresh.added was)⟩

theorem cpyArgsLoop_takes (grants : s.Grants) (src : List String) (dest : List Ref) :
    Meets bad (cpyArgsLoop src dest) (fun result s' => ∃ strings : List Ref, result = some (dest ++ strings) ∧
      ∃ h, s.heap.Takes strings h ∧ s' = s.withHeap h) s := by
  induction src generalizing s dest with
  | nil => exact ⟨[], by rw [List.append_nil], s.heap, (Heap.Drops.refl _).nothing, rfl⟩
  | cons string src ih =>
    unfold cpyArgsLoop
    rw [meets_bind, meets_malloc grants]
    refine (ih (grants.withHeap s.heap.grown_allocate) _).mono ?_
    rintro _ s' ⟨strings, rfl, h, takes, rfl⟩
    refine ⟨s.heap.requests :: strings, by rw [List.append_assoc, List.singleton_append], h, ?_, rfl⟩
    rw [← Multiset.cons_coe, ← Multiset.singleton_add]
    exact s.heap.takes_allocate.trans takes

/-- The process has its arguments, and is in the queue. -/
structure Published (s : State) (c r : Ref) (p : Pcb) (args : Ref) (strings : List Ref)
    (node : Node Ref) (s' : State) : Prop where
  takes : s.heap.Takes ({args} + strings + {node.ref}) s'.heap
  here : node.value = r
  sems : s'.sems = s.sems
  pipes : s'.pipes = s.pipes
  procs : ∃ ppid, s'.procs = { s.procs with
    queue := s.procs.queue ++ [node]
    pcbs := Function.update s.procs.pcbs r (some { p with arguments := some (some args, strings), ppid })
    readyCount := s.procs.readyCount + 1
    newProcess := Function.update s.procs.newProcess c none }
  working : Working s' c

theorem enqueueNewProcess_takes {begun : Heap} (working : Working s c) (block : s.procs.pcbs c = some q)
    (alive : q.state ≠ .terminated)
    (was : s.procs.newProcess c = some (r, p)) (foreground : Int) {args : Ref} {strings : List Ref}
    (copied : s.heap.Takes ({args} + strings) begun) :
    Meets bad (enqueueNewProcess foreground (some args) strings) (fun pid s' => pid = p.pid ∧
      ∃ node, Published s c r p args strings node s') (s.withHeap begun) := by
  have working₁ := working.withHeap copied.grown
  unfold enqueueNewProcess
  rw [meets_bind, meets_readNewProcess (by exact working.running), withHeap_procs, was, meets_lookup_some]
  simp only [meets_bind, meets_get]
  refine (enqueue_takes working₁.sound.grants r).mono ?_
  rintro _ s₁ ⟨node, here, rfl, h, takes, rfl⟩
  rw [meets_currentPcb (by exact working.running) (by exact block), meets_setNewProcess (by exact working.running)]
  simp only [withHeap_procs, meets_modifyProcs, meets_pure]
  have parent : (if q.pid = s.procs.userlandPid ∧ foreground = 0 then s.procs.initPid else p.ppid) = p.ppid ∨
      (if q.pid = s.procs.userlandPid ∧ foreground = 0 then s.procs.initPid else p.ppid) = s.procs.initPid := by
    split <;> simp
  have listed : values (s.procs.queue ++ [node]) = values s.procs.queue ++ [r] := by simp [values, here]
  have after : ∀ s', Does (s.withHeap begun) c .creates s' → Working s' c := fun _ => working₁.does
  exact ⟨trivial, node, copied.trans takes, here, rfl, rfl, ⟨_, rfl⟩,
    after _ (.published block alive takes.grown was listed parent)⟩

theorem fillNewProcess_takes (working : Working s c) (block : s.procs.pcbs c = some q) (alive : q.state ≠ .terminated)
    (was : s.procs.newProcess c = some (r, p)) (argv : List String) (foreground : Int) :
    Ends bad (fillNewProcess argv foreground) (fun pid s' => pid = p.pid ∧
      ∃ args strings node, Published s c r p args strings node s') s := by
  unfold fillNewProcess
  have asked : Meets bad malloc (fun args s₁ => args = some s.heap.requests ∧ s₁ = s.withHeap s.heap.allocate) s := by
    rw [meets_malloc working.sound.grants]
    exact ⟨rfl, rfl⟩
  apply Ends.bind (.lift asked)
  rintro _ s₁ ⟨rfl, rfl⟩
  have copied : Meets bad (cpyArgs (some s.heap.requests) argv) _ (s.withHeap s.heap.allocate) :=
    cpyArgsLoop_takes (working.sound.grants.withHeap s.heap.grown_allocate) argv []
  apply Ends.bind (.lift copied)
  rintro _ s₂ ⟨strings, rfl, h, takes, rfl⟩
  apply Ends.lift
  refine (enqueueNewProcess_takes working block alive was foreground (s.heap.takes_allocate.trans takes)).mono ?_
  rintro _ s₃ ⟨rfl, node, published⟩
  exact ⟨rfl, s.heap.requests, strings, node, published⟩

/-! ## Death -/

theorem spares_deref {α : Type} (a : Option α) : Spares (deref a) := by
  intro live s here
  cases a with
  | none => trivial
  | some a => exact here

theorem spares_sendTaskToInitLoop (pid : Int) (killedProcess : Option Ref) (process : Ref)
    (it : List Ref) (hasParent : Bool) :
    Spares (sendTaskToInitLoop pid killedProcess process it hasParent) := by
  intro live
  have reparents : ∀ (process : Ref) {rest : K Bool}, Keeps (fun _ => True) (fun s : State => s.heap.live = live) rest →
      Keeps (fun _ => True) (fun s : State => s.heap.live = live) (do
        let initPid := (← get).procs.initPid
        modifyPcb process fun p => { p with ppid := initPid }
        rest) := fun _ _ keeps => .bind (fun _ here => here) fun _ => .bind (fun _ here => here) fun _ => keeps
  induction it generalizing process hasParent with
  | nil =>
    unfold sendTaskToInitLoop
    refine (spares_deref _ live).bind fun _ => (spares_readPcb _ live).bind fun _ =>
      (spares_readPcb _ live).bind fun _ => ?_
    dsimp only
    split
    · exact reparents process (.pure _)
    · exact .pure _
  | cons next rest ih =>
    unfold sendTaskToInitLoop
    refine (spares_deref _ live).bind fun _ => (spares_readPcb _ live).bind fun _ =>
      (spares_readPcb _ live).bind fun _ => ?_
    cases rest with
    | nil =>
      dsimp only
      split
      · exact reparents process (.pure _)
      · exact .pure _
    | cons after rest =>
      dsimp only
      split
      · exact reparents process (ih _ _)
      · exact ih _ _

theorem sendTaskToInit_spares (grants : s.Grants) (attended : s.procs.Attended c q) (pid : Int) :
    Meets (fun _ => True) (sendTaskToInit pid) (fun _ s' => s'.heap.live = s.heap.live) s := by
  have writes : ∀ (killedProcess : Option Ref) (hasParent : Bool), Spares (do
      if !hasParent then
        let initPid := (← get).procs.initPid
        modifyPcb (← deref killedProcess) fun p => { p with ppid := initPid }
      return (0 : Int)) := by
    intro killedProcess hasParent live
    cases hasParent with
    | true => exact .pure _
    | false =>
      exact .bind (fun _ here => here) fun _ => (spares_deref _ live).bind fun _ =>
        .bind (fun _ here => here) fun _ => .pure _
  unfold sendTaskToInit
  rw [meets_bind, meets_malloc grants, meets_bind]
  refine ((getProcess_spec (grants.withHeap s.heap.grown_allocate) attended.queue pid).and
    (spares_getProcess pid _ _ rfl)).mono ?_
  rintro killedProcess s₁ ⟨⟨-, h, -, rfl⟩, spared⟩
  simp only [meets_bind, meets_get, withHeap_procs, attended.running]
  refine (spares_sendTaskToInitLoop pid killedProcess c _ false _ _ rfl).mono fun hasParent s₂ still => ?_
  refine (writes killedProcess hasParent _ _ rfl).mono fun _ s₃ same => ?_
  change s₃.heap.live = s₂.heap.live.erase s.heap.requests at same
  rw [same, still, spared]
  exact List.erase_cons_head ..

theorem terminate_spares (grants : s.Grants) (attended : s.procs.Attended c q) (pid : Int) :
    Meets (fun _ => True) (changeState pid .terminated) (fun _ s' => s'.heap.live = s.heap.live) s := by
  unfold changeState changeStateWith
  rw [meets_bind]
  refine ((processOf_spec grants attended pid).and (spares_processOf pid _ _ rfl)).mono ?_
  rintro found s₁ ⟨⟨rfl, h, grown, rfl⟩, spared⟩
  cases found : s.procs.target pid with
  | none => exact spared
  | some r =>
    obtain ⟨-, p, block, -⟩ := target_some attended found
    simp only [changeProcess, meets_bind, meets_readPcb, withHeap_procs, block, meets_lookup_some, reduceCtorEq, ne_eq,
      not_true, and_false, false_or, meets_ite, meets_pure, meets_get, if_false, if_true, meets_discard]
    refine ⟨fun _ => spared, fun _ => ?_⟩
    refine (sendTaskToInit_spares (grants.withHeap grown) (by exact attended) p.pid).mono fun _ s₂ still => ?_
    cases s₂.procs.pcbs r with
    | none => trivial
    | some p' => exact still.trans spared

/-- What is told of a process by its pid and its state. -/
def Procs.standing (procs : Procs) (r : Ref) : Option (Int × ProcessState) :=
  (procs.pcbs r).map fun p => (p.pid, p.state)

theorem Working.lists (working : Working s c) : s.procs.Lists c := by
  obtain ⟨q, attended⟩ := working.attended
  have table := working.table
  refine ⟨working.running, List.nodup_cons.mpr ⟨working.unqueued, ?_⟩, fun r member =>
    ?_, fun r member r' member' same => ?_⟩
  · exact (List.nodup_append.mp table.once).1
  · rcases List.mem_cons.mp member with rfl | queued
    · rw [attended.block]
      exact Option.some_ne_none _
    · exact attended.queue r queued
  · have blocks : ∀ r ∈ c :: values s.procs.queue, ∃ p, s.procs.pcbs r = some p := by
      intro r member
      rcases List.mem_cons.mp member with rfl | queued
      · exact ⟨q, attended.block⟩
      · exact Option.ne_none_iff_exists'.mp (attended.queue r queued)
    obtain ⟨p, block⟩ := blocks r member
    obtain ⟨p', block'⟩ := blocks r' member'
    refine table.unique r r' p p' block block' ?_
    simpa [Procs.pidOf, block, block'] using same

/-- The process is dead, and others may have another parent. -/
structure Buried (s : State) (c r : Ref) (p : Pcb) (s' : State) : Prop where
  drops : s.heap.Drops 0 s'.heap
  sems : s'.sems = s.sems
  pipes : s'.pipes = s.pipes
  queue : s'.procs.queue = s.procs.queue
  block : ∃ ppid, s'.procs.pcbs r = some { p with ppid, state := .terminated }
  others : ∀ x ≠ r, s'.procs.standing x = s.procs.standing x
  working : Working s' c

theorem terminate_buries (working : Working s c) (queued : r ∈ values s.procs.queue) (block : s.procs.pcbs r = some p)
    (alive : p.state ≠ .terminated) : Meets bad (changeState p.pid .terminated) (fun _ s' => Buried s c r p s') s := by
  have grants := working.sound.grants
  obtain ⟨q, attended⟩ := working.attended
  have buries := (terminate_queued working.lists queued block).and
    ((changeState_terminated_spec working p.pid).and (terminate_spares grants attended p.pid))
  refine (buries.mono ?_).allow fun _ null => (null.2.2.2 (grants _)).elim
  rintro _ s' ⟨buries, advance, live⟩
  have working' : Working s' c := by
    rcases advance with refused | terminated
    · exact working.lives (refused.advance working).1 (refused.advance working).2.lives
    · exact working.lives (terminated.advance working).1 (terminated.advance working).2
  cases buries with
  | spared why asked => exact (why.elim alive fun short => short (grants _)).elim
  | buried _ found again asked readyCount history ppid =>
    refine ⟨Heap.drops_same asked.grown live, rfl, rfl, rfl, ⟨ppid, Function.update_self ..⟩,
      fun x other => ?_, working'⟩
    unfold Procs.standing
    simp only [Function.update_of_ne other, Procs.adoptAmong, Option.map_map]
    rfl

theorem freeStrings_drops (strings : List Ref) :
    Meets bad (freeStrings strings) (fun _ s' => ∃ h, s.heap.Drops strings h ∧ s' = s.withHeap h) s := by
  induction strings generalizing s with
  | nil => exact ⟨s.heap, .refl _, rfl⟩
  | cons string strings ih =>
    unfold freeStrings
    rw [meets_bind, meets_free]
    refine ih.mono ?_
    rintro _ s' ⟨h, drops, rfl⟩
    rw [← Multiset.cons_coe, ← Multiset.singleton_add]
    exact ⟨h, (s.heap.drops_release string).trans drops, rfl⟩

theorem forall_last {l l' : Queue Sem} (same : List.Forall₂ SameSem (l ++ [a]) l') :
    ∃ older a', l' = older ++ [a'] ∧ List.Forall₂ SameSem l older ∧ SameSem a a' := by
  induction l generalizing l' with
  | nil =>
    cases same with
    | cons first rest =>
      cases rest
      exact ⟨[], _, rfl, .nil, first⟩
  | cons x l ih =>
    cases same with
    | cons first rest =>
      obtain ⟨older, a', rfl, olds, sames⟩ := ih rest
      exact ⟨_ :: older, a', rfl, .cons first olds, sames⟩

/-- The semaphores without the last one. -/
structure Sems.Without (sems : Sems) (older : Queue Sem) (id : Int) (sems' : Sems) : Prop where
  same : List.Forall₂ SameSem older sems'.semQueue
  others : ∀ id' ≠ id, sems'.find id' = sems.find id'
  proper : ∀ n, sems.Proper n → sems'.Proper n

theorem Sems.Proper.last {sems : Sems} (proper : sems.Proper n) (queue : sems.semQueue = older ++ [x]) :
    (∀ y ∈ older, y.value.id ≠ x.value.id) ∧ sems.find x.value.id = some x.value := by
  have once := proper.ids
  rw [queue, values, List.map_append, List.map_append, List.nodup_append] at once
  have apart : ∀ y ∈ older, y.value.id ≠ x.value.id := fun y member =>
    once.2.2 _ (List.mem_map_of_mem (List.mem_map_of_mem member)) _ (List.mem_singleton_self _)
  refine ⟨apart, ?_⟩
  have later := @find_later _ older [] x (fun y => decide (y.value.id = x.value.id)) (by simpa using apart) (by simp)
  rw [← queue] at later
  unfold Sems.find values
  rw [List.find?_map]
  exact congrArg (Option.map Node.value) later.1

/-- `freeArguments` gives back the arguments and the semaphore, which is the last one and was not posted. -/
theorem freeArguments_drops (ordered : InOrder s c) {args : Ref} {strings : List Ref}
    (arguments : p.arguments = some (some args, strings))
    (queue : s.sems.semQueue = older ++ [x]) (own : x.value.id = p.semId) (nobody : x.value.blockedPids = [])
    (zero : x.value.value = 0) :
    Meets bad (freeArguments p) (fun _ s' => ∃ h sems history, s.heap.Drops (strings + {args} + semBlocks x) h ∧
      s.sems.Without older p.semId sems ∧ s' = { s with heap := h, sems, history }) s := by
  obtain ⟨q, attended⟩ := ordered.attended
  have grants := ordered.sound.grants
  have proper := ordered.sound.sems
  obtain ⟨-, found⟩ := proper.last queue
  rw [own] at found
  unfold freeArguments readArguments
  rw [meets_bind, arguments, meets_pure, meets_bind]
  refine (freeStrings_drops strings).mono ?_
  rintro _ s₁ ⟨h₁, drops₁, rfl⟩
  rw [meets_bind]
  refine (semValue_drops (grants.withHeap drops₁.grown) p.semId).mono ?_
  rintro _ s₂ ⟨rfl, h₂, drops₂, rfl⟩
  have value : ((s.sems.find p.semId).map Sem.value).getD (-1) = 0 :=
    by rw [found, Option.map_some, Option.getD_some, zero]
  simp only [withHeap_sems, value, if_true, meets_bind, meets_discard]
  have grown₂ := drops₁.grown.trans drops₂.grown
  have raises : Raises bad s.sems p.semId := by
    refine .inr fun sem found' => ?_
    cases found.symm.trans found'
    rw [zero]
    decide
  refine (semPost_alone (by exact raises) (by exact grants.withHeap grown₂) (by exact proper) (by exact attended)
    (fun sem found' => ?_)).mono ?_
  · cases found.symm.trans found'
    exact nobody
  rintro _ s₃ ⟨h₃, history, drops₃, rfl⟩
  change Meets bad (free args) _ _
  rw [meets_free]
  have same := Sems.same_given s.sems p.semId
  unfold Sems.Same at same
  rw [queue] at same
  obtain ⟨older', x', queue', olds, last⟩ := forall_last same
  have proper' := proper.given p.semId
  obtain ⟨apart, -⟩ := proper'.last queue'
  have here : x'.value.id = p.semId := last.id.trans own
  have grown₃ := grown₂.trans drops₃.grown
  obtain ⟨close, left⟩ := semClose_later bad
    (s := { s with heap := h₃.release args, sems := s.sems.given p.semId, history := history })
    (by exact grants.withHeap (grown₃.trans (Heap.grown_release _ _))) (by exact proper')
    (by exact queue') (here ▸ apart) here
  refine Meets.mono (by exact close) ?_
  rintro _ s₄ ⟨h₄, drops₄, rfl⟩
  rw [last.blocks nobody] at drops₄
  refine ⟨h₄, _, history, ?_, ⟨?_, fun id' other => ?_, fun n proper => ?_⟩, rfl⟩
  · exact ((drops₁.before (drops₂.before drops₃)).trans (Heap.drops_release _ _)).trans drops₄
  · rw [left, List.append_nil]
    exact olds
  · exact (find_close_other _ other).trans (Sems.find_given_other proper other)
  · exact (proper.given p.semId).close p.semId

/-! ## The last character -/

/-- Entries at the front of a queue, of which only the last is of a process that can be resumed. -/
def State.Passes (s : State) (id : Int) (passed : Queue Caller) : Prop :=
  passed = [] ∨ ∃ sem left, s.sems.find id = some sem ∧ sem.blockedPids = passed ++ left ∧
    ∀ node ∈ passed.dropLast, s.procs.moved node.value.pid .ready = none

/-- With the same pids the kernel remains attended. -/
theorem Procs.Attended.kept {procs procs' : Procs} (attended : procs.Attended c q)
    (current : procs'.currentProcessPCB = procs.currentProcessPCB) (queue : procs'.queue = procs.queue)
    (pids : ∀ x, procs'.pidOf x = procs.pidOf x) : ∃ q', procs'.Attended c q' := by
  have there : ∀ x, procs.pcbs x ≠ none → procs'.pcbs x ≠ none := fun x some none =>
    some (Option.map_eq_none_iff.mp ((pids x).symm.trans (congrArg (Option.map Pcb.pid) none)))
  obtain ⟨q', block⟩ := Option.ne_none_iff_exists'.mp (there c (attended.block ▸ Option.some_ne_none q))
  refine ⟨q', current.trans attended.running, block, fun x queued =>
    there x (attended.queue x (queue ▸ queued)), fun x p here => ?_⟩
  have same := (pids x).symm.trans (congrArg (Option.map Pcb.pid) here)
  obtain ⟨p', was, pid⟩ := Option.map_eq_some_iff.mp same
  rw [← pid]
  exact attended.pids x p' was

theorem Procs.pidOf_moveState {procs : Procs} (block : procs.pcbs r = some p) (newState : ProcessState) (x : Ref) :
    (procs.moveState r p newState).pidOf x = procs.pidOf x := by
  unfold Procs.pidOf Procs.moveState
  by_cases this : x = r
  · subst this
    simp [block]
  · simp only [Function.update_of_ne this]

theorem Posts.attended {id : Int} (posts : Posts s id s') (attended : s.procs.Attended c q) :
    ∃ q', s'.procs.Attended c q' := by
  rcases posts with ⟨-, h, -, rfl⟩ | ⟨sem, -, posted⟩
  · exact ⟨q, attended⟩
  · cases posted with
    | handed _ _ resumed =>
      obtain ⟨r, p, -, block, -, -, rfl⟩ := moved_eq_some.mp resumed
      exact attended.kept rfl rfl (Procs.pidOf_moveState block _)
    | raised => exact ⟨q, attended⟩

/-- `semPost` gives back the entries that it takes off the queue, and leaves the other semaphores alone. -/
theorem semPost_passes {id : Int} (raises : Raises bad s.sems id) (grants : s.Grants) (proper : s.sems.Proper n)
    (attended : s.procs.Attended c q) :
    Meets bad (semPost id) (fun _ s' => Posts s id s' ∧
      (∃ passed, s.Passes id passed ∧ s.heap.Drops (entryBlocks passed) s'.heap) ∧
      s.sems.Same s'.sems ∧ ∀ id' ≠ id, s'.sems.find id' = s.sems.find id') s := by
  obtain none | ⟨sem, found⟩ := (s.sems.find id).eq_none_or_eq_some
  · unfold semPost
    rw [meets_bind]
    refine (findSem_drops grants id).mono ?_
    rintro _ s' ⟨rfl, h, drops, rfl⟩
    rw [none]
    exact ⟨.inl ⟨none, h, drops.grown, rfl⟩, ⟨[], .inl rfl, drops⟩, .refl _, fun _ _ => rfl⟩
  · refine (semPost_delivers raises grants proper attended found).mono ?_
    rintro _ s' ⟨posts, passed, drops, ⟨left, raise, split, -, sems⟩, inVain⟩
    have front : s.Passes id passed := .inr ⟨sem, left, found, split, inVain⟩
    refine ⟨posts, ⟨passed, front, drops⟩, ?_, fun id' apart => ?_⟩
    · rw [sems]
      refine Sems.same_modify _ fun x listed same => ⟨_, _, _, rfl, fun nobody => ?_⟩
      obtain rfl := List.inj_on_of_nodup_map proper.refs listed (find_some found).1 same
      rw [nobody] at split
      exact (List.append_eq_nil_iff.mp split.symm).2
    · rw [sems]
      exact Sems.find_modify_other proper (fun _ => rfl) found apart

/-- What is taken of a unit is not seen by those who wait. -/
theorem Sems.blockedPids_taken {sems : Sems} {taken id : Int} (found : (sems.taken taken).find id = some sem) :
    ∃ sem', sems.find id = some sem' ∧ sem.blockedPids = sem'.blockedPids ∧ sem.value ≤ sem'.value := by
  unfold Sems.taken at found
  cases there : sems.find taken with
  | none =>
    rw [there] at found
    exact ⟨sem, found, rfl, Int.le_refl _⟩
  | some x =>
    rw [there, find_modify fun _ => by rfl] at found
    obtain ⟨sem', here, rfl⟩ := Option.map_eq_some_iff.mp found
    refine ⟨sem', here, ?_⟩
    split
    · exact ⟨rfl, Int.sub_le_self _ (by decide)⟩
    · exact ⟨rfl, Int.le_refl _⟩

theorem Raises.taken {sems : Sems} {id : Int} (raises : Raises bad sems id) (taken : Int) :
    Raises bad (sems.taken taken) id := by
  refine raises.imp_right fun room sem found => ?_
  obtain ⟨sem', found', -, fewer⟩ := Sems.blockedPids_taken found
  exact Int.lt_of_le_of_lt fewer (room sem' found')

theorem State.Passes.taken {taken id : Int} {before : State} (front : before.Passes id passed)
    (sems : before.sems = s.sems.taken taken)
    (procs : before.procs = s.procs) : s.Passes id passed := by
  rcases front with none | ⟨sem, left, found, split, inVain⟩
  · exact .inl none
  · rw [sems] at found
    obtain ⟨sem', found', same, -⟩ := Sems.blockedPids_taken found
    exact .inr ⟨sem', left, found', same ▸ split, procs ▸ inVain⟩

/-- What one process is told of a pipe when a character is written to it. -/
structure Flushed (s : State) (c : Ref) (readSemId : Int) (s' : State) : Prop where
  passes : ∃ passed, s.Passes readSemId passed ∧ s.heap.Drops (entryBlocks passed) s'.heap
  matched : s.Matches s'
  mutex : s'.mutex = s.mutex
  ordered : InOrder s' c

theorem pipePutchar_flushes (raises : Raises bad s.sems pipe.readSemId) (ordered : InOrder s c)
    (found : s.pipes.find pipeId = some r) (here : s.pipes.pipes r = some pipe)
    (room : ∀ sem, s.sems.find pipe.writeSemId = some sem → 0 < sem.value) (ch : Int8) :
    Ends bad (discard (pipePutchar pipeId ch) : Task Unit) (fun _ => Flushed s c pipe.readSemId) s := by
  have sound := ordered.sound
  obtain ⟨-, _, here', isOpen, -⟩ := pipe_find_some sound.pipes found
  cases here.symm.trans here'
  obtain ⟨q, attended⟩ := ordered.attended
  have apart := ordered.guarded.pipes.apart r pipe here
  apply Ends.discard
  have ends : Ends bad (pipePutchar pipeId ch) (fun _ s' => (∃ passed, s.Passes pipe.readSemId passed ∧
      s.heap.Drops (entryBlocks passed) s'.heap) ∧ s.Matches s' ∧ s'.mutex = s.mutex ∧
      Sound s' ∧ ∃ q, s'.procs.Attended c q) s := by
    unfold pipePutchar
    apply Ends.bind (.lift (getPipe_drops sound.grants sound.pipes pipeId))
    rintro _ s₁ ⟨rfl, h₁, drops₁, rfl⟩
    simp only [found]
    have written : Ends bad (writeToPipe r ch) (fun _ s' => (∃ passed, s.Passes pipe.readSemId passed ∧
        s.heap.Drops (entryBlocks passed) s'.heap) ∧ s.Matches s' ∧ s'.mutex = s.mutex ∧
        Sound s' ∧ ∃ q, s'.procs.Attended c q)
        { s with heap := h₁, pipes := s.pipes.cache pipeId } := by
      unfold writeToPipe
      have read : Meets bad (readPipe r) (fun pipe' s' => pipe = pipe' ∧
        s' = { s with heap := h₁, pipes := s.pipes.cache pipeId })
          { s with heap := h₁, pipes := s.pipes.cache pipeId } := (meets_readPipe (by exact here) isOpen).mpr ⟨rfl, rfl⟩
      apply Ends.bind (.lift read)
      rintro _ _ ⟨rfl, rfl⟩
      have grants := sound.grants.withHeap drops₁.grown
      apply (Ends.discard (semWait_free (by exact grants) (by exact sound.sems) (by exact room))).bind
      rintro _ s₂ ⟨h₂, history₂, drops₂, rfl⟩
      apply Ends.lift
      have drops := drops₁.before drops₂
      unfold writeBuffer
      rw [meets_bind, meets_readPipe (by exact here) isOpen]
      simp only [meets_bind, meets_modifyPipe, meets_discard]
      refine (semPost_passes (raises.taken pipe.writeSemId) (by exact sound.grants.withHeap drops.grown)
        (by exact sound.sems.taken pipe.writeSemId) (by exact attended)).mono ?_
      rintro _ s₃ ⟨posts, ⟨passed, front, drops₃⟩, same, others⟩
      obtain ⟨apartRead, apartWrite⟩ := apart
      refine ⟨⟨passed, front.taken rfl rfl, drops.after drops₃⟩, ⟨?_, ?_, fun x _ => ?_⟩,
        ?_, ?_, posts.attended attended⟩
      · exact (Sems.same_taken s.sems pipe.writeSemId).trans same
      · rw [posts.pipes]
        rfl
      · rw [posts.pipes]
        exact congrFun (card_modify (s.pipes.cache pipeId) r (f := (·.put ch)) fun _ => rfl) x
      · unfold State.mutex
        rw [posts.pipes]
        exact (others _ apartRead.symm).trans (Sems.find_taken_other sound.sems apartWrite.symm)
      · refine posts.sound
          ⟨by exact sound.grants.withHeap drops.grown, (sound.sems.taken _).grown drops.grown.requests, ?_⟩
        exact ((sound.pipes.cache pipeId).modify r (f := (·.put ch)) fun _ => ⟨rfl, rfl⟩).grown drops.grown.requests
    exact written.bind fun _ _ after => .pure after
  refine (ends.keeps (every_pipePutchar guards_sweeping.toElementary pipeId ch) ordered.guarded).mono ?_
  rintro _ s' ⟨⟨passes, matched, mutex, sound', attended'⟩, guarded⟩
  exact ⟨passes, matched, mutex, sound', guarded, attended'⟩

end QuesOs.Kernel
