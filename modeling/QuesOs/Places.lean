import QuesOs.SchedulerNodes

/-! Where the processes are, whichever requests for memory are refused. A process
that gets no node is lost, but nobody is in two places: the queue has nobody twice
and nobody who was freed, and neither the running process nor the idle one is in it. -/
namespace QuesOs.Kernel
open Resumption Threads

variable {s s' : State}

structure Procs.Placed (procs : Procs) : Prop where
  idle : ∃ r, procs.idleProcessPCB = some r ∧ r ∉ values procs.queue ∧ procs.pidOf r ≠ none
  once : (values procs.queue).Nodup
  queued : ∀ r ∈ values procs.queue, procs.pidOf r ≠ none
  running : ∀ r, procs.currentProcessPCB = some r → r ∉ values procs.queue ∧ procs.pidOf r ≠ none

/-! ## What leaves everybody in place -/

/-- Between the two no process came, went or moved. -/
structure State.Steady (s s' : State) : Prop extends State.Alike s s' where
  queue : s'.procs.queue = s.procs.queue
  idle : s'.procs.idleProcessPCB = s.procs.idleProcessPCB

theorem State.Steady.refl (s : State) : s.Steady s := ⟨.refl s, rfl, rfl⟩

theorem State.Steady.trans (first : s.Steady s') (second : s'.Steady s'') : s.Steady s'' :=
  ⟨first.toAlike.trans second.toAlike, second.queue.trans first.queue, second.idle.trans first.idle⟩

/-- The blocks are those that were there, or one of them is gone that was in no place. -/
theorem Procs.Placed.moved {procs procs' : Procs} (placed : procs.Placed)
    (idle : procs'.idleProcessPCB = procs.idleProcessPCB)
    (queue : procs'.queue = procs.queue) (current : procs'.currentProcessPCB = procs.currentProcessPCB)
    (pids : ∀ r, procs.pidOf r ≠ none → procs'.pidOf r ≠ none) : procs'.Placed := by
  obtain ⟨r, isIdle, away, there⟩ := placed.idle
  refine ⟨⟨r, idle.trans isIdle, ?_, pids r there⟩, ?_, fun x member => ?_, fun x running => ?_⟩
  · rw [queue]
    exact away
  · rw [queue]
    exact placed.once
  · rw [queue] at member
    exact pids x (placed.queued x member)
  · obtain ⟨apart, there⟩ := placed.running x (current.symm.trans running)
    rw [queue]
    exact ⟨apart, pids x there⟩

theorem State.Steady.placed (steady : s.Steady s') (placed : s.procs.Placed) : s'.procs.Placed :=
  placed.moved steady.idle steady.queue steady.current fun r there same => there ((steady.pids r).symm.trans same)

/-- The action leaves everybody in place. -/
def Steadily {α : Type} (f : K α) : Prop := ∀ s, Meets (fun _ => True) f (fun _ s' => s.Steady s') s

theorem steady_bind {α β : Type} {f : K α} {g : α → K β} (first : Steadily f) (rest : ∀ a, Steadily (g a)) :
    Steadily (f >>= g) := by
  intro s
  rw [meets_bind]
  exact (first s).mono fun a s' steady => (rest a s').mono fun _ _ steady' => steady.trans steady'

/-- A process that is read and put back with another state stays where it is. -/
theorem steady_move {β : Type} (process : Ref) (newState : ProcessState) {f : Pcb → K β} (rest : ∀ p, Steadily (f p)) :
    Steadily (do
      let p ← readPcb process
      modifyProcs (·.moveState process p newState)
      f p) := by
  intro s
  have moved := quiet_move process newState (fun _ => Quiet.pure ()) s
  rw [meets_bind, meets_readPcb] at moved ⊢
  cases block : s.procs.pcbs process with
  | none => trivial
  | some p =>
    rw [block] at moved
    rw [meets_lookup_some, meets_bind, meets_modifyProcs]
    have steady : s.Steady { s with procs := s.procs.moveState process p newState } := ⟨moved, rfl, rfl⟩
    exact (rest p _).mono fun _ _ later => steady.trans later

theorem steady_primitive : Primitive Steadily where
  ends _ s := .refl s
  follows := steady_bind
  reads s := .refl s
  fails _ _ := trivial
  asks _ := malloc_any ⟨⟨Nat.le_succ _, rfl, rfl, rfl, fun _ => rfl⟩, rfl, rfl⟩
    ⟨⟨Nat.le_succ _, rfl, rfl, rfl, fun _ => rfl⟩, rfl, rfl⟩
  releases ref s := ⟨quiet_free ref s, rfl, rfl⟩
  notes event s := ⟨quiet_log event s, rfl, rfl⟩
  remembers event s := ⟨quiet_primitive.remembers event s, rfl, rfl⟩
  edits process f same s := ⟨quiet_primitive.edits process f same s, rfl, rfl⟩

theorem steady_detached : Detached Steadily where
  toPrimitive := steady_primitive
  wakes pid := built_changeStateWith steady_primitive steady_move (fun _ => steady_primitive.ends _) pid .ready
  expires s := ⟨quiet_detached.expires s, rfl, rfl⟩
  records f same s := by
    refine ⟨quiet_detached.records f same s, ?_, ?_⟩
    · obtain ⟨waiting, granted, here⟩ := same s.procs
      exact (congrArg Procs.queue here).trans rfl
    · obtain ⟨waiting, granted, here⟩ := same s.procs
      exact (congrArg Procs.idleProcessPCB here).trans rfl
  semsWritten f s := ⟨quiet_detached.semsWritten f s, rfl, rfl⟩
  pipesWritten f s := ⟨quiet_detached.pipesWritten f s, rfl, rfl⟩

theorem steady_elementary : Elementary Steadily :=
  steady_detached.elementary (built_changeStateWith steady_primitive steady_move)

/-! ## A process at work -/

variable {t r : Ref} {p : Pcb} {made : Option (Ref × Pcb)} {since : State}

/-- The process is running with this block in the making, and everybody is in place. -/
structure Placing (t : Ref) (made : Option (Ref × Pcb)) (since s : State) : Prop extends Holding t made since s where
  placed : s.procs.Placed
  idle : s.procs.idleProcessPCB = since.procs.idleProcessPCB

/-- How it finds the state when it goes on. -/
structure Replaced (t : Ref) (s s' : State) : Prop extends Found t s s' where
  placed : s'.procs.Placed

theorem Placing.steady (placing : Placing t made since s) (steady : s.Steady s') : Placing t made since s' :=
  ⟨placing.toHolding.alike steady.toAlike, steady.placed placing.placed, steady.idle.trans placing.idle⟩

/-- The program leaves everybody in place, and takes the block it has in the making to
what `post` says. -/
def Places {α : Type} (t : Ref) (made : Option (Ref × Pcb)) (p : Task α) (post : α → Option (Ref × Pcb) → Prop) :
    Prop :=
  ∀ since s, Placing t made since s →
    p.Meets (fun _ => True) (fun since s' => ∃ made', Placing t made' since s') (Replaced t)
    (fun a since s' => ∃ made', post a made' ∧ Placing t made' since s') since s

section
variable {α β : Type} {p : Task α}

theorem Places.pure {a : α} {post : α → Option (Ref × Pcb) → Prop} (here : post a made) :
    Places t made (Pure.pure a) post :=
  fun _ _ placing => ⟨made, here, placing⟩

theorem Places.bind {f : α → Task β} {middle : α → Option (Ref × Pcb) → Prop} {post : β → Option (Ref × Pcb) → Prop}
    (first : Places t made p middle) (rest : ∀ a made', middle a made' → Places t made' (f a) post) :
    Places t made (p >>= f) post := by
  intro since s placing
  rw [Program.meets_bind]
  refine (first since s placing).mono ?_
  rintro a since' s' ⟨made', middle, placing'⟩
  exact rest a made' middle since' s' placing'

/-- An action minds the block, and leaves everybody in place. -/
theorem Places.lift {f : K α} {post : α → Option (Ref × Pcb) → Prop} (minds : Minds t made (liftM f) post)
    (placed : ∀ since s, Placing t made since s → Meets (fun _ => True) f (fun _ s' => s'.procs.Placed ∧
      s'.procs.idleProcessPCB = s.procs.idleProcessPCB) s) : Places t made (liftM f) post := by
  intro since s placing
  have minded : Meets (fun _ => True) f (fun a s' => ∃ made', post a made' ∧ Holding t made' since s') s :=
    minds since s placing.toHolding
  have both : Meets (fun _ => True) f (fun a s' => ∃ made', post a made' ∧ Placing t made' since s') s := by
    refine (minded.and (placed since s placing)).mono ?_
    rintro a s' ⟨⟨made', here, holding⟩, placed', idle⟩
    exact ⟨made', here, holding, placed', idle.trans placing.idle⟩
  exact both

theorem Places.every (every : p.Every Steadily) : Places t made p fun _ made' => made' = made := by
  intro since s placing
  induction p generalizing since s with
  | done a => exact ⟨made, rfl, placing⟩
  | act action rest ih =>
    exact (every.1 s).mono fun b s' steady => ih b (every.2 b) since s' (placing.steady steady)
  | pause rest ih =>
    refine ⟨⟨made, placing⟩, fun s' found => ih every s' s' ?_⟩
    exact ⟨⟨found.numbered, found.running, found.own.trans placing.own, fun _ _ => rfl⟩, found.placed, rfl⟩

theorem Places.steady {f : K α} (steady : Steadily f) : Places t made (liftM f) fun _ made' => made' = made :=
  .every (.lift steady)

theorem Places.mono {post post' : α → Option (Ref × Pcb) → Prop} (places : Places t made p post)
    (weaker : ∀ a made', post a made' → post' a made') : Places t made p post' := by
  intro since s placing
  refine (places since s placing).mono ?_
  rintro a since' s' ⟨made', here, placing'⟩
  exact ⟨made', weaker a made' here, placing'⟩

/-- A steady program is run under a condition, and what follows in any case. -/
theorem Places.whenever {P : Prop} [Decidable P] {f : Task Unit} {g : Unit → Task β}
    {post : β → Option (Ref × Pcb) → Prop}
    (every : f.Every Steadily) (rest : Places t made (g ()) post) :
    Places t made (if P then f >>= g else g ()) post := by
  split
  · refine Places.bind (.every every) ?_
    rintro _ _ rfl
    exact rest
  · exact rest

end

/-! ## Making a process -/

/-- Only the counter and the block in the making change. -/
theorem Procs.Placed.making {procs : Procs} (placed : procs.Placed) (pidCounter : Int)
    (newProcess : Ref → Option (Ref × Pcb)) :
    Procs.Placed { procs with pidCounter, newProcess } :=
  placed.moved rfl rfl rfl fun _ there => there

theorem places_allocateBlock (name : String) (foreground : Int) (fd : Int × Int) (made : Option (Ref × Pcb)) :
    Places t made (liftM (allocateBlock name foreground fd) : Task Bool) fun goes made' => goes = true →
    ∃ r p, made' = some (r, p) := by
  refine .lift (minds_allocateBlock name foreground fd made) fun since s placing => ?_
  have placed := placing.placed
  refine (placing.toHolding.allocates name foreground fd).mono ?_
  rintro _ _ (_ | _ | _)
  · exact ⟨placed, rfl⟩
  · exact ⟨placed.making _ s.procs.newProcess, rfl⟩
  · exact ⟨placed.making _ _, rfl⟩

theorem places_attachSemaphore (r : Ref) (p : Pcb) :
    Places t (some (r, p)) (liftM attachSemaphore : Task Bool) fun goes made' =>
    goes = true → ∃ p', made' = some (r, p') := by
  refine .lift (minds_attachSemaphore r p) fun since s placing => ?_
  unfold attachSemaphore
  rw [meets_bind]
  apply (steady_elementary.inits 0 s).mono
  intro semId s₁ steady
  have placing₁ := placing.steady steady
  rw [meets_bind]
  refine placing₁.meets_readNewProcess fun r' p' _ => ?_
  rw [meets_ite]
  constructor
  · intro _
    simp only [meets_bind, meets_free]
    rw [meets_setNewProcess (by exact placing₁.running)]
    exact ⟨placing₁.placed.making s₁.procs.pidCounter _, steady.idle⟩
  · intro _
    rw [meets_bind, meets_setNewProcess placing₁.running]
    exact ⟨placing₁.placed.making s₁.procs.pidCounter _, steady.idle⟩

theorem places_initializeBlock (name : String) (foreground : Int) (fd : Int × Int) (made : Option (Ref × Pcb)) :
    Places t made (initializeBlock name foreground fd) fun goes made' => goes = true → ∃ r p, made' = some (r, p) := by
  refine (places_allocateBlock name foreground fd made).bind fun goes made₁ allocated => ?_
  cases goes with
  | false => exact .pure nofun
  | true =>
    obtain ⟨r, p, rfl⟩ := allocated rfl
    have attached : Places t (some (r, p)) (liftM attachSemaphore : Task Bool) fun goes made' =>
        goes = true → ∃ r p, made' = some (r, p) := by
      refine (places_attachSemaphore r p).mono fun goes made' given goes => ?_
      obtain ⟨p', same⟩ := given goes
      exact ⟨r, p', same⟩
    rw [if_pos rfl]
    exact .whenever (every_pipeOpen steady_elementary _).discard
      (.whenever (every_pipeOpen steady_elementary _).discard attached)

/-- A block that is given up in the making was in no place. -/
theorem places_freeBlocks (r : Ref) (p : Pcb) : Places t (some (r, p)) (liftM (freeBlocks r p) : Task Unit)
    fun _ made' => made' = some (r, p) := by
  refine .lift (minds_freeBlocks_new r p p) fun since s placing => ?_
  unfold freeBlocks
  rw [meets_bind]
  refine placing.meets_currentPcb fun current block => ⟨?_, rfl⟩
  have absent := (placing.numbered.apart t r p placing.own).1
  refine placing.placed.moved rfl rfl rfl fun x there => ?_
  have other : x ≠ r := by
    rintro rfl
    exact there absent
  change (Function.update s.procs.pcbs r none x).map Pcb.pid ≠ none
  rw [Function.update_of_ne other]
  exact there

theorem places_freeProcess (r : Ref) (p : Pcb) : Places t (some (r, p)) (freeProcess r p) fun _ made' =>
    made' = some (r, p) := by
  refine Places.bind (.every (every_get steady_elementary)) ?_
  rintro _ _ rfl
  refine Places.bind (.steady (built_freeArguments steady_elementary p)) ?_
  rintro _ _ rfl
  refine Places.bind (.every (every_freePipes steady_elementary p.fileDescriptors)) ?_
  rintro _ _ rfl
  refine Places.bind (.every (every_get steady_elementary)) ?_
  rintro _ _ rfl
  refine Places.bind (.steady (steady_primitive.notes _)) ?_
  rintro _ _ rfl
  exact places_freeBlocks r p

/-- The new process, which was nowhere, is in the queue or lost. -/
theorem Procs.Placed.published {procs procs' : Procs} (placed : procs.Placed) (absent : procs.pidOf r = none)
    (idle : procs'.idleProcessPCB = procs.idleProcessPCB) (current : procs'.currentProcessPCB = procs.currentProcessPCB)
    (pcbs : procs'.pcbs = Function.update procs.pcbs r (some p))
    (listed : values procs'.queue = values procs.queue ++ added) (only : added.Sublist [r]) : procs'.Placed := by
  have there : ∀ x, x = r ∨ procs.pidOf x ≠ none → procs'.pidOf x ≠ none := by
    intro x here
    unfold Procs.pidOf
    rw [pcbs]
    by_cases same : x = r
    · simp [same]
    · rw [Function.update_of_ne same]
      exact here.resolve_left same
  have new : ∀ x, procs.pidOf x ≠ none → x ∉ added := by
    rintro x there member
    rw [List.mem_singleton.mp (only.subset member)] at there
    exact there absent
  obtain ⟨i, isIdle, away, exists'⟩ := placed.idle
  refine ⟨⟨i, idle.trans isIdle, ?_, there i (.inr exists')⟩, ?_, fun x member => ?_, fun x running => ?_⟩
  · rw [listed, List.mem_append, not_or]
    exact ⟨away, new i exists'⟩
  · rw [listed, List.nodup_append]
    refine ⟨placed.once, only.nodup (List.nodup_singleton r), ?_⟩
    rintro x member _ member' rfl
    exact new x (placed.queued x member) member'
  · rw [listed, List.mem_append] at member
    rcases member with member | member
    · exact there x (.inr (placed.queued x member))
    · exact there x (.inl (List.mem_singleton.mp (only.subset member)))
  · obtain ⟨apart, exists'⟩ := placed.running x (current.symm.trans running)
    rw [listed, List.mem_append, not_or]
    exact ⟨⟨apart, new x exists'⟩, there x (.inr exists')⟩

theorem places_enqueueNewProcess (foreground : Int) (args : Option Ref) (strings : List Ref) :
    Places t (some (r, p)) (liftM (enqueueNewProcess foreground args strings) : Task Int) fun _ _ => True := by
  refine .lift (minds_enqueueNewProcess foreground args strings) fun since s placing => ?_
  have absent := (placing.numbered.apart t r p placing.own).1
  unfold enqueueNewProcess
  rw [meets_bind]
  refine placing.meets_readNewProcess fun r' p' same => ?_
  cases same
  simp only [meets_bind, meets_get]
  apply (enqueue_asks r).mono
  rintro queue s₁ ⟨queued, h, asked, rfl⟩
  have placing₁ : Placing t (some (r, p)) since (s.withHeap h) :=
    placing.steady ⟨⟨asked.grown.requests, rfl, rfl, rfl, fun _ => rfl⟩, rfl, rfl⟩
  refine placing₁.meets_currentPcb fun current block => ?_
  rw [meets_setNewProcess placing₁.running]
  simp only [meets_modifyProcs, meets_pure]
  refine ⟨?_, rfl⟩
  have only : (if s.heap.Grants 0 then [r] else []).Sublist [r] := by
    split <;> simp
  exact placing.placed.published absent rfl rfl rfl queued only

theorem places_giveUp : Places t (some (r, p)) (liftM (setNewProcess none) : Task Unit) fun _ _ => True := by
  refine .lift (minds_giveUp r p) fun since s placing => ?_
  rw [meets_setNewProcess placing.running]
  exact ⟨placing.placed.making s.procs.pidCounter _, rfl⟩

theorem places_readNewProcess (r : Ref) (p : Pcb) :
    Places t (some (r, p)) (liftM readNewProcess : Task (Ref × Pcb)) fun a made' =>
      made' = some (r, p) ∧ a = (r, p) :=
  .lift (minds_readNewProcess r p) fun _ _ placing =>
    placing.meets_readNewProcess fun _ _ _ => ⟨placing.placed, rfl⟩

theorem places_fillNewProcess (argv : List String) (foreground : Int) :
    Places t (some (r, p)) (fillNewProcess argv foreground) fun _ _ => True := by
  refine Places.bind (.steady steady_primitive.asks) ?_
  rintro args _ rfl
  refine Places.bind (.steady (built_cpyArgs steady_primitive args argv)) ?_
  rintro strings _ rfl
  cases strings with
  | some strings => exact places_enqueueNewProcess foreground args strings
  | none =>
    refine (places_readNewProcess r p).bind ?_
    rintro _ _ ⟨rfl, rfl⟩
    refine (places_freeProcess r p).bind ?_
    rintro _ _ rfl
    exact places_giveUp.bind fun _ _ _ => .pure trivial

theorem places_startTask (process : Option Ref) (argv : List String) (foreground : Int) (fd : Option (Int × Int))
    (made : Option (Ref × Pcb)) : Places t made (startTask process argv foreground fd) fun _ _ => True := by
  unfold startTask
  split
  · exact .pure trivial
  · refine Places.bind (.steady (built_deref steady_primitive argv.head?)) ?_
    rintro name _ rfl
    refine Places.bind (.steady (built_descriptorsOf steady_primitive fd)) ?_
    rintro fd _ rfl
    refine (places_initializeBlock name foreground fd _).bind fun goes made' given => ?_
    cases goes with
    | false => exact .pure trivial
    | true =>
      obtain ⟨r, p, rfl⟩ := given rfl
      exact places_fillNewProcess argv foreground

theorem places_call (call : Call) (made : Option (Ref × Pcb)) : Places t made call.perform fun _ _ => True := by
  cases call with
  | startTask process argv foreground fd => exact places_startTask process argv foreground fd made
  | _ => exact (Places.every (every_call steady_elementary _ (by nofun))).mono fun _ _ _ => trivial

/-! ## The scheduler -/

/-- Everybody is in place, whoever was running. -/
abbrev State.Cleared (s : State) : Prop := Procs.Placed { s.procs with currentProcessPCB := none }

/-- Somebody who is not idle is in charge, and everybody is in place. -/
structure State.Charged (s : State) : Prop where
  placed : s.procs.Placed
  awake : s.Awake

theorem Procs.Placed.cleared {procs : Procs} (placed : procs.Placed) :
    Procs.Placed { procs with currentProcessPCB := none } :=
  ⟨placed.idle, placed.once, placed.queued, nofun⟩

/-- The running process is put back into the queue, or lost. -/
theorem putBack_placed (placed : s.procs.Placed) (running : s.procs.currentProcessPCB = some r)
    (awake : s.procs.idleProcessPCB ≠ some r) : Meets (fun _ => True) (putBack r) (fun _ s' => s'.Cleared) s := by
  obtain ⟨i, isIdle, away, there⟩ := placed.idle
  obtain ⟨apart, exists'⟩ := placed.running r running
  unfold putBack
  simp only [meets_bind, meets_get]
  refine (enqueue_asks r).mono ?_
  rintro queue s₁ ⟨listed, h, asked, rfl⟩
  rw [meets_modifyProcs]
  have member : ∀ x, x ∈ values queue → x ∈ values s.procs.queue ∨ x = r := by
    intro x here
    rw [listed, List.mem_append] at here
    refine here.imp_right fun here => ?_
    split at here
    · exact List.mem_singleton.mp here
    · cases here
  refine ⟨⟨i, isIdle, fun here => ?_, there⟩, ?_, fun x here => ?_, by simp⟩
  · rcases member i here with here | rfl
    · exact away here
    · exact awake isIdle
  · rw [listed, List.nodup_append]
    refine ⟨placed.once, ?_, ?_⟩
    · split <;> simp
    · rintro x here _ here' rfl
      split at here'
      · exact apart (List.mem_singleton.mp here' ▸ here)
      · cases here'
  · rcases member x here with here | rfl
    · exact placed.queued x here
    · exact exists'

theorem takeNext_charged (cleared : s.Cleared) : Meets (fun _ => True) takeNext (fun _ s' => s'.Charged) s := by
  obtain ⟨i, isIdle, away, there⟩ := cleared.idle
  unfold takeNext
  simp only [meets_bind, meets_get]
  cases queue : s.procs.queue with
  | nil =>
    refine ⟨⟨⟨i, isIdle, List.not_mem_nil, there⟩, .nil, fun _ here => absurd here List.not_mem_nil, by simp⟩, ?_⟩
    intro same
    cases same.trans isIdle
  | cons node rest =>
    have once := cleared.once
    have queued := cleared.queued
    rw [queue] at away once queued
    obtain ⟨apart, once⟩ := List.nodup_cons.mp once
    refine ⟨⟨⟨i, isIdle, fun here => away (List.mem_cons_of_mem _ here), there⟩, once,
      fun x here => queued x (List.mem_cons_of_mem _ here), ?_⟩, fun same => ?_⟩
    · rintro _ ⟨⟩
      exact ⟨apart, queued _ (List.mem_cons_self ..)⟩
    · obtain rfl := Option.some.inj (same.trans isIdle)
      exact away (List.mem_cons_self ..)

/-- Up to its first pause. -/
theorem steady_meets {α : Type} {p : Task α} (every : p.Every Steadily) (since : State) :
    p.Meets (fun _ => True) (fun _ _ => True) (fun _ _ => False) (fun _ _ s' => s.Steady s') since s := by
  have kept : ∀ s', s.Steady s' →
    p.Meets (fun _ => True) (fun _ _ => True) (fun _ _ => False) (fun _ _ s' => s.Steady s') since s' := by
    intro s' steady
    induction p generalizing s' with
    | done a => exact steady
    | act action rest ih => exact (every.1 s').mono fun b s'' steady' => ih b (every.2 b) s'' (steady.trans steady')
    | pause rest ih => exact ⟨trivial, fun _ never => never.elim⟩
  exact kept s (.refl s)

/-- A dead process is given up. -/
theorem freeProcess_cleared (placed : s.procs.Placed) (running : s.procs.currentProcessPCB = some r)
    (awake : s.procs.idleProcessPCB ≠ some r) :
    Meets (fun _ => True) ((freeProcess r p).complete .nestedTick) (fun _ s' => s'.Cleared) s := by
  have freed : ∀ s₁, s.Steady s₁ → Meets (fun _ => True) (freeBlocks r p) (fun _ s' => s'.Cleared) s₁ := by
    intro s₁ steady
    have running₁ := steady.current.trans running
    have placed₁ := steady.placed placed
    obtain ⟨apart, there⟩ := placed₁.running r running₁
    obtain ⟨p₁, block₁⟩ := Option.ne_none_iff_exists'.mp fun none => there (congrArg (Option.map Pcb.pid) none)
    obtain ⟨i, isIdle, away, there'⟩ := placed₁.idle
    have other : i ≠ r := by
      rintro rfl
      exact awake (steady.idle.symm.trans isIdle)
    have kept : ∀ (procs : Procs) (x : Ref), procs.pcbs = Function.update s₁.procs.pcbs r none → x ≠ r →
        s₁.procs.pidOf x ≠ none → procs.pidOf x ≠ none := by
      intro procs x pcbs other there
      unfold Procs.pidOf
      rw [pcbs, Function.update_of_ne other]
      exact there
    unfold freeBlocks
    rw [meets_bind, meets_currentPcb running₁ block₁]
    refine ⟨⟨i, isIdle, away, kept _ i rfl other there'⟩, placed₁.once, fun x here =>
      kept _ x rfl ?_ (placed₁.queued x here), nofun⟩
    rintro rfl
    exact apart here
  have program : (freeProcess r p).Meets (fun _ => True) (fun _ _ => True) (fun _ _ =>
    False) (fun _ _ s' => s'.Cleared) s s := by
    unfold freeProcess
    simp only [Program.meets_bind, Program.meets_lift, meets_get, meets_log]
    refine (built_freeArguments steady_elementary p s).mono fun _ s₁ steady₁ => ?_
    refine (steady_meets (every_freePipes steady_elementary p.fileDescriptors) s).mono fun _ _ s₂ steady₂ => ?_
    exact freed _ ((steady₁.trans steady₂).trans ⟨quiet_log _ s₂, rfl, rfl⟩)
  exact program.complete_of_nested trivial

theorem passBy_charged (charged : s.Charged) (running : s.procs.currentProcessPCB = some r) :
    Meets (fun _ => True) (passBy r p) (fun _ s' => s'.Charged) s := by
  have awake : s.procs.idleProcessPCB ≠ some r := fun same => charged.awake (running.trans same.symm)
  unfold passBy
  rw [meets_ite]
  constructor
  · intro _
    rw [meets_bind]
    exact (freeProcess_cleared charged.placed running awake).mono fun _ _ cleared => takeNext_charged cleared
  · intro _
    rw [meets_bind]
    exact (putBack_placed charged.placed running awake).mono fun _ _ cleared => takeNext_charged cleared

theorem scheduleLoop_charged (fuel : Nat) (charged : s.Charged) :
    Meets (fun _ => True) (scheduleLoop fuel) (fun _ s' => s'.Charged) s := by
  induction fuel generalizing s with
  | zero => trivial
  | succ fuel ih =>
    rw [scheduleLoop_succ]
    cases running : s.procs.currentProcessPCB with
    | none => simp [currentPcb, running, deref]
    | some r =>
      cases block : s.procs.pcbs r with
      | none => simp [currentPcb, running, block, lookup]
      | some p =>
        rw [meets_bind, meets_currentPcb running block, meets_ite]
        refine ⟨fun _ => charged, fun _ => ?_⟩
        rw [meets_bind]
        exact (passBy_charged charged running).mono fun _ _ charged' => ih charged'

/-- Everybody is in place, and somebody is running. -/
structure State.Manned (s : State) : Prop where
  placed : s.procs.Placed
  running : s.procs.currentProcessPCB ≠ none

/-- A process is given its cycles. -/
theorem runs_manned (placed : s.procs.Placed) : Meets (fun _ => True) (do
    let priority := (← currentPcb).2.priority
    modifyProcs fun procs => { procs with currentCycles := priority }) (fun _ s' => s'.Manned) s := by
  cases running : s.procs.currentProcessPCB with
  | none => simp [currentPcb, running, deref]
  | some r =>
    cases block : s.procs.pcbs r with
    | none => simp [currentPcb, running, block, lookup]
    | some p =>
      rw [meets_bind, meets_currentPcb running block]
      refine ⟨placed.moved rfl rfl rfl fun _ there => there, fun none => ?_⟩
      cases running.symm.trans none

theorem choose_manned (cleared : s.Cleared) : Meets (fun _ => True) scheduleTask.choose (fun _ s' => s'.Manned) s := by
  unfold scheduleTask.choose
  rw [meets_bind, meets_get, meets_ite]
  constructor
  · intro _
    have next := takeNext_charged cleared
    unfold takeNext at next
    simp only [meets_bind, meets_get] at next
    rw [meets_bind]
    refine next.mono ?_
    rintro ⟨queue, next⟩ s₁ charged
    rw [meets_bind, meets_modifyProcs, meets_bind]
    exact (scheduleLoop_charged _ charged).mono fun _ s₂ charged₂ => runs_manned charged₂.placed
  · intro _
    rw [meets_bind, meets_modifyProcs]
    obtain ⟨i, isIdle, away, there⟩ := cleared.idle
    refine runs_manned ⟨⟨i, isIdle, away, there⟩, cleared.once, cleared.queued, fun r running => ?_⟩
    obtain rfl := Option.some.inj (isIdle.symm.trans running)
    exact ⟨away, there⟩

theorem scheduleTask_manned (placed : s.procs.Placed) (numbered : s.procs.Numbered s.heap.requests) :
    Meets (fun _ => True) scheduleTask (fun _ s' => s'.Manned) s := by
  unfold scheduleTask
  rw [meets_bind, meets_get]
  cases running : s.procs.currentProcessPCB with
  | none => exact choose_manned placed.cleared
  | some r =>
    dsimp only
    rw [meets_bind, meets_readPcb]
    cases block : s.procs.pcbs r with
    | none => trivial
    | some p =>
      rw [meets_lookup_some, meets_bind, meets_get, meets_ite]
      constructor
      · intro _
        refine ⟨placed.moved rfl rfl rfl fun _ there => there, fun none => ?_⟩
        cases running.symm.trans none
      · intro _
        obtain ⟨i, isIdle, away, there⟩ := placed.idle
        obtain ⟨q, idleBlock⟩ := Option.ne_none_iff_exists'.mp fun none => there (congrArg (Option.map Pcb.pid) none)
        simp only [meets_bind, meets_get, isIdle, meets_deref_some, meets_readPcb, idleBlock, meets_lookup_some]
        rw [meets_ite]
        constructor
        · intro other
          have apart : s.procs.idleProcessPCB ≠ some r := by
            intro same
            cases isIdle.symm.trans same
            cases block.symm.trans idleBlock
            exact other rfl
          have put := putBack_placed placed running apart
          unfold putBack at put
          simp only [meets_bind, meets_get, meets_modifyProcs] at put
          simp only [meets_bind, meets_get, meets_modifyProcs]
          exact put.mono fun queue s₁ cleared => choose_manned cleared
        · intro same
          have here : i = r := numbered.unique i r p.pid (by simp [Procs.pidOf, idleBlock, not_not.mp same])
            (by simp [Procs.pidOf, block])
          subst here
          rw [meets_bind, meets_modifyProcs]
          exact choose_manned ⟨⟨i, rfl, away, there⟩, placed.once, placed.queued, by simp⟩

/-! ## Every run -/

/-- Nobody is in two places, and no pid is given out twice. -/
structure State.Located (s : State) : Prop extends State.Manned s where
  numbered : s.procs.Numbered s.heap.requests

theorem located_schedule (located : s.Located) (ran : scheduleTask.run s = .ok ((), s')) :
    s'.Located ∧ ∀ t, s'.procs.newProcess t = s.procs.newProcess t := by
  have manned := (meets_of_run ran).mp (scheduleTask_manned located.placed located.numbered)
  have kept := (meets_of_run ran).mp (keeps_scheduleTask s ⟨located.numbered, rfl⟩)
  exact ⟨⟨manned, kept.numbered⟩, fun t => congrFun kept.made t⟩

def locating : Discipline machine where
  inv := State.Located
  turn _ := True
  does t s s' := ∀ t' ≠ t, s'.procs.newProcess t' = s.procs.newProcess t'
  rely t s s' := s'.procs.newProcess t = s.procs.newProcess t
  refl := numbering.refl
  trans := numbering.trans
  spared t t' s s' located := numbering.spared t t' s s' located.numbered
  schedule _ _ located ran := ⟨(located_schedule located ran).1, trivial, (located_schedule located ran).2⟩

theorem Placing.located (placing : Placing t made since s) : s.Located :=
  ⟨⟨placing.placed, fun none => nomatch placing.running.symm.trans none⟩, placing.numbered⟩

theorem locating_calls (allowed : State → Call → Prop) : locating.Calls (Issues allowed) := by
  rintro s p t ⟨call, -, rfl, -⟩ located - running
  have places := places_call call (s.procs.newProcess t) s s
    ⟨⟨located.numbered, running, rfl, fun _ _ => rfl⟩, located.placed, rfl⟩
  refine Program.Meets.weaken places ?_ ?_ ?_
  · rintro since s' ⟨made', placing⟩
    exact ⟨placing.located, placing.others⟩
  · rintro s' s'' ⟨located', -, running', same⟩
    exact ⟨⟨located'.numbered, running', same⟩, located'.placed⟩
  · rintro _ since s' ⟨made', -, placing⟩
    exact ⟨placing.located, trivial, placing.others⟩

variable {grants : Nat → Bool} {garbage : Option Ref × List Ref} {allowed : State → Call → Prop} {S S₀ : System}

theorem placed_boot : bootProcs.Placed := by
  refine ⟨⟨idleRef, rfl, by decide, by decide⟩, by decide, ?_, nofun⟩
  decide

theorem locating_dispatched (first : Step machine (Issues allowed) (boot grants garbage) S₀) : locating.Holds S₀ := by
  cases first with
  | schedule ran =>
    have numbered := (@numbering_boot grants garbage).inv
    have manned := (meets_of_run ran).mp (scheduleTask_manned placed_boot numbered)
    have kept := (meets_of_run ran).mp (keeps_scheduleTask _ ⟨numbered, rfl⟩)
    exact ⟨⟨manned, kept.numbered⟩, fun _ => trivial, nofun⟩
  | resume turn => cases turn
  | call turn => cases turn

/-- After the first dispatch nobody is in two places. -/
theorem located_reachable (first : Step machine (Issues allowed) (boot grants garbage) S₀) (run : Run allowed S₀ S) :
    S.state.Located :=
  (locating.holds_run (locating_calls allowed) (locating_dispatched first) run).inv

end QuesOs.Kernel
