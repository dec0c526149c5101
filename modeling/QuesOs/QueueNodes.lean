import QuesOs.PipeInfo
import QuesOs.Numbering
import QuesOs.Shortage
import QuesOs.Served

/-! The process table when requests for memory are refused. `enqueue` drops what
it gets no node for, and neither `scheduleTask` nor `startTask` looks; as long as
these get their nodes the table stays exact, whatever else is refused. -/
namespace QuesOs.Kernel
open Resumption Threads

variable {s s' : State}

/-! ## What leaves the processes where they are -/

abbrev State.Tabled (s : State) : Prop := s.procs.Table s.heap.requests

/-- The process in charge is not the idle one. -/
def State.Awake (s : State) : Prop := s.procs.currentProcessPCB ≠ s.procs.idleProcessPCB

/-- Between the two every process stayed where it is and the dead stayed dead, and the table is exact. -/
structure State.Calm (s s' : State) : Prop extends State.Alike s s' where
  queue : s'.procs.queue = s.procs.queue
  idle : s'.procs.idleProcessPCB = s.procs.idleProcessPCB
  dead : ∀ r p, s.procs.pcbs r = some p → p.state = .terminated →
  ∃ p', s'.procs.pcbs r = some p' ∧ p'.state = .terminated
  table : s'.Tabled

namespace State.Calm

theorem of_procs (table : s.Tabled) (procs : s'.procs = s.procs) (more : s.heap.requests ≤ s'.heap.requests) :
    s.Calm s' where
  requests := more
  counter := congrArg Procs.pidCounter procs
  newProcess := congrArg Procs.newProcess procs
  current := congrArg Procs.currentProcessPCB procs
  pids r := by rw [procs]
  queue := congrArg Procs.queue procs
  idle := congrArg Procs.idleProcessPCB procs
  dead r p block dead := ⟨p, procs ▸ block, dead⟩
  table := by
    unfold State.Tabled
    rw [procs]
    exact table.grown more

theorem refl (table : s.Tabled) : s.Calm s := .of_procs table rfl (Nat.le_refl _)

theorem awake (calm : s.Calm s') (awake : s.Awake) : s'.Awake := by
  unfold State.Awake
  rw [calm.current, calm.idle]
  exact awake

theorem trans (first : s.Calm s') (second : s'.Calm s'') : s.Calm s'' where
  toAlike := first.toAlike.trans second.toAlike
  queue := second.queue.trans first.queue
  idle := second.idle.trans first.idle
  dead r p block dead := by
    obtain ⟨p', block', dead'⟩ := first.dead r p block dead
    exact second.dead r p' block' dead'
  table := second.table

end State.Calm

/-- The table is exact, and one who is busy is in charge. -/
structure Poised (busy : Prop) (s : State) : Prop where
  table : s.Tabled
  awake : busy → s.Awake

theorem Poised.calm (poised : Poised busy s) (calm : s.Calm s') : Poised busy s' :=
  ⟨calm.table, fun here => calm.awake (poised.awake here)⟩

/-- The action leaves the processes where they are. -/
def Calmly {α : Type} (busy : Prop) (f : K α) : Prop := ∀ s, Poised busy s →
    Meets (fun _ => True) f (fun _ s' => s.Calm s') s

variable {busy : Prop}

theorem calm_bind {α β : Type} {f : K α} {g : α → K β} (first : Calmly busy f) (rest : ∀ a, Calmly busy (g a)) :
    Calmly busy (f >>= g) := by
  intro s poised
  rw [meets_bind]
  exact (first s poised).mono fun a s' calm => (rest a s' (poised.calm calm)).mono fun _ _ calm' => calm.trans calm'

theorem calm_modify {f : State → State} (calm : ∀ s : State, s.Tabled → s.Calm (f s)) :
    Calmly busy (modify f : K Unit) :=
  fun s poised => calm s poised.table

/-- Writes to one process that leave its pid and its state. -/
theorem calm_modifyPcb (process : Ref) {f : Pcb → Pcb} (same : ∀ p, ∃ ppid priority, f p = { p with ppid, priority }) :
    Calmly busy (modifyPcb process f) := by
  refine calm_modify fun s table => ?_
  have kept : ∀ p, (f p).pid = p.pid ∧ (f p).state = p.state ∧ (f p).foreground = p.foreground ∧
      (f p).arguments = p.arguments := by
    intro p
    obtain ⟨ppid, priority, here⟩ := same p
    rw [here]
    exact ⟨rfl, rfl, rfl, rfl⟩
  have written : Function.update s.procs.pcbs process ((s.procs.pcbs process).map f) =
      fun r => (s.procs.pcbs r).map fun p => if r = process then f p else p := by
    funext r
    by_cases here : r = process
    · subst here
      simp
    · simp [here]
  have relabels : ∀ r p, (if r = process then f p else p).pid = p.pid ∧
    (if r = process then f p else p).state = p.state ∧
      (if r = process then f p else p).foreground = p.foreground ∧
      (if r = process then f p else p).arguments = p.arguments := by
    intro r p
    split
    · exact kept p
    · exact ⟨rfl, rfl, rfl, rfl⟩
  refine ⟨⟨Nat.le_refl _, rfl, rfl, rfl, fun r => ?_⟩, rfl, rfl, fun r p block dead => ?_, ?_⟩
  · dsimp only
    rw [written, Option.map_map]
    exact congrArg (Option.map · _) (funext fun p => (relabels r p).1)
  · refine ⟨_, (congrFun written r).trans (congrArg (Option.map _) block), ?_⟩
    rw [(relabels r p).2.1, dead]
  · have relabelled := table.relabelled (fun r p => if r = process then f p else p) relabels
    rw [← written] at relabelled
    exact relabelled

theorem calm_primitive : Primitive (Calmly busy) where
  ends _ _ poised := .refl poised.table
  follows := calm_bind
  reads _ poised := .refl poised.table
  fails _ _ _ := trivial
  asks _ poised := malloc_cases (fun _ _ asked => .of_procs poised.table rfl asked.grown.requests)
    fun _ _ asked => .of_procs poised.table rfl asked.grown.requests
  releases _ := calm_modify fun _ table => .of_procs table rfl (Nat.le_refl _)
  notes _ := calm_modify fun _ table => .of_procs table rfl (Nat.le_refl _)
  remembers _ := calm_modify fun _ table => .of_procs table rfl (Nat.le_refl _)
  edits process _ := calm_modifyPcb process

/-! ## Changes of state -/

/-- A process that was alive changes its state; the idle one stays ready. -/
theorem calm_move {s₁ : State} (calm : s.Calm s₁) (block : s.procs.pcbs r = some p) (alive : p.state ≠ .terminated)
    (listed : r ∈ s.procs.others ∨ s.procs.idleProcessPCB = some r ∧ newState = .ready)
    (block' : s₁.procs.pcbs r = some p') :
    s.Calm { s₁ with procs := s₁.procs.moveState r p' newState } := by
  have others : ∀ r' ≠ r, (s₁.procs.moveState r p' newState).pcbs r' = s₁.procs.pcbs r' := fun r' other =>
    Function.update_of_ne other _ _
  refine ⟨⟨calm.requests, calm.counter, calm.newProcess, calm.current, fun r' => ?_⟩, calm.queue, calm.idle,
    fun r' q was dead => ?_, ?_⟩
  · by_cases here : r' = r
    · subst here
      have pid := calm.pids r'
      rw [block'] at pid
      change (Function.update s₁.procs.pcbs r' _ r').map Pcb.pid = _
      rw [Function.update_self]
      exact pid
    · exact (congrArg (Option.map Pcb.pid) (others r' here)).trans (calm.pids r')
  · have other : r' ≠ r := by
      intro same
      rw [same, block] at was
      cases was
      exact alive dead
    obtain ⟨q', still, dead'⟩ := calm.dead r' q was dead
    exact ⟨q', (others r' other).trans still, dead'⟩
  · rcases listed with listed | ⟨idle, rfl⟩
    · refine calm.table.moveState ?_ block' newState
      unfold Procs.others at listed ⊢
      rw [calm.queue, calm.current, calm.idle]
      exact listed
    · -- The idle process was ready before.
      obtain ⟨r', q, isIdle, idleBlock, ready, -, -⟩ := calm.table.idle
      rw [calm.idle, idle] at isIdle
      cases isIdle
      cases block'.symm.trans idleBlock
      have still : s₁.procs.moveState r p' .ready = s₁.procs := by
        have same : Function.update s₁.procs.pcbs r (some { p' with state := .ready }) = s₁.procs.pcbs := by
          rw [← ready]
          exact Function.update_eq_self_iff.mpr block'.symm
        simp [Procs.moveState, ready, same]
      exact still.symm ▸ calm.table

/-- The loop reads the block of the killed process first, and there is none. -/
theorem sendTaskToInitLoop_none (pid : Int) (refs : List Ref) (s : State) :
    Meets (fun _ => True) (sendTaskToInitLoop pid none r refs false) (fun _ _ => False) s := by
  unfold sendTaskToInitLoop
  trivial

theorem sendTaskToInit_none (running : s.procs.currentProcessPCB = some r) (pid : Int) (it : Option Ref) (h : Heap) :
    Meets (fun _ => True) (do
      match (← get).procs.currentProcessPCB with
      | none => return (-1 : Int)
      | some process =>
        let queue := values (← get).procs.queue
        let hasParent ← sendTaskToInitLoop pid none process (if it.isSome then queue else []) false
        it.forM free
        if !hasParent then
          let initPid := (← get).procs.initPid
          modifyPcb (← deref none) fun p => { p with ppid := initPid }
        return 0) (fun _ _ => False) (s.withHeap h) := by
  simp only [meets_bind, meets_get, withHeap_procs, running]
  exact (sendTaskToInitLoop_none pid _ _).mono fun _ _ never => never.elim

/-- The idle process is never terminated: `sendTaskToInit` looks for it in the queue, and reads what it does
not find. -/
theorem sendTaskToInit_idle (table : s.Tabled) (running : s.procs.currentProcessPCB = some r)
    (idle : s.procs.idleProcessPCB = some r) (block : s.procs.pcbs r = some p) :
    Meets (fun _ => True) (sendTaskToInit p.pid) (fun _ _ => False) s := by
  unfold sendTaskToInit
  rw [meets_bind]
  refine malloc_asks.mono ?_
  rintro it s₁ ⟨-, h₁, -, rfl⟩
  rw [meets_bind]
  unfold getProcess
  rw [meets_bind]
  refine malloc_asks.mono ?_
  rintro it' s₂ ⟨-, h₂, -, rfl⟩
  have rest := sendTaskToInit_none running p.pid it
  cases it' with
  | none => exact rest _
  | some it' =>
    simp only [meets_bind, meets_get]
    refine (getProcessLoop_any p.pid _).mono ?_
    rintro found s₃ ⟨rfl, here⟩
    simp only [meets_free, meets_pure]
    cases found with
    | none => exact rest _
    | some r' =>
      obtain ⟨queued, q, block', pid⟩ := here r' rfl
      obtain rfl := table.unique r' r q p block' block pid
      obtain ⟨_, _, isIdle, -, -, -, away⟩ := table.idle
      cases idle.symm.trans isIdle
      exact (away (List.mem_append_left _ queued)).elim

/-- What may be asked for, and of whom. -/
theorem changeStateWith_calm {semPost : Int → K Int} (posts : ∀ id, Calmly busy (semPost id)) (poised : Poised busy s)
    (may : s.Awake ∨ newState = .ready ∨ newState = .terminated ∨ pid ≠ s.procs.callerPid) :
    Meets (fun _ => True) (changeStateWith semPost pid newState) (fun _ s' => s.Calm s') s := by
  unfold changeStateWith
  rw [meets_bind]
  refine (processOf_any pid).mono ?_
  rintro found s₁ ⟨⟨h, grown, rfl, -⟩, -, here⟩
  have calm : s.Calm (s.withHeap h) := .of_procs poised.table rfl grown.requests
  cases found with
  | none => exact calm
  | some r =>
    obtain ⟨found, p, block, pid⟩ := here r rfl
    simp only [changeProcess]
    rw [meets_bind, meets_readPcb]
    simp only [withHeap_procs, block, meets_lookup_some]
    rw [meets_ite]
    refine ⟨fun _ => calm, fun alive => ?_⟩
    rw [not_or] at alive
    -- The idle process can only be found by itself.
    have listed : r ∈ s.procs.others ∨ s.procs.idleProcessPCB = some r ∧ s.procs.currentProcessPCB = some r ∧
        (newState = .ready ∨ newState = .terminated) := by
      rcases found with current | queued
      · by_cases idle : s.procs.idleProcessPCB = some r
        · refine .inr ⟨idle, current, ?_⟩
          rcases may with awake | ready | dead | other
          · exact (awake (current.trans idle.symm)).elim
          · exact .inl ready
          · exact .inr dead
          · exact (other (by simp [Procs.callerPid, current, block, pid])).elim
        · refine .inl (List.mem_append_right _ ?_)
          have apart : some r ≠ s.procs.idleProcessPCB := fun same => idle same.symm
          simp [current, apart]
      · exact .inl (List.mem_append_left _ queued)
    -- What comes before the move leaves the processes where they are.
    have moves : ∀ s₁ : State, s.Calm s₁ → (r ∈ s.procs.others ∨ s.procs.idleProcessPCB = some r ∧
      newState = .ready) → ∀ before,
        Meets (fun _ => True) (do
          let p ← readPcb r
          modifyProcs (·.moveState r p newState)
          if newState = .terminated then log (.terminated p.pid before (← get).procs)
          return p.pid) (fun _ s' => s.Calm s') s₁ := by
      intro s₁ calm₁ listed before
      rw [meets_bind, meets_readPcb]
      cases block' : s₁.procs.pcbs r with
      | none => trivial
      | some p' =>
        have moved := calm_move calm₁ block alive.2 listed block'
        simp only [meets_lookup_some, meets_bind, meets_modifyProcs, meets_ite, meets_get, meets_log, meets_pure]
        exact ⟨fun _ => moved.trans (.of_procs moved.table rfl (Nat.le_refl _)), fun _ => moved⟩
    have terminates : ∀ s₁ : State, s.Calm s₁ → ∀ before, Meets (fun _ => True) (do
        if newState = .terminated then discard <| sendTaskToInit p.pid
        let p ← readPcb r
        modifyProcs (·.moveState r p newState)
        if newState = .terminated then log (.terminated p.pid before (← get).procs)
        return p.pid) (fun _ s' => s.Calm s') s₁ := by
      intro s₁ calm₁ before
      rw [meets_ite]
      refine ⟨fun dies => ?_, fun lives => ?_⟩
      · rw [meets_bind, meets_discard]
        rcases listed with listed | ⟨idle, current, -⟩
        · exact (built_sendTaskToInit calm_primitive p.pid s₁ (poised.calm calm₁)).mono fun _ s₂ calm₂ =>
            moves s₂ (calm₁.trans calm₂) (.inl listed) before
        · have block₁ : ∃ p₁, s₁.procs.pcbs r = some p₁ ∧ p₁.pid = p.pid := by
            have same := calm₁.pids r
            rw [block] at same
            exact Option.map_eq_some_iff.mp same
          obtain ⟨p₁, block₁, pid₁⟩ := block₁
          have stops := sendTaskToInit_idle calm₁.table (calm₁.current.trans current) (calm₁.idle.trans idle) block₁
          rw [pid₁] at stops
          exact stops.mono fun _ _ never => never.elim
      · exact moves s₁ calm₁ (listed.imp_right fun here => ⟨here.1, here.2.2.resolve_right lives⟩) before
    rw [meets_bind, meets_get, meets_ite]
    refine ⟨fun _ => ?_, fun _ => terminates _ calm _⟩
    rw [meets_bind, meets_discard]
    exact (posts p.semId _ (poised.calm calm)).mono fun _ s₂ calm₂ => terminates s₂ (calm.trans calm₂) _

theorem calm_detached : Detached (Calmly busy) where
  toPrimitive := calm_primitive
  wakes _ _ poised := changeStateWith_calm (fun _ => calm_primitive.ends _) poised (.inr (.inl rfl))
  expires := calm_modify fun s table => ⟨⟨Nat.le_refl _, rfl, rfl, rfl, fun _ => rfl⟩,
    rfl, rfl, fun _ p block dead => ⟨p, block, dead⟩,
    table.dispatched 0 (.refl _)⟩
  records f same := calm_modify fun s table => by
    obtain ⟨waiting, granted, here⟩ := same s.procs
    rw [here]
    exact ⟨⟨Nat.le_refl _, rfl, rfl, rfl, fun _ => rfl⟩, rfl, rfl, fun _ p block dead => ⟨p, block, dead⟩,
      table.recorded waiting granted⟩
  semsWritten _ := calm_modify fun _ table => .of_procs table rfl (Nat.le_refl _)
  pipesWritten _ := calm_modify fun _ table => .of_procs table rfl (Nat.le_refl _)

/-- Whoever is busy changes states as it likes. -/
theorem calm_elementary : Elementary (Calmly True) :=
  calm_detached.elementary fun posts _ _ _ poised => changeStateWith_calm posts poised (.inl (poised.awake trivial))

theorem calm_terminateChildren (pid : Int) : Calmly busy (terminateChildren pid) :=
  built_terminates calm_primitive (fun _ _ poised =>
    changeStateWith_calm calm_detached.semPost poised (.inr (.inr (.inl rfl)))) pid

/-! ## A process at work -/

/-- What puts a new process into the queue. -/
inductive Publishes : {α : Type} → K α → Prop
  | enqueueNewProcess (foreground : Int) (args : Option Ref) (strings : List Ref) :
    Publishes (Kernel.enqueueNewProcess foreground args strings)

/-- A new process gets its node: the next request is granted where it is put into the queue. -/
def Enqueued {α : Type} (f : K α) (s : State) : Prop := Publishes f → s.heap.Grants 0

/-- A program that stops before it loses a process. -/
noncomputable abbrev careful {α : Type} (p : Task α) : Task α := p.guard Enqueued .nullPointer

/-- The process, not the idle one, is running and has this block in the making, and the table is exact. -/
structure Tending (t : Ref) (made : Option (Ref × Pcb)) (since s : State) : Prop extends Holding t made since s where
  table : s.Tabled
  awake : s.procs.idleProcessPCB ≠ some t
  idle : s.procs.idleProcessPCB = since.procs.idleProcessPCB

/-- How it finds the state when it goes on. -/
structure Refound (t : Ref) (s s' : State) : Prop extends Found t s s' where
  table : s'.Tabled
  idle : s'.procs.idleProcessPCB = s.procs.idleProcessPCB

namespace Tending
variable {since : State}

theorem poised (tending : Tending t made since s) : Poised True s :=
  ⟨tending.table, fun _ same => tending.awake (same.symm.trans tending.running)⟩

theorem calm (tending : Tending t made since s) (calm : s.Calm s') : Tending t made since s' :=
  ⟨tending.toHolding.alike calm.toAlike, calm.table, calm.idle ▸ tending.awake, calm.idle.trans tending.idle⟩

end Tending

/-- The program keeps the table, and takes the block it has in the making to what
`post` says, if it stops before it loses a process. -/
def Tends {α : Type} (t : Ref) (made : Option (Ref × Pcb)) (p : Task α) (post : α → Option (Ref × Pcb) → Prop) : Prop :=
  ∀ since s, Tending t made since s →
    (careful p).Meets (fun _ => True) (fun since s' => ∃ made', Tending t made' since s') (Refound t)
    (fun a since s' => ∃ made', post a made' ∧ Tending t made' since s') since s

section
variable {α β : Type} {p : Task α} {t : Ref} {made : Option (Ref × Pcb)}

theorem Tends.pure {a : α} {post : α → Option (Ref × Pcb) → Prop} (here : post a made) :
    Tends t made (Pure.pure a) post :=
  fun _ _ tending => ⟨made, here, tending⟩

theorem Tends.bind {f : α → Task β} {middle : α → Option (Ref × Pcb) → Prop} {post : β → Option (Ref × Pcb) → Prop}
    (first : Tends t made p middle) (rest : ∀ a made', middle a made' → Tends t made' (f a) post) :
    Tends t made (p >>= f) post := by
  intro since s tending
  unfold careful
  rw [Program.guard_bind, Program.meets_bind]
  refine (first since s tending).mono ?_
  rintro a since' s' ⟨made', middle, tending'⟩
  exact rest a made' middle since' s' tending'

/-- An action minds the block, and keeps the table. -/
theorem Tends.lift {f : K α} {post : α → Option (Ref × Pcb) → Prop} (minds : Minds t made (liftM f) post)
    (table : ∀ since s, Tending t made since s → Enqueued f s → Meets (fun _ => True) f (fun _ s' => s'.Tabled ∧
      s'.procs.idleProcessPCB = s.procs.idleProcessPCB) s) : Tends t made (liftM f) post := by
  intro since s tending
  have guarded : Meets (fun _ => True) (guardAction Enqueued .nullPointer f)
      (fun a s' => ∃ made', post a made' ∧ Tending t made' since s') s := by
    rw [meets_guardAction (by trivial)]
    intro served
    have minded : Meets (fun _ => True) f (fun a s' => ∃ made', post a made' ∧ Holding t made' since s') s :=
      minds since s tending.toHolding
    refine (minded.and (table since s tending served)).mono ?_
    rintro a s' ⟨⟨made', here, holding⟩, table', idle⟩
    exact ⟨made', here, holding, table', idle ▸ tending.awake, idle.trans tending.idle⟩
  exact guarded

/-- What leaves the processes where they are leaves the block alone. -/
theorem Tends.every (every : p.Every (Calmly True)) : Tends t made p fun _ made' => made' = made := by
  intro since s tending
  induction p generalizing since s with
  | done a => exact ⟨made, rfl, tending⟩
  | act action rest ih =>
    have guarded : Meets (fun _ => True) (guardAction Enqueued .nullPointer action) (fun _ s' => s.Calm s') s := by
      rw [meets_guardAction (by trivial)]
      exact fun _ => every.1 s tending.poised
    exact guarded.mono fun b s' calm => ih b (every.2 b) since s' (tending.calm calm)
  | pause rest ih =>
    refine ⟨⟨made, tending⟩, fun s' found => ih every s' s' ?_⟩
    exact ⟨⟨found.numbered, found.running, found.own.trans tending.own, fun _ _ => rfl⟩,
      found.table, found.idle ▸ tending.awake, rfl⟩

theorem Tends.calm {f : K α} (calm : Calmly True f) : Tends t made (liftM f) fun _ made' => made' = made :=
  .every (.lift calm)

theorem Tends.mono {post post' : α → Option (Ref × Pcb) → Prop} (tends : Tends t made p post)
    (weaker : ∀ a made', post a made' → post' a made') : Tends t made p post' := by
  intro since s tending
  refine (tends since s tending).mono ?_
  rintro a since' s' ⟨made', here, tending'⟩
  exact ⟨made', weaker a made' here, tending'⟩

/-- A calm program is run under a condition, and what follows in any case. -/
theorem Tends.whenever {P : Prop} [Decidable P] {f : Task Unit} {g : Unit → Task β}
    {post : β → Option (Ref × Pcb) → Prop}
    (every : f.Every (Calmly True)) (rest : Tends t made (g ()) post) :
    Tends t made (if P then f >>= g else g ()) post := by
  split
  · refine Tends.bind (.every every) ?_
    rintro _ _ rfl
    exact rest
  · exact rest

end

/-! ## Making a process -/

variable {t : Ref} {made : Option (Ref × Pcb)} {r : Ref} {p : Pcb} {since : State}

theorem tends_allocateBlock (name : String) (foreground : Int) (fd : Int × Int) (made : Option (Ref × Pcb)) :
    Tends t made (liftM (allocateBlock name foreground fd) : Task Bool) fun goes made' => goes = true →
    ∃ r p, made' = some (r, p) := by
  refine .lift (minds_allocateBlock name foreground fd made) fun since s tending _ => ?_
  have table := tending.table
  refine (tending.toHolding.allocates name foreground fd).mono ?_
  rintro _ _ (grown | grown | ⟨block, low, pid, ready⟩)
  · exact ⟨table.grown grown, rfl⟩
  · exact ⟨table.skipped.grown grown, rfl⟩
  · exact ⟨table.allocated t (Nat.le_refl _) low pid ready block, rfl⟩

theorem tends_attachSemaphore (r : Ref) (p : Pcb) :
    Tends t (some (r, p)) (liftM attachSemaphore : Task Bool) fun goes made' =>
    goes = true → ∃ p', made' = some (r, p') := by
  refine .lift (minds_attachSemaphore r p) fun since s tending _ => ?_
  unfold attachSemaphore
  rw [meets_bind]
  apply (calm_elementary.inits 0 s tending.poised).mono
  intro semId s₁ calm
  have tending₁ := tending.calm calm
  rw [meets_bind]
  refine tending₁.meets_readNewProcess fun r' p' same => ?_
  obtain ⟨rfl, rfl⟩ := Prod.mk.inj (Option.some.inj same)
  rw [meets_ite]
  constructor
  · intro _
    simp only [meets_bind, meets_free]
    rw [meets_setNewProcess (by exact tending₁.running)]
    exact ⟨calm.table.dropped t, calm.idle⟩
  · intro _
    rw [meets_bind, meets_setNewProcess tending₁.running]
    exact ⟨calm.table.filled tending₁.own semId, calm.idle⟩

theorem tends_initializeBlock (name : String) (foreground : Int) (fd : Int × Int) (made : Option (Ref × Pcb)) :
    Tends t made (initializeBlock name foreground fd) fun goes made' => goes = true → ∃ r p, made' = some (r, p) := by
  refine (tends_allocateBlock name foreground fd made).bind fun goes made₁ allocated => ?_
  cases goes with
  | false => exact .pure nofun
  | true =>
    obtain ⟨r, p, rfl⟩ := allocated rfl
    have attached : Tends t (some (r, p)) (liftM attachSemaphore : Task Bool) fun goes made' =>
        goes = true → ∃ r p, made' = some (r, p) := by
      refine (tends_attachSemaphore r p).mono fun goes made' given goes => ?_
      obtain ⟨p', same⟩ := given goes
      exact ⟨r, p', same⟩
    rw [if_pos rfl]
    exact .whenever (every_pipeOpen calm_elementary _).discard
      (.whenever (every_pipeOpen calm_elementary _).discard attached)

/-- A block that is given up in the making was in nobody's queue. -/
theorem tends_freeBlocks (r : Ref) (p : Pcb) : Tends t (some (r, p)) (liftM (freeBlocks r p) : Task Unit)
    fun _ made' => made' = some (r, p) := by
  refine .lift (minds_freeBlocks_new r p p) fun since s tending _ => ?_
  unfold freeBlocks
  rw [meets_bind]
  refine tending.meets_currentPcb fun current block => ?_
  have older := tending.numbered.older t r p current.pid tending.own (by simp [Procs.pidOf, block])
  have given := (tending.numbered.new t r p tending.own).2.1
  have absent := (tending.table.newApart t r p tending.own).1
  have kept : ¬current.pid = s.procs.pidCounter - 1 := by omega
  have same : ({ s.procs with
      pidCounter := s.procs.pidCounter - if current.pid = s.procs.pidCounter - 1 then 1 else 0
      pcbs := Function.update s.procs.pcbs r none } : Procs) = s.procs := by
    rw [if_neg kept, Int.sub_zero, Function.update_eq_self_iff.mpr absent.symm]
  have procs := tending.table
  unfold State.Tabled at procs
  rw [← same] at procs
  exact ⟨procs, rfl⟩

theorem tends_freeProcess (r : Ref) (p : Pcb) : Tends t (some (r, p)) (freeProcess r p) fun _ made' =>
    made' = some (r, p) := by
  refine Tends.bind (.every (every_get calm_elementary)) ?_
  rintro _ _ rfl
  refine Tends.bind (.calm (built_freeArguments calm_elementary p)) ?_
  rintro _ _ rfl
  refine Tends.bind (.every (every_freePipes calm_elementary p.fileDescriptors)) ?_
  rintro _ _ rfl
  refine Tends.bind (.every (every_get calm_elementary)) ?_
  rintro _ _ rfl
  refine Tends.bind (.calm (calm_primitive.notes _)) ?_
  rintro _ _ rfl
  exact tends_freeBlocks r p

/-- The new process is in the queue, for its node was granted. -/
theorem tends_enqueueNewProcess (foreground : Int) (args : Option Ref) (strings : List Ref) :
    Tends t (some (r, p)) (liftM (enqueueNewProcess foreground args strings) : Task Int) fun _ _ => True := by
  refine .lift (minds_enqueueNewProcess foreground args strings) fun since s tending served => ?_
  have granted := served (.enqueueNewProcess foreground args strings)
  unfold enqueueNewProcess
  rw [meets_bind]
  refine tending.meets_readNewProcess fun r' p' same => ?_
  cases same
  simp only [meets_bind, meets_get]
  apply (enqueue_asks r).mono
  rintro queue s₁ ⟨queued, h, asked, rfl⟩
  rw [if_pos granted] at queued
  have tending₁ : Tending t (some (r, p)) since (s.withHeap h) :=
    tending.calm (.of_procs tending.table rfl asked.grown.requests)
  refine tending₁.meets_currentPcb fun current block => ?_
  rw [meets_setNewProcess tending₁.running]
  simp only [meets_modifyProcs, meets_pure]
  refine ⟨?_, rfl⟩
  refine tending₁.table.published tending₁.own queued ?_ ?_ ?_
  · rfl
  · rfl
  · rfl

theorem tends_fillNewProcess (argv : List String) (foreground : Int) :
    Tends t (some (r, p)) (fillNewProcess argv foreground) fun _ _ => True := by
  refine Tends.bind (.calm calm_primitive.asks) ?_
  rintro args _ rfl
  refine Tends.bind (.calm (built_cpyArgs calm_primitive args argv)) ?_
  rintro strings _ rfl
  cases strings with
  | some strings => exact tends_enqueueNewProcess foreground args strings
  | none =>
    have read : Tends t (some (r, p)) (liftM readNewProcess : Task (Ref × Pcb)) fun a made' =>
        made' = some (r, p) ∧ a = (r, p) := by
      exact .lift (minds_readNewProcess r p) fun since s tending _ =>
        tending.meets_readNewProcess fun r' p' same => ⟨tending.table, rfl⟩
    have given : Tends t (some (r, p)) (liftM (setNewProcess none) : Task Unit) fun _ _ => True := by
      refine .lift (minds_giveUp r p) fun since s tending _ => ?_
      rw [meets_setNewProcess tending.running]
      exact ⟨tending.table.dropped t, rfl⟩
    refine read.bind ?_
    rintro _ _ ⟨rfl, rfl⟩
    refine (tends_freeProcess r p).bind ?_
    rintro _ _ rfl
    exact given.bind fun _ _ _ => .pure trivial

theorem tends_startTask (process : Option Ref) (argv : List String) (foreground : Int) (fd : Option (Int × Int))
    (made : Option (Ref × Pcb)) : Tends t made (startTask process argv foreground fd) fun _ _ => True := by
  unfold startTask
  split
  · exact .pure trivial
  · refine Tends.bind (.calm (built_deref calm_primitive argv.head?)) ?_
    rintro name _ rfl
    refine Tends.bind (.calm (built_descriptorsOf calm_primitive fd)) ?_
    rintro fd _ rfl
    refine (tends_initializeBlock name foreground fd _).bind fun goes made' given => ?_
    cases goes with
    | false => exact .pure trivial
    | true =>
      obtain ⟨r, p, rfl⟩ := given rfl
      exact tends_fillNewProcess argv foreground

theorem tends_call (call : Call) (made : Option (Ref × Pcb)) : Tends t made call.perform fun _ _ => True := by
  cases call with
  | startTask process argv foreground fd => exact tends_startTask process argv foreground fd made
  | _ => exact (Tends.every (every_call calm_elementary _ (by nofun))).mono fun _ _ _ => trivial

/-! ## The idle process -/

/-- The table is exact, and no pid is given out twice. -/
structure State.Exact (s : State) : Prop where
  table : s.Tabled
  numbered : s.procs.Numbered s.heap.requests

/-- All that the idle process does is to kill somebody else on Ctrl+C. -/
theorem idle_killCurrentForeground (exact : s.Exact) (running : s.procs.currentProcessPCB = some t)
    (idle : s.procs.idleProcessPCB = some t) :
    killCurrentForeground.Meets (fun _ => True) (fun since s' => since.Calm s' ∧ s'.Exact)
    (fun _ s' => s'.Exact) (fun _ since s' => since.Calm s' ∧ s'.Exact) s s := by
  have table := exact.table
  have poised : Poised False s := ⟨table, False.elim⟩
  have keeps : ∀ s', s.Calm s' → s.Calm s' ∧ s'.Exact := fun s' calm =>
    ⟨calm, calm.table, calm.toAlike.numbered exact.numbered⟩
  obtain ⟨t', q, isIdle, block, -, background, away⟩ := table.idle
  cases idle.symm.trans isIdle
  have stays : s.procs.isForeground q = false := by simp [Procs.isForeground, background]
  unfold killCurrentForeground
  rw [Program.meets_bind, Program.meets_lift, meets_currentPcb running block]
  simp only [Program.meets_bind, Program.meets_lift, meets_get, stays, Bool.false_eq_true, if_false]
  refine (find_asks _).mono ?_
  rintro found s₁ ⟨same, h, asked, rfl⟩
  have calm : s.Calm (s.withHeap h) := .of_procs table rfl asked.grown.requests
  cases found with
  | none => exact keeps _ calm
  | some r =>
    have queued : r ∈ values s.procs.queue := by
      split at same
      · exact List.mem_of_find?_eq_some same.symm
      · cases same
    have other : r ≠ t := by
      rintro rfl
      exact away (List.mem_append_left _ queued)
    simp only [Program.meets_bind, Program.meets_lift, meets_readPcb]
    cases here : s.procs.pcbs r with
    | none => simp [here, lookup]
    | some p =>
      simp only [withHeap_procs, here, meets_lookup_some]
      refine (calm_terminateChildren p.pid _ (poised.calm calm)).mono fun _ s₂ calm₂ => ?_
      have since₂ := calm.trans calm₂
      cases here₂ : s₂.procs.pcbs r with
      | none => trivial
      | some p₂ =>
        rw [meets_lookup_some]
        unfold killTask
        simp only [Program.meets_bind, Program.meets_lift, meets_get]
        split
        · exact keeps s₂ since₂
        · simp only [Program.meets_bind, Program.meets_lift]
          -- The one to be killed is in the queue, and so not the idle process.
          have apart : p₂.pid ≠ s₂.procs.callerPid := by
            obtain ⟨t', q₂, isIdle₂, block₂, -, -, away₂⟩ := since₂.table.idle
            cases (since₂.idle.trans idle).symm.trans isIdle₂
            have caller : s₂.procs.callerPid = q₂.pid := by simp [Procs.callerPid, since₂.current, running, block₂]
            rw [caller]
            exact fun same => other (since₂.table.unique r t p₂ q₂ here₂ block₂ same)
          have exits : Meets (fun _ => True) (changeState p₂.pid .exited) (fun _ s' => s₂.Calm s') s₂ :=
            changeStateWith_calm calm_detached.semPost (poised.calm since₂) (.inr (.inr (.inr apart)))
          refine exits.mono fun id s₃ calm₃ => ?_
          have since₃ := since₂.trans calm₃
          split
          · exact keeps s₃ since₃
          · simp only [Program.meets_bind, Program.meets_lift]
            refine (built_currentPcb calm_primitive _ (poised.calm since₃)).mono fun current s₄ calm₄ => ?_
            have since₄ := since₃.trans calm₄
            split
            · exact ⟨keeps s₄ since₄, fun s₅ exact₅ => ⟨.refl exact₅.table, exact₅⟩⟩
            · exact keeps s₄ since₄

end QuesOs.Kernel
