import QuesOs.QueueNodes
import QuesOs.NamedSemaphores
import Mathlib.Data.Finset.Card

/-! `scheduleTask` when requests for memory are refused. It puts the process that
was running back into the queue, and every one that its search passes by; as long
as each of these gets its node, nobody is lost and `readyCount` stays exact. -/
namespace QuesOs.Kernel
open Resumption Threads

variable {s s' : State} {t r : Ref} {p : Pcb}

/-! ## The scheduler -/

/-- The current process goes to the end of the queue. -/
def putBack (current : Ref) : K Unit := do
  let queue ← enqueue (← get).procs.queue current
  modifyProcs fun procs => { procs with queue }

/-- The first of the queue becomes the current process. -/
def takeNext : K Unit := do
  let (queue, next) ← dequeue (← get).procs.queue
  modifyProcs fun procs => { procs with queue, currentProcessPCB := next }

/-- What the search does with a process that is not ready. -/
def passBy (current : Ref) (p : Pcb) : K Unit :=
  if p.state = .terminated then do
    (freeProcess current p).complete .nestedTick
    takeNext
  else do
    putBack current
    takeNext

/-- Whoever is put back in the search gets a node. -/
def State.Searches : Nat → State → Prop
  | 0, _ => True
  | fuel + 1, s => ∀ r p, s.procs.currentProcessPCB = some r → s.procs.pcbs r = some p → p.state ≠ .ready →
    (p.state ≠ .terminated → s.heap.Grants 0) ∧ Meets (fun _ => True) (passBy r p) (fun _ s' => s'.Searches fuel) s

def State.Chooses (s : State) : Prop :=
  0 < s.procs.readyCount → Meets (fun _ => True) takeNext (fun _ s' => s'.Searches (s'.procs.queue.length + 1)) s

/-- Whoever `scheduleTask` puts back into the queue gets a node. -/
def State.Schedules (s : State) : Prop :=
  (s.procs.currentProcessPCB = none → s.Chooses) ∧
  ∀ r p, s.procs.currentProcessPCB = some r → s.procs.pcbs r = some p →
  ¬(p.state = .ready ∧ s.procs.currentCycles > 0) →
    (s.procs.idleProcessPCB = some r → s.Chooses) ∧
    (s.procs.idleProcessPCB ≠ some r → s.heap.Grants 0 ∧ Meets (fun _ => True) (putBack r) (fun _ s' => s'.Chooses) s)

/-! ## Nobody is lost -/

/-- The processes are all in the queue, whoever was running. -/
structure Parked (idle : Option Ref) (s : State) : Prop where
  table : Procs.Table { s.procs with currentProcessPCB := none } s.heap.requests
  idle : s.procs.idleProcessPCB = idle

/-- One that is not idle is in charge. -/
structure Taken (idle : Option Ref) (s : State) : Prop extends Poised True s where
  idle : s.procs.idleProcessPCB = idle

variable {idle : Option Ref}

/-- The queue, and whoever runs. -/
theorem others_running (running : s.procs.currentProcessPCB = some r) (awake : s.procs.idleProcessPCB ≠ some r) :
    s.procs.others = values s.procs.queue ++ [r] := by
  have apart : some r ≠ s.procs.idleProcessPCB := fun same => awake same.symm
  simp [Procs.others, running, apart]

theorem others_idle (resting : ∀ r, s.procs.currentProcessPCB = some r → s.procs.idleProcessPCB = some r) :
    s.procs.others = values s.procs.queue := by
  unfold Procs.others
  cases running : s.procs.currentProcessPCB with
  | none => simp
  | some r => simp [resting r running]

/-- Nobody, or the idle process, was running. -/
theorem parked_of_resting (table : s.Tabled) (resting : ∀ r, s.procs.currentProcessPCB = some r →
      s.procs.idleProcessPCB = some r) :
    Parked s.procs.idleProcessPCB s := by
  refine ⟨table.dispatched s.procs.currentCycles ?_, rfl⟩
  rw [others_idle resting]
  simp [Procs.others]

theorem putBack_parked (table : s.Tabled) (running : s.procs.currentProcessPCB = some r)
    (awake : s.procs.idleProcessPCB ≠ some r)
    (granted : s.heap.Grants 0) : Meets (fun _ => True) (putBack r) (fun _ => Parked s.procs.idleProcessPCB) s := by
  unfold putBack
  simp only [meets_bind, meets_get]
  refine (enqueue_asks r).mono ?_
  rintro queue s₁ ⟨queued, h, asked, rfl⟩
  rw [if_pos granted] at queued
  rw [meets_modifyProcs]
  refine ⟨(table.dispatched s.procs.currentCycles ?_).grown asked.grown.requests, rfl⟩
  rw [others_running running awake]
  simp [Procs.others, queued]

theorem takeNext_taken (parked : Parked idle s) : Meets (fun _ => True) takeNext (fun _ => Taken idle) s := by
  have table := parked.table
  obtain ⟨i, p, isIdle, -, -, -, away⟩ := table.idle
  have nobody : Procs.others { s.procs with currentProcessPCB := none } = values s.procs.queue := by simp [Procs.others]
  rw [nobody] at away
  unfold takeNext
  simp only [meets_bind, meets_get]
  have taken : ∀ (h : Heap) (queue : Queue Ref) (next : Option Ref), s.heap.requests ≤ h.requests →
      values s.procs.queue = next.toList ++ values queue →
      Taken idle { s with heap := h, procs := { s.procs with queue, currentProcessPCB := next } } := by
    intro h queue next more split
    have awake : next ≠ s.procs.idleProcessPCB := by
      intro same
      rw [same, isIdle] at split
      exact away (by simp [split])
    refine ⟨⟨(table.dispatched s.procs.currentCycles ?_).grown more, fun _ => awake⟩, parked.idle⟩
    rw [nobody, split]
    have kept : (next.filter fun r => some r ≠ s.procs.idleProcessPCB) = next := by
      cases next with
      | none => rfl
      | some r => simp [awake]
    change (values queue ++ (next.filter fun r => some r ≠ s.procs.idleProcessPCB).toList).Perm _
    rw [kept]
    exact List.perm_append_comm
  cases queue : s.procs.queue with
  | nil => exact taken s.heap [] none (Nat.le_refl _) (by rw [queue]; rfl)
  | cons node rest => exact taken _ rest (some node.value) (Nat.le_refl _) (by rw [queue]; rfl)

/-- Up to its first pause. -/
theorem calm_meets {α : Type} {p : Task α} (every : p.Every (Calmly True)) (poised : Poised True s) (since : State) :
    p.Meets (fun _ => True) (fun _ _ => True) (fun _ _ => False) (fun _ _ s' => s.Calm s') since s := by
  have kept : ∀ s', s.Calm s' →
    p.Meets (fun _ => True) (fun _ _ => True) (fun _ _ => False) (fun _ _ s' => s.Calm s') since s' := by
    intro s' calm
    induction p generalizing s' with
    | done a => exact calm
    | act action rest ih =>
      exact (every.1 s' (poised.calm calm)).mono fun b s'' calm' => ih b (every.2 b) s'' (calm.trans calm')
    | pause rest ih => exact ⟨trivial, fun _ never => never.elim⟩
  exact kept s (.refl poised.table)

/-- A dead process is given up. -/
theorem freeProcess_parked (taken : Taken idle s) (running : s.procs.currentProcessPCB = some r)
    (block : s.procs.pcbs r = some p)
    (dead : p.state = .terminated) :
    Meets (fun _ => True) ((freeProcess r p).complete .nestedTick) (fun _ => Parked idle) s := by
  have freed : ∀ s₁, s.Calm s₁ → Meets (fun _ => True) (freeBlocks r p) (fun _ => Parked idle) s₁ := by
    intro s₁ calm
    have running₁ := calm.current.trans running
    obtain ⟨p₁, block₁, dead₁⟩ := calm.dead r p block dead
    have awake₁ := calm.awake (taken.awake trivial)
    unfold freeBlocks
    rw [meets_bind, meets_currentPcb running₁ block₁]
    refine ⟨calm.table.reaped block₁ dead₁ ?_, calm.idle.trans taken.idle⟩
    have apart : s₁.procs.idleProcessPCB ≠ some r := fun same => awake₁ (running₁.trans same.symm)
    rw [others_running running₁ apart]
    simp [Procs.others]
  have program : (freeProcess r p).Meets (fun _ => True) (fun _ _ => True) (fun _ _ =>
    False) (fun _ _ => Parked idle) s s := by
    have poised := taken.toPoised
    unfold freeProcess
    simp only [Program.meets_bind, Program.meets_lift, meets_get, meets_log]
    refine (built_freeArguments calm_elementary p s poised).mono fun _ s₁ calm₁ => ?_
    refine (calm_meets (every_freePipes calm_elementary p.fileDescriptors) (poised.calm calm₁) s).mono
      fun _ _ s₂ calm₂ => ?_
    have calm := calm₁.trans calm₂
    exact freed _ (calm.trans (.of_procs calm.table rfl (Nat.le_refl _)))
  exact program.complete_of_nested trivial

theorem passBy_taken (taken : Taken idle s) (running : s.procs.currentProcessPCB = some r)
    (block : s.procs.pcbs r = some p)
    (granted : p.state ≠ .terminated → s.heap.Grants 0) :
    Meets (fun _ => True) (passBy r p) (fun _ => Taken idle) s := by
  have awake : s.procs.idleProcessPCB ≠ some r := fun same => taken.awake trivial (running.trans same.symm)
  unfold passBy
  rw [meets_ite]
  constructor
  · intro dead
    rw [meets_bind]
    exact (freeProcess_parked taken running block dead).mono fun _ _ parked => takeNext_taken parked
  · intro alive
    rw [meets_bind]
    refine (putBack_parked taken.table running awake (granted alive)).mono fun _ _ parked => takeNext_taken ?_
    exact taken.idle ▸ parked

theorem scheduleLoop_succ (fuel : Nat) : scheduleLoop (fuel + 1) = (do
    let (current, p) ← currentPcb
    if p.state = .ready then return
    else
      passBy current p
      scheduleLoop fuel) := by
  rw [scheduleLoop]
  refine congrArg _ (funext fun current => ?_)
  unfold passBy putBack takeNext
  by_cases ready : current.2.state = .ready
  · simp only [ready, if_true]
  · by_cases dead : current.2.state = .terminated
    · simp only [dead, if_true, bind_assoc]
    · simp only [ready, dead, if_false, bind_assoc]

/-- The search ends with a process that is not idle. -/
theorem scheduleLoop_taken (fuel : Nat) (taken : Taken idle s) (searches : s.Searches fuel) :
    Meets (fun _ => True) (scheduleLoop fuel) (fun _ => Taken idle) s := by
  induction fuel generalizing s with
  | zero => trivial
  | succ fuel ih =>
    rw [scheduleLoop_succ]
    cases running : s.procs.currentProcessPCB with
    | none => simp [currentPcb, running, deref]
    | some r =>
      cases block : s.procs.pcbs r with
      | none => simp [currentPcb, running, block, lookup]
      | some p =>
        rw [meets_bind, meets_currentPcb running block, meets_ite]
        refine ⟨fun _ => taken, fun waits => ?_⟩
        obtain ⟨granted, next⟩ := searches r p running block waits
        rw [meets_bind]
        refine ((passBy_taken taken running block granted).and next).mono ?_
        rintro _ s' ⟨taken', searches'⟩
        exact ih taken' searches'

/-- A process is given its cycles. -/
theorem runs_tabled (table : s.Tabled) (same : s.procs.idleProcessPCB = idle) : Meets (fun _ => True) (do
    let priority := (← currentPcb).2.priority
    modifyProcs fun procs => { procs with currentCycles := priority })
    (fun _ s' => s'.Tabled ∧ s'.procs.idleProcessPCB = idle) s := by
  rw [meets_bind]
  refine (built_currentPcb calm_primitive s ⟨table, False.elim⟩).mono fun current s' calm => ?_
  exact ⟨calm.table.dispatched _ (.refl _), calm.idle.trans same⟩

theorem choose_tabled (parked : Parked idle s) (chooses : s.Chooses) :
    Meets (fun _ => True) scheduleTask.choose (fun _ s' => s'.Tabled ∧ s'.procs.idleProcessPCB = idle) s := by
  unfold scheduleTask.choose
  rw [meets_bind, meets_get, meets_ite]
  constructor
  · intro some
    have next := (takeNext_taken parked).and (chooses some)
    unfold takeNext at next
    simp only [meets_bind, meets_get] at next
    rw [meets_bind]
    refine next.mono ?_
    rintro ⟨queue, next⟩ s₁ ⟨taken, searches⟩
    rw [meets_bind, meets_modifyProcs, meets_bind]
    refine (scheduleLoop_taken _ taken searches).mono fun _ s₂ taken₂ => ?_
    exact runs_tabled taken₂.table taken₂.idle
  · intro none
    rw [meets_bind, meets_modifyProcs]
    refine runs_tabled (parked.table.dispatched s.procs.currentCycles ?_) parked.idle
    have nobody : (s.procs.idleProcessPCB.filter fun r => some r ≠ s.procs.idleProcessPCB).toList = [] := by
      cases s.procs.idleProcessPCB <;> simp
    change (values s.procs.queue ++ (s.procs.idleProcessPCB.filter fun r =>
      some r ≠ s.procs.idleProcessPCB).toList).Perm _
    rw [nobody]
    simp [Procs.others]

/-- **The scheduler keeps the table**, as long as whoever it puts back gets a node. -/
theorem scheduleTask_tabled (table : s.Tabled) (schedules : s.Schedules) : Meets (fun _ => True) scheduleTask
    (fun _ s' => s'.Tabled ∧ s'.procs.idleProcessPCB = s.procs.idleProcessPCB) s := by
  obtain ⟨i, q, isIdle, idleBlock, -, -, away⟩ := table.idle
  unfold scheduleTask
  rw [meets_bind, meets_get]
  cases running : s.procs.currentProcessPCB with
  | none =>
    refine choose_tabled (parked_of_resting table ?_) (schedules.1 running)
    simp [running]
  | some r =>
    dsimp only
    rw [meets_bind, meets_readPcb]
    cases block : s.procs.pcbs r with
    | none => trivial
    | some p =>
      rw [meets_lookup_some, meets_bind, meets_get, meets_ite]
      refine ⟨fun _ => ⟨table.dispatched _ (.refl _), rfl⟩, fun turns => ?_⟩
      obtain ⟨rests, goes⟩ := schedules.2 r p running block turns
      simp only [meets_bind, meets_get, isIdle, meets_deref_some, meets_readPcb, idleBlock, meets_lookup_some]
      rw [meets_ite]
      constructor
      · intro other
        have apart : s.procs.idleProcessPCB ≠ some r := by
          intro same
          cases isIdle.symm.trans same
          cases block.symm.trans idleBlock
          exact other rfl
        obtain ⟨granted, chooses⟩ := goes apart
        have put := (putBack_parked table running apart granted).and chooses
        unfold putBack at put
        simp only [meets_bind, meets_get, meets_modifyProcs] at put
        simp only [meets_bind, meets_get, meets_modifyProcs]
        refine put.mono ?_
        rintro queue s₁ ⟨parked, chooses₁⟩
        rw [← isIdle]
        exact choose_tabled parked chooses₁
      · intro same
        have here : s.procs.idleProcessPCB = some r := by
          rw [isIdle, table.unique i r q p idleBlock block (not_not.mp same).symm]
        have stays : ({ s with procs := { s.procs with idleProcessPCB := some r } } : State) = s := by
          rw [← here]
        rw [meets_bind, meets_modifyProcs, stays, ← isIdle]
        refine choose_tabled (parked_of_resting table fun r' running' => ?_) (rests here)
        exact here.trans (running.symm.trans running')

/-! ## Every run -/

/-- What may be asked for: the calls of the processes and Ctrl+C, the rest of `sem.h` and `pipes.h`, and anything
that looks and asks for memory. -/
inductive Asks (s : State) : Task Int → Prop
  | issued (here : Issues (fun _ _ => True) s program) : Asks s program
  | semOpen (awake : s.Awake) (semaphoreName : String) (initialValue : Int) :
    Asks s (Kernel.semOpen semaphoreName initialValue)
  | semClose (awake : s.Awake) (id : Int) : Asks s (Kernel.semClose id)
  | getPipeInfo (awake : s.Awake) : Asks s (do
    discard Kernel.getPipeInfo
    return 0)
  | looks {f : K Int} (awake : s.Awake)
    (only : ∀ s, Meets (fun _ => True) f (fun _ s' => ∃ h, s.heap.Grown h ∧ s' = s.withHeap h) s) : Asks s f

theorem tends_asks {program : Task Int} (asks : Asks s program) (awake : s.Awake ∨
      ∃ call : Call, program = call.perform)
    (made : Option (Ref × Pcb)) : Tends t made program fun _ _ => True := by
  have calmly : ∀ {program : Task Int}, program.Every (Calmly True) →
    Tends t made program fun _ _ => True := fun every =>
    (Tends.every every).mono fun _ _ _ => trivial
  cases asks with
  | issued here =>
    obtain ⟨call, -, rfl, -⟩ := here
    exact tends_call call made
  | semOpen _ name initialValue => exact calmly (.lift (calm_detached.semOpen name initialValue))
  | semClose _ id => exact calmly (.lift (calm_elementary.closes id))
  | getPipeInfo => exact calmly ((every_getPipeInfo calm_elementary).discard.bind fun _ => .pure _)
  | looks _ only =>
    refine calmly (.lift fun s poised => (only s).mono ?_)
    rintro _ s' ⟨h, grown, rfl⟩
    exact .of_procs poised.table rfl grown.requests

/-- The turns of the processes, the idle one, and the blocks in the making. -/
noncomputable def enqueueing : Discipline (machine.guard State.Schedules .nullPointer) where
  inv := State.Exact
  turn _ := True
  does t s s' := (∀ t' ≠ t, s'.procs.newProcess t' = s.procs.newProcess t') ∧
    s'.procs.idleProcessPCB = s.procs.idleProcessPCB
  rely t s s' := s'.procs.newProcess t = s.procs.newProcess t ∧ s'.procs.idleProcessPCB = s.procs.idleProcessPCB
  refl _ _ := ⟨rfl, rfl⟩
  trans _ _ _ _ first second := ⟨second.1.trans first.1, second.2.trans first.2⟩
  spared _ t' _ _ _ _ does other := ⟨does.1 t' other, does.2⟩
  schedule s s' exact ran := by
    obtain ⟨schedules, ran⟩ := guard_schedule ran
    have table := (meets_of_run ran).mp (scheduleTask_tabled exact.table schedules)
    have kept := (meets_of_run ran).mp (keeps_scheduleTask s ⟨exact.numbered, rfl⟩)
    exact ⟨⟨table.1, kept.numbered⟩, trivial, fun t => ⟨congrFun kept.made t, table.2⟩⟩

theorem enqueueing_follows {program : Task Int} (asks : Asks s program) (exact : s.Exact)
    (running : s.procs.currentProcessPCB = some t)
    (awake : s.Awake) : enqueueing.Follows t (careful program) s := by
  have apart : s.procs.idleProcessPCB ≠ some t := fun same => awake (running.trans same.symm)
  have tends := tends_asks asks (.inl awake) (s.procs.newProcess t) s s
    ⟨⟨exact.numbered, running, rfl, fun _ _ => rfl⟩, exact.table, apart, rfl⟩
  refine Program.Meets.weaken tends ?_ ?_ ?_
  · rintro since s' ⟨made', tending⟩
    exact ⟨⟨tending.table, tending.numbered⟩, tending.others, tending.idle⟩
  · rintro s' s'' ⟨exact', -, running', same, idle⟩
    exact ⟨⟨exact'.numbered, running', same⟩, exact'.table, idle⟩
  · rintro _ since s' ⟨made', -, tending⟩
    exact ⟨⟨tending.table, tending.numbered⟩, trivial, tending.others, tending.idle⟩

theorem enqueueing_idle (exact : s.Exact) (running : s.procs.currentProcessPCB = some t)
    (idle : s.procs.idleProcessPCB = some t) :
    enqueueing.Follows t (careful killCurrentForeground) s := by
  refine ((idle_killCurrentForeground exact running idle).guard trivial).weaken ?_ ?_ ?_
  · rintro since s' ⟨calm, exact'⟩
    exact ⟨exact', fun t' _ => congrFun calm.newProcess t', calm.idle⟩
  · rintro s' s'' ⟨exact', -⟩
    exact exact'
  · rintro _ since s' ⟨calm, exact'⟩
    exact ⟨exact', trivial, fun t' _ => congrFun calm.newProcess t', calm.idle⟩

theorem enqueueing_calls : enqueueing.Calls fun s p => ∃ program, Asks s program ∧ p = careful program := by
  rintro s p t ⟨program, asks, rfl⟩ exact - running
  by_cases awake : s.Awake
  · exact enqueueing_follows asks exact running awake
  · have idle : s.procs.idleProcessPCB = some t := (not_not.mp awake).symm.trans running
    cases asks with
    | issued here =>
      obtain ⟨call, -, rfl, may⟩ := here
      have interrupt := may.resolve_right awake
      cases call with
      | killCurrentForeground => exact enqueueing_idle exact running idle
      | _ => cases interrupt
    | semOpen here => exact (awake here).elim
    | semClose here => exact (awake here).elim
    | getPipeInfo here => exact (awake here).elim
    | looks here => exact (awake here).elim

variable {grants : Nat → Bool} {garbage : Option Ref × List Ref} {S : System}

theorem exact_boot (grants : Nat → Bool) (garbage : Option Ref × List Ref) : (bootState grants garbage).Exact :=
  ⟨boot_table, numbering_boot.inv⟩

theorem exact_served (run : ServedRun machine Asks State.Schedules Enqueued (boot grants garbage) S) :
    S.state.Exact := by
  have start : enqueueing.Holds ((boot grants garbage).guard Enqueued .nullPointer) :=
    ⟨exact_boot grants garbage, fun _ => trivial, nofun⟩
  exact (enqueueing.holds_served enqueueing_calls start run).inv

/-- Every process that is not dead is in the queue, running or idle, and `readyCount` counts the ready ones that
are not idle. -/
def Procs.Consistent (procs : Procs) : Prop :=
  (∀ r p, procs.pcbs r = some p → p.state ≠ .terminated →
    r ∈ values procs.queue ∨ procs.currentProcessPCB = some r ∨ procs.idleProcessPCB = some r) ∧
  procs.readyCount = ((values procs.queue ++ procs.currentProcessPCB.toList).toFinset.filter fun r =>
    procs.idleProcessPCB ≠ some r ∧ procs.isReady r).card

theorem Procs.Table.consistent {procs : Procs} (table : procs.Table n) : procs.Consistent := by
  obtain ⟨i, q, isIdle, -, -, -, away⟩ := table.idle
  have member : ∀ r, r ∈ procs.others ↔ (r ∈ values procs.queue ∨ procs.currentProcessPCB = some r) ∧
    procs.idleProcessPCB ≠ some r := by
    intro r
    have queued : r ∈ values procs.queue → procs.idleProcessPCB ≠ some r := by
      intro listed same
      cases isIdle.symm.trans same
      exact away (List.mem_append_left _ listed)
    simp only [Procs.others, List.mem_append, Option.mem_toList, Option.filter_eq_some_iff]
    grind
  constructor
  · intro r p block _
    have there : procs.pcbs r ≠ none := by simp [block]
    rcases (table.listed r).mp there with idle | listed
    · exact .inr (.inr idle.symm)
    · rcases ((member r).mp listed).1 with queued | running
      · exact .inl queued
      · exact .inr (.inl running)
  · have same : (values procs.queue ++ procs.currentProcessPCB.toList).toFinset.filter (fun r =>
        procs.idleProcessPCB ≠ some r ∧ procs.isReady r) = (procs.others.filter procs.isReady).toFinset := by
      ext r
      simp only [Finset.mem_filter, List.mem_toFinset, List.mem_append, Option.mem_toList, List.mem_filter, member]
      grind
    rw [same, List.toFinset_card_of_nodup (table.once.filter _), table.counted, List.countP_eq_length_filter]

/-- **Scheduling survives the exhaustion of memory** as long as every process that `scheduleTask` or `startTask` puts
into the queue gets its node, whatever else is refused. -/
theorem table_consistent_served (run : ServedRun machine Asks State.Schedules Enqueued (boot grants garbage) S) :
    S.state.procs.Consistent :=
  (exact_served run).table.consistent

/-- The first tick puts nobody back. -/
theorem boot_schedules (grants : Nat → Bool) (garbage : Option Ref × List Ref) :
    (bootState grants garbage).Schedules := by
  constructor
  · intro _ _ r p running block waits
    cases running
    cases block
    exact (waits rfl).elim
  · intro r p running
    cases running

theorem boot_served (grants : Nat → Bool) (garbage : Option Ref × List Ref) :
    ServedStep machine Asks State.Schedules Enqueued (boot grants garbage) ⟨initState grants garbage,
      fun _ => none, false⟩ :=
  .schedule (boot_schedules grants garbage) rfl

/-- `init` gets no stack for its child. -/
theorem table_consistent_refused : ∃ S, ServedRun machine Asks State.Schedules Enqueued (boot (· ≠ 41) (none, [])) S ∧
    S.state.procs.pidCounter = 5 ∧ S.state.procs.Consistent := by
  have awake : some initRef ≠ some idleRef := by decide
  have asks : Asks (initState (· ≠ 41) (none, [])) (startTask (some 0) ["p"] 0 (some (0, 1))) :=
    .issued ⟨.startTask (some 0) ["p"] 0 (some (0, 1)), trivial, rfl, .inr awake⟩
  have served : (startTask (some 0) ["p"] 0 (some (0, 1))).Served Enqueued (initState (· ≠ 41) (none, [])) := by
    refine ⟨fun _ => rfl, fun _ _ ran => ?_⟩
    cases ran
    refine ⟨fun _ => rfl, fun _ _ ran => ?_⟩
    cases ran
    refine ⟨fun _ => rfl, fun _ _ ran => ?_⟩
    cases ran
    trivial
  have run : ServedRun machine Asks State.Schedules Enqueued (boot (· ≠ 41) (none, [])) _ :=
    (Relation.ReflTransGen.single (boot_served _ _)).tail (.call rfl rfl rfl asks served rfl)
  exact ⟨_, run, rfl, table_consistent_served run⟩

/-- `init` yields, gets no node, and is lost. -/
theorem table_inconsistent_lost : ∃ S s, Threads.Run machine Asks (boot (· ≠ 40) (none, [])) S ∧
    S.state.procs.Consistent ∧
    scheduleTask.run S.state = .ok ((), s) ∧ ¬s.procs.Consistent := by
  have awake : some initRef ≠ some idleRef := by decide
  have run : Threads.Run machine Asks (boot (· ≠ 40) (none, [])) _ :=
    (Relation.ReflTransGen.single (initState_step _ _ _)).tail
    (.call rfl rfl rfl (.issued ⟨.yield, trivial, rfl, .inr awake⟩) rfl)
  have consistent := (exact_served (.single (boot_served (· ≠ 40) (none, [])))).table.consistent
  refine ⟨_, _, run, consistent, rfl, ?_⟩
  rintro ⟨listed, -⟩
  rcases listed initRef _ rfl (by decide) with queued | running | idle
  · cases queued
  · cases running
  · cases idle

end QuesOs.Kernel
