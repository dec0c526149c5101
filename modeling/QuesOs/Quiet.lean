import QuesOs.KernelActions
import QuesOs.Elementary

/-! What the kernel does besides making and freeing processes leaves the pids
alone, whichever of its requests for memory fail. -/
namespace QuesOs.Kernel
open Resumption

/-- Between the two no process came or went, and none changed its pid. -/
structure State.Alike (s s' : State) : Prop where
  requests : s.heap.requests ≤ s'.heap.requests
  counter : s'.procs.pidCounter = s.procs.pidCounter
  newProcess : s'.procs.newProcess = s.procs.newProcess
  current : s'.procs.currentProcessPCB = s.procs.currentProcessPCB
  pids : ∀ r, (s'.procs.pcbs r).map Pcb.pid = (s.procs.pcbs r).map Pcb.pid

theorem State.Alike.refl (s : State) : s.Alike s := ⟨Nat.le_refl _, rfl, rfl, rfl, fun _ => rfl⟩

theorem State.Alike.trans {s s' s'' : State} (first : s.Alike s') (second : s'.Alike s'') : s.Alike s'' :=
  ⟨Nat.le_trans first.requests second.requests, second.counter.trans first.counter,
    second.newProcess.trans first.newProcess, second.current.trans first.current,
    fun r => (second.pids r).trans (first.pids r)⟩

/-- The action leaves the pids alone. -/
def Quiet {α : Type} (f : K α) : Prop := ∀ s, Meets (fun _ => True) f (fun _ s' => s.Alike s') s

/-- The program does so, pauses aside. -/
abbrev Hushed {α : Type} (p : Task α) : Prop := p.Every Quiet

section
variable {α β : Type} {f : K α}

theorem Quiet.pure (a : α) : Quiet (Pure.pure a) := fun s => .refl s

theorem Quiet.bind {g : α → K β} (first : Quiet f) (rest : ∀ a, Quiet (g a)) : Quiet (f >>= g) := by
  intro s
  rw [meets_bind]
  exact (first s).mono fun a s' alike => (rest a s').mono fun _ _ alike' => alike.trans alike'

theorem Quiet.hushed (quiet : Quiet f) : Hushed (liftM f : Task α) := .lift quiet

theorem quiet_get : Quiet (get : K State) := fun s => .refl s

theorem quiet_throw (fault : Fault) : Quiet (throw fault : K α) := fun _ => trivial

theorem quiet_modify {f : State → State} (alike : ∀ s : State, s.Alike (f s)) : Quiet (modify f : K Unit) := alike

theorem quiet_modifyProcs {f : Procs → Procs} (same : ∀ procs, (f procs).pidCounter = procs.pidCounter ∧
    (f procs).newProcess = procs.newProcess ∧ (f procs).currentProcessPCB = procs.currentProcessPCB ∧
    ∀ r, ((f procs).pcbs r).map Pcb.pid = (procs.pcbs r).map Pcb.pid) : Quiet (modifyProcs f) :=
  quiet_modify fun s => ⟨Nat.le_refl _, (same s.procs).1, (same s.procs).2.1,
    (same s.procs).2.2.1, (same s.procs).2.2.2⟩

theorem quiet_log (event : Event) : Quiet (log event) :=
  quiet_modify fun _ => ⟨Nat.le_refl _, rfl, rfl, rfl, fun _ => rfl⟩

theorem quiet_malloc : Quiet malloc := by
  intro s
  simp only [malloc, meets_bind, meets_get]
  split
  · exact ⟨Nat.le_succ _, rfl, rfl, rfl, fun _ => rfl⟩
  · exact ⟨Nat.le_succ _, rfl, rfl, rfl, fun _ => rfl⟩

theorem quiet_free (ref : Ref) : Quiet (free ref) :=
  quiet_modify fun _ => ⟨Nat.le_refl _, rfl, rfl, rfl, fun _ => rfl⟩

theorem quiet_modifyPcb (process : Ref) {f : Pcb → Pcb} (same : ∀ p, (f p).pid = p.pid) :
    Quiet (modifyPcb process f) := by
  refine quiet_modifyProcs fun procs => ⟨rfl, rfl, rfl, fun r => ?_⟩
  by_cases here : r = process
  · subst here
    cases procs.pcbs r <;> simp [same]
  · simp only [Function.update_of_ne here]

/-- A process that is read and put back with another state keeps its pid. -/
theorem quiet_move {β : Type} (process : Ref) (newState : ProcessState) {f : Pcb → K β} (rest : ∀ p, Quiet (f p)) :
    Quiet (do
      let p ← readPcb process
      modifyProcs (·.moveState process p newState)
      f p) := by
  intro s
  rw [meets_bind, meets_readPcb]
  cases block : s.procs.pcbs process with
  | none => trivial
  | some p =>
    rw [meets_lookup_some, meets_bind, meets_modifyProcs]
    have moved : s.Alike { s with procs := s.procs.moveState process p newState } := by
      refine ⟨Nat.le_refl _, rfl, rfl, rfl, fun r => ?_⟩
      by_cases here : r = process
      · subst here
        simp [Procs.moveState, block]
      · simp only [Procs.moveState, Function.update_of_ne here]
    exact (rest p _).mono fun _ _ alike => moved.trans alike

theorem quiet_primitive : Primitive Quiet where
  ends := .pure
  follows := .bind
  reads := quiet_get
  fails := quiet_throw
  asks := quiet_malloc
  releases := quiet_free
  notes := quiet_log
  remembers _ := quiet_modify fun _ => ⟨Nat.le_refl _, rfl, rfl, rfl, fun _ => rfl⟩
  edits process f same := quiet_modifyPcb process fun p => by
    obtain ⟨ppid, priority, here⟩ := same p
    rw [here]

end

theorem quiet_changeStateWith {semPost : Int → K Int} (posts : ∀ id, Quiet (semPost id))
    (pid : Int) (newState : ProcessState) :
    Quiet (changeStateWith semPost pid newState) :=
  built_changeStateWith quiet_primitive quiet_move posts pid newState

theorem quiet_detached : Detached Quiet where
  toPrimitive := quiet_primitive
  wakes pid := quiet_changeStateWith (fun _ => .pure _) pid .ready
  expires := quiet_modifyProcs fun _ => ⟨rfl, rfl, rfl, fun _ => rfl⟩
  records f same := quiet_modifyProcs fun procs => by
    obtain ⟨waiting, granted, here⟩ := same procs
    rw [here]
    exact ⟨rfl, rfl, rfl, fun _ => rfl⟩
  semsWritten _ := quiet_modify fun _ => ⟨Nat.le_refl _, rfl, rfl, rfl, fun _ => rfl⟩
  pipesWritten _ := quiet_modify fun _ => ⟨Nat.le_refl _, rfl, rfl, rfl, fun _ => rfl⟩

theorem quiet_elementary : Elementary Quiet := quiet_detached.elementary quiet_changeStateWith

end QuesOs.Kernel
