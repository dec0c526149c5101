import QuesOs.PipeActions
import Mathlib.Logic.Relation
import Mathlib.Data.List.Perm.Basic

/-! The process table: every process other than the idle one is in the queue or
running, once, and `readyCount` counts the ready ones among them. What actions
and the scheduler do to the processes is said once, step by step, and each
step keeps the table. -/
namespace QuesOs.Kernel

/-- The processes other than the idle one. -/
def Procs.others (procs : Procs) : List Ref :=
  values procs.queue ++ (procs.currentProcessPCB.filter fun r => some r ≠ procs.idleProcessPCB).toList

def Procs.isReady (procs : Procs) (r : Ref) : Bool := (procs.pcbs r).any (·.state = .ready)

structure Procs.Table (procs : Procs) (requests : Nat) : Prop where
  idle : ∃ r p, procs.idleProcessPCB = some r ∧ procs.pcbs r = some p ∧ p.state = .ready ∧ p.foreground = 0 ∧
    r ∉ procs.others
  once : procs.others.Nodup
  listed : ∀ r, procs.pcbs r ≠ none ↔ some r = procs.idleProcessPCB ∨ r ∈ procs.others
  counted : procs.readyCount = procs.others.countP procs.isReady
  pids : ∀ r p, procs.pcbs r = some p → 0 < p.pid ∧ p.pid < procs.pidCounter
  unique : ∀ r r' p p', procs.pcbs r = some p → procs.pcbs r' = some p' → p.pid = p'.pid → r = r'
  below : ∀ r p, procs.pcbs r = some p → r < requests
  newPids : ∀ c r p, procs.newProcess c = some (r, p) → 0 < p.pid ∧ p.pid < procs.pidCounter ∧ r < requests
  newReady : ∀ c r p, procs.newProcess c = some (r, p) → p.state = .ready
  newApart : ∀ c r p, procs.newProcess c = some (r, p) → procs.pcbs r = none ∧
    ∀ r' p', procs.pcbs r' = some p' → p'.pid ≠ p.pid
  newUnique : ∀ c c' r r' p p', procs.newProcess c = some (r, p) → procs.newProcess c' = some (r', p') →
    r = r' ∨ p.pid = p'.pid → c = c'
  given : ∀ r p, procs.pcbs r = some p → p.arguments.isSome = true

/-! ## Steps -/

def Event.isDeath : Event → Bool
  | .terminated .. => true
  | _ => false

/-- The events in which a process was terminated. -/
def State.deaths (s : State) : List Event := s.history.filter Event.isDeath

/-- Nothing happens to the processes, or one of them becomes ready. -/
inductive Wake (s s' : State) : Prop
  | quiet (grown : s.heap.Grown s'.heap) (deaths : s'.deaths = s.deaths)
    (procs : s'.procs = { s.procs with waiting := s'.procs.waiting, granted := s'.procs.granted })
  | woken (grown : s.heap.Grown s'.heap) (deaths : s'.deaths = s.deaths) (listed : r ∈ s.procs.others)
    (block : s.procs.pcbs r = some p) (notExited : p.state ≠ .exited) (notTerminated : p.state ≠ .terminated)
    (procs : s'.procs = s.procs.moveState r p .ready)

/-- The processes that `sendTaskToInit` looks at. -/
def Procs.examined (procs : Procs) : List Ref := procs.currentProcessPCB.toList ++ (values procs.queue).dropLast

/-- The children of the process among these are now `init`'s. -/
def Procs.adoptAmong (procs : Procs) (pid : Int) (examined : List Ref) : Procs :=
  { procs with pcbs := fun r => (procs.pcbs r).map fun p => { p with
      ppid := if r ∈ examined ∧ p.ppid = pid ∧ p.state ≠ .terminated then procs.initPid else p.ppid } }

/-- The children of the process among those that are looked at are now `init`'s. -/
def Procs.adopt (procs : Procs) (pid : Int) : Procs :=
  procs.adoptAmong pid procs.examined

/-- One of these is the living parent. -/
def Procs.seesAmong (procs : Procs) (ppid : Int) (examined : List Ref) : Prop :=
  ∃ r ∈ examined, ∃ p, procs.pcbs r = some p ∧ p.pid = ppid ∧ p.state ≠ .terminated ∧ p.state ≠ .exited

/-- A process that is looked at is the living parent. -/
def Procs.sees (procs : Procs) (ppid : Int) : Prop := procs.seesAmong ppid procs.examined

/-- What `sendTaskToInit` did for the process `r`, which is `p`. -/
structure Procs.Reparented (procs : Procs) (r : Ref) (p : Pcb) (procs' : Procs) : Prop where
  relabelled : ∃ ppid : Ref → Pcb → Int,
    procs' = { procs with pcbs := fun r => (procs.pcbs r).map fun p => { p with ppid := ppid r p } }
  adopted : ∀ r' ≠ r, procs'.pcbs r' = (procs.adopt p.pid).pcbs r'
  kept : p.ppid ≠ p.pid → procs.sees p.ppid → procs'.pcbs r = some p
  orphan : p.ppid ≠ p.pid → ¬procs.sees p.ppid → procs'.pcbs r = some { p with ppid := procs.initPid }

/-- What one action of a process does to the processes. -/
inductive Life (s s' : State) : Prop
  | wake (wake : Wake s s')
  | moved (grown : s.heap.Grown s'.heap) (deaths : s'.deaths = s.deaths) (listed : r ∈ s.procs.others)
    (block : s.procs.pcbs r = some p) (notExited : p.state ≠ .exited) (notTerminated : p.state ≠ .terminated)
    (alive : newState ≠ .terminated) (procs : s'.procs = s.procs.moveState r p newState)
  | terminated (grown : s.heap.Grown s'.heap) (queued : r ∈ values s.procs.queue) (block : s.procs.pcbs r = some p)
    (notTerminated : p.state ≠ .terminated) (reparented : s.procs.Reparented r p middle)
    (block' : middle.pcbs r = some p') (procs : s'.procs = middle.moveState r p' .terminated)
    (deaths : s'.deaths = .terminated p.pid s.procs s'.procs :: s.deaths)
  | disowned (grown : s.heap.Grown s'.heap) (deaths : s'.deaths = s.deaths) (block : s.procs.pcbs r = some p)
    (dead : p.state = .terminated)
    (procs : s'.procs = { s.procs with
      pcbs := Function.update s.procs.pcbs r (some { p with ppid := s.procs.initPid }) })
  | tuned (grown : s.heap.Grown s'.heap) (deaths : s'.deaths = s.deaths) (priority : Ref → Int)
    (procs : s'.procs = { s.procs with
      currentCycles := s'.procs.currentCycles
      pcbs := fun r => (s.procs.pcbs r).map fun p => { p with priority := priority r } })
  | allocated (grown : s.heap.Grown s'.heap) (deaths : s'.deaths = s.deaths)
    (running : s.procs.currentProcessPCB = some c) (block : s.procs.pcbs c = some q)
    (low : s.heap.requests ≤ r) (high : r < s'.heap.requests)
    (pid : p.pid = s.procs.pidCounter) (ppid : p.ppid = q.pid) (ready : p.state = .ready)
    (procs : s'.procs = { s.procs with
      pidCounter := s.procs.pidCounter + 1, newProcess := Function.update s.procs.newProcess c (some (r, p)) })
  | filled (grown : s.heap.Grown s'.heap) (deaths : s'.deaths = s.deaths) (was : s.procs.newProcess c = some (r, p))
    (procs : s'.procs = { s.procs with
      newProcess := Function.update s.procs.newProcess c (some (r, { p with semId })) })
  | published (grown : s.heap.Grown s'.heap) (deaths : s'.deaths = s.deaths)
    (running : s.procs.currentProcessPCB = some c) (block : s.procs.pcbs c = some q) (alive : q.state ≠ .terminated)
    (was : s.procs.newProcess c = some (r, p)) (listed : values queue = values s.procs.queue ++ [r])
    (parent : ppid = p.ppid ∨ ppid = s.procs.initPid)
    (procs : s'.procs = { s.procs with
      queue
      pcbs := Function.update s.procs.pcbs r (some { p with arguments := some arguments, ppid })
      readyCount := s.procs.readyCount + 1
      newProcess := Function.update s.procs.newProcess c none })

/-- What the scheduler does to the processes beyond waking them. -/
inductive Turning (s s' : State) : Prop
  | dispatched (grown : s.heap.Grown s'.heap) (deaths : s'.deaths = s.deaths)
    (same : s'.procs.others.Perm s.procs.others)
    (procs : s'.procs = { s.procs with
      queue := s'.procs.queue, currentProcessPCB := s'.procs.currentProcessPCB
      currentCycles := s'.procs.currentCycles })
  | reaped (grown : s.heap.Grown s'.heap) (deaths : s'.deaths = s.deaths) (block : s.procs.pcbs c = some p)
    (dead : p.state = .terminated) (others : s.procs.others.Perm (c :: s'.procs.others))
    (procs : s'.procs = { s.procs with
      pidCounter := s.procs.pidCounter - if p.pid = s.procs.pidCounter - 1 then 1 else 0
      queue := s'.procs.queue, currentProcessPCB := s'.procs.currentProcessPCB
      pcbs := Function.update s.procs.pcbs c none })

/-! ## Each step keeps the table -/

/-- One element changes sides. -/
theorem countP_change {l : List Ref} {P P' : Ref → Bool} (once : l.Nodup) (member : r ∈ l)
    (same : ∀ x ≠ r, P' x = P x) :
    l.countP P' + (if P r then 1 else 0) = l.countP P + (if P' r then 1 else 0) := by
  have split := List.perm_cons_erase member
  have rest : (l.erase r).countP P' = (l.erase r).countP P := by
    refine List.countP_congr fun x inside => ?_
    rw [same x (once.mem_erase_iff.mp inside).1]
  rw [split.countP_eq P, split.countP_eq P', List.countP_cons, List.countP_cons, rest]
  omega

namespace Procs.Table
variable {procs : Procs}

theorem grown (table : procs.Table n) (more : n ≤ n') : procs.Table n' :=
  { table with
    below := fun r p block => Nat.lt_of_lt_of_le (table.below r p block) more
    newPids := fun c r p new => by
      obtain ⟨positive, low, below⟩ := table.newPids c r p new
      exact ⟨positive, low, Nat.lt_of_lt_of_le below more⟩ }

/-- A process in the table is not the idle one. -/
theorem other (table : procs.Table n) (listed : r ∈ procs.others) :
    some r ≠ procs.idleProcessPCB ∧ ∃ p, procs.pcbs r = some p := by
  obtain ⟨idle, p, isIdle, -, -, -, away⟩ := table.idle
  refine ⟨fun same => ?_, Option.ne_none_iff_exists'.mp ((table.listed r).mpr (.inr listed))⟩
  rw [isIdle, Option.some.injEq] at same
  exact away (same ▸ listed)

theorem recorded (table : procs.Table n) (waiting granted : List (Ref × Int)) :
    Procs.Table { procs with waiting, granted } n :=
  ⟨table.idle, table.once, table.listed, table.counted, table.pids, table.unique, table.below, table.newPids,
    table.newReady, table.newApart, table.newUnique, table.given⟩

/-- Writes that leave pids, states and arguments. -/
theorem relabelled (table : procs.Table n) (f : Ref → Pcb → Pcb)
    (same : ∀ r p, (f r p).pid = p.pid ∧ (f r p).state = p.state ∧ (f r p).foreground = p.foreground ∧
      (f r p).arguments = p.arguments) :
    Procs.Table { procs with pcbs := fun r => (procs.pcbs r).map (f r) } n := by
  have was : ∀ r p, (procs.pcbs r).map (f r) = some p →
      ∃ q, procs.pcbs r = some q ∧ p.pid = q.pid ∧ p.arguments = q.arguments := by
    intro r p block
    obtain ⟨q, block', rfl⟩ := Option.map_eq_some_iff.mp block
    exact ⟨q, block', (same r q).1, (same r q).2.2.2⟩
  obtain ⟨idle, p, isIdle, block, ready, background, away⟩ := table.idle
  refine ⟨⟨idle, f idle p, isIdle,
    by simp [block], (same idle p).2.1.trans ready, (same idle p).2.2.1.trans background, away⟩,
    table.once, fun r => ?_, ?_, ?_, ?_, ?_, table.newPids, table.newReady, ?_, table.newUnique, ?_⟩
  · exact (not_congr Option.map_eq_none_iff).trans (table.listed r)
  · refine table.counted.trans (congrArg _ (List.countP_congr fun r _ => ?_))
    cases block : procs.pcbs r with
    | none => simp [Procs.isReady, block]
    | some p => simp [Procs.isReady, block, (same r p).2.1]
  · intro r p block
    obtain ⟨q, block', pid, -⟩ := was r p block
    rw [pid]
    exact table.pids r q block'
  · intro r r' p p' block block' same'
    obtain ⟨q, was₁, pid, -⟩ := was r p block
    obtain ⟨q', was₂, pid', -⟩ := was r' p' block'
    exact table.unique r r' q q' was₁ was₂ (by rw [← pid, ← pid', same'])
  · intro r p block
    obtain ⟨q, block', -, -⟩ := was r p block
    exact table.below r q block'
  · intro c r p new
    obtain ⟨absent, apart⟩ := table.newApart c r p new
    refine ⟨by simp [absent], fun r' p' block => ?_⟩
    obtain ⟨q, block', pid, -⟩ := was r' p' block
    rw [pid]
    exact apart r' q block'
  · intro r p block
    obtain ⟨q, block', -, given⟩ := was r p block
    rw [given]
    exact table.given r q block'

/-- `readyCount` follows the state of a process. -/
theorem moveState (table : procs.Table n) (listed : r ∈ procs.others) (block : procs.pcbs r = some p)
    (newState : ProcessState) : (procs.moveState r p newState).Table n := by
  have was : ∀ r' p', (procs.moveState r p newState).pcbs r' = some p' → ∃ q, procs.pcbs r' = some q ∧ p'.pid = q.pid ∧
      p'.arguments = q.arguments := by
    intro r' p' block'
    by_cases here : r' = r
    · subst here
      simp only [Procs.moveState, Function.update_self, Option.some.injEq] at block'
      exact ⟨p, block, by rw [← block'], by rw [← block']⟩
    · simp only [Procs.moveState, Function.update_of_ne here] at block'
      exact ⟨p', block', rfl, rfl⟩
  have notIdle := (table.other listed).1
  obtain ⟨idle, p', isIdle, idleBlock, ready, background, away⟩ := table.idle
  have elsewhere : idle ≠ r := fun same => notIdle (same ▸ isIdle.symm)
  refine ⟨⟨idle, p', isIdle, ?_, ready, background, away⟩, table.once, fun r' => ?_, ?_,
    ?_, ?_, ?_, table.newPids, table.newReady, ?_,
    table.newUnique, ?_⟩
  · simpa only [Procs.moveState, Function.update_of_ne elsewhere] using idleBlock
  · by_cases here : r' = r
    · subst here
      simp only [Procs.moveState, Function.update_self, ne_eq, reduceCtorEq, not_false_eq_true, true_iff]
      exact .inr listed
    · simp only [Procs.moveState, Function.update_of_ne here]
      exact table.listed r'
  · have before : procs.isReady r = decide (p.state = .ready) := by simp [Procs.isReady, block]
    have after : (procs.moveState r p newState).isReady r = decide (newState = .ready) := by
      simp [Procs.isReady, Procs.moveState]
    have change := countP_change table.once listed fun x (elsewhere : x ≠ r) =>
      show (procs.moveState r p newState).isReady x = procs.isReady x by
        simp only [Procs.isReady, Procs.moveState, Function.update_of_ne elsewhere]
    rw [before, after] at change
    have counted := table.counted
    change procs.readyCount + _ - _ = ((procs.others.countP (procs.moveState r p newState).isReady : Nat) : Int)
    by_cases ready : p.state = .ready <;> by_cases ready' : newState = .ready <;>
      simp only [ready, ready', decide_true, decide_false, if_true, if_false, not_true,
        not_false_eq_true, ne_eq, and_self,
        and_true, and_false, Bool.false_eq_true] at change ⊢ <;> omega
  · intro r' p' block'
    obtain ⟨q, block'', pid, -⟩ := was r' p' block'
    rw [pid]
    exact table.pids r' q block''
  · intro r₁ r₂ p₁ p₂ block₁ block₂ same'
    obtain ⟨q, was₁, pid, -⟩ := was r₁ p₁ block₁
    obtain ⟨q', was₂, pid', -⟩ := was r₂ p₂ block₂
    exact table.unique r₁ r₂ q q' was₁ was₂ (by rw [← pid, ← pid', same'])
  · intro r' p' block'
    obtain ⟨q, block'', -⟩ := was r' p' block'
    exact table.below r' q block''
  · intro c r' p' new
    obtain ⟨absent, apart⟩ := table.newApart c r' p' new
    have other : r' ≠ r := fun same => by rw [same, block] at absent; cases absent
    refine ⟨?_, fun r₂ p₂ block₂ => ?_⟩
    · simpa only [Procs.moveState, Function.update_of_ne other] using absent
    · obtain ⟨q, block', pid, -⟩ := was r₂ p₂ block₂
      rw [pid]
      exact apart r₂ q block'
  · intro r' p' block'
    obtain ⟨q, block'', -, given⟩ := was r' p' block'
    rw [given]
    exact table.given r' q block''

/-- A block with the next pid. -/
theorem allocated (table : procs.Table n) (c : Ref) (low : n ≤ r) (high : r < n') (pid : p.pid = procs.pidCounter)
    (ready : p.state = .ready) (current : procs.pcbs c = some q) :
    Procs.Table { procs with
      pidCounter := procs.pidCounter + 1, newProcess := Function.update procs.newProcess c (some (r, p)) } n' := by
  have table' := table.grown (Nat.le_of_lt (Nat.lt_of_le_of_lt low high))
  have positive : 0 < p.pid := by
    have := table.pids c q current
    omega
  have each : ∀ c' r' p', Function.update procs.newProcess c (some (r, p)) c' = some (r', p') →
      (c' = c ∧ r' = r ∧ p' = p) ∨ procs.newProcess c' = some (r', p') := by
    intro c' r' p' new
    by_cases here : c' = c
    · subst here
      simp only [Function.update_self, Option.some.injEq, Prod.mk.injEq] at new
      exact .inl ⟨rfl, new.1.symm, new.2.symm⟩
    · rw [Function.update_of_ne here] at new
      exact .inr new
  refine ⟨table'.idle, table'.once, table'.listed, table'.counted, fun r' p' block =>
    ?_, table'.unique, table'.below, ?_, ?_,
    ?_, ?_, table'.given⟩
  · have old := table.pids r' p' block
    exact ⟨old.1, Int.lt_trans old.2 (Int.lt_succ _)⟩
  · intro c' r' p' new
    rcases each c' r' p' new with ⟨-, rfl, rfl⟩ | old
    · exact ⟨positive, by rw [pid]; exact Int.lt_succ _, high⟩
    · obtain ⟨positive', less, below⟩ := table'.newPids c' r' p' old
      exact ⟨positive', Int.lt_trans less (Int.lt_succ _), below⟩
  · intro c' r' p' new
    rcases each c' r' p' new with ⟨-, -, rfl⟩ | old
    · exact ready
    · exact table.newReady c' r' p' old
  · intro c' r' p' new
    rcases each c' r' p' new with ⟨-, rfl, rfl⟩ | old
    · constructor
      · refine Option.eq_none_iff_forall_ne_some.mpr fun p' block => ?_
        exact Nat.not_lt.mpr low (table.below r' p' block)
      · intro r₂ p₂ block
        rw [pid]
        exact Int.ne_of_lt (table.pids r₂ p₂ block).2
    · exact table.newApart c' r' p' old
  · intro c₁ c₂ r₁ r₂ p₁ p₂ new₁ new₂ same
    rcases each c₁ r₁ p₁ new₁ with ⟨rfl, rfl, rfl⟩ | old₁ <;> rcases each c₂ r₂ p₂ new₂ with ⟨rfl, rfl, rfl⟩ | old₂
    · rfl
    · obtain ⟨-, less, below⟩ := table.newPids c₂ r₂ p₂ old₂
      rcases same with same | same
      · exact (Nat.not_lt.mpr low (same ▸ below)).elim
      · exact (Int.ne_of_lt less (same.symm.trans pid)).elim
    · obtain ⟨-, less, below⟩ := table.newPids c₁ r₁ p₁ old₁
      rcases same with same | same
      · exact (Nat.not_lt.mpr low (same ▸ below)).elim
      · exact (Int.ne_of_lt less (same.trans pid)).elim
    · exact table.newUnique c₁ c₂ r₁ r₂ p₁ p₂ old₁ old₂ same

/-- A pid is lost. -/
theorem skipped (table : procs.Table n) : Procs.Table { procs with pidCounter := procs.pidCounter + 1 } n := by
  refine ⟨table.idle, table.once, table.listed, table.counted, fun r p block => ?_, table.unique,
    table.below, fun c r p new => ?_,
    table.newReady, table.newApart, table.newUnique, table.given⟩
  · obtain ⟨positive, low⟩ := table.pids r p block
    exact ⟨positive, Int.lt_trans low (Int.lt_succ _)⟩
  · obtain ⟨positive, low, below⟩ := table.newPids c r p new
    exact ⟨positive, Int.lt_trans low (Int.lt_succ _), below⟩

/-- A block that is not published yet is given up. -/
theorem dropped (table : procs.Table n) (c : Ref) :
    Procs.Table { procs with newProcess := Function.update procs.newProcess c none } n := by
  have older : ∀ c' r p, Function.update procs.newProcess c none c' = some (r, p) →
    procs.newProcess c' = some (r, p) := by
    intro c' r p new
    by_cases here : c' = c
    · subst here
      simp at new
    · rwa [Function.update_of_ne here] at new
  exact ⟨table.idle, table.once, table.listed, table.counted, table.pids, table.unique, table.below,
    fun c' r p new => table.newPids c' r p (older c' r p new), fun c' r p new =>
    table.newReady c' r p (older c' r p new),
    fun c' r p new => table.newApart c' r p (older c' r p new),
    fun c₁ c₂ r₁ r₂ p₁ p₂ new₁ new₂ => table.newUnique c₁ c₂ r₁ r₂ p₁ p₂ (older c₁ r₁ p₁ new₁) (older c₂ r₂ p₂ new₂),
    table.given⟩

/-- A block that is not published yet is filled in. -/
theorem filled (table : procs.Table n) (was : procs.newProcess c = some (r, p)) (semId : Int) :
    Procs.Table { procs with newProcess := Function.update procs.newProcess c (some (r, { p with semId })) } n := by
  have each : ∀ c' r' p', Function.update procs.newProcess c (some (r, { p with semId })) c' = some (r', p') →
      ∃ q, procs.newProcess c' = some (r', q) ∧ p'.pid = q.pid ∧ p'.state = q.state := by
    intro c' r' p' new
    by_cases here : c' = c
    · subst here
      simp only [Function.update_self, Option.some.injEq, Prod.mk.injEq] at new
      obtain ⟨rfl, rfl⟩ := new
      exact ⟨p, was, rfl, rfl⟩
    · rw [Function.update_of_ne here] at new
      exact ⟨p', new, rfl, rfl⟩
  refine ⟨table.idle, table.once, table.listed, table.counted, table.pids, table.unique,
    table.below, ?_, ?_, ?_, ?_, table.given⟩
  · intro c' r' p' new
    obtain ⟨q, old, pid, -⟩ := each c' r' p' new
    rw [pid]
    exact table.newPids c' r' q old
  · intro c' r' p' new
    obtain ⟨q, old, -, state⟩ := each c' r' p' new
    rw [state]
    exact table.newReady c' r' q old
  · intro c' r' p' new
    obtain ⟨q, old, pid, -⟩ := each c' r' p' new
    rw [pid]
    exact table.newApart c' r' q old
  · intro c₁ c₂ r₁ r₂ p₁ p₂ new₁ new₂ same
    obtain ⟨q₁, old₁, pid₁, -⟩ := each c₁ r₁ p₁ new₁
    obtain ⟨q₂, old₂, pid₂, -⟩ := each c₂ r₂ p₂ new₂
    exact table.newUnique c₁ c₂ r₁ r₂ q₁ q₂ old₁ old₂ (by rw [← pid₁, ← pid₂]; exact same)

/-- A block joins the queue. -/
theorem published (table : procs.Table n) (was : procs.newProcess c = some (r, p)) {queue : Queue Ref}
    (listed : values queue = values procs.queue ++ [r]) (pid : p'.pid = p.pid) (state : p'.state = p.state)
    (given : p'.arguments.isSome = true) :
    Procs.Table { procs with
      queue
      pcbs := Function.update procs.pcbs r (some p')
      readyCount := procs.readyCount + 1
      newProcess := Function.update procs.newProcess c none } n := by
  obtain ⟨absent, apart⟩ := table.newApart c r p was
  obtain ⟨positive, less, below⟩ := table.newPids c r p was
  have fresh : r ∉ procs.others := fun member => (table.listed r).mpr (.inr member) absent
  obtain ⟨idle, q, isIdle, idleBlock, idleReady, background, away⟩ := table.idle
  have notIdle : idle ≠ r := fun same => by rw [same, absent] at idleBlock; cases idleBlock
  have grew : (values queue ++ (procs.currentProcessPCB.filter fun r => some r ≠ procs.idleProcessPCB).toList).Perm
      (r :: procs.others) := by
    rw [listed, List.append_assoc, List.singleton_append]
    exact List.perm_middle
  have each : ∀ r' q, Function.update procs.pcbs r (some p') r' = some q → (r' = r ∧ q = p') ∨
    procs.pcbs r' = some q := by
    intro r' q block
    by_cases here : r' = r
    · subst here
      simp only [Function.update_self, Option.some.injEq] at block
      exact .inl ⟨rfl, block.symm⟩
    · rw [Function.update_of_ne here] at block
      exact .inr block
  have older : ∀ c' r' q, Function.update procs.newProcess c none c' = some (r', q) →
      c' ≠ c ∧ procs.newProcess c' = some (r', q) := by
    intro c' r' q new
    by_cases here : c' = c
    · subst here
      simp at new
    · rw [Function.update_of_ne here] at new
      exact ⟨here, new⟩
  refine ⟨⟨idle, q, isIdle, ?_, idleReady, background, ?_⟩, ?_, fun r' => ?_, ?_, ?_, ?_, ?_, ?_, ?_, ?_, ?_, ?_⟩
  · simpa only [Function.update_of_ne notIdle] using idleBlock
  · exact fun member => (List.mem_cons.mp (grew.mem_iff.mp member)).elim notIdle away
  · exact grew.nodup_iff.mpr (List.nodup_cons.mpr ⟨fresh, table.once⟩)
  · refine Iff.trans ?_ (or_congr_right (grew.mem_iff.trans List.mem_cons)).symm
    by_cases here : r' = r
    · simp [here]
    · simp only [Function.update_of_ne here, here, false_or]
      exact table.listed r'
  · refine Eq.trans ?_ (congrArg _ (grew.countP_eq _).symm)
    have now : Procs.isReady { procs with
        queue, pcbs := Function.update procs.pcbs r (some p'), readyCount := procs.readyCount + 1
        newProcess := Function.update procs.newProcess c none } r = true := by
      simp [Procs.isReady, state, table.newReady c r p was]
    rw [List.countP_cons, if_pos now, Int.natCast_add, Int.natCast_one, table.counted]
    refine congrArg (fun n : Nat => (n : Int) + 1) (List.countP_congr fun x member => ?_)
    have elsewhere : x ≠ r := fun same => fresh (same ▸ member)
    simp only [Procs.isReady, Function.update_of_ne elsewhere]
  · intro r' q block
    rcases each r' q block with ⟨-, rfl⟩ | old
    · rw [pid]
      exact ⟨positive, less⟩
    · exact table.pids r' q old
  · intro r₁ r₂ q₁ q₂ block₁ block₂ same
    rcases each r₁ q₁ block₁ with ⟨rfl, rfl⟩ | old₁ <;> rcases each r₂ q₂ block₂ with ⟨rfl, rfl⟩ | old₂
    · rfl
    · exact (apart r₂ q₂ old₂ (same.symm.trans pid)).elim
    · exact (apart r₁ q₁ old₁ (same.trans pid)).elim
    · exact table.unique r₁ r₂ q₁ q₂ old₁ old₂ same
  · intro r' q block
    rcases each r' q block with ⟨rfl, -⟩ | old
    · exact below
    · exact table.below r' q old
  · intro c' r' q new
    exact table.newPids c' r' q (older c' r' q new).2
  · intro c' r' q new
    exact table.newReady c' r' q (older c' r' q new).2
  · intro c' r' q new
    obtain ⟨other, old⟩ := older c' r' q new
    obtain ⟨absent', apart'⟩ := table.newApart c' r' q old
    constructor
    · have apartRefs : r' ≠ r := fun same => other (table.newUnique c' c r' r q p old was (.inl same))
      simpa only [Function.update_of_ne apartRefs] using absent'
    · intro r₂ q₂ block
      rcases each r₂ q₂ block with ⟨rfl, rfl⟩ | old₂
      · exact fun same => other (table.newUnique c' c r' _ q p old was (.inr (same.symm.trans pid)))
      · exact apart' r₂ q₂ old₂
  · intro c₁ c₂ r₁ r₂ q₁ q₂ new₁ new₂ same
    exact table.newUnique c₁ c₂ r₁ r₂ q₁ q₂ (older c₁ r₁ q₁ new₁).2 (older c₂ r₂ q₂ new₂).2 same
  · intro r' q block
    rcases each r' q block with ⟨-, rfl⟩ | old
    · exact given
    · exact table.given r' q old

/-- The queue and the current process change places. -/
theorem dispatched (table : procs.Table n) {queue : Queue Ref} {currentProcessPCB : Option Ref} (cycles : Int)
    (same : Procs.others { procs with queue, currentProcessPCB } |>.Perm procs.others) :
    Procs.Table { procs with queue, currentProcessPCB, currentCycles := cycles } n := by
  obtain ⟨idle, p, isIdle, block, ready, background, away⟩ := table.idle
  refine ⟨⟨idle, p, isIdle, block, ready, background, fun member => away (same.mem_iff.mp member)⟩,
    same.nodup_iff.mpr table.once,
    fun r => ?_, ?_, table.pids, table.unique, table.below, table.newPids, table.newReady,
    table.newApart, table.newUnique,
    table.given⟩
  · exact (table.listed r).trans (or_congr_right same.mem_iff.symm)
  · exact table.counted.trans (congrArg _ (same.countP_eq procs.isReady).symm)

/-- A dead process is given up, and its pid too if it was the last one given out. -/
theorem reaped (table : procs.Table n) (block : procs.pcbs c = some p) (dead : p.state = .terminated)
    {queue : Queue Ref} {currentProcessPCB : Option Ref}
    (others : procs.others.Perm (c :: Procs.others { procs with queue, currentProcessPCB })) :
    Procs.Table { procs with
      pidCounter := procs.pidCounter - if p.pid = procs.pidCounter - 1 then 1 else 0
      queue, currentProcessPCB
      pcbs := Function.update procs.pcbs c none } n := by
  have listed : c ∈ procs.others := others.mem_iff.mpr (List.mem_cons_self ..)
  have notIdle := (table.other listed).1
  obtain ⟨gone, once⟩ := List.nodup_cons.mp (others.nodup_iff.mp table.once)
  obtain ⟨idle, q, isIdle, idleBlock, ready, background, away⟩ := table.idle
  have elsewhere : idle ≠ c := fun same => notIdle (same ▸ isIdle.symm)
  have older : ∀ r q, Function.update procs.pcbs c none r = some q → r ≠ c ∧ procs.pcbs r = some q := by
    intro r q block
    by_cases here : r = c
    · subst here
      simp at block
    · rw [Function.update_of_ne here] at block
      exact ⟨here, block⟩
  -- No other pid is as large as one that is given back.
  have less : ∀ pid : Int, pid < procs.pidCounter → pid ≠ p.pid →
      pid < procs.pidCounter - if p.pid = procs.pidCounter - 1 then 1 else 0 := by
    intro pid low other
    split <;> omega
  refine ⟨⟨idle, q, isIdle, ?_, ready, background, ?_⟩, once, fun r => ?_, ?_, ?_, ?_,
    ?_, ?_, table.newReady, ?_, table.newUnique,
    fun r q block' => table.given r q (older r q block').2⟩
  · simpa only [Function.update_of_ne elsewhere] using idleBlock
  · exact fun member => away (others.mem_iff.mpr (List.mem_cons_of_mem _ member))
  · by_cases here : r = c
    · subst here
      simp only [Function.update_self, ne_eq, not_true, false_iff, not_or]
      exact ⟨notIdle, gone⟩
    · simp only [Function.update_of_ne here]
      refine (table.listed r).trans (or_congr_right (others.mem_iff.trans ?_))
      rw [List.mem_cons]
      exact or_iff_right here
  · have asleep : procs.isReady c = false := by simp [Procs.isReady, block, dead]
    refine table.counted.trans (congrArg _ ?_)
    rw [others.countP_eq, List.countP_cons, asleep]
    refine List.countP_congr fun x member => ?_
    have other : x ≠ c := fun same => gone (same ▸ member)
    simp only [Procs.isReady, Function.update_of_ne other]
  · intro r q block'
    obtain ⟨other, old⟩ := older r q block'
    obtain ⟨positive, low⟩ := table.pids r q old
    exact ⟨positive, less q.pid low fun same => other (table.unique r c q p old block same)⟩
  · intro r₁ r₂ q₁ q₂ block₁ block₂ same
    exact table.unique r₁ r₂ q₁ q₂ (older r₁ q₁ block₁).2 (older r₂ q₂ block₂).2 same
  · intro r q block'
    exact table.below r q (older r q block').2
  · intro c' r q new
    obtain ⟨positive, low, below⟩ := table.newPids c' r q new
    exact ⟨positive, less q.pid low fun same => (table.newApart c' r q new).2 c p block same.symm, below⟩
  · intro c' r q new
    obtain ⟨absent, apart⟩ := table.newApart c' r q new
    refine ⟨?_, fun r₂ q₂ block₂ => apart r₂ q₂ (older r₂ q₂ block₂).2⟩
    by_cases here : r = c
    · simp only [here, Function.update_self]
    · simpa only [Function.update_of_ne here] using absent

end Procs.Table

theorem Wake.table (table : s.procs.Table s.heap.requests) (wake : Wake s s') : s'.procs.Table s'.heap.requests := by
  cases wake with
  | quiet grown deaths procs =>
    rw [procs]
    exact (table.recorded _ _).grown grown.requests
  | woken grown deaths listed block notExited notTerminated procs =>
    rw [procs]
    exact (table.moveState listed block .ready).grown grown.requests

theorem Life.table (table : s.procs.Table s.heap.requests) (life : Life s s') : s'.procs.Table s'.heap.requests := by
  cases life with
  | wake wake => exact wake.table table
  | moved grown deaths listed block notExited notTerminated alive procs =>
    rw [procs]
    exact (table.moveState listed block _).grown grown.requests
  | terminated grown queued block notTerminated reparented block' procs deaths =>
    obtain ⟨ppid, rfl⟩ := reparented.relabelled
    rw [procs]
    refine Procs.Table.grown ?_ grown.requests
    have relabelled := table.relabelled (fun r p => { p with ppid := ppid r p }) fun _ _ => ⟨rfl, rfl, rfl, rfl⟩
    exact relabelled.moveState (List.mem_append_left _ queued) block' _
  | @disowned r p grown deaths block dead procs =>
    have relabelled := table.relabelled (fun r' q => if r' = r then { q with ppid := s.procs.initPid } else q)
      fun r' q => by by_cases here : r' = r <;> simp [here]
    have same : s'.procs = { s.procs with
        pcbs := fun r' => (s.procs.pcbs r').map fun q =>
        if r' = r then { q with ppid := s.procs.initPid } else q } := by
      rw [procs, Procs.mk.injEq]
      refine ⟨rfl, rfl, funext fun r' => ?_, rfl, rfl, rfl, rfl, rfl, rfl, rfl, rfl, rfl⟩
      by_cases here : r' = r
      · simp [here, block]
      · simp [here]
    rw [same]
    exact relabelled.grown grown.requests
  | tuned grown deaths priority procs =>
    rw [procs]
    refine Procs.Table.grown ?_ grown.requests
    exact (table.relabelled (fun r p => { p with priority := priority r }) fun _ _ =>
      ⟨rfl, rfl, rfl, rfl⟩).dispatched _ (.refl _)
  | allocated grown deaths running block low high pid ppid ready procs =>
    rw [procs]
    exact table.allocated _ low high pid ready block
  | filled grown deaths was procs =>
    rw [procs]
    exact (table.filled was _).grown grown.requests
  | published grown deaths running block alive was listed parent procs =>
    rw [procs]
    refine Procs.Table.grown ?_ grown.requests
    exact table.published was listed rfl rfl rfl

theorem Turning.table (table : s.procs.Table s.heap.requests) (turning : Turning s s') :
    s'.procs.Table s'.heap.requests := by
  cases turning with
  | dispatched grown deaths same procs =>
    rw [procs] at same ⊢
    exact (table.dispatched _ same).grown grown.requests
  | reaped grown deaths block dead others procs =>
    rw [procs] at others ⊢
    exact (table.reaped block dead others).grown grown.requests

end QuesOs.Kernel
