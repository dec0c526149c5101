import QuesOs.Places

/-! Looking a process up by its pid. `changeState` and `waitpid` look at the running
process before they look into the queue; `nice` only looks into the queue. -/
namespace QuesOs.Kernel
open Resumption Threads

variable {s : State} {pid : Int} {bad : Fault → Prop}

/-! ## What the lookups come to -/

/-- What `getProcess` comes to, which finds nothing without memory for its iterator. -/
def State.sought (s : State) (pid : Int) : Option Ref := if s.heap.Grants 0 then s.procs.process pid else none

theorem getProcess_asks (alive : ∀ r ∈ values s.procs.queue, s.procs.pcbs r ≠ none) (pid : Int) :
    Meets bad (getProcess pid) (fun found s' => found = s.sought pid ∧ ∃ h, s.heap.Asked 1 h ∧
      s' = s.withHeap h) s := by
  unfold getProcess State.sought
  rw [meets_bind]
  apply malloc_cases
  · intro granted h asked
    simp only [meets_bind, meets_get]
    refine (getProcessLoop_spec _ (by simpa using alive)).mono ?_
    rintro found s' ⟨rfl, rfl⟩
    rw [if_pos granted]
    exact ⟨rfl, _, asked.release _, rfl⟩
  · intro refused h asked
    rw [if_neg refused]
    exact ⟨rfl, h, asked, rfl⟩

/-- What `changeState` and `waitpid` look up. -/
theorem processOf_asks (running : s.procs.currentProcessPCB = some c) (block : s.procs.pcbs c = some q)
    (alive : ∀ r ∈ values s.procs.queue, s.procs.pcbs r ≠ none) (pid : Int) : Meets bad (processOf pid) (fun found s' =>
      found = (if pid = q.pid then some c else s.sought pid) ∧
        ∃ h, s.heap.Asked (if pid = q.pid then 0 else 1) h ∧ s' = s.withHeap h) s := by
  unfold processOf
  rw [meets_bind, meets_currentPcb running block, meets_ite]
  constructor
  · intro own
    simp only [if_pos own]
    exact ⟨rfl, s.heap, .refl _, rfl⟩
  · intro other
    simp only [if_neg other]
    exact getProcess_asks alive pid

/-- A priority is brought into bounds. -/
def clampPriority (newPriority : Int) : Int := min (max newPriority 0) MAX_PRIO

theorem nice_asks (alive : ∀ r ∈ values s.procs.queue, s.procs.pcbs r ≠ none) (found : s.sought pid = some r)
    (block : s.procs.pcbs r = some p) (newPriority : Int) : Meets bad (nice pid newPriority) (fun a s' => a = 0 ∧
      ∃ h, s.heap.Asked 1 h ∧ s' = { s with heap := h, procs := { s.procs with
        pcbs := Function.update s.procs.pcbs r (some { p with priority := clampPriority newPriority }) } }) s := by
  have clamped : (if (if newPriority < 0 then 0 else newPriority) > MAX_PRIO then MAX_PRIO
      else if newPriority < 0 then 0 else newPriority) = clampPriority newPriority := by
    simp only [clampPriority, MAX_PRIO]
    omega
  unfold nice
  rw [meets_bind]
  refine (getProcess_asks alive pid).mono ?_
  rintro _ s' ⟨rfl, h, asked, rfl⟩
  simp only [found, meets_bind, meets_modifyPcb, meets_pure, withHeap_procs, block, Option.map_some]
  rw [clamped]
  exact ⟨trivial, h, asked, rfl⟩

/-! ## Whether they agree -/

/-- The process with the pid, in the queue or running and not idle, is the one that every lookup finds, and there is
only one; its priority is what `nice` makes it. -/
def State.LooksUp (s : State) (pid : Int) : Prop :=
  ∃ found : Option Ref, (∀ r, found = some r ↔ r ∈ s.procs.others ∧ s.procs.pidOf r = some pid) ∧
    (∃ s', (processOf pid).run s = .ok (found, s')) ∧ (∃ s', (getProcess pid).run s = .ok (found, s')) ∧
    ∀ r p, found = some r → s.procs.pcbs r = some p → ∀ newPriority, ∃ h, (nice pid newPriority).run s =
      .ok (0, { s with heap := h, procs := { s.procs with
        pcbs := Function.update s.procs.pcbs r (some { p with priority := clampPriority newPriority }) } })

theorem State.Located.alive (located : s.Located) : ∀ r ∈ values s.procs.queue, s.procs.pcbs r ≠ none :=
  fun r member none => located.placed.queued r member (congrArg (Option.map Pcb.pid) none)

/-- The running process, and its block. -/
theorem State.Located.attended (located : s.Located) :
    ∃ c q, s.procs.currentProcessPCB = some c ∧ s.procs.pcbs c = some q ∧ c ∉ values s.procs.queue ∧
    s.procs.callerPid = q.pid := by
  obtain ⟨c, running⟩ := Option.ne_none_iff_exists'.mp located.running
  obtain ⟨apart, there⟩ := located.placed.running c running
  obtain ⟨q, block⟩ := Option.ne_none_iff_exists'.mp fun none => there (congrArg (Option.map Pcb.pid) none)
  exact ⟨c, q, running, block, apart, by simp [Procs.callerPid, running, block]⟩

/-- What is found in the queue is what has the pid there. -/
theorem State.Located.process_iff (located : s.Located) (pid : Int) (r : Ref) :
    s.procs.process pid = some r ↔ r ∈ values s.procs.queue ∧ s.procs.pidOf r = some pid := by
  constructor
  · intro found
    obtain ⟨member, p, block, same⟩ := process_some found
    exact ⟨member, by simp [Procs.pidOf, block, same]⟩
  · rintro ⟨member, has⟩
    have here : (s.procs.pcbs r).any (·.pid = pid) = true := by
      obtain ⟨p, block, same⟩ := Option.map_eq_some_iff.mp has
      simp [block, same]
    cases found : s.procs.process pid with
    | none => exact (List.find?_eq_none.mp found r member here).elim
    | some r' =>
      obtain ⟨-, p, block, same⟩ := process_some found
      exact congrArg some (located.numbered.unique r' r pid (by simp [Procs.pidOf, block, same]) has)

/-- Whoever has another pid than the running process is in the queue. -/
theorem State.Located.others_iff (located : s.Located) (other : pid ≠ s.procs.callerPid) (r : Ref) :
    r ∈ s.procs.others ∧ s.procs.pidOf r = some pid ↔ r ∈ values s.procs.queue ∧ s.procs.pidOf r = some pid := by
  obtain ⟨c, q, running, block, -, caller⟩ := located.attended
  refine and_congr_left fun has => ?_
  have away : r ≠ c := by
    rintro rfl
    simp only [Procs.pidOf, block, Option.map_some, Option.some.injEq] at has
    exact other (has.symm.trans caller.symm)
  simp only [Procs.others, running, List.mem_append, Option.mem_toList, Option.filter_eq_some_iff, Option.some.injEq,
    away.symm, false_and, or_false]

theorem State.Located.looksUp_iff (located : s.Located) (pid : Int) : s.LooksUp pid ↔
    pid ≠ s.procs.callerPid ∧ (s.heap.Grants 0 ∨ ∀ r ∈ values s.procs.queue, s.procs.pidOf r ≠ some pid) := by
  have alive := located.alive
  obtain ⟨c, q, running, block, apart, caller⟩ := located.attended
  have checked : Meets (fun _ => False) (processOf pid) _ s := processOf_asks running block alive pid
  have unchecked : Meets (fun _ => False) (getProcess pid) _ s := getProcess_asks alive pid
  constructor
  · rintro ⟨found, named, ⟨s', first⟩, ⟨s'', second⟩, -⟩
    obtain ⟨same, -⟩ := (meets_of_run first).mp checked
    obtain ⟨same', -⟩ := (meets_of_run second).mp unchecked
    have other : pid ≠ s.procs.callerPid := by
      intro own
      rw [if_pos (own.trans caller)] at same
      -- The running process is not in the queue, where `getProcess` looks.
      have here : s.sought pid = some c := same'.symm.trans same
      unfold State.sought at here
      split at here
      · exact apart (process_some here).1
      · cases here
    refine ⟨other, or_iff_not_imp_left.mpr fun refused r member has => ?_⟩
    have here := (named r).mpr ((located.others_iff other r).mpr ⟨member, has⟩)
    unfold State.sought at same'
    rw [if_neg refused, here] at same'
    cases same'
  · rintro ⟨other, served⟩
    have sought : ∀ r, s.sought pid = some r ↔ r ∈ values s.procs.queue ∧ s.procs.pidOf r = some pid := by
      intro r
      unfold State.sought
      split
      · exact located.process_iff pid r
      · rename_i refused
        refine ⟨nofun, fun here => ?_⟩
        exact (served.resolve_left refused r here.1 here.2).elim
    obtain ⟨found, s₁, ran, same, -⟩ := checked.returns
    obtain ⟨found', s₂, ran', same', -⟩ := unchecked.returns
    rw [if_neg (caller ▸ other)] at same
    subst same same'
    refine ⟨s.sought pid, fun r => (sought r).trans (located.others_iff other r).symm, ⟨s₁, ran⟩, ⟨s₂, ran'⟩, ?_⟩
    intro r p found block' newPriority
    have changed : Meets (fun _ => False) (nice pid newPriority) _ s := nice_asks alive found block' newPriority
    obtain ⟨_, _, ran'', rfl, h, -, rfl⟩ := changed.returns
    exact ⟨h, ran''⟩

variable {grants : Nat → Bool} {garbage : Option Ref × List Ref} {allowed : State → Call → Prop} {S S₀ : System}

/-- **The lookups agree** on every pid but that of the running process, which `nice` does not find, as long as there is
memory for an iterator to find whoever has the pid. -/
theorem lookups_agree_iff (first : Step machine (Issues allowed) (boot grants garbage) S₀)
    (run : Run allowed S₀ S) (pid : Int) :
    S.state.LooksUp pid ↔ pid ≠ S.state.procs.callerPid ∧
      (S.state.heap.Grants 0 ∨ ∀ r ∈ values S.state.procs.queue, S.state.procs.pidOf r ≠ some pid) :=
  (located_reachable first run).looksUp_iff pid

/-- While `init` runs they agree on the pid of the shell. -/
theorem lookups_agree_shell : State.LooksUp (initState (fun _ => true) (none, [])) 3 :=
  (lookups_agree_iff (initState_step (Issues fun _ _ => True) (fun _ => true) (none, [])) .refl 3).mpr
    ⟨by decide, .inl rfl⟩

/-- While `init` runs, `waitpid(2)` waits for `init` and `nice(2, n)` finds nobody. -/
theorem lookups_disagree : ∃ S₀ S, Step machine (Issues fun _ _ => True) (boot (fun _ => true) (none, [])) S₀ ∧
    Run (fun _ _ => True) S₀ S ∧ ¬S.state.LooksUp 2 := by
  refine ⟨_, _, initState_step (Issues fun _ _ => True) (fun _ => true) (none, []), .refl, ?_⟩
  rintro ⟨found, -, ⟨s', first⟩, ⟨s'', second⟩, -⟩
  have own : (processOf 2).run (initState (fun _ => true) (none, [])) =
      .ok (some initRef, initState (fun _ => true) (none, [])) := rfl
  have queued : ((getProcess 2).run (initState (fun _ => true) (none, []))).map Prod.fst = .ok none := rfl
  rw [second] at queued
  cases first.symm.trans own
  cases queued

end QuesOs.Kernel
