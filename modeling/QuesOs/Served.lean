import QuesOs.Threads

/-! Runs that are served: every action of a turn, and the scheduler, is taken in
a state that has what it needs. A guarded program stops before an action that is
not served, so a served run is a run of guarded programs, and what the discipline
of these keeps holds in it. -/
namespace QuesOs

variable {σ ε τ ρ α β : Type}

namespace Resumption

open Classical in
/-- The action, where it is served. -/
noncomputable def guardAction (served : ∀ {β : Type}, Action σ ε β → σ → Prop) (stop : ε)
    (action : Action σ ε α) : Action σ ε α :=
  fun s => if served action s then action.run s else .error stop

section
variable {served : ∀ {β : Type}, Action σ ε β → σ → Prop} {stop : ε} {action : Action σ ε α} {s : σ}

theorem guardAction_served (here : served action s) : (guardAction served stop action).run s = action.run s :=
  if_pos here

/-- Where stopping is allowed, an action that is not served meets anything. -/
theorem meets_guardAction {bad : ε → Prop} {post : α → σ → Prop} (stops : bad stop) :
    Meets bad (guardAction served stop action) post s ↔ (served action s → Meets bad action post s) := by
  by_cases here : served action s
  · have same : (guardAction served stop action).run s = action.run s := guardAction_served here
    unfold Meets
    rw [same]
    exact ⟨fun meets _ => meets, fun meets => meets here⟩
  · have stopped : (guardAction served stop action).run s = .error stop := if_neg here
    unfold Meets
    rw [stopped]
    exact ⟨fun _ yes => (here yes).elim, fun _ => stops⟩

end

namespace Program

/-- Every action of the turn is taken in a state that serves it. -/
def Served (served : ∀ {β : Type}, Action σ ε β → σ → Prop) : Program σ ε α → σ → Prop
  | .done _, _ => True
  | .act action rest, s => served action s ∧ ∀ b s', action.run s = .ok (b, s') → (rest b).Served served s'
  | .pause _, _ => True

noncomputable def guard (served : ∀ {β : Type}, Action σ ε β → σ → Prop) (stop : ε) : Program σ ε α → Program σ ε α
  | .done a => .done a
  | .act action rest => .act (guardAction served stop action) fun b => (rest b).guard served stop
  | .pause rest => .pause (rest.guard served stop)

end Program

noncomputable def Outcome.guard (served : ∀ {β : Type}, Action σ ε β → σ → Prop) (stop : ε) :
    Outcome σ ε α → Outcome σ ε α
  | .finished a s => .finished a s
  | .paused rest s => .paused (rest.guard served stop) s

namespace Program
variable {served : ∀ {β : Type}, Action σ ε β → σ → Prop} {stop : ε} {p : Program σ ε α} {s : σ}

theorem guard_bind (f : α → Program σ ε β) :
    (p >>= f).guard served stop = p.guard served stop >>= fun a => (f a).guard served stop := by
  change (p.bind f).guard served stop = (p.guard served stop).bind _
  induction p with
  | done a => rfl
  | act action rest ih => exact congrArg (Program.act _) (funext fun b => ih b)
  | pause rest ih => exact congrArg Program.pause ih

/-- A served turn is one of the guarded program. -/
theorem Served.guard_execute (here : p.Served served s) (ran : p.execute s = .ok outcome) :
    (p.guard served stop).execute s = .ok (outcome.guard served stop) := by
  induction p generalizing s with
  | done a =>
    cases ran
    rfl
  | act action rest ih =>
    rw [execute] at ran
    rw [guard, execute, guardAction_served here.1]
    cases step : action.run s with
    | ok result =>
      rw [step] at ran
      exact ih result.1 (here.2 _ _ step) ran
    | error e =>
      rw [step] at ran
      cases ran
  | pause rest ih =>
    cases ran
    rfl

/-- To stop before an action does no harm. -/
theorem Meets.guard {bad : ε → Prop} {still resumed : σ → σ → Prop} {post : α → σ → σ → Prop} {since : σ}
    (meets : p.Meets bad still resumed post since s) (stops : bad stop) :
    (p.guard served stop).Meets bad still resumed post since s := by
  induction p generalizing since s with
  | done a => exact meets
  | act action rest ih =>
    have guarded : Resumption.Meets bad (guardAction served stop action)
        (fun b s' => ((rest b).guard served stop).Meets bad still resumed post since s') s := by
      rw [meets_guardAction stops]
      exact fun _ => Resumption.Meets.mono meets fun b s' later => ih b later
    exact guarded
  | pause rest ih => exact ⟨meets.1, fun s' again => ih (meets.2 s' again)⟩

end Program

end Resumption

namespace Threads
open Resumption

/-- A step in which whatever is done is served. -/
inductive ServedStep [DecidableEq τ] (machine : Machine σ ε τ) (issues : σ → Program σ ε ρ →
      Prop) (schedules : σ → Prop)
    (served : ∀ {β : Type}, Action σ ε β → σ → Prop) : System σ ε τ ρ → System σ ε τ ρ → Prop
  | schedule (here : schedules S.state) (ran : machine.schedule.run S.state = .ok ((), s)) :
    ServedStep machine issues schedules served S { S with state := s, due := false }
  | resume (turn : machine.running S.state = some thread) (due : S.due = false)
      (context : S.contexts thread = some program) (here : program.Served served S.state)
      (ran : program.execute S.state = .ok outcome) :
    ServedStep machine issues schedules served S (S.settle thread outcome)
  | call (turn : machine.running S.state = some thread) (due : S.due = false)
      (context : S.contexts thread = none) (issued : issues S.state program) (here : program.Served served S.state)
      (ran : program.execute S.state = .ok outcome) :
    ServedStep machine issues schedules served S (S.settle thread outcome)

def ServedRun [DecidableEq τ] (machine : Machine σ ε τ) (issues : σ → Program σ ε ρ → Prop) (schedules : σ → Prop)
    (served : ∀ {β : Type}, Action σ ε β → σ → Prop) : System σ ε τ ρ → System σ ε τ ρ → Prop :=
  Relation.ReflTransGen (ServedStep machine issues schedules served)

noncomputable def System.guard (served : ∀ {β : Type}, Action σ ε β → σ → Prop) (stop : ε)
    (S : System σ ε τ ρ) : System σ ε τ ρ :=
  { S with contexts := fun t => (S.contexts t).map (Program.guard served stop) }

open Classical in
noncomputable def Machine.guard (schedules : σ → Prop) (stop : ε) (machine : Machine σ ε τ) : Machine σ ε τ :=
  { machine with schedule := fun s => if schedules s then machine.schedule.run s else .error stop }

section
variable {machine : Machine σ ε τ} {issues : σ → Program σ ε ρ → Prop} {schedules : σ → Prop}
  {served : ∀ {β : Type}, Action σ ε β → σ → Prop} {stop : ε} {S S' : System σ ε τ ρ}

theorem guard_schedule (ran : (machine.guard schedules stop).schedule.run s = .ok ((), s')) :
    schedules s ∧ machine.schedule.run s = .ok ((), s') := by
  by_cases here : schedules s
  · have same : (machine.guard schedules stop).schedule.run s = machine.schedule.run s := if_pos here
    exact ⟨here, same.symm.trans ran⟩
  · have stopped : (machine.guard schedules stop).schedule.run s = .error stop := if_neg here
    cases stopped.symm.trans ran

variable [DecidableEq τ]

theorem settle_guard (thread : τ) (outcome : Outcome σ ε ρ) :
    (S.settle thread outcome).guard served stop = (S.guard served stop).settle thread (outcome.guard served stop) := by
  have same : ∀ new : Option (Program σ ε ρ),
    (fun t => (Function.update S.contexts thread new t).map (Program.guard served stop)) =
      Function.update (fun t => (S.contexts t).map (Program.guard served stop)) thread
      (new.map (Program.guard served stop)) := by
    intro new
    funext t
    by_cases here : t = thread
    · subst here
      simp
    · simp [here]
  cases outcome with
  | finished a s =>
    simp only [System.settle, System.guard, Outcome.guard, same]
    rfl
  | paused rest s =>
    simp only [System.settle, System.guard, Outcome.guard, same]
    rfl

theorem ServedStep.guard (step : ServedStep machine issues schedules served S S') :
    Step (machine.guard schedules stop) (fun s p => ∃ q, issues s q ∧ p = q.guard served stop) (S.guard served stop)
      (S'.guard served stop) := by
  cases step with
  | schedule here ran =>
    have same : (machine.guard schedules stop).schedule.run (S.guard served stop).state = _ := (if_pos here).trans ran
    exact .schedule same
  | resume turn due context here ran =>
    rw [settle_guard]
    exact .resume turn due (by simp [System.guard, context]) (here.guard_execute ran)
  | call turn due context issued here ran =>
    rw [settle_guard]
    exact .call turn due (by simp [System.guard, context]) ⟨_, issued, rfl⟩ (here.guard_execute ran)

/-- **A served run keeps the discipline of the guarded programs.** -/
theorem Discipline.holds_served (d : Discipline (machine.guard schedules stop))
    (calls : d.Calls fun s p => ∃ q, issues s q ∧ p = q.guard served stop) (holds : d.Holds (S.guard served stop))
    (run : ServedRun machine issues schedules served S S') : d.Holds (S'.guard served stop) := by
  induction run with
  | refl => exact holds
  | tail _ step ih => exact (d.holds_step calls ih step.guard).1

end

end Threads

end QuesOs
