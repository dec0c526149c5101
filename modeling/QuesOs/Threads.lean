import QuesOs.Resumption
import Mathlib.Logic.Relation

/-! Threads that take turns on a shared state. A scheduler, itself an action on
the state, says whose turn it is; the thread then issues a program, or goes on
with the one it paused in. Where a program pauses the scheduler runs before
anything else, and it may run between any two turns.

The one rule proved here carries an invariant over every run: the scheduler
keeps it, every issued program keeps it up to each of its pauses, and what a
paused thread relies on is kept by the turns of the others. -/
namespace QuesOs.Threads
open Resumption

variable {σ ε τ ρ : Type}

structure Machine (σ ε τ : Type) where
  running : σ → Option τ
  schedule : Action σ ε Unit

/-- The shared state, what each thread paused in, and whether the scheduler is due. -/
structure System (σ ε τ ρ : Type) : Type 1 where
  state : σ
  contexts : τ → Option (Program σ ε ρ)
  due : Bool

/-- After a turn of `thread`. -/
def System.settle [DecidableEq τ] (S : System σ ε τ ρ) (thread : τ) : Outcome σ ε ρ → System σ ε τ ρ
  | .finished _ s => ⟨s, Function.update S.contexts thread none, false⟩
  | .paused rest s => ⟨s, Function.update S.contexts thread (some rest), true⟩

inductive Step [DecidableEq τ] (machine : Machine σ ε τ) (issues : σ → Program σ ε ρ → Prop) :
    System σ ε τ ρ → System σ ε τ ρ → Prop
  | schedule (ran : machine.schedule.run S.state = .ok ((), s)) :
    Step machine issues S { S with state := s, due := false }
  | resume (turn : machine.running S.state = some thread) (due : S.due = false)
      (context : S.contexts thread = some program) (ran : program.execute S.state = .ok outcome) :
    Step machine issues S (S.settle thread outcome)
  | call (turn : machine.running S.state = some thread) (due : S.due = false)
      (context : S.contexts thread = none) (issued : issues S.state program)
      (ran : program.execute S.state = .ok outcome) :
    Step machine issues S (S.settle thread outcome)

def Run [DecidableEq τ] (machine : Machine σ ε τ) (issues : σ → Program σ ε ρ → Prop) :
    System σ ε τ ρ → System σ ε τ ρ → Prop :=
  Relation.ReflTransGen (Step machine issues)

/-- A run along which the condition holds, with the states before and after each
call of the scheduler, in order. -/
inductive Course [DecidableEq τ] (machine : Machine σ ε τ) (issues : σ → Program σ ε ρ → Prop) (along : σ → Prop)
    (S : System σ ε τ ρ) : List (σ × σ) → System σ ε τ ρ → Prop
  | start (here : along S.state) : Course machine issues along S [] S
  | schedule (course : Course machine issues along S calls S₁) (ran : machine.schedule.run S₁.state = .ok ((), s))
    (here : along s) : Course machine issues along S (calls ++ [(S₁.state, s)]) { S₁ with state := s, due := false }
  | resume (course : Course machine issues along S calls S₁) (turn : machine.running S₁.state = some thread)
    (due : S₁.due = false) (context : S₁.contexts thread = some program) (ran : program.execute S₁.state = .ok outcome)
    (here : along outcome.state) : Course machine issues along S calls (S₁.settle thread outcome)
  | call (course : Course machine issues along S calls S₁) (turn : machine.running S₁.state = some thread)
    (due : S₁.due = false) (context : S₁.contexts thread = none) (issued : issues S₁.state program)
    (ran : program.execute S₁.state = .ok outcome) (here : along outcome.state) :
    Course machine issues along S calls (S₁.settle thread outcome)

theorem Course.starts [DecidableEq τ] {machine : Machine σ ε τ} {issues : σ → Program σ ε ρ → Prop} {along : σ → Prop}
    {S S' : System σ ε τ ρ} {calls : List (σ × σ)} (course : Course machine issues along S calls S') :
    along S.state := by
  induction course with
  | start here => exact here
  | schedule course ran here ih => exact ih
  | resume course turn due context ran here ih => exact ih
  | call course turn due context issued ran here ih => exact ih

/-- What an invariant rests on. `inv` holds whenever a turn or the scheduler has
ended, `turn` when a thread may go on, `does` says what a thread makes of the
state in one turn, and `rely` what a paused thread can count on meanwhile. -/
structure Discipline (machine : Machine σ ε τ) where
  inv : σ → Prop
  turn : σ → Prop
  does : τ → σ → σ → Prop
  rely : τ → σ → σ → Prop
  refl : ∀ t s, rely t s s
  trans : ∀ t s s' s'', rely t s s' → rely t s' s'' → rely t s s''
  spared : ∀ t t' s s', inv s → machine.running s = some t → does t s s' → t' ≠ t → rely t' s s'
  schedule : ∀ s s', inv s → machine.schedule.run s = .ok ((), s') → inv s' ∧ turn s' ∧ ∀ t, rely t s s'

variable {machine : Machine σ ε τ}

namespace Discipline

/-- How `thread` finds the state when it goes on. -/
def Resumed (d : Discipline machine) (thread : τ) (s s' : σ) : Prop :=
  d.inv s' ∧ d.turn s' ∧ machine.running s' = some thread ∧ d.rely thread s s'

/-- The program keeps the invariant, up to each pause and at its end. -/
def Follows (d : Discipline machine) (thread : τ) (p : Program σ ε ρ) (s : σ) : Prop :=
  p.Meets (fun _ => True) (fun since s' => d.inv s' ∧ d.does thread since s') (d.Resumed thread)
    (fun _ since s' => d.inv s' ∧ d.turn s' ∧ d.does thread since s') s s

/-- The invariant, with every paused thread ready to keep it. -/
structure Holds (d : Discipline machine) (S : System σ ε τ ρ) : Prop where
  inv : d.inv S.state
  turn : S.due = false → d.turn S.state
  follows : ∀ t p, S.contexts t = some p → ∀ s, d.Resumed t S.state s → d.Follows t p s

/-- What one step makes of the state. -/
inductive Did (d : Discipline machine) (S S' : System σ ε τ ρ) : Prop
  | scheduled (ran : machine.schedule.run S.state = .ok ((), S'.state)) (due : S'.due = false)
  | turned (running : machine.running S.state = some thread) (due : S.due = false)
    (does : d.does thread S.state S'.state)

variable [DecidableEq τ]

/-- A turn keeps everything. -/
theorem holds_settle (d : Discipline machine) {S : System σ ε τ ρ} (holds : d.Holds S) {p : Program σ ε ρ}
    (running : machine.running S.state = some thread) (follows : d.Follows thread p S.state)
    (ran : p.execute S.state = .ok outcome) :
    d.Holds (S.settle thread outcome) ∧ d.does thread S.state (S.settle thread outcome).state := by
  have ended := Program.Meets.execute follows ran
  -- The others find what they rely on.
  have others : ∀ t p' s', t ≠ thread → S.contexts t = some p' → d.does thread S.state s' →
      ∀ s, d.Resumed t s' s → d.Follows t p' s := by
    intro t p' s' other context does s ⟨inv, turn, running', rely⟩
    have spared := d.spared thread t _ _ holds.inv running does other
    exact holds.follows t p' context s ⟨inv, turn, running', d.trans t _ _ _ spared rely⟩
  cases outcome with
  | finished a s =>
    obtain ⟨inv, turn, does⟩ := ended
    refine ⟨⟨inv, fun _ => turn, fun t p' context => ?_⟩, does⟩
    by_cases same : t = thread
    · subst same
      simp [System.settle] at context
    · simp only [System.settle, Function.update_of_ne same] at context
      exact others t p' s same context does
  | paused rest s =>
    obtain ⟨⟨inv, does⟩, again⟩ := ended
    refine ⟨⟨inv, fun impossible => by simp [System.settle] at impossible, fun t p' context => ?_⟩, does⟩
    by_cases same : t = thread
    · subst same
      simp only [System.settle, Function.update_self, Option.some.injEq] at context
      exact context ▸ again
    · simp only [System.settle, Function.update_of_ne same] at context
      exact others t p' s same context does

/-- Calls follow the discipline wherever they are issued. -/
def Calls (d : Discipline machine) (issues : σ → Program σ ε ρ → Prop) : Prop :=
  ∀ s p thread, issues s p → d.inv s → d.turn s → machine.running s = some thread → d.Follows thread p s

theorem holds_step (d : Discipline machine) {issues : σ → Program σ ε ρ → Prop} (calls : d.Calls issues)
    {S S' : System σ ε τ ρ} (holds : d.Holds S) (step : Step machine issues S S') : d.Holds S' ∧ d.Did S S' := by
  cases step with
  | schedule ran =>
    obtain ⟨inv, turn, rely⟩ := d.schedule _ _ holds.inv ran
    refine ⟨⟨inv, fun _ => turn, fun t p context s ⟨inv', turn', running, later⟩ => ?_⟩, .scheduled ran rfl⟩
    exact holds.follows t p context s ⟨inv', turn', running, d.trans t _ _ _ (rely t) later⟩
  | resume running due context ran =>
    have follows := holds.follows _ _ context _ ⟨holds.inv, holds.turn due, running, d.refl _ _⟩
    obtain ⟨holds', does⟩ := d.holds_settle holds running follows ran
    exact ⟨holds', .turned running due does⟩
  | call running due context issued ran =>
    obtain ⟨holds', does⟩ := d.holds_settle holds running (calls _ _ _ issued holds.inv (holds.turn due) running) ran
    exact ⟨holds', .turned running due does⟩

/-- **Every run keeps the discipline.** -/
theorem holds_run (d : Discipline machine) {issues : σ → Program σ ε ρ → Prop} (calls : d.Calls issues)
    {S S' : System σ ε τ ρ} (holds : d.Holds S) (run : Run machine issues S S') : d.Holds S' := by
  induction run with
  | refl => exact holds
  | tail _ step ih => exact (d.holds_step calls ih step).1

theorem settle_state {S : System σ ε τ ρ} {thread : τ} {outcome : Outcome σ ε ρ} :
    (S.settle thread outcome).state = outcome.state := by
  cases outcome <;> rfl

/-- What the scheduler and every turn keep holds all along a course, where it may be
about the calls of the scheduler so far. -/
theorem keeps_course (d : Discipline machine) {issues : σ → Program σ ε ρ → Prop} (obeys : d.Calls issues)
    {along : σ → Prop} {J : List (σ × σ) → σ → Prop}
    (scheduled : ∀ calls s s', d.inv s → along s → J calls s → machine.schedule.run s = .ok ((), s') →
      J (calls ++ [(s, s')]) s')
    (turned : ∀ calls s s' t, d.inv s → d.turn s → machine.running s = some t → J calls s → d.does t s s' → J calls s')
    {S S' : System σ ε τ ρ} {calls : List (σ × σ)} (holds : d.Holds S) (start : J [] S.state)
    (course : Course machine issues along S calls S') : d.Holds S' ∧ along S'.state ∧ J calls S'.state := by
  induction course with
  | start here => exact ⟨holds, here, start⟩
  | schedule course ran here ih =>
    obtain ⟨holds', before, kept⟩ := ih
    exact ⟨(d.holds_step obeys holds' (.schedule ran)).1, here, scheduled _ _ _ holds'.inv before kept ran⟩
  | resume course turn due context ran here ih =>
    obtain ⟨holds', before, kept⟩ := ih
    have follows := holds'.follows _ _ context _ ⟨holds'.inv, holds'.turn due, turn, d.refl _ _⟩
    obtain ⟨holds'', does⟩ := d.holds_settle holds' turn follows ran
    refine ⟨holds'', ?_, turned _ _ _ _ holds'.inv (holds'.turn due) turn kept does⟩
    rw [settle_state]
    exact here
  | call course turn due context issued ran here ih =>
    obtain ⟨holds', before, kept⟩ := ih
    have follows := obeys _ _ _ issued holds'.inv (holds'.turn due) turn
    obtain ⟨holds'', does⟩ := d.holds_settle holds' turn follows ran
    refine ⟨holds'', ?_, turned _ _ _ _ holds'.inv (holds'.turn due) turn kept does⟩
    rw [settle_state]
    exact here

/-- What the scheduler and every turn keep, every run keeps. -/
theorem keeps_run (d : Discipline machine) {issues : σ → Program σ ε ρ → Prop} (calls : d.Calls issues) {J : σ → Prop}
    (scheduled : ∀ s s', d.inv s → J s → machine.schedule.run s = .ok ((), s') → J s')
    (turned : ∀ s s' t, d.inv s → d.turn s → machine.running s = some t → J s → d.does t s s' → J s')
    {S S' : System σ ε τ ρ} (holds : d.Holds S) (start : J S.state) (run : Run machine issues S S') : J S'.state := by
  induction run with
  | refl => exact start
  | tail run step ih =>
    have here := d.holds_run calls holds run
    cases (d.holds_step calls here step).2 with
    | scheduled ran _ => exact scheduled _ _ here.inv ih ran
    | turned running due does => exact turned _ _ _ here.inv (here.turn due) running ih does

end Discipline

end QuesOs.Threads
