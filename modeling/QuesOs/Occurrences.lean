import QuesOs.Threads

/-! Which actions the turns of a run come to and in which states, and what a turn
ends in. A fault ends a run, so what an action does where it fails can only be said
of the state it is come to in. -/
namespace QuesOs.Resumption

variable {σ ε α β : Type}

/-- An action that returns exactly where it is fine, and then ends well or not whatever it returns. -/
theorem meets_fine {f : Action σ ε α} {fine well : Prop} {post post' : α → σ → Prop} {s : σ}
    (spec : Meets (fun _ => ¬fine) f (fun a s' => fine ∧ post a s') s)
    (each : ∀ a s', post a s' → (post' a s' ↔ well)) :
    Meets (fun _ => False) f post' s ↔ fine ∧ well := by
  constructor
  · intro meets
    obtain ⟨a, s', ran, after⟩ := meets.returns
    obtain ⟨fine, here⟩ := (meets_of_run ran).mp spec
    exact ⟨fine, (each a s' here).mp after⟩
  · rintro ⟨fine, well⟩
    exact (spec.allow fun _ not => not fine).mono fun a s' here => (each a s' here.2).mpr well

namespace Program

/-- In the turn that begins in the state, the program comes to the action, which is due in the second state. -/
inductive Comes : Program σ ε α → σ → {β : Type} → Action σ ε β → σ → Prop
  | here {β : Type} {action : Action σ ε β} {rest : β → Program σ ε α} {s : σ} : Comes (.act action rest) s action s
  | later {β γ : Type} {action : Action σ ε β} {rest : β → Program σ ε α} {f : Action σ ε γ} {s s₁ s' : σ} {b : β}
    (ran : action.run s = .ok (b, s₁)) (comes : Comes (rest b) s₁ f s') : Comes (.act action rest) s f s'

/-- An action comes first, and then the rest. -/
theorem Comes.after {γ : Type} {action : Action σ ε β} {rest : β → Program σ ε α}
    {f : Action σ ε γ} {s s₁ s' : σ} {b : β}
    (ran : action.run s = .ok (b, s₁)) (comes : (rest b).Comes s₁ f s') :
    (liftM action >>= rest : Program σ ε α).Comes s f s' :=
  .later ran comes

theorem Comes.first {action : Action σ ε β} {rest : β → Program σ ε α} {s : σ} :
    (liftM action >>= rest : Program σ ε α).Comes s action s :=
  .here

/-- Every action is come to in a state as `mid` says, whatever happens while the program pauses. -/
def Along (mid : σ → Prop) (resumed : σ → σ → Prop) : Program σ ε α → σ → Prop
  | .done _, _ => True
  | .act action rest, s => mid s ∧ ∀ b s', action.run s = .ok (b, s') → (rest b).Along mid resumed s'
  | .pause rest, s => ∀ s', resumed s s' → rest.Along mid resumed s'

variable {mid : σ → Prop} {resumed : σ → σ → Prop} {p : Program σ ε α} {s s' : σ}

theorem Along.comes {f : Action σ ε β} (along : p.Along mid resumed s) (comes : p.Comes s f s') : mid s' := by
  induction comes with
  | here => exact along.1
  | later ran _ ih => exact ih (along.2 _ _ ran)

/-- What is left of the program goes on in the same way. -/
theorem Along.execute {rest : Program σ ε α} (along : p.Along mid resumed s)
    (ran : p.execute s = .ok (.paused rest s')) :
    ∀ s'', resumed s' s'' → rest.Along mid resumed s'' := by
  induction p generalizing s with
  | done a => cases ran
  | act action next ih =>
    rw [Program.execute] at ran
    cases step : action.run s with
    | ok result =>
      rw [step] at ran
      exact ih result.1 (along.2 _ _ step) ran
    | error e =>
      rw [step] at ran
      cases ran
  | pause next ih =>
    cases ran
    exact along

theorem Along.lift {action : Action σ ε α} (here : mid s) : (liftM action : Program σ ε α).Along mid resumed s :=
  ⟨here, fun _ _ _ => trivial⟩

theorem Along.bind {bad : ε → Prop} {still : σ → σ → Prop} {f : α → Program σ ε β} {since : σ}
    (along : p.Along mid resumed s)
    (meets : p.Meets bad still resumed (fun a _ s' => (f a).Along mid resumed s') since s) :
    (p >>= f).Along mid resumed s := by
  change (p.bind f).Along mid resumed s
  induction p generalizing since s with
  | done a => exact meets
  | act action rest ih =>
    exact ⟨along.1, fun b s' ran => ih b (along.2 b s' ran) ((meets_of_run ran).mp meets)⟩
  | pause rest ih => exact fun s' back => ih (along s' back) (meets.2 s' back)

/-- Where every action keeps the assertion. -/
theorem Along.every {P : ∀ {β : Type}, Action σ ε β → Prop} {bad : ε → Prop} (every : p.Every P)
    (keeps : ∀ {β : Type} {f : Action σ ε β}, P f → Resumption.Keeps bad mid f) (start : mid s)
    (again : ∀ s s', resumed s s' → mid s') : p.Along mid resumed s := by
  induction p generalizing s with
  | done a => trivial
  | act action rest ih =>
    exact ⟨start, fun b s' ran => ih b (every.2 b) ((meets_of_run ran).mp (keeps every.1 s start))⟩
  | pause rest ih => exact fun s' back => ih every (again s s' back)

/-- The program may count on more when it goes on. -/
theorem Along.again {resumed' : σ → σ → Prop} (along : p.Along mid resumed s)
    (again : ∀ s s', resumed' s s' → resumed s s') :
    p.Along mid resumed' s := by
  induction p generalizing s with
  | done a => trivial
  | act action rest ih => exact ⟨along.1, fun b s' ran => ih b (along.2 b s' ran)⟩
  | pause rest ih => exact fun s' back => ih (along s' (again s s' back))

/-! ## What a turn ends in -/

/-- The turn of the program that begins in the state is free of faults, and ends so. -/
def Ends (post : Outcome σ ε α → Prop) (p : Program σ ε α) (s : σ) : Prop :=
  ∃ outcome, p.execute s = .ok outcome ∧ post outcome

variable {post : Outcome σ ε α → Prop}

theorem ends_pure {a : α} : (pure a : Program σ ε α).Ends post s ↔ post (.finished a s) := by
  constructor
  · rintro ⟨_, ⟨⟩, here⟩
    exact here
  · exact fun here => ⟨_, rfl, here⟩

theorem ends_suspend {rest : Unit → Program σ ε α} : (suspend >>= rest).Ends post s ↔ post (.paused (rest ()) s) := by
  constructor
  · rintro ⟨_, ⟨⟩, here⟩
    exact here
  · exact fun here => ⟨_, rfl, here⟩

theorem ends_bind {action : Action σ ε β} {rest : β → Program σ ε α} :
    (liftM action >>= rest : Program σ ε α).Ends post s ↔
    Resumption.Meets (fun _ => False) action (fun b s' => (rest b).Ends post s') s := by
  change (Program.act action rest).Ends post s ↔ _
  unfold Ends Resumption.Meets
  rw [Program.execute]
  cases action.run s with
  | ok result => rfl
  | error e =>
    constructor
    · rintro ⟨_, failed, -⟩
      cases failed
    · exact False.elim

end Program
end QuesOs.Resumption

namespace QuesOs.Threads
open Resumption

variable {σ ε τ ρ : Type} [DecidableEq τ] {machine : Machine σ ε τ} {issues : σ → Program σ ε ρ → Prop}

/-- The thread may go on with the program: the one it paused in, or one that it issues. -/
def System.Due (machine : Machine σ ε τ) (issues : σ → Program σ ε ρ → Prop) (S : System σ ε τ ρ)
    (p : Program σ ε ρ) : Prop :=
  ∃ thread, machine.running S.state = some thread ∧ S.due = false ∧
    (S.contexts thread = some p ∨ S.contexts thread = none ∧ issues S.state p)

namespace Discipline
variable {mid : σ → Prop}

/-- Every paused thread goes on through states as `mid` says. -/
def Watches (d : Discipline machine) (mid : σ → Prop) (S : System σ ε τ ρ) : Prop :=
  ∀ t p, S.contexts t = some p → ∀ s, d.Resumed t S.state s → p.Along mid (d.Resumed t) s

theorem watches_settle (d : Discipline machine) {S : System σ ε τ ρ} {p : Program σ ε ρ}
    {outcome : Outcome σ ε ρ} {thread : τ}
    (holds : d.Holds S) (watches : d.Watches mid S) (running : machine.running S.state = some thread)
    (does : d.does thread S.state (S.settle thread outcome).state) (along : p.Along mid (d.Resumed thread) S.state)
    (ran : p.execute S.state = .ok outcome) : d.Watches mid (S.settle thread outcome) := by
  have others : ∀ t p' s', t ≠ thread → S.contexts t = some p' → d.does thread S.state s' →
      ∀ s, d.Resumed t s' s → p'.Along mid (d.Resumed t) s := by
    intro t p' s' other context does s ⟨inv, turn, running', rely⟩
    have spared := d.spared thread t _ _ holds.inv running does other
    exact watches t p' context s ⟨inv, turn, running', d.trans t _ _ _ spared rely⟩
  intro t p' context
  by_cases same : t = thread
  · subst same
    cases outcome with
    | finished a s => simp [System.settle] at context
    | paused rest s =>
      simp only [System.settle, Function.update_self, Option.some.injEq] at context
      exact context ▸ along.execute ran
  · have before : S.contexts t = some p' := by
      cases outcome with
      | finished a s => simpa only [System.settle, Function.update_of_ne same] using context
      | paused rest s => simpa only [System.settle, Function.update_of_ne same] using context
    exact others t p' _ same before does

theorem watches_run (d : Discipline machine) (calls : d.Calls issues)
    (along : ∀ s p thread, issues s p → d.inv s → d.turn s → machine.running s = some thread →
      p.Along mid (d.Resumed thread) s)
    {S S' : System σ ε τ ρ} (holds : d.Holds S) (watches : d.Watches mid S) (run : Run machine issues S S') :
    d.Holds S' ∧ d.Watches mid S' := by
  induction run with
  | refl => exact ⟨holds, watches⟩
  | tail _ step ih =>
    obtain ⟨holds', watches'⟩ := ih
    refine ⟨(d.holds_step calls holds' step).1, ?_⟩
    cases step with
    | schedule ran =>
      obtain ⟨inv, turn, rely⟩ := d.schedule _ _ holds'.inv ran
      rintro t p context s ⟨inv', turn', running, later⟩
      exact watches' t p context s ⟨inv', turn', running, d.trans t _ _ _ (rely t) later⟩
    | resume running due context ran =>
      have resumed : d.Resumed _ _ _ := ⟨holds'.inv, holds'.turn due, running, d.refl _ _⟩
      have does := (d.holds_settle holds' running (holds'.follows _ _ context _ resumed) ran).2
      exact d.watches_settle holds' watches' running does (watches' _ _ context _ resumed) ran
    | call running due context issued ran =>
      have does := (d.holds_settle holds' running (calls _ _ _ issued holds'.inv (holds'.turn due) running) ran).2
      exact d.watches_settle holds' watches' running does (along _ _ _ issued holds'.inv (holds'.turn due) running) ran

/-- **Whatever action a turn of a run comes to**, it comes to it in a state as `mid` says, if every issued
program does. -/
theorem comes_run (d : Discipline machine) (calls : d.Calls issues)
    (along : ∀ s p thread, issues s p → d.inv s → d.turn s → machine.running s = some thread →
      p.Along mid (d.Resumed thread) s)
    {S S' : System σ ε τ ρ} {p : Program σ ε ρ} {β : Type} {f : Action σ ε β} {s : σ}
    (holds : d.Holds S) (watches : d.Watches mid S)
    (run : Run machine issues S S') (due : S'.Due machine issues p) (comes : p.Comes S'.state f s) : mid s := by
  obtain ⟨holds', watches'⟩ := d.watches_run calls along holds watches run
  obtain ⟨thread, running, due, context | ⟨-, issued⟩⟩ := due
  · exact (watches' thread p context _ ⟨holds'.inv, holds'.turn due, running, d.refl _ _⟩).comes comes
  · exact (along _ _ _ issued holds'.inv (holds'.turn due) running).comes comes

end Discipline
end QuesOs.Threads
