import Mathlib.Logic.Function.Basic

/-! Programs made of atomic actions on a shared state, which may pause between
two of them and go on later, from whatever state others have left. An action
returns or fails; a failure ends the run. `Meets` is the weakest precondition of an
action or a program, `Keeps` the special case of one assertion all along.
Nothing here knows what the state is. -/
namespace QuesOs.Resumption

variable {σ ε α β : Type}

/-- An atomic action. -/
abbrev Action (σ ε : Type) := StateT σ (Except ε)

/-- A program that may pause between its actions. -/
inductive Program (σ ε α : Type) : Type 1 where
  | done (result : α)
  | act {β : Type} (action : Action σ ε β) (rest : β → Program σ ε α)
  | pause (rest : Program σ ε α)

/-- What one turn of a program comes to. -/
inductive Outcome (σ ε α : Type) : Type 1 where
  | finished (result : α) (state : σ)
  | paused (rest : Program σ ε α) (state : σ)

/-- The state a turn leaves. -/
def Outcome.state : Outcome σ ε α → σ
  | .finished _ s => s
  | .paused _ s => s

namespace Program

def bind : Program σ ε α → (α → Program σ ε β) → Program σ ε β
  | .done a, f => f a
  | .act action rest, f => .act action fun b => (rest b).bind f
  | .pause rest, f => .pause (rest.bind f)

instance : Monad (Program σ ε) where
  pure := .done
  bind := bind

instance : MonadLift (Action σ ε) (Program σ ε) := ⟨fun action => .act action .done⟩

/-- Leaves the turn to others. -/
def suspend : Program σ ε Unit := .pause (.done ())

/-- Every action of the program is as `P` says. -/
def Every (P : ∀ {β : Type}, Action σ ε β → Prop) : Program σ ε α → Prop
  | .done _ => True
  | .act action rest => P action ∧ ∀ b, (rest b).Every P
  | .pause rest => rest.Every P

/-- Runs until the program pauses or ends. -/
def execute : Program σ ε α → σ → Except ε (Outcome σ ε α)
  | .done a, s => .ok (.finished a s)
  | .act action rest, s =>
    match action.run s with
    | .ok (b, s') => (rest b).execute s'
    | .error e => .error e
  | .pause rest, s => .ok (.paused rest s)

/-- Runs to the end as one action, where a pause is an error. -/
def complete (nested : ε) : Program σ ε α → Action σ ε α
  | .done a => pure a
  | .act action rest => action >>= fun b => (rest b).complete nested
  | .pause _ => throw nested

end Program

/-! ## Weakest preconditions of actions -/

/-- The action ends in the postcondition, or fails in a way that is allowed. -/
def Meets (bad : ε → Prop) (f : Action σ ε α) (post : α → σ → Prop) (s : σ) : Prop :=
  match f.run s with
  | .ok (a, s') => post a s'
  | .error e => bad e

section
variable {bad : ε → Prop} {s : σ}

theorem meets_of_run {f : Action σ ε α} {a : α} {s' : σ} {post : α → σ → Prop} (ran : f.run s = .ok (a, s')) :
    Meets bad f post s ↔ post a s' := by
  unfold Meets
  rw [ran]

@[simp] theorem meets_pure {a : α} {post : α → σ → Prop} : Meets bad (pure a : Action σ ε α) post s ↔ post a s :=
  Iff.rfl

@[simp] theorem meets_bind {f : Action σ ε α} {g : α → Action σ ε β} {post : β → σ → Prop} :
    Meets bad (f >>= g) post s ↔ Meets bad f (fun a s' => Meets bad (g a) post s') s := by
  unfold Meets
  rw [StateT.run_bind]
  cases f.run s <;> rfl

@[simp] theorem meets_map {f : Action σ ε α} {g : α → β} {post : β → σ → Prop} :
    Meets bad (g <$> f) post s ↔ Meets bad f (fun a s' => post (g a) s') s := by
  unfold Meets
  rw [StateT.run_map]
  cases f.run s <;> rfl

@[simp] theorem meets_get {post : σ → σ → Prop} : Meets bad (get : Action σ ε σ) post s ↔ post s s := Iff.rfl

@[simp] theorem meets_set {s' : σ} {post : PUnit → σ → Prop} :
    Meets bad (set s' : Action σ ε PUnit) post s ↔ post ⟨⟩ s' := Iff.rfl

@[simp] theorem meets_modify {f : σ → σ} {post : PUnit → σ → Prop} :
    Meets bad (modify f : Action σ ε PUnit) post s ↔ post ⟨⟩ (f s) := Iff.rfl

@[simp] theorem meets_throw {e : ε} {post : α → σ → Prop} :
    Meets bad (throw e : Action σ ε α) post s ↔ bad e := Iff.rfl

theorem meets_ite {c : Prop} [Decidable c] {f g : Action σ ε α} {post : α → σ → Prop} :
    Meets bad (if c then f else g) post s ↔ (c → Meets bad f post s) ∧ (¬c → Meets bad g post s) := by
  split <;> simp [*]

theorem Meets.mono {f : Action σ ε α} {post post' : α → σ → Prop} (meets : Meets bad f post s)
    (weaker : ∀ a s', post a s' → post' a s') : Meets bad f post' s := by
  unfold Meets at meets ⊢
  cases ran : f.run s with
  | ok result =>
    rw [ran] at meets
    exact weaker _ _ meets
  | error e =>
    rw [ran] at meets
    exact meets

/-- The second may be told of the runs that end well only. -/
theorem Meets.and {bad' : ε → Prop} {f : Action σ ε α} {post post' : α → σ → Prop} (first : Meets bad f post s)
    (second : Meets bad' f post' s) : Meets bad f (fun a s' => post a s' ∧ post' a s') s := by
  unfold Meets at first second ⊢
  cases ran : f.run s with
  | ok result =>
    rw [ran] at first second
    exact ⟨first, second⟩
  | error e =>
    rw [ran] at first
    exact first

/-- More failures may be allowed. -/
theorem Meets.allow {bad' : ε → Prop} {f : Action σ ε α} {post : α → σ → Prop} (meets : Meets bad f post s)
    (more : ∀ e, bad e → bad' e) : Meets bad' f post s := by
  unfold Meets at meets ⊢
  cases ran : f.run s with
  | ok result =>
    rw [ran] at meets
    exact meets
  | error e =>
    rw [ran] at meets
    exact more e meets

/-- It returns, or it fails as it may. -/
theorem Meets.ends {f : Action σ ε α} {post : α → σ → Prop} (meets : Meets bad f post s) :
    (∃ a s', f.run s = .ok (a, s') ∧ post a s') ∨ ∃ e, f.run s = .error e ∧ bad e := by
  unfold Meets at meets
  cases ran : f.run s with
  | ok result =>
    rw [ran] at meets
    exact .inl ⟨_, _, rfl, meets⟩
  | error e =>
    rw [ran] at meets
    exact .inr ⟨e, rfl, meets⟩

theorem Meets.returns {f : Action σ ε α} {post : α → σ → Prop} (meets : Meets (fun _ => False) f post s) :
    ∃ a s', f.run s = .ok (a, s') ∧ post a s' :=
  meets.ends.resolve_right fun ⟨_, _, never⟩ => never

end

/-- The action keeps the assertion. -/
def Keeps (bad : ε → Prop) (inv : σ → Prop) (f : Action σ ε α) : Prop := ∀ s, inv s → Meets bad f (fun _ => inv) s

theorem Keeps.pure {bad : ε → Prop} {inv : σ → Prop} (a : α) : Keeps bad inv (Pure.pure a : Action σ ε α) :=
  fun _ here => here

theorem Keeps.bind {bad : ε → Prop} {inv : σ → Prop} {f : Action σ ε α} {g : α → Action σ ε β}
    (first : Keeps bad inv f) (rest : ∀ a, Keeps bad inv (g a)) : Keeps bad inv (f >>= g) := by
  intro s here
  rw [meets_bind]
  exact (first s here).mono fun a s' still => rest a s' still

/-- A loop that counts up to `n`. -/
theorem meets_forM_range {bad : ε → Prop} {n : Nat} {body : Nat → Action σ ε PUnit} {s : σ}
    (P : Nat → σ → Prop) (start : P 0 s)
    (each : ∀ i < n, ∀ s, P i s → Meets bad (body i) (fun _ => P (i + 1)) s) :
    Meets bad ((List.range n).forM body) (fun _ => P n) s := by
  induction n with
  | zero => exact start
  | succ n ih =>
    rw [List.range_succ, List.forM_eq_forM, List.forM_append, meets_bind]
    refine (ih fun i low => each i (Nat.lt_succ_of_lt low)).mono fun _ s' here => ?_
    rw [List.forM_cons, meets_bind]
    exact (each n (Nat.lt_succ_self n) s' here).mono fun _ _ => id

/-- A loop over a list that keeps the assertion. -/
theorem Keeps.forM {bad : ε → Prop} {inv : σ → Prop} {body : α → Action σ ε PUnit} (list : List α)
    (each : ∀ a ∈ list, Keeps bad inv (body a)) : Keeps bad inv (list.forM body) := by
  induction list with
  | nil => exact .pure _
  | cons a rest ih =>
    rw [List.forM_eq_forM, List.forM_cons]
    exact (each a (List.mem_cons_self ..)).bind fun _ => ih fun b member => each b (List.mem_cons_of_mem _ member)

/-! ## Programs -/

namespace Program

/-- The program pauses and ends as it should. Where it pauses `still` holds of
the state its turn began in and the present one, and from every state in which
it is `resumed` it goes on as it should. The postcondition is given the state
that the last turn began in, too. -/
def Meets (bad : ε → Prop) (still resumed : σ → σ → Prop) :
    Program σ ε α → (α → σ → σ → Prop) → σ → σ → Prop
  | .done a, post, since, s => post a since s
  | .act action rest, post, since, s =>
    Resumption.Meets bad action (fun b s' => (rest b).Meets bad still resumed post since s') s
  | .pause rest, post, since, s => still since s ∧ ∀ s', resumed s s' → rest.Meets bad still resumed post s' s'

/-- The program keeps the assertion between any two actions, if the others keep
it while it pauses. -/
def Keeps (bad : ε → Prop) (inv : σ → Prop) (p : Program σ ε α) : Prop :=
  ∀ since s, inv s → p.Meets bad (fun _ => inv) (fun _ => inv) (fun _ _ => inv) since s

end Program

/-- The same of what one turn came to. -/
def Outcome.Meets (bad : ε → Prop) (still resumed : σ → σ → Prop) (post : α → σ → σ → Prop) (since : σ) :
    Outcome σ ε α → Prop
  | .finished a s => post a since s
  | .paused rest s => still since s ∧ ∀ s', resumed s s' → rest.Meets bad still resumed post s' s'

namespace Program

section
variable {bad : ε → Prop} {still resumed : σ → σ → Prop} {p : Program σ ε α} {f : α → Program σ ε β} {since s : σ}

@[simp] theorem meets_pure {a : α} {post : α → σ → σ → Prop} :
    (pure a : Program σ ε α).Meets bad still resumed post since s ↔ post a since s := Iff.rfl

@[simp] theorem meets_lift {action : Action σ ε α} {post : α → σ → σ → Prop} :
    (liftM action : Program σ ε α).Meets bad still resumed post since s ↔
      Resumption.Meets bad action (fun a s' => post a since s') s := Iff.rfl

@[simp] theorem meets_suspend {post : Unit → σ → σ → Prop} :
    (suspend : Program σ ε Unit).Meets bad still resumed post since s ↔
      still since s ∧ ∀ s', resumed s s' → post () s' s' := Iff.rfl

@[simp] theorem meets_bind {post : β → σ → σ → Prop} :
    (p >>= f).Meets bad still resumed post since s ↔
      p.Meets bad still resumed (fun a since' s' => (f a).Meets bad still resumed post since' s') since s := by
  change (p.bind f).Meets _ _ _ _ _ _ ↔ _
  induction p generalizing since s with
  | done a => exact Iff.rfl
  | act action rest ih =>
    simp only [Program.bind, Program.Meets]
    have same : (fun b s' => ((rest b).bind f).Meets bad still resumed post since s') =
        fun b s' => (rest b).Meets bad still resumed
          (fun a since' s' => (f a).Meets bad still resumed post since' s') since s' := by
      funext b s'
      exact propext (ih b)
    rw [same]
  | pause rest ih => simp only [Program.bind, Program.Meets, ih]

@[simp] theorem meets_discard {post : PUnit → σ → σ → Prop} :
    (discard p : Program σ ε PUnit).Meets bad still resumed post since s ↔
      p.Meets bad still resumed (fun _ => post ⟨⟩) since s := by
  have same : (discard p : Program σ ε PUnit) = p >>= fun _ => pure ⟨⟩ := rfl
  rw [same, meets_bind]
  rfl

/-- What a program meets, it meets with weaker demands. -/
theorem Meets.weaken {still' resumed' : σ → σ → Prop} {post post' : α → σ → σ → Prop}
    (meets : p.Meets bad still resumed post since s) (stops : ∀ since s, still since s → still' since s)
    (again : ∀ s s', resumed' s s' → resumed s s') (weaker : ∀ a since s, post a since s → post' a since s) :
    p.Meets bad still' resumed' post' since s := by
  induction p generalizing since s with
  | done a => exact weaker a since s meets
  | act action rest ih => exact Resumption.Meets.mono meets fun b s' rest => ih b rest
  | pause rest ih => exact ⟨stops since s meets.1, fun s' back => ih (meets.2 s' (again s s' back))⟩

theorem Meets.mono {post post' : α → σ → σ → Prop} (meets : p.Meets bad still resumed post since s)
    (weaker : ∀ a since s, post a since s → post' a since s) : p.Meets bad still resumed post' since s :=
  meets.weaken (fun _ _ same => same) (fun _ _ same => same) weaker

/-- More failures may be allowed. -/
theorem Meets.allow {bad' : ε → Prop} {post : α → σ → σ → Prop} (meets : p.Meets bad still resumed post since s)
    (more : ∀ e, bad e → bad' e) : p.Meets bad' still resumed post since s := by
  induction p generalizing since s with
  | done a => exact meets
  | act action rest ih => exact (Resumption.Meets.mono meets fun b s' later => ih b later).allow more
  | pause rest ih => exact ⟨meets.1, fun s' back => ih (meets.2 s' back)⟩

/-- A turn of a program that meets its postcondition. -/
theorem Meets.execute {post : α → σ → σ → Prop} (meets : p.Meets bad still resumed post since s)
    {outcome : Outcome σ ε α} (ran : p.execute s = .ok outcome) : outcome.Meets bad still resumed post since := by
  induction p generalizing s with
  | done a =>
    cases ran
    exact meets
  | act action rest ih =>
    rw [Program.execute] at ran
    cases step : action.run s with
    | ok result =>
      rw [step] at ran
      exact ih result.1 ((meets_of_run step).mp meets) ran
    | error e =>
      rw [step] at ran
      cases ran
  | pause rest ih =>
    cases ran
    exact meets

/-- A turn comes to something, or fails as it may. -/
theorem Meets.ends {post : α → σ → σ → Prop} (meets : p.Meets bad still resumed post since s) :
    (∃ outcome, p.execute s = .ok outcome ∧ outcome.Meets bad still resumed post since) ∨
    ∃ e, p.execute s = .error e ∧ bad e := by
  induction p generalizing s with
  | done a => exact .inl ⟨_, rfl, meets⟩
  | act action rest ih =>
    rcases Resumption.Meets.ends meets with ⟨b, s', ran, later⟩ | ⟨e, failed, bad⟩
    · rw [Program.execute, ran]
      exact ih b later
    · refine .inr ⟨e, ?_, bad⟩
      rw [Program.execute, failed]
  | pause rest ih => exact .inl ⟨_, rfl, meets⟩

/-- A turn that cannot fail comes to something. -/
theorem Meets.returns {post : α → σ → σ → Prop} (meets : p.Meets (fun _ => False) still resumed post since s) :
    ∃ outcome, p.execute s = .ok outcome ∧ outcome.Meets (fun _ => False) still resumed post since :=
  meets.ends.resolve_right fun ⟨_, _, never⟩ => never

/-- A program that never pauses runs to its end as one action. -/
theorem Meets.complete {nested : ε} {post : α → σ → σ → Prop}
    (meets : p.Meets bad (fun _ _ => False) resumed post since s) :
    Resumption.Meets bad (p.complete nested) (fun a s' => post a since s') s := by
  induction p generalizing s with
  | done a => exact meets
  | act action rest ih =>
    rw [Program.complete, Resumption.meets_bind]
    exact Resumption.Meets.mono meets fun b s' rest => ih b rest
  | pause rest ih => exact meets.1.elim

/-- Where a pause may fail, the program runs as one action up to it. -/
theorem Meets.complete_of_nested {nested : ε} {post : α → σ → σ → Prop} (fails : bad nested)
    (meets : p.Meets bad still resumed post since s) :
    Resumption.Meets bad (p.complete nested) (fun a s' => post a since s') s := by
  induction p generalizing s with
  | done a => exact meets
  | act action rest ih =>
    rw [Program.complete, Resumption.meets_bind]
    exact Resumption.Meets.mono meets fun b s' rest => ih b rest
  | pause rest ih => exact fails

section
variable {P : ∀ {β : Type}, Action σ ε β → Prop}

theorem Every.pure (a : α) : (Pure.pure a : Program σ ε α).Every P := trivial

theorem Every.suspend : (suspend : Program σ ε Unit).Every P := trivial

theorem Every.lift {action : Action σ ε α} (holds : P action) : (liftM action : Program σ ε α).Every P :=
  ⟨holds, fun _ => trivial⟩

theorem Every.bind (first : p.Every P) (rest : ∀ a, (f a).Every P) : (p >>= f).Every P := by
  change (p.bind f).Every P
  induction p with
  | done a => exact rest a
  | act action more ih => exact ⟨first.1, fun b => ih b (first.2 b)⟩
  | pause more ih => exact ih first

theorem Every.ite {c : Prop} [Decidable c] {q : Program σ ε α} (yes : p.Every P) (no : q.Every P) :
    (if c then p else q).Every P := by
  split
  · exact yes
  · exact no

theorem Every.discard (every : p.Every P) : (discard p : Program σ ε PUnit).Every P :=
  every.bind fun _ => .pure _

end

variable {inv : σ → Prop}

/-- What each action keeps, the program keeps. -/
theorem Keeps.every (every : p.Every fun f => Resumption.Keeps bad inv f) : p.Keeps bad inv := by
  induction p with
  | done a => exact fun _ _ here => here
  | act action rest ih =>
    exact fun since s here => Resumption.Meets.mono (every.1 s here) fun b s' => ih b (every.2 b) since s'
  | pause rest ih => exact fun _ _ here => ⟨here, fun s' back => ih every s' s' back⟩

end

end Program

end QuesOs.Resumption
