import QuesOs.Reaping
import QuesOs.Units

/-! What is kept in order together: who stands in line, whose the semaphores are, and what
was done at them. Whatever the deeds of the processes keep beside it, and the scheduler
does not touch, holds in every state of every run. -/
namespace QuesOs.Kernel
open Resumption Threads Counting

variable {s s' s'' : State}

/-- Nothing that happened is forgotten. -/
theorem Does.recalls (does : Does s c deed s') : s.history <:+ s'.history := by
  have added : ∀ {s' : State}, s.Adds s' → s.history <:+ s'.history := by
    rintro s' ⟨new, history, -⟩
    rw [history]
    exact List.suffix_append _ _
  cases deed with
  | awaits child =>
    cases does
    exact List.suffix_cons _ _
  | watches child =>
    cases does with
    | watched passed block => exact (added passed.adds).trans (List.suffix_cons _ _)
  | terminates pid =>
    cases does with
    | terminated terminated =>
      cases terminated
      exact List.suffix_cons _ _
  | _ => exact added (does.adds ⟨nofun, nofun, nofun⟩)

/-- The lines, the records of the waits, the owners of the semaphores and their books are in order. -/
structure State.Accounted (s : State) : Prop where
  orderly : s.Orderly
  tidy : s.Tidy
  books : Books s
  booked : s.Booked

theorem Does.accounted (working : Working s c) (accounted : s.Accounted) (keeps : keepsLine deed s s')
    (does : Does s c deed s') :
    s'.Accounted := by
  obtain ⟨orderly, tidy, books, booked⟩ := accounted
  exact ⟨does.orderly working keeps orderly, does.tidy working orderly tidy, does.books working books,
    does.booked working booked⟩

/-- The queue turns, the end of a process is noted, and a block may go. -/
structure State.Thins (s s' : State) : Prop where
  grown : s.heap.Grown s'.heap
  sems : s'.sems = s.sems
  pipes : s'.pipes = s.pipes
  history : s'.history = s.history ∨ ∃ p before after, s'.history = .reaped p before after :: s.history
  waiting : s'.procs.waiting = s.procs.waiting
  granted : s'.procs.granted = s.procs.granted
  newProcess : s'.procs.newProcess = s.procs.newProcess
  blocks : ∀ r p, s'.procs.pcbs r = some p → s.procs.pcbs r = some p

/-- What is new to the history is about no semaphore and no pipe. -/
theorem State.Thins.new (thins : s.Thins s') : ∃ new, s'.history = new ++ s.history ∧
    ∀ event ∈ new, event.sem = none ∧ event.Lawful ∧ event.isPlain := by
  rcases thins.history with same | ⟨p, before, after, reaped⟩
  · exact ⟨[], same, List.forall_mem_nil _⟩
  · exact ⟨[_], reaped, List.forall_mem_singleton.mpr ⟨rfl, trivial, rfl⟩⟩

theorem State.Accounted.thins (accounted : s.Accounted) (thins : s.Thins s') : s'.Accounted := by
  obtain ⟨orderly, tidy, books, booked⟩ := accounted
  obtain ⟨new, history, plain⟩ := thins.new
  have kindred : s.Kindred s' := by
    refine ⟨by rw [thins.pipes], by rw [thins.sems], by rw [thins.sems], fun pipeId => ?_,
      fun r p block => ⟨p, thins.blocks r p block, rfl⟩, thins.newProcess⟩
    rcases thins.history with same | ⟨p, before, after, reaped⟩
    · rw [same]
    · rw [reaped]
      rfl
  refine ⟨orderly.plain ?_ fun event member => ?_, ?_, kindred.books books, ?_⟩
  · unfold State.Lined
    rw [thins.sems]
    refine orderly.lined.fewer (fun r x here => ?_) thins.waiting thins.newProcess thins.grown.requests
    obtain ⟨p, block, place⟩ := Option.bind_eq_some_iff.mp here
    exact Option.bind_eq_some_iff.mpr ⟨p, thins.blocks r p block, place⟩
  · rw [history] at member
    exact (List.mem_append.mp member).elim (fun young => .inr (plain event young).2.1) .inl
  · exact tidy.same (by rw [thins.sems]) thins.pipes (by rw [thins.waiting]; exact tidy.once)
      (by rw [thins.granted]; exact tidy.below)
  · exact booked.calm thins.sems new history fun event member => (plain event member).1

theorem keepsLine_of_reaps (reaps : deed.reaps) : keepsLine deed s s' := by
  cases deed with
  | moves => exact reaps.elim
  | creates => exact reaps.elim
  | _ => trivial

/-- What a call that keeps the lines does keeps them. -/
theorem keepsLine_of_call {start : State} (keeps : start.KeepsLine call) (makes : call.makes deed)
    (finds : call.finds start deed s s') : keepsLine deed s s' := by
  cases deed with
  | moves pid newState =>
    cases newState with
    | ready =>
      cases call with
      | resumeTask target =>
        obtain ⟨rfl, -⟩ := makes
        obtain rfl : s = start := finds
        intro r found lives
        exact not_mem_line (keeps r found lives)
      | blockTask target => cases makes.2
      | _ => exact makes.elim
    | _ => trivial
  | creates =>
    cases call with
    | startTask process argv foreground fd =>
      rcases finds with rfl | same
      · exact .inr (not_mem_line keeps)
      · exact .inl same
    | _ => exact makes.elim
  | _ => trivial

theorem bootPipes_some (here : bootPipes.pipes r = some p) : p = bootPipe := by
  change (if r = 24 then some bootPipe else none) = some p at here
  split at here
  · exact (Option.some.inj here).symm
  · cases here

theorem accounted_boot (garbage : Option Ref × List Ref) : (bootState (fun _ => true) garbage).Accounted := by
  have mutex : bootPipes.allPipesSem < bootSems.semId := by decide
  have apart : bootPipe.readSemId ≠ bootPipes.allPipesSem ∧ bootPipe.writeSemId ≠ bootPipes.allPipesSem := by decide
  refine ⟨orderly_boot garbage, ⟨List.nodup_nil, List.forall_mem_nil _, mutex, fun r p here => ?_⟩, books_boot garbage,
    booked_boot garbage⟩
  rw [bootPipes_some here]
  exact apart

/-! ## Runs -/

/-- What is kept beside the accounts, by the deeds that `A` allows and those of `freeProcess`, as
long as all that happened is as `P` says. -/
structure Rests (P : Event → Prop) (A : Deed → State → State → Prop) (J : State → Prop) : Prop where
  deeds : ∀ {s s' c deed}, Working s c → s.Accounted → J s → A deed s s' → Does s c deed s' → J s'
  retires : ∀ {s s' c p before after deed}, Working s c → s.Accounted → J s → s.procs.pcbs c = some p →
  p.state = .terminated →
    P (.reaped p before after) → retires p before deed s s' → A deed s s'
  thins : ∀ {s s'}, s.Accounted → J s → s.Thins s' → J s'

variable {P : Event → Prop} {A : Deed → State → State → Prop} {J : State → Prop}

theorem Rests.lasts (rests : Rests P A J) : Lasts fun s => (∀ event ∈ s.history, P event) → s.Accounted ∧ J s where
  turned := by
    intro s h queue currentProcessPCB currentCycles grown here all
    obtain ⟨accounted, holds⟩ := here all
    have thins : s.Thins { s with heap := h, procs := { s.procs with queue, currentProcessPCB, currentCycles } } :=
      ⟨grown, rfl, rfl, .inl rfl, rfl, rfl, rfl, fun _ _ block => block⟩
    exact ⟨accounted.thins thins, rests.thins accounted holds thins⟩
  retired := by
    rintro s c p _ h queue currentProcessPCB working @⟨s₁, block, dead, chain⟩ grown here all
    have recalls : s.history <:+ s₁.history :=
      chain.keeps (J := fun s' => s.history <:+ s'.history) working List.suffix_rfl
      fun _ _ _ _ older _ does => older.trans does.recalls
    have old : ∀ event ∈ s.history, P event := fun event member =>
      all event (List.mem_cons_of_mem _ (recalls.subset member))
    have each : (s₁.Accounted ∧ J s₁) ∧ s₁.procs.pcbs c = some p := by
      refine Chain.keeps (J := fun s => (s.Accounted ∧ J s) ∧ s.procs.pcbs c = some p) chain working
        ⟨here old, block⟩ ?_
      rintro s₂ s₃ deed working₂ ⟨⟨accounted₂, holds₂⟩, block₂⟩ retired does
      have reaps := reaps_of_retires retired
      have allowed := rests.retires working₂ accounted₂ holds₂ block₂ dead (all _ (List.mem_cons_self ..)) retired
      exact ⟨⟨does.accounted working₂ accounted₂ (keepsLine_of_reaps reaps),
        rests.deeds working₂ accounted₂ holds₂ allowed does⟩,
        (does.wakes working₂ reaps).spared.kept block₂ (by rw [dead]; decide)⟩
    obtain ⟨⟨accounted, holds⟩, -⟩ := each
    have thins : s₁.Thins { s₁ with
        heap := h
        history := .reaped p (s.pipes, s.sems) (s₁.pipes, s₁.sems) :: s₁.history
        procs := { s₁.procs with
          pidCounter := s₁.procs.pidCounter - if p.pid = s₁.procs.pidCounter - 1 then 1 else 0
          queue, currentProcessPCB, pcbs := Function.update s₁.procs.pcbs c none } } := by
      refine ⟨grown, rfl, rfl, .inr ⟨_, _, _, rfl⟩, rfl, rfl, rfl, fun r q block => ?_⟩
      by_cases own : r = c
      · subst own
        simp at block
      · simpa only [Function.update_of_ne own] using block
    exact ⟨accounted.thins thins, rests.thins accounted holds thins⟩

variable {allowed : State → Call → Prop} {garbage : Option Ref × List Ref} {S : System}

/-- **What rests on the accounts holds in every state of every run** of such calls in which all
that happened is as `P` says. -/
theorem Rests.reachable (rests : Rests P A J)
    (calls : (discipline fun deed s s' => keepsLine deed s s' ∧ A deed s s').Calls (Issues allowed))
    (start : J (bootState (fun _ => true) garbage)) (run : Run allowed (boot (fun _ => true) garbage) S)
    (all : ∀ event ∈ S.state.history, P event) : S.state.Accounted ∧ J S.state := by
  have kept : (∀ event ∈ S.state.history, P event) → S.state.Accounted ∧ J S.state := by
    refine (discipline _).keeps_run (J := fun s : State => (∀ event ∈ s.history, P event) →
      s.Accounted ∧ J s) calls ?_ ?_
      (holds_boot _ garbage) (fun _ => ⟨accounted_boot garbage, start⟩) run
    · intro s s' ordered here ran
      exact (meets_of_run ran).mp (scheduleTask_lasts rests.lasts ordered here)
    · intro s s' t ordered _ running here chain
      refine Chain.keeps (J := fun s => (∀ event ∈ s.history, P event) → s.Accounted ∧ J s) chain
        ⟨ordered.sound, ordered.table, running⟩ here fun s₁ s₂ deed working here allowed does all => ?_
      obtain ⟨accounted, holds⟩ := here fun event member => all event (does.recalls.subset member)
      exact ⟨does.accounted working accounted allowed.1, rests.deeds working accounted holds allowed.2 does⟩
  exact kept all

end QuesOs.Kernel
