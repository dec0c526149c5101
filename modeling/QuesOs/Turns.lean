import QuesOs.Deeds

/-! Turns of a process: chains of deeds from where the process began, or went on,
to where it is. A program proceeds when it makes such chains up to each of its
pauses, whatever the others do meanwhile. -/
namespace QuesOs.Kernel
open Resumption Relation

variable {s : State}

/-! ## Waits on record -/

/-- The process is in a `semWait`. -/
def State.Records (s : State) (t : Ref) (sem : Int) : Prop :=
  (t, sem) ∈ s.procs.waiting ∨ (t, sem) ∈ s.procs.granted

theorem records_grant {procs : Procs} (semId pid : Int) (record : (t, sem) ∈ procs.waiting ∨ (t, sem) ∈ procs.granted) :
    (t, sem) ∈ (procs.grant semId pid).waiting ∨ (t, sem) ∈ (procs.grant semId pid).granted := by
  simp only [Procs.grant, List.mem_filter, List.mem_append, Bool.not_eq_true']
  rcases record with waits | granted
  · cases here : decide (sem = semId) && (procs.pcbs t).any (·.pid = pid) with
    | false => exact .inl ⟨waits, rfl⟩
    | true => exact .inr (.inl ⟨waits, rfl⟩)
  · exact .inr (.inr granted)

theorem Posts.records (posts : Posts s semId s') (record : s.Records t sem) : s'.Records t sem := by
  rcases posts with ⟨-, h, grown, rfl⟩ | ⟨x, found, posted⟩
  · exact record
  · cases posted with
    | handed queued inVain resumed left grown =>
      obtain ⟨r, q, -, -, -, -, rfl⟩ := moved_eq_some.mp resumed
      exact records_grant x.id _ record
    | raised inVain grown => exact record

theorem Entered.records (entered : Entered s c p x a s') (record : s.Records t sem) : s'.Records t sem := by
  cases entered with
  | took positive grown => exact record
  | queued empty grown last => exact record.imp_left (List.mem_cons_of_mem _)

theorem records_endWait {procs : Procs} (other : t ≠ c) (semId : Int)
    (record : (t, sem) ∈ procs.waiting ∨ (t, sem) ∈ procs.granted) :
    (t, sem) ∈ (procs.endWait c semId).waiting ∨ (t, sem) ∈ (procs.endWait c semId).granted := by
  simpa [Procs.endWait, other] using record

theorem Passed.records (passed : Passed s c semId s') (other : t ≠ c) (record : s.Records t sem) :
    s'.Records t sem := by
  cases passed with
  | absent absent grown => exact record
  | took found block entered => exact entered.records record
  | woken block ready here => exact records_endWait other semId record
  | forced found block dead entered grown => exact records_endWait other semId (entered.records record)

/-- Nobody ends the wait of another. -/
theorem Does.records (does : Does s c deed s') (other : t ≠ c) (record : s.Records t sem) : s'.Records t sem := by
  cases does with
  | passed passed => exact passed.records other record
  | slept found block ready notIdle entered grown => exact entered.records record
  | watched passed block => exact passed.records other record
  | posted posts => exact posts.records record
  | exited listed exited =>
    obtain ⟨target, block, notExited, notTerminated, grown, posts, now⟩ := exited
    exact posts.records (s := s.withHeap _) record
  | terminated terminated =>
    obtain ⟨target, queued, block', notTerminated, grown, reparented, now⟩ := terminated
    obtain ⟨ppid, rfl⟩ := reparented.relabelled
    exact record
  | opened opened =>
    unfold State.Records
    rw [opened.procs.1]
    exact record
  | closed here isOpen same closed =>
    unfold State.Records
    rw [closed.procs.1]
    exact record
  | put here isOpen passed posts => exact posts.records (passed.records other record)
  | took here isOpen passed posts => exact posts.records (passed.records other record)
  | _ => exact record

/-! ## Chains -/

/-- Deeds of the process that are all as `A` allows. -/
abbrev Chain (A : Deed → State → State → Prop) (c : Ref) : State → State → Prop :=
  ReflTransGen fun s s' => ∃ deed, A deed s s' ∧ Does s c deed s'

variable {A : Deed → State → State → Prop}

theorem Working.does (working : Working s c) (does : Does s c deed s') : Working s' c :=
  working.lives (does.advance working).1 (does.advance working).2

theorem Chain.working (chain : Chain A c s s') (working : Working s c) : Working s' c := by
  induction chain with
  | refl => exact working
  | tail _ last ih =>
    obtain ⟨deed, -, does⟩ := last
    exact ih.does does

theorem Chain.lives (chain : Chain A c s s') (working : Working s c) : Lives s s' := by
  induction chain with
  | refl => exact .refl
  | tail chain last ih =>
    obtain ⟨deed, -, does⟩ := last
    exact ih.trans (does.advance (Chain.working chain working)).2

theorem Chain.later (chain : Chain A c s s') (working : Working s c) : s.Later s' := by
  induction chain with
  | refl => exact .refl s
  | tail chain last ih =>
    obtain ⟨deed, -, does⟩ := last
    exact ih.trans (does.later (Chain.working chain working))

theorem Chain.records (chain : Chain A c s s') (other : t ≠ c) (record : s.Records t sem) : s'.Records t sem := by
  induction chain with
  | refl => exact record
  | tail _ last ih =>
    obtain ⟨deed, -, does⟩ := last
    exact does.records other ih

/-- What every allowed deed keeps, a chain of them keeps. -/
theorem Chain.keeps {J : State → Prop} (chain : Chain A c s s') (working : Working s c) (start : J s)
    (each : ∀ s s' deed, Working s c → J s → A deed s s' → Does s c deed s' → J s') : J s' := by
  induction chain with
  | refl => exact start
  | tail chain last ih =>
    obtain ⟨deed, allowed, does⟩ := last
    exact each _ _ deed (Chain.working chain working) ih allowed does

/-! ## Turns -/

/-- The running process is ready. -/
structure Acting (s : State) (c : Ref) : Prop where
  working : Working s c
  ready : ∃ pid, s.procs.Ready c pid

/-- The process has done as `A` allows since its turn began. -/
structure Turn (A : Deed → State → State → Prop) (c : Ref) (since s : State) : Prop where
  acting : Acting s c
  start : Working since c
  chain : Chain A c since s

/-- The same, but the process may have stopped. -/
structure Rest (A : Deed → State → State → Prop) (c : Ref) (since s : State) : Prop where
  working : Working s c
  start : Working since c
  chain : Chain A c since s

/-- How the process finds the state when it goes on. -/
structure Again (c : Ref) (s s' : State) : Prop where
  acting : Acting s' c
  later : s.Later s'
  records : ∀ sem, s.Records c sem → s'.Records c sem

theorem Turn.rest (turn : Turn A c since s) : Rest A c since s := ⟨turn.acting.working, turn.start, turn.chain⟩

/-- The deed is allowed to the process where it does it from this state. -/
def CoversAt (A : Deed → State → State → Prop) (c : Ref) (s : State) (deed : Deed) : Prop :=
  ∀ s', Acting s c → Does s c deed s' → A deed s s'

/-- The deed is allowed to the process wherever it does it. -/
def Covers (A : Deed → State → State → Prop) (c : Ref) (deed : Deed) : Prop := ∀ s, CoversAt A c s deed

theorem Rest.does (rest : Rest A c since s) (allowed : A deed s s') (does : Does s c deed s') : Rest A c since s' :=
  ⟨rest.working.does does, rest.start, rest.chain.tail ⟨deed, allowed, does⟩⟩

theorem Turn.does (turn : Turn A c since s) (allowed : A deed s s') (does : Does s c deed s')
    (goes : ∀ pid, s.procs.Ready c pid → ¬deed.stops pid) : Turn A c since s' := by
  have rest := turn.rest.does allowed does
  obtain ⟨pid, ready⟩ := turn.acting.ready
  exact ⟨⟨rest.working, pid, does.ready turn.acting.working ready (goes pid ready)⟩, rest.start, rest.chain⟩

theorem Rest.idle (rest : Rest A c since s) : s.procs.idleProcessPCB = since.procs.idleProcessPCB :=
  (rest.chain.later rest.start).procs.idle

theorem Rest.notIdle (rest : Rest A c since s) (notIdle : since.procs.idleProcessPCB ≠ some c) :
    s.procs.idleProcessPCB ≠ some c := by
  rw [rest.idle]
  exact notIdle

/-- The action, done in a turn of a process that is not the idle one, is a chain
of allowed deeds. -/
def Acts {α : Type} (A : Deed → State → State → Prop) (c : Ref) (f : K α) : Prop :=
  ∀ since, since.procs.idleProcessPCB ≠ some c → Keeps (fun _ => True) (Turn A c since) f

/-- The program makes chains of allowed deeds, pauses included. -/
def Proceeds {α : Type} (A : Deed → State → State → Prop) (c : Ref) (p : Program State Fault α) : Prop :=
  ∀ since s, Turn A c since s → since.procs.idleProcessPCB ≠ some c →
    p.Meets (fun _ => True) (Rest A c) (Again c)
      (fun _ since' s' => Turn A c since' s' ∧ since'.procs.idleProcessPCB ≠ some c) since s

section
variable {α β : Type}

theorem Acts.pure (a : α) : Acts A c (pure a) := fun _ _ => Keeps.pure a

theorem Acts.bind {f : K α} {g : α → K β} (first : Acts A c f) (rest : ∀ a, Acts A c (g a)) : Acts A c (f >>= g) :=
  fun since notIdle => (first since notIdle).bind fun a => rest a since notIdle

/-- What does one deed, which does not stop the process. -/
theorem acts_of_does {f : K α} {deed : Deed} (covers : Covers A c deed) (goes : ∀ pid, ¬deed.stops pid)
    (spec : ∀ s, Acting s c → s.procs.idleProcessPCB ≠ some c →
      Meets (fun _ => True) f (fun _ s' => Does s c deed s') s) : Acts A c f := by
  intro since notIdle s turn
  refine (spec s turn.acting (turn.rest.notIdle notIdle)).mono fun _ s' does => ?_
  exact turn.does (covers s s' turn.acting does) does fun pid _ => goes pid

/-- What does nothing. -/
theorem acts_of_same {f : K α} (spec : ∀ s, Meets (fun _ => True) f (fun _ s' => s' = s) s) : Acts A c f := by
  intro since _ s turn
  refine (spec s).mono ?_
  rintro _ s' rfl
  exact turn

theorem acts_of_looks {f : K α} (looks : Covers A c .looks) (spec : ∀ s, Acting s c →
    Meets (fun _ => True) f (fun _ s' => ∃ h, s.heap.Grown h ∧ s' = s.withHeap h) s) : Acts A c f := by
  refine acts_of_does looks (fun _ => id) fun s acting _ => (spec s acting).mono ?_
  rintro _ s' ⟨h, grown, rfl⟩
  exact .looked grown

theorem Acts.proceeds {f : K α} (acts : Acts A c f) : Proceeds A c (liftM f : Program State Fault α) := by
  intro since s turn notIdle
  exact (acts since notIdle s turn).mono fun _ s' after => ⟨after, notIdle⟩

theorem Proceeds.pure (a : α) : Proceeds A c (Pure.pure a : Program State Fault α) :=
  fun _ _ turn notIdle => ⟨turn, notIdle⟩

theorem Proceeds.bind {p : Program State Fault α} {f : α → Program State Fault β} (first : Proceeds A c p)
    (rest : ∀ a, Proceeds A c (f a)) : Proceeds A c (p >>= f) := by
  intro since s turn notIdle
  rw [Program.meets_bind]
  exact (first since s turn notIdle).mono fun a since' s' after => rest a since' s' after.1 after.2

theorem Proceeds.ite {P : Prop} [Decidable P] {p q : Program State Fault α} (yes : Proceeds A c p)
    (no : Proceeds A c q) : Proceeds A c (if P then p else q) := by
  split
  · exact yes
  · exact no

end

/-- Where the process has stopped, it pauses until it goes on. -/
theorem suspend_meets (rest : Rest A c since s) :
    (Program.suspend : Program State Fault Unit).Meets (fun _ => True) (Rest A c) (Again c)
      (fun _ since' s' => Turn A c since' s' ∧ since'.procs.idleProcessPCB = since.procs.idleProcessPCB) since s := by
  rw [Program.meets_suspend]
  refine ⟨rest, fun s' again => ⟨⟨again.acting, again.acting.working, .refl⟩, ?_⟩⟩
  rw [again.later.procs.idle, rest.idle]

end QuesOs.Kernel
