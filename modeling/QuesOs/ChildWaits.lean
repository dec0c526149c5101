import QuesOs.Accounts

/-! Who waits for a child. The semaphore of a process is posted when it exits, and by
nobody before; so whoever comes out of the `semWait` of `waitpid` finds a process that
has exited. -/
namespace QuesOs.Kernel
open Resumption Threads Counting

variable {s s' s'' : State}

/-! ## Semaphores that nobody has posted -/

/-- The semaphore is open, began without units, and nobody has posted it. -/
structure State.Unanswered (s : State) (sem : Int) : Prop where
  valid : 0 ≤ sem
  old : sem < s.sems.semId
  isOpen : sem ∈ s.sems.ids
  initial : initials sem s.history = [0]
  posts : posts sem s.history = 0
  used : 0 ≤ s.used sem
  apart : sem ≠ s.pipes.allPipesSem

theorem State.Unanswered.kept (unanswered : s.Unanswered sem) (unposted : s.Unposted s' sem)
    (more : s.sems.semId ≤ s'.sems.semId)
    (isOpen : sem ∈ s'.sems.ids) (mutex : s'.pipes.allPipesSem = s.pipes.allPipesSem) : s'.Unanswered sem :=
  ⟨unanswered.valid, Int.lt_of_lt_of_le unanswered.old more, isOpen, unposted.initials.trans unanswered.initial,
    unposted.posts.trans unanswered.posts, Int.le_trans unanswered.used unposted.used,
    by rw [mutex]; exact unanswered.apart⟩

theorem Opened.semaphores (opened : Opened s pipeId s') : s.sems.semId ≤ s'.sems.semId ∧
    ∀ sem ∈ s.sems.ids, sem ∈ s'.sems.ids := by
  cases opened with
  | found found grown => exact ⟨Int.le_refl _, fun _ member => member⟩
  | created absent grown created =>
    obtain ⟨grown', low, high, readSem, writeSem, listed⟩ := created
    obtain ⟨ids, semId⟩ := readSem.ids
    obtain ⟨ids', semId'⟩ := writeSem.ids
    dsimp only at ids semId
    refine ⟨by dsimp only; omega, fun sem member => ?_⟩
    dsimp only
    rw [ids', ids]
    exact List.mem_append_left _ (List.mem_append_left _ member)

/-- Only the pipes and the dead close semaphores. -/
theorem Does.semaphores (working : Working s c) (does : Does s c deed s') : s.sems.semId ≤ s'.sems.semId ∧
    ∀ sem ∈ s.sems.ids, (∀ r p, s.pipes.pipes r = some p → sem ≠ p.readSemId ∧ sem ≠ p.writeSemId) →
      (∀ p, s.procs.pcbs c = some p → p.state = .terminated → sem ≠ p.semId) → sem ∈ s'.sems.ids := by
  have added : ∀ {sems : Sems} {v : Int} {n n' : Nat}, s.sems.Added v n n' sems →
      s.sems.semId ≤ sems.semId ∧ ∀ sem ∈ s.sems.ids, sem ∈ sems.ids := by
    intro sems v n n' added
    obtain ⟨ids, semId⟩ := added.ids
    exact ⟨by omega, fun sem member => ids ▸ List.mem_append_left _ member⟩
  cases deed with
  | inits v =>
    cases does with
    | initiated grown new => exact ⟨(added new).1, fun sem member _ _ => (added new).2 sem member⟩
  | creates =>
    cases does with
    | allocated => exact ⟨Int.le_refl _, fun _ member _ _ => member⟩
    | filled grown new was => exact ⟨(added new).1, fun sem member _ _ => (added new).2 sem member⟩
    | published => exact ⟨Int.le_refl _, fun _ member _ _ => member⟩
  | opens pipeId =>
    cases does with
    | opened opened => exact ⟨opened.semaphores.1, fun sem member _ _ => opened.semaphores.2 sem member⟩
  | closes pipeId =>
    cases does with
    | missed absent => exact ⟨Int.le_refl _, fun _ member _ _ => member⟩
    | closed here isOpen same closed =>
      cases closed with
      | kept more => exact ⟨Int.le_refl _, fun _ member _ _ => member⟩
      | last last grown =>
        refine ⟨Int.le_refl _, fun sem member foreign _ => ?_⟩
        obtain ⟨read, write⟩ := foreign _ _ here
        have proper := working.sound.sems
        exact (mem_ids_close (proper.close _) _).mpr ⟨(mem_ids_close proper _).mpr ⟨member, read⟩, write⟩
  | destroys =>
    cases does with
    | destroyed block dead grown =>
      refine ⟨Int.le_refl _, fun sem member _ own => ?_⟩
      exact (mem_ids_close working.sound.sems _).mpr ⟨member, own _ block dead⟩
  | _ =>
    have kindred := does.kindred working trivial
    refine ⟨Int.le_of_eq kindred.semId.symm, fun sem member _ _ => ?_⟩
    rw [kindred.ids]
    exact member

/-! ## Deeds -/

/-- Neither `EXITED` nor `TERMINATED`. -/
def Pcb.Alive (p : Pcb) : Prop := p.state ≠ .exited ∧ p.state ≠ .terminated

/-- Nobody has posted the semaphore of a process that lives or is in the making, and nobody has come
out of a `waitpid` of a process that lived. -/
structure State.Patient (s : State) : Prop where
  living : ∀ r p, s.procs.pcbs r = some p → p.Alive → s.Unanswered p.semId
  pending : ∀ c r p, s.procs.newProcess c = some (r, p) → p.semId = -1 ∨ s.Unanswered p.semId
  waited : ∀ c r p, .waited c r p ∈ s.history → ¬p.Alive

/-- The semaphores of the processes are left to `changeState` and `freeProcess`, whoever waits for
a child can be blocked, and whoever is put in the queue has a semaphore. -/
def answers : Deed → State → State → Prop
  | .posts sem, s, _ => sem = s.pipes.allPipesSem ∨ (∀ r p, s.procs.pcbs r = some p → p.Alive → p.semId ≠ sem) ∧
      ∀ c r p, s.procs.newProcess c = some (r, p) → 0 ≤ p.semId → p.semId ≠ sem
  | .watches _, s, _ => ∀ c, s.procs.currentProcessPCB = some c → ∃ p, s.procs.pcbs c = some p ∧ p.state = .ready
  | .creates, s, s' => ∀ r p, s'.procs.pcbs r = some p → s.procs.pcbs r = none → 0 ≤ p.semId
  | _, _, _ => True

/-- A deed that does not post the semaphore of a process leaves it unanswered, unless it is the
end of that process. -/
theorem State.Unanswered.does (unanswered : s.Unanswered sem) (working : Working s c)
    (books : Books s) (does : Does s c deed s')
    (owns : s.Owns sem o) (notPipe : (∀ r, o ≠ .reads r) ∧ ∀ r, o ≠ .writes r)
    (posts : ∀ posted, deed = .posts posted → posted ≠ sem)
    (exits : ∀ pid r, deed = .exits pid → s.procs.target pid = some r → o ≠ .process r)
    (alive : ∀ p, s.procs.pcbs c = some p → p.state = .terminated → o ≠ .process c) : s'.Unanswered sem := by
  have foreign : ∀ r p, s.pipes.pipes r = some p → sem ≠ p.readSemId ∧ sem ≠ p.writeSemId := fun r p here =>
    books.foreign here owns (notPipe.1 r) (notPipe.2 r)
  have spared : ¬s.Gives sem deed := by
    cases deed with
    | posts posted => exact posts posted rfl
    | exits pid =>
      rintro ⟨r, p, target, block, same⟩
      exact exits pid r rfl target (books.apart o (.process r) sem owns ⟨p, block, same⟩ unanswered.valid)
    | puts r ch =>
      rintro ⟨p, here, same⟩
      exact (foreign r p here).1 same.symm
    | takes r =>
      rintro ⟨p, here, same⟩
      exact (foreign r p here).2 same.symm
    | _ => exact fun gives => gives
  obtain ⟨more, kept⟩ := does.semaphores working
  refine unanswered.kept (does.unposted unanswered.old spared) more (kept sem unanswered.isOpen foreign ?_)
    (does.later working).pipes.mutex
  intro p block dead same
  exact alive p block dead (books.apart o (.process c) sem owns ⟨p, block, same.symm⟩ unanswered.valid)

/-- A semaphore that is made for a process. -/
theorem State.Unanswered.made (accounted : s.Accounted) (next : 0 ≤ s.sems.semId)
    (sems : s'.sems.semId = s.sems.semId + 1 ∧
    s'.sems.ids = s.sems.ids ++ [s.sems.semId]) (history : s'.history = .created s.sems.semId 0 :: s.history)
    (granted : s'.procs.granted = s.procs.granted) (mutex : s'.pipes.allPipesSem = s.pipes.allPipesSem) :
    s'.Unanswered s.sems.semId := by
  obtain ⟨new, owed⟩ := accounted.booked.new accounted.tidy (Int.le_refl s.sems.semId)
  have none : notes s.sems.semId s'.history = [] := by
    rw [history, ← List.singleton_append, notes_append, notes_others new]
    rfl
  refine ⟨next, ?_, ?_, ?_, ?_, ?_, ?_⟩
  · rw [sems.1]
    exact Int.lt_succ _
  · rw [sems.2]
    simp
  · rw [history, ← List.singleton_append, initials_append, initials_others new]
    simp [initials, Event.initial]
  · unfold Kernel.posts
    rw [none]
    rfl
  · unfold State.used grants Procs.owed
    rw [none, granted]
    exact Int.le_of_eq (congrArg (fun n : Nat => (0 : Int) - n) owed).symm
  · rw [mutex]
    exact Int.ne_of_gt accounted.tidy.mutex

/-- Deeds other than those of `startTask` leave the processes their semaphores, and wake no dead. -/
theorem Does.blocks (working : Working s c) (does : Does s c deed s') (notCreates : deed ≠ .creates) :
    s'.procs.newProcess = s.procs.newProcess ∧
      ∀ r p', s'.procs.pcbs r = some p' → ∃ p, s.procs.pcbs r = some p ∧ p'.semId = p.semId ∧ (p'.Alive → p.Alive) := by
  have kept : s'.procs.newProcess = s.procs.newProcess ∧
      ∀ r p', s'.procs.pcbs r = some p' → ∃ p, s.procs.pcbs r = some p ∧ p'.semId = p.semId := by
    have same : ∀ {s' : State}, s'.procs = s.procs → s'.procs.newProcess = s.procs.newProcess ∧
        ∀ r p', s'.procs.pcbs r = some p' → ∃ p, s.procs.pcbs r = some p ∧ p'.semId = p.semId := by
      intro s' procs
      rw [procs]
      exact ⟨rfl, fun _ p' block => ⟨p', block, rfl⟩⟩
    cases deed with
    | inits v =>
      cases does
      exact same rfl
    | creates => exact (notCreates rfl).elim
    | opens pipeId =>
      cases does with
      | opened opened => exact same opened.procs.1
    | closes pipeId =>
      cases does with
      | missed absent => exact same rfl
      | closed here isOpen alike closed => exact same closed.procs.1
    | destroys =>
      cases does
      exact same rfl
    | _ =>
      have kindred := does.kindred working trivial
      exact ⟨kindred.pending, kindred.blocks⟩
  refine ⟨kept.1, fun r p' block' => ?_⟩
  obtain ⟨p, block, sem⟩ := kept.2 r p' block'
  refine ⟨p, block, sem, fun alive => ?_⟩
  obtain ⟨q, now, ages⟩ := (does.advance working).2.aged working.table r p block
  cases now.symm.trans block'
  constructor
  · intro exited
    exact (ages (.inl exited)).elim (fun same => alive.1 (same.trans exited)) alive.2
  · intro dead
    exact (ages (.inr dead)).elim (fun same => alive.2 (same.trans dead)) alive.2

/-- Whoever exits is not alive afterwards. -/
theorem Does.exits_dead (does : Does s c (.exits pid) s') (target : s.procs.target pid = some r)
    (block : s'.procs.pcbs r = some p) :
    ¬p.Alive := by
  cases does with
  | exited listed exited =>
    obtain ⟨target', block', notExited, notTerminated, grown, posts, now⟩ := exited
    cases target.symm.trans target'
    simp only [Procs.moveState, Function.update_self, Option.some.injEq] at block
    intro alive
    rw [← block] at alive
    exact alive.1 rfl

/-- Whoever comes out of the `semWait` of `waitpid` finds a process that is dead. -/
theorem watched_dead (working : Working s c) (accounted : s.Accounted) (patient : s.Patient) (ready : s.Fair c p.semId)
    (passed : Passed s c p.semId s₁) (block : s₁.procs.pcbs child = some p) : ¬p.Alive := by
  intro alive
  obtain ⟨q, was, same, living⟩ := (Does.blocks working (.passed passed) nofun).2 child p block
  have unanswered := patient.living child q was (living alive)
  rw [← same] at unanswered
  have isOpen₁ : p.semId ∈ s₁.sems.ids := by
    rw [(passed.kindred working).ids]
    exact unanswered.isOpen
  have within := passed_within working accounted.orderly accounted.booked passed ready (find_of_ids unanswered.isOpen)
    (find_of_ids isOpen₁) unanswered.initial (Int.le_refl 0)
  rw [unanswered.posts] at within
  have used := unanswered.used
  omega

theorem waited_of_does (does : Does s c deed s') (notWatches : ∀ child, deed ≠ .watches child)
    (member : Event.waited w r p ∈ s'.history) : .waited w r p ∈ s.history := by
  have of_adds : ∀ {s' : State}, s.Adds s' → .waited w r p ∈ s'.history → .waited w r p ∈ s.history := by
    rintro s' ⟨new, history, plain⟩ member
    rw [history] at member
    exact (List.mem_append.mp member).resolve_left fun young => Bool.false_ne_true (plain _ young)
  cases deed with
  | awaits child =>
    cases does
    exact (List.mem_cons.mp member).resolve_left nofun
  | terminates pid =>
    cases does with
    | terminated terminated =>
      cases terminated
      exact (List.mem_cons.mp member).resolve_left nofun
  | watches child => exact (notWatches child rfl).elim
  | _ => exact of_adds (does.adds ⟨nofun, nofun, nofun⟩) member

theorem Does.patient (working : Working s c) (accounted : s.Accounted) (patient : s.Patient)
    (allowed : answers deed s s')
    (does : Does s c deed s') : s'.Patient := by
  have books := accounted.books
  -- The semaphores that processes have, and are about to have, but for the one of a process that ends.
  have living : ∀ r p, s.procs.pcbs r = some p → p.Alive → (∀ pid, deed = .exits pid → s.procs.target pid ≠ some r) →
      s'.Unanswered p.semId := by
    intro r p block alive stays
    refine (patient.living r p block alive).does working books does (o := .process r) ⟨p,
      block, rfl⟩ ⟨nofun, nofun⟩ ?_ ?_ ?_
    · rintro posted rfl same
      rcases allowed with rfl | spared
      · exact (patient.living r p block alive).apart same.symm
      · exact spared.1 r p block alive same.symm
    · rintro pid r' rfl target same
      exact stays pid rfl (Owner.process.inj same ▸ target)
    · intro q block' dead same
      cases Owner.process.inj same
      cases block.symm.trans block'
      exact alive.2 dead
  have pending : ∀ w r p, s.procs.newProcess w = some (r, p) → p.semId = -1 ∨ s'.Unanswered p.semId := by
    intro w r p new
    refine (patient.pending w r p new).imp_right fun unanswered => ?_
    refine unanswered.does working books does (o := .pending w) ⟨r, p, new, rfl⟩ ⟨nofun, nofun⟩ ?_ nofun ?_
    · rintro posted rfl same
      rcases allowed with rfl | spared
      · exact unanswered.apart same.symm
      · exact spared.2 w r p new unanswered.valid same.symm
    · rintro _ _ _ ⟨⟩
  by_cases creates : deed = .creates
  · subst creates
    have waited : ∀ w r p, .waited w r p ∈ s'.history → ¬p.Alive := fun w r p member =>
      patient.waited w r p (waited_of_does does nofun member)
    have others : ∀ {w r p block}, w ≠ c → Function.update s.procs.newProcess c block w = some (r, p) → p.semId = -1 ∨
        s'.Unanswered p.semId := fun other new => pending _ _ _ (by rwa [Function.update_of_ne other] at new)
    cases does with
    | @allocated q r p h block grown low high pid ppid ready gentle unset =>
      refine ⟨fun r p block alive => living r p block alive nofun, fun w r' p' new => ?_, waited⟩
      by_cases own : w = c
      · subst own
        simp only [Function.update_self, Option.some.injEq, Prod.mk.injEq] at new
        exact .inl (new.2 ▸ unset)
      · exact others own new
    | filled grown added was =>
      refine ⟨fun r p block alive => living r p block alive nofun, fun w r' p' new => ?_, waited⟩
      by_cases own : w = c
      · subst own
        simp only [Function.update_self, Option.some.injEq, Prod.mk.injEq] at new
        obtain ⟨ids, semId⟩ := added.ids
        rw [← new.2]
        exact .inr (.made accounted working.sound.sems.nextId ⟨semId, ids⟩ rfl rfl rfl)
      · exact others own new
    | @published q h r p queue ppid arguments block alive grown was listed parent =>
      refine ⟨fun r' p' block' alive => ?_, fun w r' p' new => ?_, waited⟩
      · by_cases own : r' = r
        · subst own
          have valid : 0 ≤ p'.semId := allowed _ p' block' (working.table.newApart c _ p was).1
          simp only [Function.update_self, Option.some.injEq] at block'
          subst block'
          refine (pending c _ p was).resolve_left fun unset => ?_
          dsimp only at valid
          omega
        · exact living r' p' (by simpa only [Function.update_of_ne own] using block') alive nofun
      · by_cases own : w = c
        · subst own
          simp at new
        · exact others own new
  · obtain ⟨newProcess, blocks⟩ := does.blocks working creates
    refine ⟨fun r p' block' alive => ?_, fun w r p' new' => pending w r p' (newProcess ▸ new'), fun w r p member => ?_⟩
    · obtain ⟨p, block, same, lived⟩ := blocks r p' block'
      rw [same]
      refine living r p block (lived alive) ?_
      rintro pid rfl target
      exact does.exits_dead target block' alive
    · by_cases watches : ∃ child, deed = .watches child
      · obtain ⟨child, rfl⟩ := watches
        cases does with
        | @watched s₁ _ q passed block =>
          rcases List.mem_cons.mp member with here | older
          · cases here
            obtain ⟨x, own, ready⟩ := allowed c working.running
            exact watched_dead working accounted patient (.inl ⟨x, own, ready⟩) passed block
          · exact patient.waited w r p (waited_of_does (.passed passed) nofun older)
      · exact patient.waited w r p (waited_of_does does (fun child same => watches ⟨child, same⟩) member)

/-! ## Runs -/

/-- The queue turns, a process is reaped. -/
theorem State.Patient.thins (patient : s.Patient) (thins : s.Thins s') : s'.Patient := by
  obtain ⟨new, history, plain⟩ := thins.new
  have kept : ∀ {sem : Int}, s.Unanswered sem → s'.Unanswered sem := fun {sem} unanswered => by
    have unposted : s.Unposted s' sem := .of_others thins.granted new history fun event member => by
      rw [(plain event member).1]
      exact nofun
    exact unanswered.kept unposted (by rw [thins.sems]) (by rw [thins.sems]; exact unanswered.isOpen)
      (by rw [thins.pipes])
  refine ⟨fun r p block alive => kept (patient.living r p (thins.blocks r p block) alive), fun c r p making => ?_,
    fun c r p member => patient.waited c r p ?_⟩
  · rw [thins.newProcess] at making
    exact (patient.pending c r p making).imp_right kept
  · rw [history] at member
    exact (List.mem_append.mp member).resolve_left fun young => Bool.false_ne_true (plain _ young).2.2

/-- `freeProcess` posts the semaphore of a process that is dead. -/
theorem patient_rests : Rests (fun _ => True) answers State.Patient where
  deeds working accounted patient allowed does := does.patient working accounted patient allowed
  thins _ patient thins := patient.thins thins
  retires := by
    intro s s' c p before after deed working accounted patient block dead _ retired
    cases deed with
    | posts sem =>
      rcases retired with rfl | mutex
      · -- Another process with this semaphore would be this one.
        have own : s.Owns p.semId (.process c) := ⟨p, block, rfl⟩
        refine .inr ⟨fun r q block' alive same => ?_, fun w r q making valid same => ?_⟩
        · have valid := (patient.living r q block' alive).valid
          cases accounted.books.apart (.process r) (.process c) p.semId ⟨q, block', same⟩ own (same ▸ valid)
          cases block.symm.trans block'
          exact alive.2 dead
        · cases accounted.books.apart (.pending w) (.process c) p.semId ⟨r, q, making, same⟩ own (same ▸ valid)
      · exact .inl mutex
    | watches child => exact retired.elim
    | creates => exact retired.elim
    | _ => trivial

/-! ## Whoever is started has a semaphore -/

/-- What the process is filling in has a semaphore. -/
def State.Sealed (s : State) (c : Ref) : Prop := ∀ r p, s.procs.newProcess c = some (r, p) → 0 ≤ p.semId

/-- What `startTask` may do: it puts only who has a semaphore in the queue. -/
structure Starts (A : Deed → State → State → Prop) (c : Ref) (start : State) : Prop where
  looks : Covers A c .looks
  passes : ∀ sem, Covers A c (.passes sem)
  sleeps : ∀ sem, Covers A c (.sleeps sem)
  opens : ∀ pipeId, Covers A c (.opens pipeId)
  posts : ∀ s, CoversAt A c s (.posts s.pipes.allPipesSem)
  creates : ∀ s s', Acting s c → Call.finds start (.startTask none [] 0 none) .creates s s' →
    s'.procs.pcbs = s.procs.pcbs ∨ s.Sealed c → Does s c .creates s' → A .creates s s'

section
variable {A : Deed → State → State → Prop} {since : State}

/-- If the program says that there is a new process, the process has a semaphore. -/
def Seals (A : Deed → State → State → Prop) (c : Ref) (p : Task Bool) : Prop :=
  ∀ since s, Turn A c since s → since.procs.idleProcessPCB ≠ some c → p.Meets (fun _ => True) (Rest A c) (Again c)
    (fun goes since' s' => (Turn A c since' s' ∧ since'.procs.idleProcessPCB ≠ some c) ∧ (goes → s'.Sealed c)) since s

theorem Seals.bind {α : Type} {p : Task α} {f : α → Task Bool} (first : Proceeds A c p) (rest : ∀ a, Seals A c (f a)) :
    Seals A c (p >>= f) := by
  intro since s turn notIdle
  rw [Program.meets_bind]
  exact (first since s turn notIdle).mono fun a since' s' after => rest a since' s' after.1 after.2

theorem Seals.ite {P : Prop} [Decidable P] {p q : Task Bool} (yes : P → Seals A c p) (no : ¬P → Seals A c q) :
    Seals A c (if P then p else q) := by
  split
  · exact yes ‹P›
  · exact no ‹¬P›

theorem seals_attachSemaphore (starts : Starts A c start) : Seals A c (attachSemaphore : K Bool) := by
  intro since s turn notIdle
  rw [Program.meets_lift]
  refine (attachSemaphore_meets (fun s' acting pcbs counter =>
    starts.creates s s' acting (.inr counter) (.inl pcbs)) turn).mono ?_
  rintro goes s' ⟨after, sealed⟩
  exact ⟨⟨after, notIdle⟩, fun _ => sealed⟩

theorem initializeBlock_sealed {name : String} {foreground : Int} {fd : Int × Int} (starts : Starts A c s)
    (turn : Turn A c since s)
    (notIdle : since.procs.idleProcessPCB ≠ some c) :
    (initializeBlock name foreground fd).Meets (fun _ => True) (Rest A c) (Again c) (fun goes since' s' =>
      (Turn A c since' s' ∧ since'.procs.idleProcessPCB ≠ some c) ∧ (goes → s'.Sealed c)) since s := by
  have opening : ∀ (P : Prop) [Decidable P] (pipeId : Int) {q : Task Bool}, Seals A c q →
      Seals A c (do if P then discard <| pipeOpen pipeId
                    q) := by
    intro P _ pipeId q rest
    refine .ite (fun _ => .bind ?_ fun _ => rest) fun _ => rest
    exact (proceeds_pipeOpen starts.passes starts.sleeps (starts.opens pipeId) starts.posts).bind fun _ => .pure _
  unfold initializeBlock
  rw [Program.meets_bind, Program.meets_lift]
  apply (allocateBlock_meets (fun s' acting same => starts.creates s s' acting (.inl rfl) (.inl same)) turn).mono
  intro goes s' after
  have rest := opening (fd.1 ≠ STDIN_PIPENO) fd.1
    (opening (fd.2 ≠ STDOUT_PIPENO) fd.2 (seals_attachSemaphore starts))
  refine Seals.ite (fun _ => rest) (fun _ => ?_) since s' after notIdle
  exact fun since s turn notIdle => ⟨⟨turn, notIdle⟩, nofun⟩

theorem fillNewProcess_sealed {argv : List String} {foreground : Int} (starts : Starts A c start)
    (turn : Turn A c since s)
    (notIdle : since.procs.idleProcessPCB ≠ some c) (sealed : s.Sealed c) :
    (fillNewProcess argv foreground).Meets (fun _ => True) (Rest A c) (Again c)
      (fun _ since' s' => Turn A c since' s' ∧ since'.procs.idleProcessPCB ≠ some c) since s := by
  have grants := turn.acting.working.sound.grants
  unfold fillNewProcess
  rw [Program.meets_bind, Program.meets_lift, meets_malloc grants, Program.meets_bind, Program.meets_lift]
  apply (cpyArgs_spec (by exact grants) _ argv).mono
  rintro result s' ⟨some, h, grown, rfl⟩
  obtain ⟨strings, rfl⟩ := Option.isSome_iff_exists.mp some
  have does : Does s c .looks (s.withHeap h) := .looked (s.heap.grown_allocate.trans grown)
  have after := turn.does (starts.looks _ _ turn.acting does) does fun _ _ => id
  dsimp only
  rw [Program.meets_lift]
  have creates : ∀ s', Acting (s.withHeap h) c → s'.procs.pidCounter = s.procs.pidCounter →
      Does (s.withHeap h) c .creates s' → A .creates (s.withHeap h) s' := fun s' acting counter =>
    starts.creates _ s' acting (.inr counter) (.inr sealed)
  refine (enqueueNewProcess_meets creates after).mono ?_
  exact fun _ _ here => ⟨here, notIdle⟩

/-- Nobody is put in the queue without a semaphore. -/
theorem startTask_sealed {process : Option Ref} {argv : List String} {foreground : Int} {fd : Option (Int × Int)}
    (starts : Starts A c s) (turn : Turn A c since s) (notIdle : since.procs.idleProcessPCB ≠ some c) :
    (startTask process argv foreground fd).Meets (fun _ => True) (Rest A c) (Again c)
      (fun _ since' s' => Turn A c since' s' ∧ since'.procs.idleProcessPCB ≠ some c) since s := by
  unfold startTask
  split
  · exact ⟨turn, notIdle⟩
  · obtain ⟨p, attended⟩ := turn.acting.working.attended
    rw [Program.meets_bind, Program.meets_lift]
    refine meets_deref_any fun name _ => ?_
    rw [Program.meets_bind, Program.meets_lift]
    apply (descriptorsOf_spec attended fd).mono
    rintro fd _ rfl
    rw [Program.meets_bind]
    apply (initializeBlock_sealed starts turn notIdle).mono
    rintro goes since' s' ⟨⟨turn', notIdle'⟩, sealed⟩
    split
    · exact fillNewProcess_sealed starts turn' notIdle' (sealed ‹_›)
    · exact ⟨turn', notIdle'⟩

end

/-- The call posts no semaphore by its id. -/
def Call.postsNone : Call → Bool
  | .semPost _ => false
  | _ => true

/-- The call posts no semaphore of a process by its id. -/
def State.SparesProcesses (s : State) : Call → Prop
  | .semPost id => (∀ r p, s.procs.pcbs r = some p → p.Alive → p.semId ≠ id) ∧
      ∀ c r p, s.procs.newProcess c = some (r, p) → 0 ≤ p.semId → p.semId ≠ id
  | _ => True

variable {allowed : State → Call → Prop} {garbage : Option Ref × List Ref} {S : System}

theorem calls_answer (keeps : ∀ s call, allowed s call → s.KeepsLine call ∧ s.SparesProcesses call) :
    (discipline fun deed s s' => keepsLine deed s s' ∧ answers deed s s').Calls (Issues allowed) := by
  rintro start p c ⟨call, permitted, rfl, awake⟩ ordered ⟨r, pid, running, ready⟩ running'
  obtain rfl : r = c := Option.some.inj (running.symm.trans running')
  obtain ⟨line, spares⟩ := keeps start call permitted
  have acting : Acting start r := ⟨⟨ordered.sound, ordered.table, running⟩, pid, ready⟩
  refine follows_of_meets acting fun turn => ?_
  have calls := awake.imp_right fun apart (idle : start.procs.idleProcessPCB = some r) =>
    apart (running.trans idle.symm)
  have covers : ∀ deed, call.makes deed → deed ≠ .creates → ∀ s s', call.finds start deed s s' →
    Acting s r → Does s r deed s' →
      keepsLine deed s s' ∧ answers deed s s' := by
    intro deed makes notCreates s s' finds acting _
    refine ⟨keepsLine_of_call line makes finds, ?_⟩
    cases deed with
    | creates => exact (notCreates rfl).elim
    | posts sem =>
      cases call with
      | semPost id =>
        obtain rfl : sem = id := makes
        obtain rfl : s = start := finds
        exact .inr spares
      | startTask process argv foreground fd => exact .inl finds
      | pipeOpen pipeId => exact .inl finds
      | pipeClose pipeId => exact .inl finds
      | _ => exact makes.elim
    | watches child =>
      intro c running
      obtain rfl : r = c := Option.some.inj (acting.working.running.symm.trans running)
      obtain ⟨pid, p, block, ready, -⟩ := acting.ready
      exact ⟨p, block, ready⟩
    | _ => trivial
  cases call with
  | startTask process argv foreground fd =>
    have each : ∀ {deed : Deed}, Call.makes (.startTask process argv foreground fd) deed → deed ≠ .creates →
        (∀ s s', Call.finds start (.startTask process argv foreground fd) deed s s') →
        Covers (fun deed s s' => keepsLine deed s s' ∧ answers deed s s') r deed :=
      fun makes notCreates finds s s' => covers _ makes notCreates s s' (finds s s')
    refine (startTask_sealed ⟨?_, ?_, ?_, ?_, ?_, ?_⟩ turn (calls.resolve_left Bool.false_ne_true)).mono
      fun _ _ _ after => after.1
    · exact each trivial nofun fun _ _ => trivial
    · exact fun _ => each trivial nofun fun _ _ => trivial
    · exact fun _ => each trivial nofun fun _ _ => trivial
    · exact fun _ => each trivial nofun fun _ _ => trivial
    · exact fun s s' acting does => covers (.posts s.pipes.allPipesSem) trivial nofun s s' rfl acting does
    · intro s s' acting finds spared does
      have makes : Call.makes (.startTask process argv foreground fd) .creates := trivial
      refine ⟨keepsLine_of_call line makes finds, fun r' p block absent => ?_⟩
      rcases spared with same | sealed
      · rw [same, absent] at block
        cases block
      · cases does with
        | allocated => exact nomatch absent.symm.trans block
        | filled => exact nomatch absent.symm.trans block
        | @published q h r₁ p₁ queue ppid arguments own alive grown was listed parent =>
          by_cases here : r' = r₁
          · subst here
            simp only [Function.update_self, Option.some.injEq] at block
            have valid : 0 ≤ p₁.semId := sealed _ _ was
            exact block ▸ valid
          · simp only [Function.update_of_ne here, absent] at block
            cases block
  | _ =>
    refine call_meets_at (fun deed makes s s' finds => covers deed makes ?_ s s' finds) turn calls
    rintro rfl
    exact makes.elim

theorem patient_boot (garbage : Option Ref × List Ref) : (bootState (fun _ => true) garbage).Patient := by
  refine ⟨fun r p block _ => ?_, fun _ _ _ new => (by cases new), fun c r p member => ?_⟩
  · have early : ∀ sem ∈ [(3 : Int), 4, 5], 0 ≤ sem ∧ sem < bootSems.semId ∧ sem ∈ bootSems.ids ∧
      sem ≠ bootPipes.allPipesSem ∧
        initials sem bootHistory = [0] ∧ posts sem bootHistory = 0 := by decide
    have own : p.semId ∈ [(3 : Int), 4, 5] := by
      rcases bootPcbs_some block with ⟨rfl, rfl⟩ | ⟨rfl, rfl⟩ | ⟨rfl, rfl⟩ <;> simp [bootPcb]
    obtain ⟨valid, old, isOpen, apart, initial, posts⟩ := early _ own
    exact ⟨valid, old, isOpen, initial, posts, Int.sub_nonneg_of_le (Int.natCast_nonneg _), apart⟩
  · have listed : Event.waited c r p ∈ bootHistory := member
    simp [bootHistory] at listed

/-- **Who waits for a child goes on when it has exited.** In every state that is reachable while memory is
granted, nobody is resumed in line and nobody posts the semaphore of a process by its id: whoever came out
of `waitpid` found the process `EXITED` or `TERMINATED`, and the semaphore of a process that is neither is
open, and has not been posted. -/
theorem waits_end (keeps : ∀ s call, allowed s call → s.KeepsLine call ∧ s.SparesProcesses call)
    (run : Run allowed (boot (fun _ => true) garbage) S) :
    (∀ c r p, .waited c r p ∈ S.state.history → p.state = .exited ∨ p.state = .terminated) ∧
      ∀ r p, S.state.procs.pcbs r = some p → p.state ≠ .exited → p.state ≠ .terminated →
        p.semId ∈ S.state.sems.ids ∧ posts p.semId S.state.history = 0 := by
  obtain ⟨accounted, patient⟩ :=
    patient_rests.reachable (calls_answer keeps) (patient_boot garbage) run fun _ _ => trivial
  refine ⟨fun c r p member => ?_, fun r p block notExited notTerminated => ?_⟩
  · by_contra neither
    exact patient.waited c r p member (not_or.mp neither)
  · have unanswered := patient.living r p block ⟨notExited, notTerminated⟩
    exact ⟨unanswered.isOpen, unanswered.posts⟩

/-- The shell waits for a process, and comes out of `waitpid` when it has exited. -/
theorem waits_end_once : ∃ S, Run (fun s call => s.KeepsLine call ∧ call.postsNone)
    (boot (fun _ => true) (none, [])) S ∧
    S.state.deaths.length = 1 ∧
    (∀ c r p, .waited c r p ∈ S.state.history → p.state = .exited ∨ p.state = .terminated) ∧
      ∀ r p, S.state.procs.pcbs r = some p → p.state ≠ .exited → p.state ≠ .terminated →
        p.semId ∈ S.state.sems.ids ∧ posts p.semId S.state.history = 0 := by
  have played : ((play (fun s call => decide (s.KeepsLine call ∧ call.postsNone)) [.schedule, .call .yield, .schedule,
      .call (.startTask (some 0) ["p"] 1 (some (0, 1))), .call (.waitpid 4), .schedule,
      .resume, .call .yield, .schedule,
      .call .killCurrent, .schedule, .resume, .call .yield, .schedule, .resume]
      (boot (fun _ => true) (none, []))).map fun S => S.state.deaths.length) = some 1 := by decide +kernel
  obtain ⟨S, played, observed⟩ := Option.map_eq_some_iff.mp played
  have run : Run (fun s call => s.KeepsLine call ∧ call.postsNone) (boot (fun _ => true) (none, [])) S :=
    play_run (fun _ _ => of_decide_eq_true) played
  refine ⟨S, run, observed, waits_end (fun s call keeps => ⟨keeps.1, ?_⟩) run⟩
  cases call with
  | semPost id => cases keeps.2
  | _ => trivial

end QuesOs.Kernel
