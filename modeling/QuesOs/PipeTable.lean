import QuesOs.Reachable

/-! The pipes as their users know them. The cached lookup is the plain one, and a
pipe is there as long as it was opened more often than closed, with its two
semaphores, which nobody else has. -/
namespace QuesOs.Kernel
open Resumption Threads Relation

variable {allowed : State → Call → Prop} {garbage : Option Ref × List Ref} {S : System} {s : State}

/-! ## The cache -/

/-- **`getPipe` finds what a plain search of the queue finds**, in every reachable state. -/
theorem getPipe_coherent (run : Run allowed (boot (fun _ => true) garbage) S) :
    (∀ pipeId, ∃ found s₁ s₂, (getPipe pipeId).run S.state = .ok (found, s₁) ∧
      (find S.state.pipes.pipeQueue (S.state.pipes.hasId pipeId)).run S.state = .ok (found, s₂)) ∧
    ∀ r, S.state.pipes.cachedPipe = some r → r ∈ values S.state.pipes.pipeQueue := by
  have sound := (ordered_reachable run).sound
  refine ⟨fun pipeId => ?_, sound.pipes.cached⟩
  obtain ⟨_, s₁, looked, rfl, -⟩ := (getPipe_spec sound.grants sound.pipes pipeId).returns
  obtain ⟨_, s₂, searched, rfl, -⟩ := (find_spec sound.grants (S.state.pipes.hasId pipeId)).returns
  exact ⟨_, s₁, s₂, looked, searched⟩

/-- A pipe that was closed for good and opened again. -/
theorem getPipe_coherent_reopened : ∃ S, Run (fun _ _ => True) (boot (fun _ => true) (none, [])) S ∧
    S.state.pipes.cachedPipe.isSome = true ∧ (values S.state.pipes.pipeQueue).length = 2 ∧
    (∀ pipeId, ∃ found s₁ s₂, (getPipe pipeId).run S.state = .ok (found, s₁) ∧
      (find S.state.pipes.pipeQueue (S.state.pipes.hasId pipeId)).run S.state = .ok (found, s₂)) ∧
    ∀ r, S.state.pipes.cachedPipe = some r → r ∈ values S.state.pipes.pipeQueue := by
  have played : ((play (fun _ _ => true) [.schedule, .call (.pipeOpen 7), .call (.pipeClose 7), .call (.pipeOpen 7),
      .call (.pipePutchar 7 65)] (boot (fun _ => true) (none, []))).map fun S =>
      (S.state.pipes.cachedPipe.isSome, (values S.state.pipes.pipeQueue).length)) = some (true, 2) := by decide +kernel
  obtain ⟨S, played, observed⟩ := Option.map_eq_some_iff.mp played
  have run : Run (fun _ _ => True) (boot (fun _ => true) (none, [])) S := play_run (fun _ _ _ => trivial) played
  obtain ⟨cached, two⟩ := Prod.mk.inj observed
  exact ⟨S, run, cached, two, getPipe_coherent run⟩

/-! ## Books -/

/-- The opens of a pipe less its closes since it was last made; the latest event first. -/
def balance (pipeId : Int) : List Event → Int
  | [] => 0
  | .pipeMade id :: history => if id = pipeId then 0 else balance pipeId history
  | .pipeOpened id :: history => balance pipeId history + if id = pipeId then 1 else 0
  | .pipeClosed id :: history => balance pipeId history - if id = pipeId then 1 else 0
  | _ :: history => balance pipeId history

/-- The ids of the open semaphores. -/
def Sems.ids (sems : Sems) : List Int := (values sems.semQueue).map Sem.id

/-- What of a pipe its books are about. -/
structure Card where
  id : Int
  totalProcesses : Int
  readSemId : Int
  writeSemId : Int
  freed : Bool

def Pipe.card (p : Pipe) : Card where
  id := p.id
  totalProcesses := p.totalProcesses
  readSemId := p.readSemId
  writeSemId := p.writeSemId
  freed := p.freed

def Pipes.card (pipes : Pipes) (r : Ref) : Option Card := (pipes.pipes r).map Pipe.card

/-- Who has a semaphore of their own. -/
inductive Owner where
  | reads (pipe : Ref)
  | writes (pipe : Ref)
  | process (r : Ref)
  | pending (creator : Ref)

/-- The semaphore is the owner's. -/
def State.Owns (s : State) (sem : Int) : Owner → Prop
  | .reads r => ∃ card, s.pipes.card r = some card ∧ card.readSemId = sem
  | .writes r => ∃ card, s.pipes.card r = some card ∧ card.writeSemId = sem
  | .process r => ∃ p, s.procs.pcbs r = some p ∧ p.semId = sem
  | .pending c => ∃ r p, s.procs.newProcess c = some (r, p) ∧ p.semId = sem

/-- The books of the pipes, and of who has which semaphore. -/
structure Books (s : State) : Prop where
  counted : ∀ r card, s.pipes.card r = some card → card.freed = false →
    card.totalProcesses = balance card.id s.history ∧ 0 < card.totalProcesses
  absent : ∀ pipeId, (∀ r card, s.pipes.card r = some card → card.freed = false → card.id ≠ pipeId) →
    balance pipeId s.history ≤ 0
  semaphores : ∀ r card, s.pipes.card r = some card →
    (card.freed = false ↔ card.readSemId ∈ s.sems.ids) ∧ (card.freed = false ↔ card.writeSemId ∈ s.sems.ids)
  positive : ∀ r card, s.pipes.card r = some card → 0 ≤ card.readSemId ∧ 0 ≤ card.writeSemId
  below : ∀ o sem, s.Owns sem o → sem < s.sems.semId
  apart : ∀ o o' sem, s.Owns sem o → s.Owns sem o' → 0 ≤ sem → o = o'

/-- The two states have the same books. -/
structure State.Kindred (s s' : State) : Prop where
  cards : s'.pipes.card = s.pipes.card
  ids : s'.sems.ids = s.sems.ids
  semId : s'.sems.semId = s.sems.semId
  balance : ∀ pipeId, balance pipeId s'.history = balance pipeId s.history
  blocks : ∀ r p', s'.procs.pcbs r = some p' → ∃ p, s.procs.pcbs r = some p ∧ p'.semId = p.semId
  pending : s'.procs.newProcess = s.procs.newProcess

namespace State.Kindred

/-- What the books are about was not touched. -/
theorem of_same (cards : s'.pipes.card = s.pipes.card) (sems : s'.sems = s.sems)
    (same : ∀ pipeId, QuesOs.Kernel.balance pipeId s'.history = QuesOs.Kernel.balance pipeId s.history)
    (blocks : s'.procs.pcbs = s.procs.pcbs) (pending : s'.procs.newProcess = s.procs.newProcess) : Kindred s s' :=
  ⟨cards, by rw [sems], by rw [sems], same, fun _ p' block => ⟨p', blocks ▸ block, rfl⟩, pending⟩

theorem trans (first : Kindred s s') (second : Kindred s' s'') : Kindred s s'' := by
  refine ⟨second.cards.trans first.cards, second.ids.trans first.ids, second.semId.trans first.semId,
    fun pipeId => (second.balance pipeId).trans (first.balance pipeId), fun r p'' block => ?_,
    second.pending.trans first.pending⟩
  obtain ⟨p', block', sem'⟩ := second.blocks r p'' block
  obtain ⟨p, block, sem⟩ := first.blocks r p' block'
  exact ⟨p, block, sem'.trans sem⟩

/-- Nobody has a semaphore that they had not before. -/
theorem owns (kindred : Kindred s s') {o : Owner} (owns : s'.Owns sem o) : s.Owns sem o := by
  cases o with
  | reads r =>
    unfold State.Owns at owns ⊢
    rwa [kindred.cards] at owns
  | writes r =>
    unfold State.Owns at owns ⊢
    rwa [kindred.cards] at owns
  | process r =>
    obtain ⟨p', block', rfl⟩ := owns
    obtain ⟨p, block, same⟩ := kindred.blocks r p' block'
    exact ⟨p, block, same.symm⟩
  | pending c =>
    unfold State.Owns at owns ⊢
    rwa [kindred.pending] at owns

theorem books (kindred : Kindred s s') (books : Books s) : Books s' := by
  refine ⟨?_, ?_, ?_, ?_, fun o sem owns => ?_, fun o o' sem owns owns' => ?_⟩
  · simp only [kindred.cards, kindred.balance]
    exact books.counted
  · simp only [kindred.cards, kindred.balance]
    exact books.absent
  · simp only [kindred.cards, kindred.ids]
    exact books.semaphores
  · simp only [kindred.cards]
    exact books.positive
  · rw [kindred.semId]
    exact books.below o sem (kindred.owns owns)
  · exact books.apart o o' sem (kindred.owns owns) (kindred.owns owns')

end State.Kindred

/-! ## Deeds that leave the books -/

theorem ids_modify (sems : Sems) (ref : Ref) {f : Sem → Sem} (same : ∀ x, (f x).id = x.id) :
    (sems.modify ref f).ids = sems.ids := by
  unfold Sems.ids
  simp only [values_modify, List.map_map]
  refine List.map_congr_left fun x _ => ?_
  by_cases this : x.ref = ref <;> simp [this, same]

theorem balance_skipped (pipeId sem : Int) (pids : List Int) (history : List Event) :
    balance pipeId ((pids.map (Event.skipped sem)).reverse ++ history) = balance pipeId history := by
  rw [← List.map_reverse]
  induction pids.reverse with
  | nil => rfl
  | cons pid pids ih => exact ih

theorem Procs.Spared.semaphores {procs procs' : Procs} (spared : procs.Spared procs')
    (block : procs'.pcbs r = some p') :
    ∃ p, procs.pcbs r = some p ∧ p'.semId = p.semId := by
  rcases spared.pcbs r with same | ⟨p, was, -, now⟩
  · exact ⟨p', same ▸ block, rfl⟩
  · cases block.symm.trans now
    exact ⟨p, was, rfl⟩

theorem card_modify (pipes : Pipes) (r : Ref) {f : Pipe → Pipe} (same : ∀ p, (f p).card = p.card) :
    (pipes.modify r f).card = pipes.card := by
  funext r'
  unfold Pipes.card Pipes.modify
  by_cases here : r' = r
  · subst here
    cases pipes.pipes r' <;> simp [same]
  · simp only [Function.update_of_ne here]

theorem Posts.kindred (working : Working s c) (posts : Posts s sem s') : s.Kindred s' := by
  have spared := (posts.wakes working).spared
  refine ⟨congrArg _ posts.pipes, ?_, ?_, fun pipeId => ?_, fun r p' => spared.semaphores, spared.newProcess⟩
  all_goals
    rcases posts with ⟨-, h, grown, rfl⟩ | ⟨x, found, posted⟩
    · rfl
  · cases posted <;> exact ids_modify _ _ fun _ => rfl
  · cases posted <;> rfl
  · cases posted <;> exact balance_skipped pipeId x.id _ s.history

theorem Entered.kindred (working : Working s c) (entered : Entered s c p x a s') : s.Kindred s' := by
  have spared := (entered.advance working).2.spared
  refine ⟨?_, ?_, ?_, fun pipeId => ?_, fun r p' => spared.semaphores, spared.newProcess⟩
  · cases entered <;> rfl
  · cases entered <;> exact ids_modify _ _ fun _ => rfl
  · cases entered <;> rfl
  · cases entered <;> rfl

theorem Passed.kindred (working : Working s c) (passed : Passed s c sem s') : s.Kindred s' := by
  cases passed with
  | absent absent grown => exact .of_same rfl rfl (fun _ => rfl) rfl rfl
  | took found block entered => exact entered.kindred working
  | woken block ready record => exact .of_same rfl rfl (fun _ => rfl) rfl rfl
  | forced found block dead entered grown =>
    exact (entered.kindred working).trans (.of_same rfl rfl (fun _ => rfl) rfl rfl)

/-- A process takes another state. -/
theorem kindred_moveState {newState : ProcessState} (block : s.procs.pcbs r = some p) (h : Heap) (history : List Event)
    (same : ∀ pipeId, balance pipeId history = balance pipeId s.history) :
    s.Kindred { s with heap := h, history, procs := s.procs.moveState r p newState } := by
  refine ⟨rfl, rfl, rfl, same, fun r' p' block' => ?_, rfl⟩
  obtain ⟨q, was, -, sem⟩ := same_moveState block r' p' block'
  exact ⟨q, was, sem⟩

/-- Deeds that neither open nor close anything. -/
def Deed.calm : Deed → Prop
  | .inits _ | .creates | .opens _ | .closes _ | .destroys => False
  | _ => True

theorem Does.kindred (working : Working s c) (does : Does s c deed s') (calm : deed.calm) : s.Kindred s' := by
  cases does with
  | looked grown => exact .of_same rfl rfl (fun _ => rfl) rfl rfl
  | cached pipeId grown => exact .of_same rfl rfl (fun _ => rfl) rfl rfl
  | awaited => exact .of_same rfl rfl (fun _ => rfl) rfl rfl
  | passed passed => exact passed.kindred working
  | @slept sem x p pid s₁ h found block ready notIdle entered grown =>
    have block₁ := (entered.advance working).2.spared.kept block (by rw [ready]; decide)
    exact (entered.kindred working).trans (kindred_moveState block₁ h s₁.history fun _ => rfl)
  | watched passed block => exact (passed.kindred working).trans (.of_same rfl rfl (fun _ => rfl) rfl rfl)
  | posted posts => exact posts.kindred working
  | moved grown target listed block notExited notTerminated alive =>
    exact kindred_moveState block _ s.history fun _ => rfl
  | exited listed exited =>
    obtain @⟨r, p, h, s₁, p', target, block, notExited, notTerminated, grown, posts, block'⟩ := exited
    have granted : s.Kindred (s.withHeap h) := .of_same rfl rfl (fun _ => rfl) rfl rfl
    have posted := granted.trans (posts.kindred (working.withHeap grown))
    exact posted.trans (kindred_moveState block' s₁.heap s₁.history fun _ => rfl)
  | terminated terminated =>
    obtain ⟨target, queued, block, notTerminated, grown, reparented, block'⟩ := terminated
    obtain ⟨ppid, rfl⟩ := reparented.relabelled
    refine ⟨rfl, rfl, rfl, fun _ => rfl, fun r p' now => ?_, rfl⟩
    obtain ⟨q, was, -, sem⟩ := same_moveState block' r p' now
    obtain ⟨q', was', rfl⟩ := Option.map_eq_some_iff.mp was
    exact ⟨q', was', sem⟩
  | @disowned r p block dead =>
    refine ⟨rfl, rfl, rfl, fun _ => rfl, fun r' p' now => ?_, rfl⟩
    by_cases here : r' = r
    · subst here
      simp only [Function.update_self, Option.some.injEq] at now
      exact ⟨p, block, by rw [← now]⟩
    · simp only [Function.update_of_ne here] at now
      exact ⟨p', now, rfl⟩
  | @reniced h r p priority grown queued block low high =>
    refine ⟨rfl, rfl, rfl, fun _ => rfl, fun r' p' now => ?_, rfl⟩
    by_cases here : r' = r
    · subst here
      simp only [Function.update_self, Option.some.injEq] at now
      exact ⟨p, block, by rw [← now]⟩
    · simp only [Function.update_of_ne here] at now
      exact ⟨p', now, rfl⟩
  | yielded => exact .of_same rfl rfl (fun _ => rfl) rfl rfl
  | @put r p s₁ ch _ here isOpen passed posts =>
    have working₁ := (working.passed passed).writePipe r (f := (·.put ch)) fun _ => ⟨rfl, rfl⟩
    have written : s₁.Kindred { s₁ with pipes := s₁.pipes.modify r (·.put ch) } :=
      .of_same (card_modify _ _ fun _ => rfl) rfl (fun _ => rfl) rfl rfl
    exact ((passed.kindred working).trans written).trans (posts.kindred working₁)
  | @took r p s₁ _ here isOpen passed posts =>
    have working₁ := (working.passed passed).writePipe r (f := Pipe.take) fun _ => ⟨rfl, rfl⟩
    have written : s₁.Kindred { s₁ with pipes := s₁.pipes.modify r Pipe.take } :=
      .of_same (card_modify _ _ fun _ => rfl) rfl (fun _ => rfl) rfl rfl
    exact ((passed.kindred working).trans written).trans (posts.kindred working₁)
  | _ => exact calm.elim

/-! ## Deeds that enter into the books -/

theorem Sems.Added.ids {sems : Sems} (added : sems.Added initialValue n n' sems') :
    sems'.ids = sems.ids ++ [sems.semId] ∧ sems'.semId = sems.semId + 1 := by
  obtain ⟨low, high, listed⟩ := added
  refine ⟨?_, rfl⟩
  unfold Sems.ids
  rw [listed, List.map_append]
  rfl

theorem mem_ids_close {sems : Sems} (proper : sems.Proper n) (closed : Int) :
    sem ∈ (sems.close closed).ids ↔ sem ∈ sems.ids ∧ sem ≠ closed := by
  have erased : (sems.close closed).ids = sems.ids.erase closed := by
    unfold Sems.ids
    rw [values_close, List.erase_eq_eraseP', List.eraseP_map]
    rfl
  rw [erased, (show sems.ids.Nodup from proper.ids).mem_erase_iff, and_comm]

/-- A semaphore is made, perhaps for somebody. -/
theorem Books.made (books : Books s) (new : Owner) (cards : s'.pipes.card = s.pipes.card)
    (same : ∀ pipeId, balance pipeId s'.history = balance pipeId s.history)
    (ids : s'.sems.ids = s.sems.ids ++ [s.sems.semId]) (semId : s'.sems.semId = s.sems.semId + 1)
    (owned : ∀ o sem, s'.Owns sem o → s.Owns sem o ∨ sem = s.sems.semId ∧ o = new) : Books s' := by
  have older : ∀ {o sem}, s.Owns sem o → (sem ∈ s'.sems.ids ↔ sem ∈ s.sems.ids) := by
    intro o sem owns
    have low := books.below o sem owns
    rw [ids, List.mem_append, List.mem_singleton]
    exact or_iff_left (Int.ne_of_lt low)
  refine ⟨?_, ?_, ?_, ?_, ?_, ?_⟩
  · simp only [cards, same]
    exact books.counted
  · simp only [cards, same]
    exact books.absent
  · rw [cards]
    intro r card here
    rw [older (o := .reads r) ⟨card, here, rfl⟩, older (o := .writes r) ⟨card, here, rfl⟩]
    exact books.semaphores r card here
  · rw [cards]
    exact books.positive
  · intro o sem owns
    rw [semId]
    rcases owned o sem owns with was | ⟨rfl, -⟩
    · exact Int.lt_add_one_of_le (Int.le_of_lt (books.below o sem was))
    · exact Int.lt_succ _
  · intro o o' sem owns owns' valid
    rcases owned o sem owns with was | ⟨rfl, rfl⟩ <;> rcases owned o' _ owns' with was' | ⟨new', rfl⟩
    · exact books.apart o o' sem was was' valid
    · exact (Int.ne_of_lt (books.below o sem was) new').elim
    · exact (Int.lt_irrefl _ (books.below o' _ was')).elim
    · rfl

/-- The semaphore of a process or of nobody is closed. -/
theorem Books.closed (books : Books s) (proper : s.sems.Proper n) (block : s.procs.pcbs c = some p) (h : Heap) :
    Books { s with heap := h, sems := s.sems.close p.semId } := by
  refine ⟨books.counted, books.absent, fun r card here => ?_, books.positive, books.below, books.apart⟩
  have owns : s.Owns p.semId (.process c) := ⟨p, block, rfl⟩
  obtain ⟨readValid, writeValid⟩ := books.positive r card here
  have reads : card.readSemId ≠ p.semId := fun same => by
    have clash := books.apart (.reads r) (.process c) _ ⟨card, here, rfl⟩ (same ▸ owns) readValid
    cases clash
  have writes : card.writeSemId ≠ p.semId := fun same => by
    have clash := books.apart (.writes r) (.process c) _ ⟨card, here, rfl⟩ (same ▸ owns) writeValid
    cases clash
  obtain ⟨read, write⟩ := books.semaphores r card here
  constructor
  · exact read.trans ((mem_ids_close proper _).trans (and_iff_left reads)).symm
  · exact write.trans ((mem_ids_close proper _).trans (and_iff_left writes)).symm

theorem Books.created (books : Books s) (proper : s.sems.Proper n) (does : Does s c .creates s') : Books s' := by
  cases does with
  | @allocated q h r p block grown low high pid ppid ready gentle unset =>
    -- The new process has no semaphore yet.
    have nobody : ∀ sem, 0 ≤ sem → p.semId ≠ sem := fun sem valid same => by omega
    have owned : ∀ o sem, State.Owns { s with heap := h, procs := { s.procs with
        pidCounter := s.procs.pidCounter + 1, newProcess :=
        Function.update s.procs.newProcess c (some (r, p)) } } sem o →
        s.Owns sem o ∨ sem = -1 := by
      intro o sem owns
      cases o with
      | pending c' =>
        obtain ⟨r', p', new, same⟩ := owns
        by_cases here : c' = c
        · subst here
          simp only [Function.update_self, Option.some.injEq, Prod.mk.injEq] at new
          rw [← new.2, unset] at same
          exact .inr same.symm
        · simp only [Function.update_of_ne here] at new
          exact .inl ⟨r', p', new, same⟩
      | _ => exact .inl owns
    refine ⟨books.counted, books.absent, books.semaphores, books.positive, fun o sem owns => ?_,
      fun o o' sem owns owns' valid => ?_⟩
    · rcases owned o sem owns with was | rfl
      · exact books.below o sem was
      · exact Int.lt_of_lt_of_le (by decide) proper.nextId
    · rcases owned o sem owns with was | rfl
      · rcases owned o' sem owns' with was' | rfl
        · exact books.apart o o' sem was was' valid
        · cases valid
      · cases valid
  | @filled h sems r p grown added was =>
    obtain ⟨ids, semId⟩ := added.ids
    refine books.made (.pending c) rfl (fun _ => rfl) ids semId fun o sem owns => ?_
    cases o with
    | pending c' =>
      obtain ⟨r', p', new, same⟩ := owns
      by_cases here : c' = c
      · subst here
        simp only [Function.update_self, Option.some.injEq, Prod.mk.injEq] at new
        rw [← new.2] at same
        exact .inr ⟨same.symm, rfl⟩
      · simp only [Function.update_of_ne here] at new
        exact .inl ⟨r', p', new, same⟩
    | _ => exact .inl owns
  | @published q h r p queue ppid arguments block alive grown was listed parent =>
    -- The semaphore goes from the creator to the process.
    have owned : ∀ o sem, State.Owns { s with heap := h, procs := { s.procs with
        queue
        pcbs := Function.update s.procs.pcbs r (some { p with arguments := some arguments, ppid })
        readyCount := s.procs.readyCount + 1
        newProcess := Function.update s.procs.newProcess c none } } sem o →
        o = .process r ∧ s.Owns sem (.pending c) ∨ o ≠ .pending c ∧ o ≠ .process r ∧ s.Owns sem o := by
      intro o sem owns
      cases o with
      | reads r' => exact .inr ⟨nofun, nofun, owns⟩
      | writes r' => exact .inr ⟨nofun, nofun, owns⟩
      | process r' =>
        obtain ⟨p', block', same⟩ := owns
        by_cases here : r' = r
        · subst here
          simp only [Function.update_self, Option.some.injEq] at block'
          rw [← block'] at same
          exact .inl ⟨rfl, r', p, was, same⟩
        · simp only [Function.update_of_ne here] at block'
          exact .inr ⟨nofun, fun same => here (Owner.process.inj same), p', block', same⟩
      | pending c' =>
        obtain ⟨r', p', new, same⟩ := owns
        by_cases here : c' = c
        · subst here
          simp at new
        · simp only [Function.update_of_ne here] at new
          exact .inr ⟨fun same => here (Owner.pending.inj same), nofun, r', p', new, same⟩
    refine ⟨books.counted, books.absent, books.semaphores, books.positive, fun o sem owns => ?_,
      fun o o' sem owns owns' valid => ?_⟩
    · rcases owned o sem owns with ⟨-, was⟩ | ⟨-, -, was⟩
      · exact books.below _ sem was
      · exact books.below o sem was
    · rcases owned o sem owns with ⟨rfl, was⟩ | ⟨notPending, -, was⟩ <;>
        rcases owned o' sem owns' with ⟨rfl, was'⟩ | ⟨notPending', -, was'⟩
      · rfl
      · exact (notPending' (books.apart _ _ sem was was' valid).symm).elim
      · exact (notPending (books.apart _ _ sem was was' valid)).elim
      · exact books.apart o o' sem was was' valid

theorem card_update (pipes : Pipes) (r : Ref) (p : Pipe) (queue : Queue Ref) :
    Pipes.card { pipes with pipeQueue := queue, pipes := Function.update pipes.pipes r (some p) } =
      Function.update pipes.card r (some p.card) := by
  funext r'
  unfold Pipes.card
  by_cases here : r' = r
  · subst here
    simp
  · simp only [Function.update_of_ne here]

theorem card_modify_self {pipes : Pipes} (here : pipes.pipes r = some p) (f : Pipe → Pipe) :
    (pipes.modify r f).card = Function.update pipes.card r (some (f p).card) := by
  unfold Pipes.modify
  rw [here]
  exact card_update pipes r (f p) pipes.pipeQueue

theorem card_some {pipes : Pipes} (here : pipes.card r = some card) : ∃ p, pipes.pipes r = some p ∧ p.card = card :=
  Option.map_eq_some_iff.mp here

/-- Two open pipes of one id are one. -/
theorem card_unique {pipes : Pipes} (proper : pipes.Proper n) (here : pipes.card r = some card)
    (here' : pipes.card r' = some card') (isOpen : card.freed = false) (isOpen' : card'.freed = false)
    (same : card.id = card'.id) : r = r' := by
  obtain ⟨p, block, rfl⟩ := card_some here
  obtain ⟨p', block', rfl⟩ := card_some here'
  exact proper.ids r (proper.listed r p block isOpen) r' (proper.listed r' p' block' isOpen') p p' block block' same

theorem card_of_update {cards cards' : Ref → Option Card} (update : cards' = Function.update cards r (some card))
    (now : cards' r' = some card') : r' = r ∧ card' = card ∨ r' ≠ r ∧ cards r' = some card' := by
  rw [update] at now
  by_cases here : r' = r
  · subst here
    simp only [Function.update_self, Option.some.injEq] at now
    exact .inl ⟨rfl, now.symm⟩
  · rw [Function.update_of_ne here] at now
    exact .inr ⟨here, now⟩

/-- The pipe was there under the same id, with the same semaphores; or it is new, and
so are its semaphores. -/
def Card.follows (card : Card) (s s' : State) (r : Ref) : Prop :=
  (∃ was, s.pipes.card r = some was ∧ was.id = card.id ∧ was.readSemId = card.readSemId ∧
    was.writeSemId = card.writeSemId ∧ s'.sems.semId = s.sems.semId) ∨
  s.pipes.card r = none ∧ card.readSemId = s.sems.semId ∧ card.writeSemId = s.sems.semId + 1 ∧
    s'.sems.semId = s.sems.semId + 2

/-- The books after one pipe was opened or closed. -/
theorem Books.updated (books : Books s) (proper : s.sems.Proper n) (procs : s'.procs = s.procs)
    (cards : s'.pipes.card = Function.update s.pipes.card r (some card)) (follows : card.follows s s' r)
    (alone : ∀ r' card', r' ≠ r → s.pipes.card r' = some card' → card'.freed = false → card'.id ≠ card.id)
    (others : ∀ pipeId, pipeId ≠ card.id → balance pipeId s'.history = balance pipeId s.history)
    (open_ : card.freed = false → card.totalProcesses = balance card.id s'.history ∧ 0 < card.totalProcesses)
    (gone : card.freed = true → balance card.id s'.history ≤ 0)
    (semaphores : (card.freed = false ↔ card.readSemId ∈ s'.sems.ids) ∧
      (card.freed = false ↔ card.writeSemId ∈ s'.sems.ids))
    (ids : ∀ sem, sem < s.sems.semId → sem ≠ card.readSemId → sem ≠ card.writeSemId →
      (sem ∈ s'.sems.ids ↔ sem ∈ s.sems.ids)) : Books s' := by
  have valid : 0 ≤ card.readSemId ∧ 0 ≤ card.writeSemId := by
    rcases follows with ⟨was, here, -, read, write, -⟩ | ⟨-, read, write, -⟩
    · rw [← read, ← write]
      exact books.positive r was here
    · have := proper.nextId
      omega
  -- Whatever another owner has, this pipe has not.
  have owned : ∀ o sem, s'.Owns sem o → o = .reads r ∧ sem = card.readSemId ∨ o = .writes r ∧ sem = card.writeSemId ∨
      o ≠ .reads r ∧ o ≠ .writes r ∧ s.Owns sem o := by
    intro o sem owns
    cases o with
    | reads r' =>
      obtain ⟨card', now, reads⟩ := owns
      rcases card_of_update cards now with ⟨rfl, rfl⟩ | ⟨other, before⟩
      · exact .inl ⟨rfl, reads.symm⟩
      · exact .inr (.inr ⟨fun same => other (Owner.reads.inj same), nofun, card', before, reads⟩)
    | writes r' =>
      obtain ⟨card', now, writes⟩ := owns
      rcases card_of_update cards now with ⟨rfl, rfl⟩ | ⟨other, before⟩
      · exact .inr (.inl ⟨rfl, writes.symm⟩)
      · exact .inr (.inr ⟨nofun, fun same => other (Owner.writes.inj same), card', before, writes⟩)
    | process r' =>
      unfold State.Owns at owns
      rw [procs] at owns
      exact .inr (.inr ⟨nofun, nofun, owns⟩)
    | pending c =>
      unfold State.Owns at owns
      rw [procs] at owns
      exact .inr (.inr ⟨nofun, nofun, owns⟩)
  have apart : ∀ o sem, s.Owns sem o → 0 ≤ sem → o ≠ .reads r → o ≠ .writes r →
      sem ≠ card.readSemId ∧ sem ≠ card.writeSemId := by
    intro o sem owns positive notReads notWrites
    rcases follows with ⟨was, here, -, read, write, -⟩ | ⟨-, read, write, -⟩
    · constructor
      · rintro rfl
        exact notReads (books.apart _ (.reads r) _ owns ⟨was, here, read⟩ positive)
      · rintro rfl
        exact notWrites (books.apart _ (.writes r) _ owns ⟨was, here, write⟩ positive)
    · have := books.below o sem owns
      omega
  have more : s.sems.semId ≤ s'.sems.semId := by
    rcases follows with ⟨was, -, -, -, -, same⟩ | ⟨-, -, -, more⟩ <;> omega
  have two : card.readSemId ≠ card.writeSemId := by
    intro same
    rcases follows with ⟨was, here, -, read, write, -⟩ | ⟨-, read, write, -⟩
    · have clash := books.apart (.reads r) (.writes r) _ ⟨was, here, read⟩ ⟨was, here, write.trans same.symm⟩ valid.1
      cases clash
    · omega
  refine ⟨fun r' card' now isOpen => ?_, fun pipeId none => ?_, fun r' card' now => ?_, fun r' card' now => ?_,
    fun o sem owns => ?_, fun o o' sem owns owns' positive => ?_⟩
  · rcases card_of_update cards now with ⟨rfl, rfl⟩ | ⟨other, before⟩
    · exact open_ isOpen
    · rw [others _ (alone r' card' other before isOpen)]
      exact books.counted r' card' before isOpen
  · by_cases this : pipeId = card.id
    · subst this
      refine gone (Bool.not_eq_false _ ▸ fun isOpen => none r card ?_ isOpen rfl)
      rw [cards, Function.update_self]
    · rw [others _ this]
      refine books.absent pipeId fun r' card' before isOpen clash => ?_
      by_cases here : r' = r
      · subst here
        rcases follows with ⟨was, here, id, -⟩ | ⟨new, -⟩
        · cases before.symm.trans here
          exact this (clash.symm.trans id)
        · rw [before] at new
          cases new
      · exact none r' card' (by rw [cards, Function.update_of_ne here]; exact before) isOpen clash
  · rcases card_of_update cards now with ⟨rfl, rfl⟩ | ⟨other, before⟩
    · exact semaphores
    · obtain ⟨read, write⟩ := books.semaphores r' card' before
      obtain ⟨readValid, writeValid⟩ := books.positive r' card' before
      have owns : s.Owns card'.readSemId (.reads r') := ⟨card', before, rfl⟩
      have owns' : s.Owns card'.writeSemId (.writes r') := ⟨card', before, rfl⟩
      have away := apart _ _ owns readValid (fun same => other (Owner.reads.inj same)) nofun
      have away' := apart _ _ owns' writeValid nofun fun same => other (Owner.writes.inj same)
      exact ⟨read.trans (ids _ (books.below _ _ owns) away.1 away.2).symm,
        write.trans (ids _ (books.below _ _ owns') away'.1 away'.2).symm⟩
  · rcases card_of_update cards now with ⟨rfl, rfl⟩ | ⟨-, before⟩
    · exact valid
    · exact books.positive r' card' before
  · rcases owned o sem owns with ⟨rfl, rfl⟩ | ⟨rfl, rfl⟩ | ⟨-, -, was⟩
    · rcases follows with ⟨was, here, -, read, -⟩ | ⟨-, read, -, more⟩
      · exact Int.lt_of_lt_of_le (books.below (.reads r) _ ⟨was, here, read⟩) more
      · omega
    · rcases follows with ⟨was, here, -, -, write, -⟩ | ⟨-, -, write, more⟩
      · exact Int.lt_of_lt_of_le (books.below (.writes r) _ ⟨was, here, write⟩) more
      · omega
    · exact Int.lt_of_lt_of_le (books.below o sem was) more
  · rcases owned o sem owns with ⟨rfl, rfl⟩ | ⟨rfl, rfl⟩ | ⟨notReads, notWrites, was⟩
    · rcases owned o' _ owns' with ⟨rfl, -⟩ | ⟨rfl, same⟩ | ⟨notReads', notWrites', was'⟩
      · rfl
      · exact (two same).elim
      · exact ((apart o' _ was' positive notReads' notWrites').1 rfl).elim
    · rcases owned o' _ owns' with ⟨rfl, same⟩ | ⟨rfl, -⟩ | ⟨notReads', notWrites', was'⟩
      · exact (two same.symm).elim
      · rfl
      · exact ((apart o' _ was' positive notReads' notWrites').2 rfl).elim
    · have away := apart o sem was positive notReads notWrites
      rcases owned o' _ owns' with ⟨rfl, same⟩ | ⟨rfl, same⟩ | ⟨-, -, was'⟩
      · exact (away.1 same).elim
      · exact (away.2 same).elim
      · exact books.apart o o' sem was was' positive

/-- Nobody else has the id of an open pipe. -/
theorem card_alone {pipes : Pipes} (proper : pipes.Proper n) (here : pipes.card r = some card)
    (isOpen : card.freed = false) :
    ∀ r' card', r' ≠ r → pipes.card r' = some card' → card'.freed = false → card'.id ≠ card.id :=
  fun _ _ other here' isOpen' same => other (card_unique proper here' here isOpen' isOpen same)

theorem Books.opened (books : Books s) (sound : Sound s) (opened : Opened s pipeId s') : Books s' := by
  cases opened with
  | @found r h found grown =>
    obtain ⟨member, p, here, isOpen, rfl⟩ := pipe_find_some sound.pipes found
    have card : s.pipes.card r = some p.card := congrArg (Option.map Pipe.card) here
    obtain ⟨counted, positive⟩ := books.counted r p.card card isOpen
    have one : balance p.id (.pipeOpened p.id :: s.history) = balance p.id s.history + 1 := by simp [balance]
    have others : ∀ id, id ≠ p.id → balance id (.pipeOpened p.id :: s.history) = balance id s.history := by
      intro id other
      simp [balance, Ne.symm other]
    have alone := card_alone sound.pipes card isOpen
    refine books.updated sound.sems rfl (card_modify_self here _) (.inl ⟨p.card, card, rfl, rfl, rfl, rfl⟩) alone others
      (fun _ => ⟨?_, ?_⟩) (fun gone => ?_) (books.semaphores r p.card card) fun sem _ _ _ => Iff.rfl
    · exact (congrArg (· + 1) counted).trans one.symm
    · exact Int.lt_add_one_of_le (Int.le_of_lt positive)
    · exact (Bool.false_ne_true (isOpen.symm.trans gone)).elim
  | @created h r s' absent grown created =>
    obtain @⟨h', r, m, sems, sems', queue, grown', low, high, readSem, writeSem, listed⟩ := created
    obtain ⟨ids, semId⟩ := readSem.ids
    obtain ⟨ids', semId'⟩ := writeSem.ids
    have ids : sems'.ids = s.sems.ids ++ [s.sems.semId, s.sems.semId + 1] := by
      rw [ids', ids, semId, List.append_assoc]
      rfl
    have semId : sems'.semId = s.sems.semId + 2 := by
      rw [semId', semId]
      exact Int.add_assoc ..
    have cards : (Pipes.modify { s.pipes.cache pipeId with
        pipeQueue := queue
        pipes := Function.update (s.pipes.cache pipeId).pipes r
          (some (.fresh pipeId s.sems.semId (s.sems.semId + 1))) } r
        fun p => { p with totalProcesses := p.totalProcesses + 1 }).card =
        Function.update s.pipes.card r (some ⟨pipeId, 1, s.sems.semId, s.sems.semId + 1, false⟩) := by
      rw [card_modify_self (Function.update_self ..), card_update, Function.update_idem]
      rfl
    have new : s.pipes.card r = none := by
      refine Option.eq_none_iff_forall_ne_some.mpr fun card' before => ?_
      obtain ⟨p', here, -⟩ := card_some before
      exact Nat.not_lt.mpr (Nat.le_trans grown.requests low) (sound.pipes.below r p' here)
    refine books.updated sound.sems rfl cards (.inr ⟨new, rfl, rfl, semId⟩) ?_ (fun id other =>
      ?_) (fun _ => ⟨?_, Int.one_pos⟩)
      nofun ⟨iff_of_true rfl ?_, iff_of_true rfl ?_⟩ fun sem low _ _ => ?_
    · intro r' card' _ before isOpen
      obtain ⟨p', here, rfl⟩ := card_some before
      exact pipe_find_none absent (sound.pipes.listed r' p' here isOpen) here
    · change id ≠ pipeId at other
      simp [balance, Ne.symm other]
    · simp [balance]
    · rw [ids]
      simp
    · rw [ids]
      simp
    · have older : sem ≠ s.sems.semId ∧ sem ≠ s.sems.semId + 1 := by omega
      rw [ids]
      simp [older]

/-- A close of a pipe that is not there. -/
theorem Books.missed (books : Books s) (proper : s.pipes.Proper n) (absent : s.pipes.find pipeId = none) :
    Books { s with history := .pipeClosed pipeId :: s.history } := by
  have others : ∀ id, id ≠ pipeId → balance id (.pipeClosed pipeId :: s.history) = balance id s.history := by
    intro id other
    simp [balance, Ne.symm other]
  refine ⟨fun r card here isOpen => ?_, fun id none => ?_, books.semaphores, books.positive, books.below, books.apart⟩
  · obtain ⟨p, block, rfl⟩ := card_some here
    have same := others p.card.id (pipe_find_none absent (proper.listed r p block isOpen) block)
    obtain ⟨counted, positive⟩ := books.counted r p.card here isOpen
    exact ⟨counted.trans same.symm, positive⟩
  · have fewer : balance id (.pipeClosed pipeId :: s.history) ≤ balance id s.history := by
      simp only [balance]
      split <;> omega
    exact Int.le_trans fewer (books.absent id none)

theorem Books.left (books : Books s) (sound : Sound s) (here : s.pipes.pipes r = some p) (isOpen : p.freed = false)
    (closed : Closed s r p p.id s') : Books s' := by
  have card : s.pipes.card r = some p.card := congrArg (Option.map Pipe.card) here
  obtain ⟨counted, positive⟩ := books.counted r p.card card isOpen
  have one : balance p.id (.pipeClosed p.id :: s.history) = balance p.id s.history - 1 := by simp [balance]
  have others : ∀ id, id ≠ p.id → balance id (.pipeClosed p.id :: s.history) = balance id s.history := by
    intro id other
    simp [balance, Ne.symm other]
  have alone := card_alone sound.pipes card isOpen
  cases closed with
  | kept more =>
    refine books.updated sound.sems rfl (card_modify_self here _) (.inl ⟨p.card, card, rfl, rfl, rfl, rfl⟩) alone others
      (fun _ => ⟨?_, Int.sub_pos_of_lt more⟩) (fun gone => ?_) (books.semaphores r p.card card) fun sem _ _ _ => Iff.rfl
    · exact (congrArg (· - 1) counted).trans one.symm
    · exact (Bool.false_ne_true (isOpen.symm.trans gone)).elim
  | @last h last grown =>
    have left := sound.pipes.modify r (f := Pipe.leave) fun _ => ⟨rfl, rfl⟩
    have now : (s.pipes.modify r Pipe.leave).pipes r = some p.leave := by simp [Pipes.modify, here]
    have found : (s.pipes.modify r Pipe.leave).find p.id = some r :=
      pipe_find_eq left (left.listed r p.leave now isOpen) (hasId_iff.mpr ⟨p.leave, now, rfl⟩)
    have cards : ((s.pipes.modify r Pipe.leave).remove p.id).card =
        Function.update s.pipes.card r (some { p.leave.card with freed := true }) := by
      funext r'
      unfold Pipes.card
      rw [(remove_some left found).2.1, now]
      by_cases this : r' = r
      · subst this
        simp only [Function.update_self]
        rfl
      · simp only [Function.update_of_ne this, Pipes.modify]
    have mem : ∀ sem, sem ∈ ((s.sems.close p.readSemId).close p.writeSemId).ids ↔
        (sem ∈ s.sems.ids ∧ sem ≠ p.readSemId) ∧ sem ≠ p.writeSemId := fun sem => by
      rw [mem_ids_close (sound.sems.close _), mem_ids_close sound.sems]
    refine books.updated sound.sems rfl cards (.inl ⟨p.card, card, rfl, rfl, rfl, rfl⟩) alone others
      (by simp) (fun _ => ?_)
      ⟨iff_of_false (by simp) fun member => ((mem _).mp member).1.2 rfl,
        iff_of_false (by simp) fun member => ((mem _).mp member).2 rfl⟩
      fun sem _ notRead notWrite => ?_
    · change balance p.id (.pipeClosed p.id :: s.history) ≤ 0
      have counted : p.totalProcesses = balance p.id s.history := counted
      omega
    · exact (mem sem).trans ⟨fun member => member.1.1, fun member => ⟨⟨member, notRead⟩, notWrite⟩⟩

/-! ## Every reachable state -/

/-- Every deed keeps the books. -/
theorem Does.books (working : Working s c) (books : Books s) (does : Does s c deed s') : Books s' := by
  have sound := working.sound
  cases deed with
  | inits initialValue =>
    cases does with
    | initiated grown added =>
      obtain ⟨ids, semId⟩ := added.ids
      exact books.made (.reads 0) rfl (fun _ => rfl) ids semId fun _ _ => .inl
  | creates => exact books.created sound.sems does
  | opens pipeId =>
    cases does with
    | opened opened => exact books.opened sound opened
  | closes pipeId =>
    cases does with
    | missed absent => exact books.missed sound.pipes absent
    | closed here isOpen same closed =>
      subst same
      exact books.left sound here isOpen closed
  | destroys =>
    cases does with
    | destroyed block dead grown => exact books.closed sound.sems block _
  | _ => exact (does.kindred working trivial).books books

/-- The scheduler keeps the books. -/
theorem Shift.books (books : Books s) (shift : Shift s s') : Books s' := by
  cases shift with
  | rotated grown same =>
    have after : ∀ s', s.Kindred s' → Books s' := fun s' kindred => kindred.books books
    exact after _ (.of_same rfl rfl (fun _ => rfl) rfl rfl)
  | @reaped c p _ h queue currentProcessPCB working reaped grown others =>
    obtain @⟨s₁, block, dead, chain⟩ := reaped
    have books₁ := Chain.keeps chain working books fun _ _ _ working books _ does => does.books working books
    have after : ∀ s', s₁.Kindred s' → Books s' := fun s' kindred => kindred.books books₁
    refine after _ ⟨rfl, rfl, rfl, fun _ => rfl, fun r p' block' => ⟨p', ?_, rfl⟩, rfl⟩
    by_cases here : r = c
    · subst here
      simp at block'
    · simpa only [Function.update_of_ne here] using block'

theorem books_boot (garbage : Option Ref × List Ref) : Books (bootState (fun _ => true) garbage) := by
  have only : ∀ r card, bootPipes.card r = some card → r = 24 ∧ card = bootPipe.card := by
    intro r card here
    obtain ⟨p, block, rfl⟩ := card_some here
    change (if r = 24 then some bootPipe else none) = some p at block
    split at block
    · exact ⟨by assumption, (Option.some.inj block) ▸ rfl⟩
    · cases block
  have others : ∀ id, id ≠ STDIN_PIPENO → balance id bootHistory = 0 := by
    intro id other
    simp [balance, bootHistory, Ne.symm other]
  have owners : ∀ o sem, (bootState (fun _ => true) garbage).Owns sem o → o = .reads 24 ∧
    sem = 1 ∨ o = .writes 24 ∧ sem = 2 ∨
      o = .process idleRef ∧ sem = 3 ∨ o = .process initRef ∧ sem = 4 ∨ o = .process userlandRef ∧ sem = 5 := by
    intro o sem owns
    cases o with
    | reads r =>
      obtain ⟨card, here, rfl⟩ := owns
      obtain ⟨rfl, rfl⟩ := only r card here
      exact .inl ⟨rfl, rfl⟩
    | writes r =>
      obtain ⟨card, here, rfl⟩ := owns
      obtain ⟨rfl, rfl⟩ := only r card here
      exact .inr (.inl ⟨rfl, rfl⟩)
    | process r =>
      obtain ⟨p, block, rfl⟩ := owns
      rcases bootPcbs_some block with ⟨rfl, rfl⟩ | ⟨rfl, rfl⟩ | ⟨rfl, rfl⟩
      · exact .inr (.inr (.inl ⟨rfl, rfl⟩))
      · exact .inr (.inr (.inr (.inl ⟨rfl, rfl⟩)))
      · exact .inr (.inr (.inr (.inr ⟨rfl, rfl⟩)))
    | pending c =>
      obtain ⟨r, p, new, -⟩ := owns
      cases new
  refine ⟨fun r card here _ => ?_, fun id none => ?_, fun r card here => ?_, fun r card here =>
    ?_, fun o sem owns => ?_,
    fun o o' sem owns owns' _ => ?_⟩
  · obtain ⟨rfl, rfl⟩ := only r card here
    exact ⟨rfl, by decide⟩
  · have other : id ≠ STDIN_PIPENO := by
      rintro rfl
      exact none 24 bootPipe.card rfl rfl rfl
    exact Int.le_of_eq (others id other)
  · obtain ⟨rfl, rfl⟩ := only r card here
    have both : (1 : Int) ∈ bootSems.ids ∧ (2 : Int) ∈ bootSems.ids := by decide
    exact ⟨iff_of_true rfl both.1, iff_of_true rfl both.2⟩
  · obtain ⟨rfl, rfl⟩ := only r card here
    decide
  · change sem < 6
    rcases owners o sem owns with ⟨-, rfl⟩ | ⟨-, rfl⟩ | ⟨-, rfl⟩ | ⟨-, rfl⟩ | ⟨-, rfl⟩ <;> decide
  · rcases owners o sem owns with ⟨rfl, rfl⟩ | ⟨rfl, rfl⟩ | ⟨rfl, rfl⟩ | ⟨rfl, rfl⟩ | ⟨rfl, rfl⟩ <;>
      rcases owners o' _ owns' with ⟨rfl, same⟩ | ⟨rfl, same⟩ | ⟨rfl, same⟩ | ⟨rfl, same⟩ | ⟨rfl, same⟩ <;>
      first | rfl | cases same

theorem books_reachable (run : Run allowed (boot (fun _ => true) garbage) S) : Books S.state :=
  reachable_keeps (books_boot garbage) (fun _ _ _ _ working books _ does => does.books working books)
    (fun _ _ _ books shift => shift.books books) run

/-- The pipes are those that were opened more often than closed. -/
structure State.PipesExact (s : State) : Prop where
  once : ∀ pipeId, ((values s.pipes.pipeQueue).filter (s.pipes.hasId pipeId)).length ≤ 1
  present : ∀ pipeId, (∃ r ∈ values s.pipes.pipeQueue, s.pipes.hasId pipeId r = true) ↔ 0 < balance pipeId s.history
  counted : ∀ r ∈ values s.pipes.pipeQueue, ∃ p, s.pipes.pipes r = some p ∧ p.totalProcesses = balance p.id s.history
  semaphores : ∀ r p, s.pipes.pipes r = some p →
    (r ∈ values s.pipes.pipeQueue ↔ p.readSemId ∈ s.sems.ids) ∧
    (r ∈ values s.pipes.pipeQueue ↔ p.writeSemId ∈ s.sems.ids)

theorem Books.exact (books : Books s) (proper : s.pipes.Proper n) : s.PipesExact := by
  have queued : ∀ r p, s.pipes.pipes r = some p → (r ∈ values s.pipes.pipeQueue ↔ p.freed = false) := by
    intro r p here
    refine ⟨fun member => ?_, proper.listed r p here⟩
    obtain ⟨p', here', isOpen⟩ := proper.live r member
    cases here.symm.trans here'
    exact isOpen
  have card : ∀ {r p}, s.pipes.pipes r = some p → s.pipes.card r = some p.card := fun here =>
    congrArg (Option.map Pipe.card) here
  refine ⟨fun pipeId => ?_, fun pipeId => ⟨?_, fun some => ?_⟩, fun r member => ?_, fun r p here => ?_⟩
  · have once := proper.refs.filter (s.pipes.hasId pipeId)
    match found : (values s.pipes.pipeQueue).filter (s.pipes.hasId pipeId) with
    | [] => exact Nat.zero_le _
    | [r] => exact Nat.le_refl _
    | r :: r' :: rest =>
      have both : ∀ x ∈ [r, r'], x ∈ values s.pipes.pipeQueue ∧ s.pipes.hasId pipeId x = true := by
        intro x member
        have all : x ∈ [r, r'] ++ rest := List.mem_append_left rest member
        exact List.mem_filter.mp (found ▸ all)
      obtain ⟨member, same⟩ := both r (by simp)
      obtain ⟨member', same'⟩ := both r' (by simp)
      have clash : r = r' :=
        Option.some.inj ((pipe_find_eq proper member same).symm.trans (pipe_find_eq proper member' same'))
      rw [found, clash] at once
      simp at once
  · rintro ⟨r, member, same⟩
    obtain ⟨p, here, rfl⟩ := hasId_iff.mp same
    have isOpen := (queued r p here).mp member
    obtain ⟨counted, positive⟩ := books.counted r p.card (card here) isOpen
    exact counted ▸ positive
  · refine Decidable.byContradiction fun none => Int.not_le.mpr some (books.absent pipeId ?_)
    rintro r card' listed isOpen rfl
    obtain ⟨p, here, rfl⟩ := card_some listed
    exact none ⟨r, (queued r p here).mpr isOpen, hasId_iff.mpr ⟨p, here, rfl⟩⟩
  · obtain ⟨p, here, isOpen⟩ := proper.live r member
    exact ⟨p, here, (books.counted r p.card (card here) isOpen).1⟩
  · obtain ⟨read, write⟩ := books.semaphores r p.card (card here)
    exact ⟨(queued r p here).trans read, (queued r p here).trans write⟩

/-- **A pipe lives as long as it is opened more often than closed**, whoever opens and
closes it, and its semaphores live as long. -/
theorem pipes_exact (run : Run allowed (boot (fun _ => true) garbage) S) : S.state.PipesExact :=
  (books_reachable run).exact (ordered_reachable run).sound.pipes

/-- A process opened the pipe twice and closed it once. -/
theorem pipes_exact_opened : ∃ S, Run (fun _ _ => True) (boot (fun _ => true) (none, [])) S ∧
    balance 7 S.state.history = 1 ∧ S.state.PipesExact := by
  have played : ((play (fun _ _ => true) [.schedule, .call (.pipeOpen 7), .call (.pipeOpen 7), .call (.pipeClose 7)]
      (boot (fun _ => true) (none, []))).map fun S => balance 7 S.state.history) = some 1 := by decide +kernel
  obtain ⟨S, played, one⟩ := Option.map_eq_some_iff.mp played
  have run : Run (fun _ _ => True) (boot (fun _ => true) (none, [])) S := play_run (fun _ _ _ => trivial) played
  exact ⟨S, run, one, pipes_exact run⟩

end QuesOs.Kernel
