import QuesOs.PipeInfo
import QuesOs.Keyboard

/-! The mutex of the pipes. `pipeOpen`, `pipeClose` and `getPipeInfo` take a unit
of `allPipesSem` and put it back, but not on every path: what is refused
memory in between returns without putting it back, and a `semWait` or `semPost`
that is refused the iterator of its search does nothing. -/
namespace QuesOs.Kernel
open Resumption

variable {s s' s₁ s₂ : State}

inductive PipeCall where
  | pipeOpen (pipeId : Int)
  | pipeClose (pipeId : Int)
  | getPipeInfo

def PipeCall.perform : PipeCall → Task Unit
  | .pipeOpen pipeId => discard <| Kernel.pipeOpen pipeId
  | .pipeClose pipeId => discard <| Kernel.pipeClose pipeId
  | .getPipeInfo => discard Kernel.getPipeInfo

def State.mutexValue (s : State) : Option Int := s.mutex.map Sem.value

/-- Where the call returns, the mutex has its unit. -/
def PipeCall.Balanced (call : PipeCall) (s : State) : Prop :=
  ∀ s', call.perform.execute s = .ok (.finished () s') → s'.mutexValue = some 1

/-- The same state, when so many more requests were made. -/
def State.after (s : State) (n : Nat) : State := s.withHeap { s.heap with requests := s.heap.requests + n }

/-- Opening a pipe counts no further than an `int` goes. -/
def State.CountsOpen (s : State) (pipeId : Int) : Prop :=
  match (s.after 1).pipeOf pipeId with
  | some pipe => (s.pipes.pipes pipe).all fun p => p.totalProcesses < INT_MAX
  | none => (s.after 2).CountsPipe

/-- The mutex is found to put the unit back exactly if it was found to take it; where a counter
overflows the call does not return. -/
def State.Balances (s : State) : PipeCall → Prop
  | .pipeOpen pipeId =>
    s.CountsOpen pipeId →
      match (s.after 1).pipeOf pipeId with
      | some _ => s.heap.Grants 0 ↔ s.heap.Grants (1 + s.pipeRequests pipeId)
      | none => if (s.after 2).MakesPipe then s.heap.Grants 0 ↔ s.heap.Grants 12 else ¬s.heap.Grants 0
  | .pipeClose pipeId =>
    match s.pipeOf pipeId with
    | none => True
    | some pipe =>
      let n := s.pipeRequests pipeId
      let last := (s.pipes.pipes pipe).any (·.totalProcesses ≤ 1)
      s.heap.Grants n ↔ s.heap.Grants (n + 1 + if last then 2 else 0)
  | .getPipeInfo =>
    s.heap.Grants 0 →
      if s.pipes.pipeQueue.length = 0 ∨ ¬s.heap.Grants 2 then ¬s.heap.Grants 1
      else ∀ n, s.afterPipes (if s.heap.Grants 3 then values s.pipes.pipeQueue else []) 4 = some n →
        (s.heap.Grants 1 ↔ s.heap.Grants n)

/-! ## The wait and the post -/

/-- In the middle of a call, after so many requests, the mutex has so many units. -/
structure Inside (s : State) (units : Int) (n : Nat) (s₁ : State) : Prop where
  asked : s.heap.Asked n s₁.heap
  guarded : s₁.Guarded
  mutex : ∃ m, s₁.mutex = some m ∧ m.value = units ∧ m.blockedPids = [] ∧ m.lock = 0
  few : units ≤ 1

/-- The iterator of a search is freed again. -/
theorem meets_find {α : Type} {queue : Queue α} {findCondition : α → Bool} {post : Option α → State → Prop} :
    Meets bad (find queue findCondition) post s ↔
      post (if s.heap.Grants 0 then (values queue).find? findCondition else none) (s.after 1) := by
  unfold find
  rw [meets_bind, meets_malloc_any]
  by_cases granted : s.heap.Grants 0
  · have same : s.heap.ask.release s.heap.requests = { s.heap with requests := s.heap.requests + 1 } := by
      simp [Heap.ask, Heap.release, granted]
    rw [if_pos granted, if_pos granted]
    simp only [meets_bind, meets_free, meets_pure, withHeap_heap, same]
    rfl
  · have same : s.heap.ask = { s.heap with requests := s.heap.requests + 1 } := by
      simp [Heap.ask, granted]
    rw [if_neg granted, if_neg granted, meets_pure, same]
    rfl

theorem Inside.beside (inside : Inside s units n s₁) (beside : s₁.Beside s₂) (asked : s₁.heap.Asked k s₂.heap) :
    Inside s units (n + k) s₂ :=
  ⟨inside.asked.trans asked, beside.guarded, beside.mutex ▸ inside.mutex, inside.few⟩

/-- The units left if the request of `semWait` is granted or not. -/
def State.unitsLeft (s : State) (n : Nat) : Int := if s.heap.Grants n then 0 else 1

theorem findable_mutex (s : State) : s.findable s.pipes.allPipesSem = if s.heap.Grants 0 then s.mutex else none := rfl

/-- A write to the mutex is not seen under other ids. -/
theorem find_modify_mutex (guarded : s.Guarded) (there : s.mutex = some m) {f : Sem → Sem}
    (kept : ∀ x, (f x).id = x.id) {id : Int}
    (other : id ≠ s.pipes.allPipesSem) : (s.sems.modify m.ref f).find id = s.sems.find id := by
  rw [find_modify kept]
  cases found : s.sems.find id with
  | none => rfl
  | some x =>
    have apart : x.ref ≠ m.ref := by
      intro same
      have one : x = m := List.inj_on_of_nodup_map guarded.sems.refs (find_some found).1 (find_some there).1 same
      exact other ((find_some found).2.symm.trans ((congrArg Sem.id one).trans (find_some there).2))
    rw [Option.map_some, if_neg apart]

theorem semWaitEnter_mutex (guarded : s.Guarded) (unit : s.mutexValue = some 1) :
    Meets bad (semWaitEnter s.pipes.allPipesSem) (fun result s' => (∃ a, result = .inl a) ∧
      Inside s (s.unitsLeft 0) 1 s' ∧ s.Surveyed 1 s') s := by
  obtain ⟨m, there, one⟩ := Option.map_eq_some_iff.mp unit
  obtain ⟨listed, same⟩ := find_some there
  have positive : 0 < m.value := by omega
  obtain ⟨nobody, unlocked⟩ := guarded.sems.settled m listed positive
  have block := guarded.at_found there
  have locked : (s.sems.modify m.ref fun x => { x with lock := 1 }).at m.ref = some { m with lock := 1 } := by
    rw [at_modify _ _ fun _ => by rfl, block]
    rfl
  unfold semWaitEnter
  rw [meets_bind]
  refine (findSem_asks _).mono ?_
  rintro found s₁ ⟨rfl, h, asked, rfl⟩
  rw [findable_mutex, State.unitsLeft]
  by_cases granted : s.heap.Grants 0
  · simp only [if_pos granted, there, acquireSem, meets_bind, meets_readSem_at, withHeap_sems,
      block, meets_lookup_some, acquire, unlocked,
      if_true, meets_pure, meets_modifySem, locked, if_pos positive, meets_get, meets_log, releaseSem]
    have released : ((s.sems.modify m.ref fun x => { x with lock := 1 }).modify m.ref
        fun x => { x with value := x.value - 1 }).modify m.ref (fun x => { x with lock := 0 }) =
        s.sems.modify m.ref fun x => { x with value := x.value - 1, lock := 0 } := by
      rw [modify_modify _ _ _ _ fun _ => by rfl, modify_modify _ _ _ _ fun _ => by rfl]
      rfl
    rw [released]
    have taken := Tries.took ((findable_mutex s).trans ((if_pos granted).trans there)) block unlocked positive asked
    have found :
      (s.sems.modify m.ref fun x => { x with value := x.value - 1, lock := 0 }).find s.pipes.allPipesSem = _ :=
      find_modify_self (fun _ => rfl) there
    refine ⟨⟨_, rfl⟩, ⟨asked, guarded.tries taken, ⟨_, found, ?_, nobody, rfl⟩, by decide⟩,
      asked, rfl, rfl, fun id other => ?_⟩
    · dsimp only
      omega
    · have others :
        (s.sems.modify m.ref fun x => { x with value := x.value - 1, lock := 0 }).find id = s.sems.find id :=
        find_modify_mutex guarded there (by exact fun _ => rfl) other
      exact others
  · simp only [if_neg granted, meets_pure]
    exact ⟨⟨_, rfl⟩, ⟨asked, guarded.grown asked.grown, ⟨m, there, one, nobody, unlocked⟩, Int.le_refl 1⟩,
      asked, rfl, rfl,
      fun _ _ => rfl⟩

theorem semPost_mutex (inside : Inside s units n s₁) : Meets bad (semPost s₁.pipes.allPipesSem) (fun _ s' =>
    s'.mutexValue = some (units + if s.heap.Grants n then 1 else 0) ∧ s'.pipes = s₁.pipes) s₁ := by
  obtain ⟨m, there, value, nobody, unlocked⟩ := inside.mutex
  obtain ⟨listed, same⟩ := find_some there
  have block := inside.guarded.at_found there
  have queued := inside.guarded.sems.queued m listed same
  have now : s₁.heap.Grants 0 ↔ s.heap.Grants n := inside.asked.later 0
  unfold semPost
  rw [meets_bind]
  refine (findSem_asks _).mono ?_
  rintro found s₂ ⟨rfl, h, asked, rfl⟩
  rw [findable_mutex]
  by_cases granted : s₁.heap.Grants 0
  · obtain ⟨queueRef, isQueue⟩ := Option.isSome_iff_exists.mp queued
    simp only [if_pos granted, there, acquireSem, meets_bind, meets_readSem_at, withHeap_sems,
      block, meets_lookup_some, acquire, unlocked,
      if_true, meets_pure, meets_modifySem, isQueue, meets_discard, meets_deref_some,
        nobody, List.length_nil, semPostLoop,
      Bool.not_false, meets_get, meets_log, releaseSem]
    have locked : (s₁.sems.modify m.ref fun x => { x with lock := 1 }).at m.ref = some { m with lock := 1 } := by
      rw [at_modify _ _ fun _ => by rfl, block]
      rfl
    have fits : m.value < INT_MAX := by
      rw [value]
      exact Int.lt_of_le_of_lt inside.few (by decide)
    rw [locked, meets_lookup_some]
    refine meets_increment_within (.inr fits) fun _ => ?_
    have released : ((s₁.sems.modify m.ref fun x => { x with lock := 1 }).modify m.ref
        fun x => { x with value := x.value + 1 }).modify m.ref (fun x => { x with lock := 0 }) =
        s₁.sems.modify m.ref fun x => { x with value := x.value + 1, lock := 0 } := by
      rw [modify_modify _ _ _ _ fun _ => by rfl, modify_modify _ _ _ _ fun _ => by rfl]
      rfl
    rw [released]
    have found :
      (s₁.sems.modify m.ref fun x => { x with value := x.value + 1, lock := 0 }).find s₁.pipes.allPipesSem = _ :=
      find_modify_self (fun _ => rfl) there
    refine ⟨(congrArg (Option.map Sem.value) found).trans ?_, rfl⟩
    rw [Option.map_some, if_pos (now.mp granted), value]
  · simp only [if_neg granted, meets_pure]
    refine ⟨?_, rfl⟩
    have still : (s₁.withHeap h).mutexValue = some m.value := congrArg (Option.map Sem.value) there
    rw [still, if_neg fun yes => granted (now.mpr yes), value, Int.add_zero]

/-! ## What the calls come to -/

/-- The call takes one turn: it stops, or leaves so many units. -/
abbrev Leaves {α : Type} (task : Task α) (stops : Prop) (units : Int) (s : State) : Prop :=
  task.Meets (fun _ => stops) (fun _ _ => False) (fun _ _ => False) (fun _ _ s' => ¬stops ∧
    s'.mutexValue = some units) s s

theorem Leaves.discard {task : Task α} (leaves : Leaves task stops units s) :
    Leaves (discard task : Task Unit) stops units s :=
  Program.meets_discard.mpr leaves

/-- What it leaves in one turn is what it leaves. -/
theorem Leaves.balanced_iff {call : PipeCall} (leaves : Leaves call.perform stops units s) :
    (∀ rest s', call.perform.execute s ≠ .ok (.paused rest s')) ∧ (call.Balanced s ↔ stops ∨ units = 1) := by
  refine ⟨fun rest s' paused => (leaves.execute paused).1, fun balanced => ?_, fun fine s' ran => ?_⟩
  · by_cases stopped : stops
    · exact .inl stopped
    · obtain ⟨outcome, ran, meets⟩ := (leaves.allow fun _ => stopped).returns
      cases outcome with
      | paused rest s' => exact meets.1.elim
      | finished a s' => exact .inr (Option.some.inj (meets.2.symm.trans (balanced s' ran)))
  · obtain ⟨notStopped, left⟩ := leaves.execute ran
    rw [left, fine.resolve_left notStopped]

theorem units_iff (n m : Nat) : s.unitsLeft n + (if s.heap.Grants m then 1 else 0) = 1 ↔
    (s.heap.Grants n ↔ s.heap.Grants m) := by
  unfold State.unitsLeft
  by_cases first : s.heap.Grants n <;> by_cases second : s.heap.Grants m <;> simp [first, second]

theorem unitsLeft_iff (n : Nat) : s.unitsLeft n = 1 ↔ ¬s.heap.Grants n := by
  unfold State.unitsLeft
  by_cases granted : s.heap.Grants n <;> simp [granted]

/-- A `semWait` on the mutex does not block. -/
theorem semWait_mutex (guarded : s.Guarded) (unit : s.mutexValue = some 1) {post : Int → State → State → Prop}
    (rest : ∀ a s₁, Inside s (s.unitsLeft 0) 1 s₁ → s.Surveyed 1 s₁ → post a since s₁) :
    (semWait s.pipes.allPipesSem).Meets bad still resumed post since s := by
  unfold semWait
  rw [Program.meets_bind, Program.meets_lift]
  refine (semWaitEnter_mutex guarded unit).mono ?_
  rintro _ s₁ ⟨⟨a, rfl⟩, inside, surveyed⟩
  exact rest a s₁ inside surveyed

/-! ## `pipeOpen` -/

theorem pipeOf_congr (pipes : s'.pipes = s.pipes) (same : s'.heap.Grants 0 ↔ s.heap.Grants 0) (pipeId : Int) :
    s'.pipeOf pipeId = s.pipeOf pipeId ∧ s'.pipeRequests pipeId = s.pipeRequests pipeId := by
  have cached : s'.Cached pipeId ↔ s.Cached pipeId := by
    unfold State.Cached
    rw [pipes]
  unfold State.pipeOf State.pipeRequests
  by_cases here : s.Cached pipeId
  · simp only [if_pos here, if_pos (cached.mpr here), pipes, and_self]
  · simp only [if_neg here, if_neg fun yes => here (cached.mp yes), pipes, and_true]
    by_cases granted : s.heap.Grants 0
    · rw [if_pos granted, if_pos (same.mpr granted)]
    · rw [if_neg granted, if_neg fun yes => granted (same.mp yes)]

/-- A request that is due later is the same one. -/
theorem after_grants (asked : s.heap.Asked n s'.heap) (k : Nat) : s'.heap.Grants k ↔ (s.after n).heap.Grants k := by
  rw [asked.later]
  unfold State.after Heap.Grants
  rw [withHeap_heap, Nat.add_assoc]

theorem makesPipe_congr (asked : s.heap.Asked n s'.heap) : s'.MakesPipe ↔ (s.after n).MakesPipe := by
  unfold State.MakesPipe
  simp only [after_grants asked]

/-- The end of `pipeOpen`. -/
theorem opens_mutex (inside : Inside s units n s₁) (here : s₁.pipes.pipes r = some p)
    (isOpen : p.freed = false) (pipeId : Int) :
    Meets bad (semPost s₁.pipes.allPipesSem) (fun _ s' => Meets bad (readPipe r) (fun _ s' =>
      s'.mutexValue = some (units + if s.heap.Grants n then 1 else 0)) s')
      { s₁ with
        pipes := s₁.pipes.modify r fun p => { p with totalProcesses := p.totalProcesses + 1 }
        history := .pipeOpened pipeId :: s₁.history } := by
  have written := inside.guarded.writes r (f := fun p => { p with totalProcesses := p.totalProcesses + 1 })
    fun _ => ⟨rfl, rfl, rfl, rfl⟩
  have inside' : Inside s units n { s₁ with
      pipes := s₁.pipes.modify r fun p => { p with totalProcesses := p.totalProcesses + 1 }
      history := .pipeOpened pipeId :: s₁.history } :=
    ⟨inside.asked, ⟨written.sems, written.pipes⟩, inside.mutex, inside.few⟩
  refine (semPost_mutex inside').mono ?_
  rintro _ s' ⟨left, pipes⟩
  have there : s'.pipes.pipes r = some { p with totalProcesses := p.totalProcesses + 1 } := by
    simp [pipes, Pipes.modify, here]
  rw [meets_readPipe there isOpen]
  exact left

/-- No counter overflows in `pipeOpen` once it has the mutex. -/
def State.CountsEntered (s : State) (pipeId : Int) : Prop :=
  match s.pipeOf pipeId with
  | some pipe => (s.pipes.pipes pipe).all fun p => p.totalProcesses < INT_MAX
  | none => (s.after (s.pipeRequests pipeId)).CountsPipe

theorem countsPipe_congr (asked : s.heap.Asked n s'.heap) (next : s'.sems.semId = s.sems.semId) :
    s'.CountsPipe ↔ (s.after n).CountsPipe := by
  have second : s'.secondInit = (s.after n).secondInit := by simp only [State.secondInit, after_grants asked]
  unfold State.CountsPipe
  simp only [after_grants asked, second]
  rw [next]
  rfl

theorem pipeOpenEntered_mutex (inside : Inside s units n s₁) (pipeId : Int)
    (within : bad .overflow ∨ s₁.CountsEntered pipeId) :
    Meets bad (pipeOpenEntered pipeId) (fun _ s' => s₁.CountsEntered pipeId ∧
    s'.mutexValue = some (match s₁.pipeOf pipeId with
      | some _ => units + if s.heap.Grants (n + s₁.pipeRequests pipeId) then 1 else 0
      | none => if (s.after (n + s₁.pipeRequests pipeId)).MakesPipe
        then units + if s.heap.Grants (n + s₁.pipeRequests pipeId + 10) then 1 else 0 else units)) s₁ := by
  unfold pipeOpenEntered
  rw [meets_bind]
  refine (getPipe_asks pipeId).mono ?_
  rintro found s₂ ⟨isPipe, h, asked, same⟩
  rw [← isPipe]
  have guarded₂ : s₂.Guarded := same ▸ inside.guarded.gets pipeId asked.grown
  have beside₂ : s₁.Beside s₂ := guarded₂.beside (by rw [same]) (by rw [same])
  have inside₂ := inside.beside beside₂ (by rw [same]; exact asked)
  cases found with
  | some r =>
    have listed : r ∈ values s₂.pipes.pipeQueue := by
      rw [same]
      exact inside.guarded.pipeOf_listed isPipe.symm
    obtain ⟨p, here, isOpen⟩ := guarded₂.pipes.listed r listed
    have there : s₁.pipes.pipes r = some p := by
      rw [same] at here
      exact here
    have counts : s₁.CountsEntered pipeId ↔ p.totalProcesses < INT_MAX := by
      unfold State.CountsEntered
      rw [← isPipe]
      simp only [there, Option.all_some, decide_eq_true_eq]
    simp only [meets_bind, meets_pure, meets_discard, meets_log, meets_get]
    rw [meets_readPipe here isOpen]
    refine meets_increment_within (within.imp_right counts.mp) fun fits => ?_
    rw [meets_modifyPipe]
    exact (opens_mutex inside₂ here isOpen pipeId).mono fun _ _ left => left.mono fun _ _ left =>
      ⟨counts.mpr fits, left⟩
  | none =>
    have counts : s₁.CountsEntered pipeId ↔ s₂.CountsPipe := by
      unfold State.CountsEntered
      rw [← isPipe]
      exact (countsPipe_congr (by rw [same]; exact asked) (by rw [same])).symm
    simp only [meets_bind]
    refine (createPipe_within guarded₂ (within.imp_right counts.mp) pipeId).mono ?_
    have makes_iff := makesPipe_congr inside₂.asked
    rintro found s₃ ⟨fits, beside, ⟨makes, ⟨r, p, rfl, here, isOpen, fresh⟩, asked'⟩ | ⟨short, rfl⟩⟩
    · simp only [meets_bind, meets_pure, meets_discard, meets_log, meets_get]
      rw [meets_readPipe here isOpen, if_pos (makes_iff.mp makes)]
      have low : p.totalProcesses < INT_MAX := by
        rw [fresh]
        decide
      refine meets_increment_within (.inr low) fun _ => ?_
      rw [meets_modifyPipe]
      exact (opens_mutex (inside₂.beside beside asked') here isOpen pipeId).mono fun _ _ left =>
        left.mono fun _ _ left => ⟨counts.mpr fits, left⟩
    · simp only [meets_pure]
      rw [if_neg fun makes => short (makes_iff.mpr makes)]
      obtain ⟨m, there, value, -⟩ := inside₂.mutex
      exact ⟨counts.mpr fits, (congrArg (Option.map Sem.value) (beside.mutex.trans there)).trans (congrArg some value)⟩

theorem pipeOpen_leaves (guarded : s.Guarded) (unit : s.mutexValue = some 1) (pipeId : Int) :
    ∃ units, Leaves (pipeOpen pipeId) (¬s.CountsOpen pipeId) units s ∧
      (¬s.CountsOpen pipeId ∨ units = 1 ↔ s.Balances (.pipeOpen pipeId)) := by
  have later : ∀ s₁, s.Surveyed 1 s₁ → s₁.pipeOf pipeId = (s.after 1).pipeOf pipeId ∧
    s₁.pipeRequests pipeId = s.pipeRequests pipeId := by
    intro s₁ surveyed
    obtain ⟨same, requests⟩ := pipeOf_congr (s := s.after 1) surveyed.pipes (after_grants surveyed.asked 0) pipeId
    exact ⟨same, requests⟩
  have first : (s.after 1).pipeOf pipeId = none → s.pipeRequests pipeId = 1 := by
    intro found
    refine if_neg fun cached => ?_
    have none : s.pipes.cachedPipe = none := (if_pos cached).symm.trans found
    unfold State.Cached at cached
    rw [none] at cached
    cases cached
  have counts : ∀ s₁, s.Surveyed 1 s₁ → (s₁.CountsEntered pipeId ↔ s.CountsOpen pipeId) := by
    intro s₁ surveyed
    obtain ⟨same, requests⟩ := later s₁ surveyed
    unfold State.CountsEntered State.CountsOpen
    rw [same, requests, surveyed.pipes]
    cases found : (s.after 1).pipeOf pipeId with
    | some r => exact Iff.rfl
    | none =>
      rw [first found]
      have one : s₁.heap.Asked 1 (s₁.after 1).heap := ⟨rfl, rfl, rfl⟩
      exact countsPipe_congr (surveyed.asked.trans one) surveyed.next
  refine ⟨match (s.after 1).pipeOf pipeId with
    | some _ => s.unitsLeft 0 + if s.heap.Grants (1 + s.pipeRequests pipeId) then 1 else 0
    | none =>
      if (s.after 2).MakesPipe then s.unitsLeft 0 + if s.heap.Grants 12 then 1 else 0 else s.unitsLeft 0, ?_, ?_⟩
  · unfold Leaves pipeOpen
    simp only [Program.meets_bind, Program.meets_lift, meets_get, Program.meets_discard]
    refine semWait_mutex guarded unit fun _ s₁ inside surveyed => ?_
    refine (pipeOpenEntered_mutex inside pipeId ((em' _).imp_right (counts s₁ surveyed).mpr)).mono ?_
    rintro _ s' ⟨fits, left⟩
    refine ⟨not_not.mpr ((counts s₁ surveyed).mp fits), left.trans ?_⟩
    obtain ⟨same, requests⟩ := later s₁ surveyed
    rw [same, requests]
    cases found : (s.after 1).pipeOf pipeId with
    | some r => rfl
    | none => simp only [first found]
  · rw [← imp_iff_not_or]
    cases found : (s.after 1).pipeOf pipeId with
    | some r =>
      simp only [State.Balances, found]
      exact imp_congr_right fun _ => units_iff 0 _
    | none =>
      simp only [State.Balances, found]
      refine imp_congr_right fun _ => ?_
      split
      · exact units_iff 0 12
      · exact unitsLeft_iff 0

/-! ## `pipeClose` -/

/-- The mutex is taken some requests later. -/
theorem semWait_mutex_later (guarded : s₁.Guarded) (asked : s.heap.Asked n s₁.heap) (same : s₁.mutexValue = some 1)
    {post : Int → State → State → Prop}
    (rest : ∀ a s₂, Inside s (s.unitsLeft n) (n + 1) s₂ → s₁.Surveyed 1 s₂ → post a since s₂) :
    (semWait s₁.pipes.allPipesSem).Meets bad still resumed post since s₁ := by
  have units : s₁.unitsLeft 0 = s.unitsLeft n := by
    unfold State.unitsLeft
    have now : s₁.heap.Grants 0 ↔ s.heap.Grants n := asked.later 0
    by_cases granted : s.heap.Grants n
    · rw [if_pos granted, if_pos (now.mpr granted)]
    · rw [if_neg granted, if_neg fun yes => granted (now.mp yes)]
  refine semWait_mutex guarded same fun a s₂ inside surveyed => ?_
  rw [units] at inside
  exact rest a s₂ ⟨asked.trans inside.asked, inside.guarded, inside.mutex, inside.few⟩ surveyed

theorem pipeCloseEntered_mutex (inside : Inside s units n s₁) (here : s₁.pipes.pipes r = some p)
    (isOpen : p.freed = false)
    (pipeId : Int) : Meets bad (pipeCloseEntered r pipeId) (fun _ s' =>
      s'.mutexValue = some (units +
        if s.heap.Grants (n + if p.totalProcesses ≤ 1 then 2 else 0) then 1 else 0)) s₁ := by
  unfold pipeCloseEntered
  simp only [meets_bind, meets_discard]
  rw [meets_readPipe here isOpen, meets_modifyPipe, meets_log]
  have left : (s₁.pipes.modify r Pipe.leave).pipes r = some p.leave := by simp [Pipes.modify, here]
  rw [meets_readPipe (p := p.leave) (by exact left) isOpen, meets_ite]
  have written := inside.guarded.writes r (f := Pipe.leave) fun _ => ⟨rfl, rfl, rfl, rfl⟩
  have inside₁ : Inside s units n
      { s₁ with pipes := s₁.pipes.modify r Pipe.leave, history := .pipeClosed pipeId :: s₁.history } :=
    ⟨inside.asked, ⟨written.sems, written.pipes⟩, inside.mutex, inside.few⟩
  obtain ⟨notRead, notWrite⟩ := inside.guarded.pipes.apart r p here
  constructor
  · intro last
    have few : p.totalProcesses ≤ 1 := Int.le_of_sub_nonpos last
    simp only [meets_bind, meets_discard]
    refine (semClose_open (by exact inside₁.guarded.sems.isOpen) _).mono ?_
    intro _ s₂ closes
    have beside₂ := inside₁.guarded.beside_closes (by exact notRead) closes
    have inside₂ := inside₁.beside beside₂ closes.asked
    refine (semClose_open inside₂.guarded.sems.isOpen _).mono ?_
    intro _ s₃ closes'
    have beside₃ := inside₂.guarded.beside_closes (by rw [beside₂.allPipesSem]; exact notWrite) closes'
    have inside₃ := inside₂.beside beside₃ closes'.asked
    refine (removePipe_asks pipeId).mono ?_
    rintro _ s₄ ⟨h, asked, rfl⟩
    have removed := inside₃.guarded.removes pipeId asked.grown
    have inside₄ := inside₃.beside (removed.beside (allPipesSem_remove _ _) rfl) asked
    rw [if_pos few]
    exact (semPost_mutex inside₄).mono fun _ s' left => left.1
  · intro more
    have many : ¬p.totalProcesses ≤ 1 := fun few => more (Int.sub_nonpos_of_le few)
    simp only [meets_bind, meets_discard, meets_get, meets_pure]
    rw [if_neg many]
    exact (semPost_mutex inside₁).mono fun _ s' left => left.1

theorem pipeClose_leaves (guarded : s.Guarded) (unit : s.mutexValue = some 1) (pipeId : Int) :
    ∃ units, Leaves (pipeClose pipeId) False units s ∧ (units = 1 ↔ s.Balances (.pipeClose pipeId)) := by
  cases found : s.pipeOf pipeId with
  | none =>
    refine ⟨1, ?_, ?_⟩
    · unfold Leaves pipeClose
      simp only [Program.meets_bind, Program.meets_lift]
      refine (getPipe_asks pipeId).mono ?_
      rintro _ s₁ ⟨rfl, h, asked, rfl⟩
      rw [found]
      exact ⟨not_false, unit⟩
    · simp only [State.Balances, found]
  | some r =>
    obtain ⟨p, here, isOpen⟩ := guarded.pipes.listed r (guarded.pipeOf_listed found)
    refine ⟨s.unitsLeft (s.pipeRequests pipeId) +
      if s.heap.Grants (s.pipeRequests pipeId + 1 + if p.totalProcesses ≤ 1 then 2 else 0) then 1 else 0, ?_, ?_⟩
    · unfold Leaves pipeClose
      simp only [Program.meets_bind, Program.meets_lift]
      refine (getPipe_asks pipeId).mono ?_
      rintro _ s₁ ⟨rfl, h, asked, same⟩
      rw [found]
      have guarded₁ : s₁.Guarded := same ▸ guarded.gets pipeId asked.grown
      have unit₁ : s₁.mutexValue = some 1 := by
        rw [same]
        exact unit
      simp only [Program.meets_bind, Program.meets_lift, meets_get, Program.meets_discard]
      refine semWait_mutex_later guarded₁ (by rw [same]; exact asked) unit₁ fun _ s₂ inside surveyed => ?_
      have there : s₂.pipes.pipes r = some p := by
        rw [surveyed.pipes, same]
        exact here
      exact (pipeCloseEntered_mutex inside there isOpen pipeId).mono fun _ _ left => ⟨not_false, left⟩
    · simp only [State.Balances, found, here, Option.any_some, decide_eq_true_eq]
      exact units_iff _ _

/-! ## `getPipeInfo` -/

theorem Inside.later (inside : Inside s units n s₁) (asked : s.heap.Asked n' h) (more : n ≤ n') :
    Inside s units n' (s₁.withHeap h) := by
  refine ⟨asked, inside.guarded.grown ⟨?_, ?_⟩, inside.mutex, inside.few⟩
  · rw [asked.grants, inside.asked.grants]
  · rw [asked.requests, inside.asked.requests]
    omega

theorem getPipeInfo_leaves (guarded : s.Guarded) (unit : s.mutexValue = some 1) :
    ∃ stops units, Leaves getPipeInfo stops units s ∧ (stops ∨ units = 1 ↔ s.Balances .getPipeInfo) := by
  by_cases granted : s.heap.Grants 0
  · -- The mutex is taken, and there is an array or there is none.
    have enters : ∀ stops post, (∀ info s₂, Inside s (s.unitsLeft 1) 2 s₂ → s.Surveyed 2 s₂ →
        Meets (fun _ => stops) (getPipeInfoEntered info) (fun _ => post) s₂) →
        getPipeInfo.Meets (fun _ => stops) (fun _ _ => False) (fun _ _ => False) (fun _ _ => post) s s := by
      intro stops post rest
      unfold getPipeInfo
      simp only [Program.meets_bind, Program.meets_lift, meets_malloc_any, if_pos granted,
        meets_get, Program.meets_discard]
      have asked := s.heap.asked_ask
      refine semWait_mutex_later (guarded.grown asked.grown) (by exact asked)
        (by exact unit) fun _ s₂ inside surveyed => ?_
      exact rest _ s₂ inside ⟨inside.asked, surveyed.pipes, surveyed.next, surveyed.sems⟩
    by_cases empty : s.pipes.pipeQueue.length = 0 ∨ ¬s.heap.Grants 2
    · refine ⟨False, s.unitsLeft 1, enters _ _ fun info s₂ inside surveyed => ?_, ?_⟩
      · obtain ⟨m, there, value, -⟩ := inside.mutex
        have left : ∀ h, (s₂.withHeap h).mutexValue = some (s.unitsLeft 1) := fun h =>
          (congrArg (Option.map Sem.value) there).trans (congrArg some value)
        unfold getPipeInfoEntered
        simp only [meets_bind, meets_get, mallocArray, surveyed.pipes]
        by_cases none : s.pipes.pipeQueue.length = 0
        · simp only [if_pos none, meets_pure, meets_bind, meets_free]
          exact ⟨not_false, left _⟩
        · simp only [if_neg none]
          refine malloc_after surveyed.asked (fun granted => (empty.elim none fun no => no granted).elim)
            fun refused h asked => ?_
          simp only [meets_bind, meets_free, meets_pure]
          exact ⟨not_false, left _⟩
      · simp only [State.Balances, granted, if_pos empty, true_implies, false_or]
        exact unitsLeft_iff 1
    · obtain ⟨present, array⟩ := not_or.mp empty
      have granted₂ := not_not.mp array
      obtain ⟨refs, isRefs⟩ : ∃ refs, (if s.heap.Grants 3 then values s.pipes.pipeQueue else []) = refs := ⟨_, rfl⟩
      have listed : ∀ r ∈ refs, r ∈ values s.pipes.pipeQueue := by
        rw [← isRefs]
        split
        · exact fun _ member => member
        · simp
      -- The loop over the pipes, and the post.
      have reports : ∀ info s₂, Inside s (s.unitsLeft 1) 2 s₂ → s.Surveyed 2 s₂ →
          Meets (fun _ => s.afterPipes refs 4 = none) (getPipeInfoEntered info) (fun _ s' => ∃ n,
            s.afterPipes refs 4 = some n ∧
            s'.mutexValue = some (s.unitsLeft 1 + if s.heap.Grants n then 1 else 0)) s₂ := by
        intro info s₂ inside surveyed
        unfold getPipeInfoEntered
        simp only [meets_bind, meets_get, mallocArray, surveyed.pipes, if_neg present]
        refine malloc_after surveyed.asked (fun _ array h₃ asked₃ => ?_) fun refused => (refused granted₂).elim
        simp only [meets_bind]
        have inside₃ := inside.later asked₃ (by decide)
        have surveyed₃ := surveyed.later asked₃
        have iterates : ∀ it : Option Ref, (if it.isSome then values s.pipes.pipeQueue else []) = refs →
          ∀ h, s.heap.Asked 4 h →
            Meets (fun _ => s.afterPipes refs 4 = none) (do
              let pipes ← getPipeInfoLoop (if it.isSome then values s.pipes.pipeQueue else [])
              it.forM free
              discard <| semPost (← get).pipes.allPipesSem
              return some ({ ref := info, array, pipes, length := s.pipes.pipeQueue.length,
                             pipeBufferSize := PIPE_BUFFER_SIZE } : UserlandPipeInfo)) (fun _ s' => ∃ n,
              s.afterPipes refs 4 = some n ∧ s'.mutexValue = some (s.unitsLeft 1 + if s.heap.Grants n then 1 else 0))
              (s₂.withHeap h) := by
          intro it same h₄ asked₄
          have inside₄ := inside₃.later asked₄ (by decide)
          simp only [same, meets_bind]
          refine (getPipeInfoLoop_asks guarded listed (surveyed₃.later asked₄)).mono ?_
          rintro pipes s₅ ⟨n, h₅, counted, asked₅, rfl⟩
          have inside₅ := inside₄.later asked₅ (afterPipes_le counted)
          refine (freeOption_asks it).mono ?_
          rintro _ s₆ ⟨h₆, asked₆, rfl⟩
          have inside₆ := inside₅.later (inside₅.asked.trans asked₆) (Nat.le_refl _)
          simp only [meets_get, meets_discard, meets_pure]
          exact (semPost_mutex inside₆).mono fun _ s' left => ⟨n, counted, left.1⟩
        refine malloc_after surveyed₃.asked (fun granted₃ it h₄ asked₄ => ?_) fun refused h₄ asked₄ => ?_
        · have all := iterates (some it) (by rw [← isRefs, if_pos granted₃]; rfl) h₄ asked₄
          simp only [meets_bind] at all
          exact all
        · have nothing := iterates none (by rw [← isRefs, if_neg refused]; rfl) h₄ asked₄
          simp only [meets_bind] at nothing
          exact nothing
      cases counted : s.afterPipes refs 4 with
      | none =>
        refine ⟨True, 1, enters _ _ fun info s₂ inside surveyed => ?_, ?_⟩
        · refine ((reports info s₂ inside surveyed).allow fun _ _ => trivial).mono ?_
          rintro _ s' ⟨n, impossible, -⟩
          cases counted.symm.trans impossible
        · simp only [State.Balances, if_neg empty, isRefs, counted]
          exact iff_of_true (.inl trivial) (by simp)
      | some n =>
        refine ⟨False, s.unitsLeft 1 + if s.heap.Grants n then 1 else 0,
          enters _ _ fun info s₂ inside surveyed => ?_, ?_⟩
        · refine ((reports info s₂ inside surveyed).allow fun _ stops => ?_).mono ?_
          · cases counted.symm.trans stops
          · rintro _ s' ⟨n', counted', left⟩
            obtain rfl := Option.some.inj (counted.symm.trans counted')
            exact ⟨not_false, left⟩
        · simp only [State.Balances, granted, if_neg empty, isRefs, true_implies, false_or,
            counted, Option.some.injEq, forall_eq']
          exact units_iff 1 n
  · refine ⟨False, 1, ?_, ?_⟩
    · unfold Leaves getPipeInfo
      simp only [Program.meets_bind, Program.meets_lift, meets_malloc_any, if_neg granted]
      exact ⟨not_false, unit⟩
    · simp only [State.Balances, granted, false_implies, or_true]

theorem balanced_iff (guarded : s.Guarded) (unit : s.mutexValue = some 1) (call : PipeCall) :
    (∀ rest s', call.perform.execute s ≠ .ok (.paused rest s')) ∧ (call.Balanced s ↔ s.Balances call) := by
  obtain ⟨stops, units, leaves, balances⟩ : ∃ stops units, Leaves call.perform stops units s ∧
    (stops ∨ units = 1 ↔ s.Balances call) := by
    cases call with
    | pipeOpen pipeId =>
      obtain ⟨units, leaves, balances⟩ := pipeOpen_leaves guarded unit pipeId
      exact ⟨¬s.CountsOpen pipeId, units, leaves.discard, balances⟩
    | pipeClose pipeId =>
      obtain ⟨units, leaves, balances⟩ := pipeClose_leaves guarded unit pipeId
      exact ⟨False, units, leaves.discard, by rw [false_or, balances]⟩
    | getPipeInfo =>
      obtain ⟨stops, units, leaves, balances⟩ := getPipeInfo_leaves guarded unit
      exact ⟨stops, units, leaves.discard, balances⟩
  obtain ⟨ends, balanced⟩ := leaves.balanced_iff
  exact ⟨ends, balanced.trans balances⟩

/-! ## Every run -/

/-- Whatever may be asked for: the calls of processes and the keys, the rest of `sem.h` and `pipes.h`,
and anything that looks and asks for memory. -/
inductive Requests (s : State) : Task Int → Prop
  | interrupts (issued : Interrupts (fun _ _ => True) s program) : Requests s program
  | semOpen (semaphoreName : String) (initialValue : Int) : Requests s (Kernel.semOpen semaphoreName initialValue)
  | semClose (id : Int) : Requests s (Kernel.semClose id)
  | getPipeInfo : Requests s (do
    discard Kernel.getPipeInfo
    return 0)
  | looks {f : K Int} (only : ∀ s, Meets (fun _ => True) f (fun _ s' => ∃ h, s.heap.Grown h ∧ s' = s.withHeap h) s) :
    Requests s f

theorem guards_looks {α : Type} {f : K α}
    (only : ∀ s, Meets (fun _ => True) f (fun _ s' => ∃ h, s.heap.Grown h ∧ s' = s.withHeap h) s) :
    Guards f := by
  intro s guarded
  refine (only s).mono ?_
  rintro _ s' ⟨h, grown, rfl⟩
  exact guarded.grown grown

theorem guards_requests {program : Task Int} (issued : Requests s program) : program.Every Guards := by
  cases issued with
  | interrupts issued =>
    rcases issued with ⟨call, -, rfl, -⟩ | ⟨beyond, keyboard, hasKey, first, second, rfl⟩
    · exact every_perform guards_sweeping call
    · cases (keyboardHandler beyond keyboard hasKey first second).2 with
      | nothing => exact .pure _
      | snapshot => exact .pure _
      | kill => exact every_killCurrentForeground guards_sweeping.toElementary
      | write c => exact every_pipePutchar guards_sweeping.toElementary STDIN_PIPENO c
  | semOpen name initialValue =>
    exact .lift fun s guarded => (semOpen_any name initialValue).mono fun _ _ opens => guarded.opens opens.2
  | semClose id => exact .lift (guards_sweeping.closes id)
  | getPipeInfo => exact (every_getPipeInfo guards_sweeping.toElementary).discard.bind fun _ => .pure _
  | looks only => exact .lift (guards_looks only)

theorem guarded_run (run : Threads.Run machine Requests (boot grants garbage) S) : S.state.Guarded :=
  (guarding.holds_run (fun _ _ _ issued guarded _ _ => guarding_follows (guards_requests issued) guarded)
    (guarding_boot grants garbage) run).inv

/-- **The mutex of the pipes is balanced** exactly where `Balances` says: a call that finds it neither
blocks, and gives it back unless it returns early or one of the two searches is refused. -/
theorem mutex_balanced_iff (run : Threads.Run machine Requests (boot grants garbage) S)
    (unit : S.state.mutexValue = some 1)
    (call : PipeCall) : (∀ rest s', call.perform.execute S.state ≠ .ok (.paused rest s')) ∧
      (call.Balanced S.state ↔ S.state.Balances call) :=
  balanced_iff (guarded_run run) unit call

theorem initState_guarded (grants : Nat → Bool) (garbage : Option Ref × List Ref) :
    (initState grants garbage).Guarded :=
  ⟨bootSems_guarded, bootPipes_guarded⟩

/-- With enough memory `init` opens a pipe and gives the mutex back. -/
theorem mutex_balanced_opened : ∃ S, Threads.Run machine Requests (boot (fun _ => true) (none, [])) S ∧
    S.state.mutexValue = some 1 ∧ PipeCall.Balanced (.pipeOpen 5) S.state := by
  have run : Threads.Run machine Requests (boot (fun _ => true) (none, [])) _ := .single (initState_step _ _ _)
  have unit : (initState (fun _ => true) (none, [])).mutexValue = some 1 := by decide
  refine ⟨_, run, unit, (mutex_balanced_iff run unit (.pipeOpen 5)).2.mpr fun _ => ?_⟩
  have missing : ((initState (fun _ => true) (none, [])).after 1).pipeOf 5 = none := by decide
  have makes : ((initState (fun _ => true) (none, [])).after 2).MakesPipe := by decide
  simp only [missing, if_pos makes]
  decide

/-- When the block of the pipe is refused the mutex is kept. -/
theorem mutex_balanced_fails : ¬∀ (S : System) (call : PipeCall),
    Threads.Run machine Requests (boot (· ≠ 42) (none, [])) S →
    S.state.mutexValue = some 1 → call.Balanced S.state := by
  intro claim
  have unit : (initState (· ≠ 42) (none, [])).mutexValue = some 1 := by decide
  have balanced := claim _ (.pipeOpen 5) (.single (initState_step _ _ _)) unit
  have balances := (balanced_iff (initState_guarded _ _) unit _).2.mp balanced
  have missing : ((initState (· ≠ 42) (none, [])).after 1).pipeOf 5 = none := by decide
  have short : ¬((initState (· ≠ 42) (none, [])).after 2).MakesPipe := by decide
  have counts : (initState (· ≠ 42) (none, [])).CountsOpen 5 := by
    simp only [State.CountsOpen, missing]
    decide
  simp only [State.Balances, missing, if_neg short] at balances
  exact balances counts (by decide)

end QuesOs.Kernel
