import QuesOs.Shortage

/-! What the pipe functions do to the pipes between two posts. Every pipe in the
queue is there once, is told apart by its id and was not freed, and the cached
one is among them. -/
namespace QuesOs.Kernel
open Resumption

variable {bad : Fault → Prop} {s : State}

/-! ## The list of pipes -/

/-- Writes the pipe behind a pointer. -/
def Pipes.modify (pipes : Pipes) (pipe : Ref) (f : Pipe → Pipe) : Pipes :=
  { pipes with pipes := Function.update pipes.pipes pipe ((pipes.pipes pipe).map f) }

/-- The pipe that `getPipe` finds. -/
def Pipes.find (pipes : Pipes) (id : Int) : Option Ref := (values pipes.pipeQueue).find? (pipes.hasId id)

structure Pipes.Proper (pipes : Pipes) (requests : Nat) : Prop where
  refs : (values pipes.pipeQueue).Nodup
  live : ∀ r ∈ values pipes.pipeQueue, ∃ p, pipes.pipes r = some p ∧ p.freed = false
  listed : ∀ r p, pipes.pipes r = some p → p.freed = false → r ∈ values pipes.pipeQueue
  ids : ∀ r ∈ values pipes.pipeQueue, ∀ r' ∈ values pipes.pipeQueue, ∀ p p', pipes.pipes r = some p →
    pipes.pipes r' = some p' → p.id = p'.id → r = r'
  cached : ∀ r, pipes.cachedPipe = some r → r ∈ values pipes.pipeQueue
  below : ∀ r p, pipes.pipes r = some p → r < requests

theorem hasId_iff {pipes : Pipes} : pipes.hasId pipeId r = true ↔ ∃ p, pipes.pipes r = some p ∧ p.id = pipeId := by
  unfold Pipes.hasId
  simp [Option.any_eq_true]

theorem pipe_find_some {pipes : Pipes} (proper : pipes.Proper n) (found : pipes.find pipeId = some r) :
    r ∈ values pipes.pipeQueue ∧ ∃ p, pipes.pipes r = some p ∧ p.freed = false ∧ p.id = pipeId := by
  have member := List.mem_of_find?_eq_some found
  have same : pipes.hasId pipeId r = true := List.find?_some found
  obtain ⟨p, here, isOpen⟩ := proper.live r member
  obtain ⟨p', here', rfl⟩ := hasId_iff.mp same
  cases here.symm.trans here'
  exact ⟨member, p, here, isOpen, rfl⟩

theorem pipe_find_eq {pipes : Pipes} (proper : pipes.Proper n) (member : r ∈ values pipes.pipeQueue)
    (same : pipes.hasId pipeId r = true) : pipes.find pipeId = some r := by
  refine find_eq_some member same fun r' member' same' => ?_
  obtain ⟨p, here, rfl⟩ := hasId_iff.mp same
  obtain ⟨p', here', sameId⟩ := hasId_iff.mp same'
  exact proper.ids r' member' r member p' p here' here sameId

/-- The pipe looked up last is remembered. -/
def Pipes.cache (pipes : Pipes) (id : Int) : Pipes := { pipes with cachedPipe := pipes.find id }

theorem Pipes.Proper.cache {pipes : Pipes} (proper : pipes.Proper n) (id : Int) : (pipes.cache id).Proper n :=
  { proper with cached := fun _ found => (pipe_find_some proper found).1 }

theorem Pipes.Proper.grown {pipes : Pipes} (proper : pipes.Proper n) (more : n ≤ n') : pipes.Proper n' :=
  { proper with below := fun r p here => Nat.lt_of_lt_of_le (proper.below r p here) more }

/-- A pipe is not found under an id that none has. -/
theorem pipe_find_none {pipes : Pipes} (absent : pipes.find pipeId = none) (member : r ∈ values pipes.pipeQueue)
    (here : pipes.pipes r = some p) : p.id ≠ pipeId := by
  have other := List.find?_eq_none.mp absent r member
  exact fun same => other (hasId_iff.mpr ⟨p, here, same⟩)

/-- A pipe after the write is one before it. -/
theorem pipes_modify_some {pipes : Pipes} {f : Pipe → Pipe} (here : (pipes.modify r f).pipes r' = some p') :
    ∃ p, pipes.pipes r' = some p ∧ p' = if r' = r then f p else p := by
  by_cases this : r' = r
  · subst this
    simp only [Pipes.modify, Function.update_self, Option.map_eq_some_iff] at here
    obtain ⟨p, here, rfl⟩ := here
    exact ⟨p, here, (if_pos rfl).symm⟩
  · simp only [Pipes.modify, Function.update_of_ne this] at here
    exact ⟨p', here, (if_neg this).symm⟩

/-- A write that leaves the id and whether the pipe was freed. -/
theorem Pipes.Proper.modify {pipes : Pipes} (proper : pipes.Proper n) (r : Ref) {f : Pipe → Pipe}
    (same : ∀ p, (f p).id = p.id ∧ (f p).freed = p.freed) : (pipes.modify r f).Proper n := by
  have each : ∀ r' p', (pipes.modify r f).pipes r' = some p' →
      ∃ p, pipes.pipes r' = some p ∧ p'.id = p.id ∧ p'.freed = p.freed := by
    intro r' p' here
    obtain ⟨p, was, rfl⟩ := pipes_modify_some here
    split
    · exact ⟨p, was, same p⟩
    · exact ⟨p, was, rfl, rfl⟩
  refine ⟨proper.refs, ?_, ?_, ?_, proper.cached, ?_⟩
  · intro r' member
    obtain ⟨p, here, isOpen⟩ := proper.live r' member
    by_cases this : r' = r
    · subst this
      exact ⟨f p, by simp [Pipes.modify, here], by rw [(same p).2, isOpen]⟩
    · exact ⟨p, by simp [Pipes.modify, Function.update_of_ne this, here], isOpen⟩
  · intro r' p' here isOpen
    obtain ⟨p, here', -, freed⟩ := each r' p' here
    exact proper.listed r' p here' (freed ▸ isOpen)
  · intro r₁ member₁ r₂ member₂ p₁ p₂ here₁ here₂ sameId
    obtain ⟨q₁, was₁, id₁, -⟩ := each r₁ p₁ here₁
    obtain ⟨q₂, was₂, id₂, -⟩ := each r₂ p₂ here₂
    exact proper.ids r₁ member₁ r₂ member₂ q₁ q₂ was₁ was₂ (id₁ ▸ id₂ ▸ sameId)
  · intro r' p' here
    obtain ⟨p, here', -⟩ := each r' p' here
    exact proper.below r' p here'

/-- A fresh pipe at the end of the queue. -/
theorem Pipes.Proper.add {pipes : Pipes} (proper : pipes.Proper n) {queue : Queue Ref} {p : Pipe}
    (absent : pipes.find p.id = none) (isOpen : p.freed = false) (low : n ≤ r) (high : r < n')
    (listed : values queue = values pipes.pipeQueue ++ [r]) :
    Pipes.Proper { pipes with pipeQueue := queue, pipes := Function.update pipes.pipes r (some p) } n' := by
  have fresh : ∀ r' p', pipes.pipes r' = some p' → r' ≠ r := fun r' p' here =>
    Nat.ne_of_lt (Nat.lt_of_lt_of_le (proper.below r' p' here) low)
  have older : ∀ r' ∈ values pipes.pipeQueue, r' ≠ r := by
    intro r' member
    obtain ⟨p', here, -⟩ := proper.live r' member
    exact fresh r' p' here
  refine ⟨?_, ?_, ?_, ?_, ?_, ?_⟩
  · rw [listed]
    refine List.nodup_append.mpr ⟨proper.refs, List.nodup_singleton r, fun a old b new => ?_⟩
    rw [List.mem_singleton.mp new]
    exact older a old
  · simp only [listed, List.forall_mem_append, List.forall_mem_singleton]
    refine ⟨fun r' member => ?_, p, by simp, isOpen⟩
    rw [Function.update_of_ne (older r' member)]
    exact proper.live r' member
  · intro r' p' here opened
    rw [listed, List.mem_append, List.mem_singleton]
    by_cases this : r' = r
    · exact .inr this
    · simp only [Function.update_of_ne this] at here
      exact .inl (proper.listed r' p' here opened)
  · simp only [listed, List.forall_mem_append, List.forall_mem_singleton, Function.update_self, Option.some.injEq]
    constructor
    · intro r₁ member₁
      constructor
      · intro r₂ member₂ p₁ p₂ here₁ here₂
        rw [Function.update_of_ne (older r₁ member₁)] at here₁
        rw [Function.update_of_ne (older r₂ member₂)] at here₂
        exact proper.ids r₁ member₁ r₂ member₂ p₁ p₂ here₁ here₂
      · rintro p₁ p₂ here₁ rfl sameId
        rw [Function.update_of_ne (older r₁ member₁)] at here₁
        exact (pipe_find_none absent member₁ here₁ sameId).elim
    · constructor
      · rintro r₂ member₂ p₁ p₂ rfl here₂ sameId
        rw [Function.update_of_ne (older r₂ member₂)] at here₂
        exact (pipe_find_none absent member₂ here₂ sameId.symm).elim
      · intros
        trivial
  · intro r' cached
    rw [listed]
    exact List.mem_append_left _ (proper.cached r' cached)
  · intro r' p' here
    by_cases this : r' = r
    · rw [this]
      exact high
    · simp only [Function.update_of_ne this] at here
      exact Nat.lt_trans (Nat.lt_of_lt_of_le (proper.below r' p' here) low) high

/-- The queue without the first pipe that has the id. -/
def Pipes.unlink (pipes : Pipes) (id : Int) : Pipes :=
  { pipes with pipeQueue := pipes.pipeQueue.eraseP (pipes.hasId id ·.value) }

/-- The pipes without the first one that has the id. -/
def Pipes.remove (pipes : Pipes) (id : Int) : Pipes :=
  let rest := (pipes.find id).elim (pipes.unlink id) fun r => (pipes.unlink id).modify r fun p =>
    { p with freed := true }
  if rest.cachedPipe.any (rest.hasId id) then { rest with cachedPipe := none } else rest

theorem values_unlink (pipes : Pipes) (id : Int) :
    values (pipes.unlink id).pipeQueue = (values pipes.pipeQueue).eraseP (pipes.hasId id) :=
  values_eraseP pipes.pipeQueue (pipes.hasId id)

@[simp] theorem allPipesSem_remove (pipes : Pipes) (id : Int) : (pipes.remove id).allPipesSem = pipes.allPipesSem := by
  unfold Pipes.remove
  cases pipes.find id <;> dsimp only <;> split <;> rfl

/-- Without a pipe of the id nothing changes. -/
theorem remove_none {pipes : Pipes} (proper : pipes.Proper n) (absent : pipes.find pipeId = none) :
    pipes.remove pipeId = pipes := by
  have others : ∀ r ∈ values pipes.pipeQueue, ¬pipes.hasId pipeId r = true := List.find?_eq_none.mp absent
  have stays : pipes.unlink pipeId = pipes := by
    unfold Pipes.unlink
    rw [List.eraseP_of_forall_not]
    exact fun node member => others node.value (List.mem_map_of_mem member)
  unfold Pipes.remove
  rw [absent, Option.elim_none, stays]
  refine if_neg fun cached => ?_
  obtain ⟨r, here, same⟩ := (Option.any_eq_true _ _).mp cached
  exact others r (proper.cached r here) same

theorem eraseP_eq_erase {l : List Ref} {P : Ref → Bool} (only : ∀ x ∈ l, P x = (x == r)) : l.eraseP P = l.erase r := by
  induction l with
  | nil => rfl
  | cons x l ih =>
    rw [List.eraseP_cons, List.erase_cons, only x (List.mem_cons_self ..),
      ih fun y member => only y (List.mem_cons_of_mem _ member)]
    cases x == r <;> rfl

/-- Freeing a pipe leaves its id to be read. -/
theorem hasId_freed (pipes : Pipes) (pipeId : Int) (r : Ref) :
    ((pipes.unlink pipeId).modify r fun p => { p with freed := true }).hasId pipeId = pipes.hasId pipeId := by
  funext r'
  unfold Pipes.hasId Pipes.modify Pipes.unlink
  by_cases this : r' = r
  · subst this
    cases pipes.pipes r' <;> simp
  · simp [Function.update_of_ne this]

/-- The pipe with the id leaves the queue and is freed. -/
theorem remove_some {pipes : Pipes} (proper : pipes.Proper n) (found : pipes.find pipeId = some r) :
    values (pipes.remove pipeId).pipeQueue = (values pipes.pipeQueue).erase r ∧
    (pipes.remove pipeId).pipes = Function.update pipes.pipes r
    ((pipes.pipes r).map fun p => { p with freed := true }) ∧
    (pipes.remove pipeId).cachedPipe = (if pipes.cachedPipe = some r then none else pipes.cachedPipe) := by
  obtain ⟨member, p, here, -, same⟩ := pipe_find_some proper found
  have only : ∀ r' ∈ values pipes.pipeQueue, pipes.hasId pipeId r' = (r' == r) := by
    intro r' member'
    rw [Bool.eq_iff_iff, beq_iff_eq]
    constructor
    · intro same'
      exact Option.some.inj ((pipe_find_eq proper member' same').symm.trans found)
    · rintro rfl
      exact hasId_iff.mpr ⟨p, here, same⟩
  have erased := eraseP_eq_erase only
  have cached : pipes.cachedPipe.any (pipes.hasId pipeId) = true ↔ pipes.cachedPipe = some r := by
    cases cached : pipes.cachedPipe with
    | none => simp
    | some r' =>
      rw [Option.any_some, only r' (proper.cached r' cached)]
      simp
  have known : ((pipes.unlink pipeId).modify r fun p => { p with freed := true }).cachedPipe = pipes.cachedPipe := rfl
  unfold Pipes.remove
  simp only [found, Option.elim_some, known, hasId_freed, cached]
  split
  · exact ⟨(values_unlink pipes pipeId).trans erased, rfl, rfl⟩
  · exact ⟨(values_unlink pipes pipeId).trans erased, rfl, rfl⟩

theorem Pipes.Proper.remove {pipes : Pipes} (proper : pipes.Proper n) (pipeId : Int) :
    (pipes.remove pipeId).Proper n := by
  obtain absent | ⟨r, found⟩ := (pipes.find pipeId).eq_none_or_eq_some
  · rw [remove_none proper absent]
    exact proper
  · obtain ⟨queue, blocks, cached⟩ := remove_some proper found
    obtain ⟨member, p, here, -⟩ := pipe_find_some proper found
    have left : ∀ r', r' ∈ (values pipes.pipeQueue).erase r ↔ r' ≠ r ∧ r' ∈ values pipes.pipeQueue := fun r' =>
      proper.refs.mem_erase_iff
    have same : ∀ r', r' ≠ r → (pipes.remove pipeId).pipes r' = pipes.pipes r' := by
      intro r' other
      rw [blocks, Function.update_of_ne other]
    refine ⟨?_, ?_, ?_, ?_, ?_, ?_⟩
    · rw [queue]
      exact proper.refs.erase r
    · intro r' member'
      rw [queue, left] at member'
      rw [same r' member'.1]
      exact proper.live r' member'.2
    · intro r' p' here' isOpen
      rw [queue, left]
      by_cases this : r' = r
      · subst this
        rw [blocks, Function.update_self, here, Option.map_some, Option.some.injEq] at here'
        simp [← here'] at isOpen
      · rw [same r' this] at here'
        exact ⟨this, proper.listed r' p' here' isOpen⟩
    · intro r₁ member₁ r₂ member₂ p₁ p₂ here₁ here₂
      rw [queue, left] at member₁ member₂
      rw [same r₁ member₁.1] at here₁
      rw [same r₂ member₂.1] at here₂
      exact proper.ids r₁ member₁.2 r₂ member₂.2 p₁ p₂ here₁ here₂
    · intro r' here'
      rw [cached] at here'
      split at here'
      · cases here'
      · rename_i other
        rw [queue, left]
        exact ⟨fun this => other (this ▸ here'), proper.cached r' here'⟩
    · intro r' p' here'
      by_cases this : r' = r
      · rw [this]
        exact proper.below r p here
      · rw [same r' this] at here'
        exact proper.below r' p' here'

/-! ## What the functions do -/

@[simp] theorem meets_modifyPipe {pipe : Ref} {f : Pipe → Pipe} {post : Unit → State → Prop} :
    Meets bad (modifyPipe pipe f) post s ↔ post () { s with pipes := s.pipes.modify pipe f } := Iff.rfl

theorem meets_readPipe {pipe : Ref} {post : Pipe → State → Prop} (here : s.pipes.pipes pipe = some p)
    (isOpen : p.freed = false) : Meets bad (readPipe pipe) post s ↔ post p s := by
  unfold readPipe
  simp [here, isOpen, Option.filter]

theorem getPipe_spec (grants : s.Grants) (proper : s.pipes.Proper n) (pipeId : Int) :
    Meets bad (getPipe pipeId) (fun found s' => found = s.pipes.find pipeId ∧ ∃ h, s.heap.Grown h ∧
      s' = { s with heap := h, pipes := s.pipes.cache pipeId }) s := by
  unfold getPipe
  simp only [meets_bind, meets_get, meets_ite, meets_pure]
  constructor
  · intro cached
    obtain ⟨r, here, same⟩ := (Option.any_eq_true _ _).mp cached
    have found := pipe_find_eq proper (proper.cached r here) same
    rw [here, found]
    refine ⟨rfl, s.heap, .refl _, ?_⟩
    unfold Pipes.cache
    rw [found, ← here]
  · intro missed
    refine (find_spec grants _).mono ?_
    rintro found s' ⟨rfl, h, grown, rfl⟩
    exact ⟨rfl, h, grown, rfl⟩

def Pipe.fresh (id readSemId writeSemId : Int) : Pipe where
  id
  buffer := fun _ => 0
  writeIndex := 0
  readIndex := 0
  totalProcesses := 0
  writeSemId
  readSemId
  freed := false
  puts := []
  takes := []

/-- What `createPipe` adds. -/
inductive Created (s : State) (pipeId : Int) : Ref → State → Prop
  | intro (grown : s.heap.Grown h) (low : s.heap.requests ≤ r) (high : r < h.requests)
    (readSem : s.sems.Added 0 (r + 1) m sems) (writeSem : sems.Added PIPE_BUFFER_SIZE m h.requests sems')
    (listed : values queue = values s.pipes.pipeQueue ++ [r]) :
    Created s pipeId r { s with
      heap := h
      sems := sems'
      pipes := { s.pipes with
        pipeQueue := queue
        pipes := Function.update s.pipes.pipes r (some (.fresh pipeId s.sems.semId (s.sems.semId + 1))) }
      history :=
      .pipeMade pipeId :: .created (s.sems.semId + 1) PIPE_BUFFER_SIZE :: .created s.sems.semId 0 :: s.history }

theorem createPipe_spec [Lenient bad] (grants : s.Grants) (sems : s.sems.Proper s.heap.requests) (pipeId : Int) :
    Meets bad (createPipe pipeId) (fun found s' => ∃ r, found = some r ∧ Created s pipeId r s') s := by
  unfold createPipe
  rw [meets_bind, meets_malloc grants]
  simp only [meets_bind]
  refine (semInit_spec (by exact grants) (by exact sems.grown (Nat.le_succ _)) 0).mono ?_
  rintro readSemId s₁ ⟨rfl, h₁, sems₁, grown₁, added₁, rfl⟩
  have proper₁ : sems₁.Proper h₁.requests := (sems.grown (Nat.le_succ _)).add added₁
  have grants₁ : ∀ n, h₁.grants n = true := fun n => by
    rw [grown₁.grants]
    exact grants n
  refine (semInit_spec (by exact grants₁) (by exact proper₁) _).mono ?_
  rintro writeSemId s₂ ⟨rfl, h₂, sems₂, grown₂, added₂, rfl⟩
  have next : sems₁.semId = s.sems.semId + 1 := by
    cases added₁
    rfl
  have given : ¬(s.sems.semId = -1 ∨ sems₁.semId = -1) := by
    have := sems.nextId
    omega
  rw [meets_ite]
  refine ⟨fun missing => (given missing).elim, fun _ => ?_⟩
  simp only [meets_bind, meets_modifyPipes, meets_get, meets_log, meets_pure]
  refine (enqueue_spec (by exact fun n => by rw [grown₂.grants]; exact grants₁ n) _).mono ?_
  rintro queue s₃ ⟨listed, h₃, grown₃, rfl⟩
  have start : s.heap.Grown s.heap.allocate := s.heap.grown_allocate
  have later : h₁.Grown h₃ := Heap.Grown.trans grown₂ grown₃
  have created : Created s pipeId s.heap.requests _ :=
    .intro (start.trans (Heap.Grown.trans grown₁ later)) (Nat.le_refl _)
    (Nat.lt_of_lt_of_le grown₁.requests later.requests) added₁ (added₂.mono grown₃.requests) listed
  rw [← next] at created
  exact ⟨_, rfl, created⟩

/-- The kernel's semaphores and pipes are in order, and memory is granted. -/
structure Sound (s : State) : Prop where
  grants : s.Grants
  sems : s.sems.Proper s.heap.requests
  pipes : s.pipes.Proper s.heap.requests

theorem Posts.sound (sound : Sound s) (posts : Posts s semId s') : Sound s' := by
  rcases posts with ⟨-, h, grown, rfl⟩ | ⟨sem, found, posted⟩
  · exact ⟨sound.grants.grown grown, sound.sems.grown grown.requests, sound.pipes.grown grown.requests⟩
  · cases posted with
    | handed queued inVain resumed left grown =>
      refine ⟨sound.grants.grown grown, ?_, sound.pipes.grown grown.requests⟩
      dsimp only
      exact (sound.sems.grown grown.requests).modify _ (fun _ => ⟨rfl, rfl⟩) fun _ plain => ⟨rfl, plain.2⟩
    | raised inVain grown =>
      refine ⟨sound.grants.grown grown, ?_, sound.pipes.grown grown.requests⟩
      dsimp only
      exact (sound.sems.grown grown.requests).modify _ (fun _ => ⟨rfl, rfl⟩) fun _ plain => ⟨rfl, plain.2⟩

/-- A post leaves the pipes alone. -/
theorem Posts.pipes (posts : Posts s semId s') : s'.pipes = s.pipes := by
  rcases posts with ⟨-, h, grown, rfl⟩ | ⟨sem, found, posted⟩
  · rfl
  · cases posted <;> rfl

/-- What `pipeOpen` does before it gives `allPipesSem` back. -/
inductive Opened (s : State) (pipeId : Int) : State → Prop
  | found (found : s.pipes.find pipeId = some r) (grown : s.heap.Grown h) :
    Opened s pipeId { s with
      heap := h
      pipes := (s.pipes.cache pipeId).modify r fun p => { p with totalProcesses := p.totalProcesses + 1 }
      history := .pipeOpened pipeId :: s.history }
  | created (absent : s.pipes.find pipeId = none) (grown : s.heap.Grown h)
    (created : Created { s with heap := h, pipes := s.pipes.cache pipeId } pipeId r s') :
    Opened s pipeId { s' with
      pipes := s'.pipes.modify r fun p => { p with totalProcesses := p.totalProcesses + 1 }
      history := .pipeOpened pipeId :: s'.history }

theorem Opened.sound (sound : Sound s) (opened : Opened s pipeId s') : Sound s' := by
  cases opened with
  | found found grown =>
    refine ⟨sound.grants.grown grown, sound.sems.grown grown.requests, ?_⟩
    refine Pipes.Proper.modify ?_ _ fun _ => ⟨rfl, rfl⟩
    exact (sound.pipes.cache pipeId).grown grown.requests
  | created absent grown created =>
    obtain ⟨grown', low, high, readSem, writeSem, listed⟩ := created
    have all := Heap.Grown.trans grown grown'
    refine ⟨sound.grants.grown all, ?_, ?_⟩
    · exact ((sound.sems.grown (Nat.le_succ_of_le (Nat.le_trans grown.requests low))).add readSem).add writeSem
    · refine Pipes.Proper.modify ?_ _ fun _ => ⟨rfl, rfl⟩
      refine (sound.pipes.cache pipeId).add ?_ rfl (Nat.le_trans grown.requests low) high listed
      exact absent

/-- Opening a pipe leaves the processes alone. -/
theorem Opened.procs (opened : Opened s pipeId s') : s'.procs = s.procs ∧ s.heap.Grown s'.heap ∧
    s'.pipes.allPipesSem = s.pipes.allPipesSem := by
  cases opened with
  | found found grown => exact ⟨rfl, grown, rfl⟩
  | created absent grown created =>
    obtain ⟨grown', -, -, -, -, -⟩ := created
    exact ⟨rfl, Heap.Grown.trans grown grown', rfl⟩

theorem pipeOpenEntered_spec [Lenient bad] (sound : Sound s) (attended : s.procs.Attended current q) (pipeId : Int) :
    Meets bad (pipeOpenEntered pipeId) (fun _ s' => ∃ s₁, Opened s pipeId s₁ ∧ Posts s₁ s.pipes.allPipesSem s') s := by
  unfold pipeOpenEntered
  rw [meets_bind]
  refine (getPipe_spec sound.grants sound.pipes pipeId).mono ?_
  rintro found s₁ ⟨rfl, h, grown, rfl⟩
  have finish : ∀ s₁ r, Opened s pipeId s₁ → (∃ p, s₁.pipes.pipes r = some p ∧ p.freed = false) →
      Meets bad (semPost s.pipes.allPipesSem) (fun _ s' => Meets bad (readPipe r)
        (fun _ s' => ∃ s₁, Opened s pipeId s₁ ∧ Posts s₁ s.pipes.allPipesSem s') s') s₁ := by
    rintro s₁ r opened ⟨p, here, isOpen⟩
    obtain ⟨sameProcs, -, -⟩ := opened.procs
    have sound₁ := opened.sound sound
    refine (semPost_spec sound₁.grants sound₁.sems (by rw [sameProcs]; exact attended) _).mono ?_
    intro _ s' posts
    rw [meets_readPipe (by rw [posts.pipes]; exact here) isOpen]
    exact ⟨s₁, opened, posts⟩
  obtain absent | ⟨r, found⟩ := (s.pipes.find pipeId).eq_none_or_eq_some
  · rw [absent]
    simp only [meets_bind]
    refine (createPipe_spec (by exact sound.grants.grown grown) (by exact sound.sems.grown grown.requests) _).mono ?_
    rintro found s₂ ⟨r, rfl, created⟩
    have opened := Opened.created absent grown created
    obtain ⟨grown', low, high, readSem, writeSem, listed⟩ := created
    simp only [meets_bind, meets_pure, meets_discard, meets_log]
    rw [meets_readPipe (by exact Function.update_self ..) rfl]
    refine meets_increment ?_
    simp only [meets_modifyPipe, meets_get]
    refine finish _ r opened ?_
    simp [Pipes.modify, Pipe.fresh]
  · rw [found]
    obtain ⟨member, p, here, isOpen, -⟩ := pipe_find_some sound.pipes found
    simp only [meets_bind, meets_pure, meets_discard, meets_log]
    rw [meets_readPipe (by exact here) isOpen]
    refine meets_increment ?_
    simp only [meets_modifyPipe, meets_get]
    refine finish _ r (.found found grown) ?_
    simp [Pipes.cache, Pipes.modify, here, isOpen]

/-- The pipe after a character was written. -/
def Pipe.put (p : Pipe) (c : Int8) : Pipe :=
  { p with
    buffer := Function.update p.buffer p.writeIndex c
    writeIndex := (p.writeIndex + 1) % PIPE_BUFFER_SIZE
    puts := p.puts ++ [c] }

/-- The pipe after a character was read. -/
def Pipe.take (p : Pipe) : Pipe :=
  { p with
    readIndex := (p.readIndex + 1) % PIPE_BUFFER_SIZE
    takes := p.takes ++ [p.buffer p.readIndex] }

theorem Sound.writePipe (sound : Sound s) (r : Ref) {f : Pipe → Pipe}
    (same : ∀ p, (f p).id = p.id ∧ (f p).freed = p.freed) :
    Sound { s with pipes := s.pipes.modify r f } :=
  ⟨sound.grants, sound.sems, sound.pipes.modify r same⟩

theorem writeBuffer_within (spare : Spare bad 1 s.sems) (sound : Sound s) (attended : s.procs.Attended current q)
    (here : s.pipes.pipes r = some p) (isOpen : p.freed = false) (c : Int8) : Meets bad (writeBuffer r c)
      (fun _ => Posts { s with pipes := s.pipes.modify r (·.put c) } p.readSemId) s := by
  unfold writeBuffer
  rw [meets_bind, meets_readPipe here isOpen]
  simp only [meets_bind, meets_modifyPipe, meets_discard]
  have sound₁ := sound.writePipe r (f := (·.put c)) fun _ => ⟨rfl, rfl⟩
  exact semPost_within (Spare.raises (by exact spare) _) sound₁.grants sound₁.sems attended

theorem writeBuffer_spec [Lenient bad] (sound : Sound s) (attended : s.procs.Attended current q)
    (here : s.pipes.pipes r = some p)
    (isOpen : p.freed = false) (c : Int8) : Meets bad (writeBuffer r c)
      (fun _ => Posts { s with pipes := s.pipes.modify r (·.put c) } p.readSemId) s :=
  writeBuffer_within .lenient sound attended here isOpen c

theorem readBuffer_spec [Lenient bad] (sound : Sound s) (attended : s.procs.Attended current q)
    (here : s.pipes.pipes r = some p)
    (isOpen : p.freed = false) : Meets bad (readBuffer r)
      (fun _ => Posts { s with pipes := s.pipes.modify r Pipe.take } p.writeSemId) s := by
  unfold readBuffer
  rw [meets_bind, meets_readPipe here isOpen]
  simp only [meets_bind, meets_modifyPipe, meets_discard, meets_pure]
  have sound₁ := sound.writePipe r (f := Pipe.take) fun _ => ⟨rfl, rfl⟩
  have same : s.pipes.modify r (fun p' => { p' with
      readIndex := (p'.readIndex + 1) % PIPE_BUFFER_SIZE, takes := p'.takes ++ [p.buffer p.readIndex] }) =
      s.pipes.modify r Pipe.take := by
    simp [Pipes.modify, here, Pipe.take]
  rw [same]
  exact semPost_spec sound₁.grants sound₁.sems attended _

def Pipe.leave (p : Pipe) : Pipe := { p with totalProcesses := p.totalProcesses - 1 }

/-- What `pipeClose` does before it gives `allPipesSem` back. -/
inductive Closed (s : State) (r : Ref) (p : Pipe) (pipeId : Int) : State → Prop
  | kept (more : 1 < p.totalProcesses) :
    Closed s r p pipeId { s with pipes := s.pipes.modify r Pipe.leave, history := .pipeClosed pipeId :: s.history }
  | last (last : p.totalProcesses ≤ 1) (grown : s.heap.Grown h) :
    Closed s r p pipeId { s with
      heap := h
      sems := (s.sems.close p.readSemId).close p.writeSemId
      pipes := (s.pipes.modify r Pipe.leave).remove pipeId
      history := .pipeClosed pipeId :: s.history }

theorem Closed.sound (sound : Sound s) (closed : Closed s r p pipeId s') : Sound s' := by
  have left := sound.writePipe r (f := Pipe.leave) fun _ => ⟨rfl, rfl⟩
  cases closed with
  | kept more => exact ⟨left.grants, left.sems, left.pipes⟩
  | last last grown =>
    exact ⟨sound.grants.grown grown, ((sound.sems.close _).close _).grown grown.requests,
      (left.pipes.remove pipeId).grown grown.requests⟩

/-- Closing a pipe leaves the processes alone. -/
theorem Closed.procs (closed : Closed s r p pipeId s') : s'.procs = s.procs ∧ s.heap.Grown s'.heap := by
  cases closed with
  | kept more => exact ⟨rfl, .refl _⟩
  | last last grown => exact ⟨rfl, grown⟩

theorem removePipe_asks (pipeId : Int) : Meets bad (removePipe pipeId)
    (fun _ s' => ∃ h, s.heap.Asked 0 h ∧ s' = { s with heap := h, pipes := s.pipes.remove pipeId }) s := by
  unfold removePipe
  simp only [meets_bind, meets_get]
  refine (takeElement_asks _).mono ?_
  rintro ⟨queue, removed⟩ s₁ ⟨rfl, rfl, h, asked, rfl⟩
  simp only [meets_modifyPipes]
  obtain absent | ⟨removed, found⟩ := (s.pipes.find pipeId).eq_none_or_eq_some
  · have look : (values s.pipes.pipeQueue).find? (s.pipes.hasId pipeId) = none := absent
    rw [look]
    refine ⟨h, asked, ?_⟩
    unfold Pipes.remove
    rw [absent]
    rfl
  · have look : (values s.pipes.pipeQueue).find? (s.pipes.hasId pipeId) = some removed := found
    rw [look]
    refine ⟨_, asked.release removed, ?_⟩
    unfold Pipes.remove
    rw [found]
    rfl

theorem pipeCloseEntered_within (spare : Spare bad 1 s.sems) (sound : Sound s) (attended : s.procs.Attended current q)
    (here : s.pipes.pipes r = some p) (isOpen : p.freed = false) (pipeId : Int) : Meets bad (pipeCloseEntered r pipeId)
      (fun _ s' => ∃ s₁, Closed s r p pipeId s₁ ∧ Posts s₁ s.pipes.allPipesSem s') s := by
  unfold pipeCloseEntered
  simp only [meets_bind, meets_discard]
  rw [meets_readPipe here isOpen, meets_modifyPipe]
  have left := sound.writePipe r (f := Pipe.leave) fun _ => ⟨rfl, rfl⟩
  have now : (s.pipes.modify r Pipe.leave).pipes r = some p.leave := by simp [Pipes.modify, here]
  rw [meets_log, meets_readPipe (p := p.leave) (by exact now) isOpen, meets_ite]
  constructor
  · intro last
    simp only [meets_bind, meets_discard]
    refine (semClose_spec (by exact left.grants) (by exact left.sems) _).mono ?_
    rintro _ s₁ ⟨h₁, grown₁, rfl⟩
    refine (semClose_spec (by exact left.grants.grown grown₁) (by exact left.sems.close _) _).mono ?_
    rintro _ s₂ ⟨h₂, grown₂, rfl⟩
    refine (removePipe_asks pipeId).mono ?_
    rintro _ s₃ ⟨h₃, asked₃, rfl⟩
    have closed : Closed s r p pipeId _ :=
      .last (Int.le_of_sub_nonpos last) (Heap.Grown.trans grown₁ (Heap.Grown.trans grown₂ asked₃.grown))
    have sound₁ := closed.sound sound
    simp only [meets_get]
    rw [allPipesSem_remove]
    refine (semPost_within (((spare.close _).close _).raises _) (by exact sound₁.grants)
      (by exact sound₁.sems) (by exact attended)).mono ?_
    intro _ s' posts
    exact ⟨_, closed, posts⟩
  · intro more
    simp only [meets_bind, meets_discard, meets_get, meets_pure]
    refine (semPost_within (Spare.raises (by exact spare) _) (by exact left.grants) (by exact left.sems)
      (by exact attended)).mono ?_
    intro _ s' posts
    exact ⟨_, .kept (Int.sub_pos.mp (Int.not_le.mp more)), posts⟩

theorem pipeCloseEntered_spec [Lenient bad] (sound : Sound s) (attended : s.procs.Attended current q)
    (here : s.pipes.pipes r = some p) (isOpen : p.freed = false) (pipeId : Int) : Meets bad (pipeCloseEntered r pipeId)
      (fun _ s' => ∃ s₁, Closed s r p pipeId s₁ ∧ Posts s₁ s.pipes.allPipesSem s') s :=
  pipeCloseEntered_within .lenient sound attended here isOpen pipeId

/-- Closing a pipe raises no semaphore. -/
theorem Spare.closed (spare : Spare bad n s.sems) (closed : Closed s r p pipeId s') : Spare bad n s'.sems := by
  cases closed with
  | kept more => exact spare
  | last last grown => exact (spare.close _).close _

end QuesOs.Kernel
