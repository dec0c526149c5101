import QuesOs.HeapBlocks
import QuesOs.PipeTable
import Mathlib.Data.List.Forall2
import Mathlib.Data.List.Find

/-! What is taken when a pipe is opened is given back when it is closed. A pipe that
was there before is only counted up and down; one that `pipeOpen` made goes with
its last process, and its semaphores with it, whatever was done to their values
in between. -/
namespace QuesOs.Kernel
open Resumption

variable {bad : Fault → Prop} {s s' s₁ s₂ : State}

/-! ## The same semaphores -/

/-- A semaphore later on: it may have another value, and fewer wait for it. -/
structure SameSem (node node' : Node Sem) : Prop where
  ref : node'.ref = node.ref
  kept : ∃ blockedPids value lock, node'.value = { node.value with blockedPids, value, lock } ∧
    (node.value.blockedPids = [] → blockedPids = [])

namespace SameSem
variable {node node' node'' : Node Sem}

theorem refl (node : Node Sem) : SameSem node node := ⟨rfl, _, _, _, rfl, id⟩

theorem trans (first : SameSem node node') (second : SameSem node' node'') : SameSem node node'' := by
  obtain ⟨ref, blockedPids, value, lock, same, nobody⟩ := first
  obtain ⟨ref', blockedPids', value', lock', same', nobody'⟩ := second
  refine ⟨ref'.trans ref, blockedPids', value', lock', by rw [same', same], fun none => nobody' ?_⟩
  rw [same]
  exact nobody none

theorem id (same : SameSem node node') : node'.value.id = node.value.id := by
  obtain ⟨-, _, _, _, same, -⟩ := same
  rw [same]

/-- A semaphore that nobody waits for stays the same blocks. -/
theorem blocks (same : SameSem node node') (nobody : node.value.blockedPids = []) :
    semBlocks node' = semBlocks node := by
  obtain ⟨ref, blockedPids, value, lock, same, still⟩ := same
  unfold semBlocks
  rw [ref, same, nobody]
  simp only [still nobody]

end SameSem

/-- The semaphores are the same, in the same nodes. -/
abbrev Sems.Same (sems sems' : Sems) : Prop := List.Forall₂ SameSem sems.semQueue sems'.semQueue

theorem Sems.Same.refl (sems : Sems) : sems.Same sems := List.forall₂_same.mpr fun node _ => .refl node

theorem forall_trans {l l' l'' : Queue Sem} (first : List.Forall₂ SameSem l l') (second : List.Forall₂ SameSem l' l'') :
    List.Forall₂ SameSem l l'' := by
  induction first generalizing l'' with
  | nil => exact second
  | cons same rest ih =>
    cases second with
    | cons same' rest' => exact .cons (same.trans same') (ih rest')

theorem Sems.Same.trans {sems sems' sems'' : Sems} (first : sems.Same sems') (second : sems'.Same sems'') :
    sems.Same sems'' :=
  forall_trans first second

/-- A write to the value, the lock and the queue of a semaphore. -/
theorem Sems.same_modify {sems : Sems} (ref : Ref) {f : Sem → Sem}
    (kept : ∀ x ∈ values sems.semQueue, x.ref = ref →
      ∃ blockedPids value lock, f x = { x with blockedPids, value, lock } ∧
      (x.blockedPids = [] → blockedPids = [])) : sems.Same (sems.modify ref f) := by
  unfold Sems.Same Sems.modify
  rw [List.forall₂_map_right_iff, List.forall₂_same]
  intro node member
  split
  · exact ⟨rfl, kept node.value (List.mem_map_of_mem member) (by assumption)⟩
  · exact .refl node

/-- The first element that fits is the first of the second part. -/
theorem find_later {α : Type} {l rest : List α} {a : α} {P : α → Bool}
    (older : ∀ x ∈ l, ¬P x = true) (here : P a = true) :
    (l ++ a :: rest).find? P = some a ∧ (l ++ a :: rest).eraseP P = l ++ rest := by
  rw [List.find?_append, List.find?_eq_none.mpr older, Option.none_or, List.find?_cons_of_pos here,
    List.eraseP_append_right _ older, List.eraseP_cons_of_pos here]
  exact ⟨rfl, rfl⟩

/-! ## Taking a unit and giving it back -/

namespace Sems
variable {sems : Sems} {id other : Int}

theorem find_taken_self (sems : Sems) (id : Int) :
    (sems.taken id).find id = (sems.find id).map fun x => { x with value := x.value - 1, lock := 0 } := by
  unfold taken
  cases found : sems.find id with
  | none => exact found
  | some sem => exact find_modify_self (fun _ => rfl) found

theorem find_given_self : (sems.given id).find id =
    (sems.find id).map fun x => { x with blockedPids := [], value := x.value + 1, lock := 0 } := by
  unfold given
  cases found : sems.find id with
  | none => exact found
  | some sem => exact find_modify_self (fun _ => rfl) found

/-- A write to one semaphore is not seen under another id. -/
theorem find_modify_other (proper : sems.Proper n) {f : Sem → Sem} (kept : ∀ x, (f x).id = x.id)
    (found : sems.find id = some sem)
    (apart : other ≠ id) : (sems.modify sem.ref f).find other = sems.find other := by
  cases there : sems.find other with
  | none => exact (find_modify_none kept _ _).mpr there
  | some x => exact find_modify_apart proper kept there found apart

theorem find_taken_other (proper : sems.Proper n) (apart : other ≠ id) :
    (sems.taken id).find other = sems.find other := by
  unfold taken
  cases found : sems.find id with
  | none => rfl
  | some sem => exact find_modify_other proper (fun _ => rfl) found apart

theorem find_given_other (proper : sems.Proper n) (apart : other ≠ id) :
    (sems.given id).find other = sems.find other := by
  unfold given
  cases found : sems.find id with
  | none => rfl
  | some sem => exact find_modify_other proper (fun _ => rfl) found apart

theorem Proper.taken (proper : sems.Proper n) (id : Int) : (sems.taken id).Proper n := by
  unfold Sems.taken
  cases sems.find id with
  | none => exact proper
  | some sem => exact proper.modify _ (fun _ => ⟨rfl, rfl⟩) fun _ plain => ⟨rfl, plain.2⟩

theorem Proper.given (proper : sems.Proper n) (id : Int) : (sems.given id).Proper n := by
  unfold Sems.given
  cases sems.find id with
  | none => exact proper
  | some sem => exact proper.modify _ (fun _ => ⟨rfl, rfl⟩) fun _ plain => ⟨rfl, plain.2⟩

theorem same_taken (sems : Sems) (id : Int) : sems.Same (sems.taken id) := by
  unfold taken
  cases sems.find id with
  | none => exact .refl _
  | some sem => exact same_modify _ fun x _ _ => ⟨_, _, _, rfl, fun none => none⟩

theorem same_given (sems : Sems) (id : Int) : sems.Same (sems.given id) := by
  unfold given
  cases sems.find id with
  | none => exact .refl _
  | some sem => exact same_modify _ fun x _ _ => ⟨_, _, _, rfl, fun _ => rfl⟩

/-- The unit that was taken is given back. -/
theorem given_taken (proper : sems.Proper n) (nobody : ∀ sem, sems.find id = some sem → sem.blockedPids = []) :
    (sems.taken id).given id = sems := by
  have self := find_taken_self sems id
  unfold given
  rw [self]
  cases found : sems.find id with
  | none => simp only [Option.map_none, taken, found]
  | some sem =>
    simp only [Option.map_some, taken, found]
    rw [modify_modify _ _ _ _ fun _ => by rfl]
    have unlocked := (proper.plain sem (find_some found).1).1
    have stays : sems.modify sem.ref ((fun x => { x with blockedPids := [], value := x.value + 1, lock := 0 }) ∘
        fun x => { x with value := x.value - 1, lock := 0 }) = sems.modify sem.ref fun x => x := by
      refine modify_congr fun x listed here => ?_
      obtain rfl : x = sem := List.inj_on_of_nodup_map proper.refs listed (find_some found).1 here
      simp only [Function.comp_apply, Int.sub_add_cancel, ← nobody x found, ← unlocked]
    rw [stays]
    simp [Sems.modify]

theorem find_push (node : Node Sem) (apart : other ≠ node.value.id) :
    (sems.push node).find other = sems.find other := by
  unfold find push values
  rw [List.map_append, List.find?_append, List.map_singleton,
    List.find?_cons_of_neg (by simpa using apart.symm), List.find?_nil,
    Option.or_none]

/-- A semaphore made in between makes no difference. -/
theorem given_push (node : Node Sem) (apart : id ≠ node.value.id) (other : ∀ sem, sems.find id = some sem →
      node.value.ref ≠ sem.ref) :
    (sems.push node).given id = (sems.given id).push node := by
  unfold given
  rw [find_push node apart]
  cases found : sems.find id with
  | none => rfl
  | some sem => simp [push, modify, other sem found]

end Sems

/-! ## Pipes -/

theorem getPipe_drops (grants : s.Grants) (proper : s.pipes.Proper n) (pipeId : Int) :
    Meets bad (getPipe pipeId) (fun found s' => found = s.pipes.find pipeId ∧ ∃ h, s.heap.Drops 0 h ∧
      s' = { s with heap := h, pipes := s.pipes.cache pipeId }) s := by
  unfold getPipe
  simp only [meets_bind, meets_get, meets_ite, meets_pure]
  constructor
  · intro cached
    obtain ⟨r, here, same⟩ := (Option.any_eq_true _ _).mp cached
    have found := pipe_find_eq proper (proper.cached r here) same
    rw [here, found]
    refine ⟨rfl, s.heap, .refl _, ?_⟩
    unfold Pipes.cache
    rw [found, ← here]
  · intro missed
    refine (find_drops grants _).mono ?_
    rintro found s' ⟨rfl, h, drops, rfl⟩
    exact ⟨rfl, h, drops, rfl⟩

/-- The blocks of a new pipe, and its two semaphores. -/
structure Makes (s : State) (node : Node Ref) (a b : Node Sem) (h : Heap) : Prop where
  takes : s.heap.Takes ({node.value} + semBlocks a + semBlocks b + {node.ref}) h
  low : s.heap.requests ≤ node.value
  numbered : s.sems.semId + 1 < INT_MAX
  nobody : a.value.blockedPids = [] ∧ b.value.blockedPids = []
  ids : a.value.id = s.sems.semId ∧ b.value.id = s.sems.semId + 1
  refs : s.heap.requests ≤ a.value.ref ∧ s.heap.requests ≤ b.value.ref
  empty : a.value.value = 0
  room : b.value.value = PIPE_BUFFER_SIZE

/-- The pipes with one more. -/
def Pipes.push (pipes : Pipes) (node : Node Ref) (p : Pipe) : Pipes :=
  { pipes with pipeQueue := pipes.pipeQueue ++ [node], pipes := Function.update pipes.pipes node.value (some p) }

theorem createPipe_takes (within : bad .overflow ∨ s.sems.semId + 1 < INT_MAX) (grants : s.Grants)
    (proper : s.sems.Proper s.heap.requests) (pipeId : Int) :
    Meets bad (createPipe pipeId) (fun found s' => ∃ node a b h history, found = some node.value ∧ Makes s node a b h ∧
      ((s.sems.push a).push b).Proper h.requests ∧ s' = { s with
        heap := h
        sems := (s.sems.push a).push b
        pipes := s.pipes.push node (.fresh pipeId a.value.id b.value.id)
        history }) s := by
  unfold createPipe
  rw [meets_bind, meets_malloc grants]
  simp only [meets_bind]
  have first : bad .overflow ∨ (s.withHeap s.heap.allocate).Counts 0 :=
    within.imp_right fun room => ⟨by decide, fun _ => Int.lt_trans (Int.lt_succ _) room⟩
  refine (semInit_takes (by exact grants) (by exact proper.grown (Nat.le_succ _)) first).mono ?_
  rintro readSemId s₁ ⟨rfl, -, a, h₁, fresh₁, rfl⟩
  have grants₁ : ∀ n, h₁.grants n = true := fun n => by
    rw [fresh₁.takes.grown.grants]
    exact grants n
  have proper₁ : (s.sems.push a).Proper h₁.requests := (proper.grown (Nat.le_succ _)).add fresh₁.added
  refine (semInit_takes (by exact grants₁) (by exact proper₁)
    (within.imp_right fun room => ⟨by decide, fun _ => room⟩)).mono ?_
  rintro writeSemId s₂ ⟨rfl, numbered, b, h₂, fresh₂, rfl⟩
  have given : ¬(s.sems.semId = -1 ∨ s.sems.semId + 1 = -1) := by
    have := proper.nextId
    omega
  rw [meets_ite]
  refine ⟨fun missing => (given missing).elim, fun _ => ?_⟩
  simp only [meets_bind, meets_modifyPipes, meets_get, meets_log, meets_pure]
  refine (enqueue_takes (by exact fun n => by rw [fresh₂.takes.grown.grants]; exact grants₁ n) _).mono ?_
  rintro queue s₃ ⟨node, same, rfl, h₃, takes, rfl⟩
  have later : s.heap.requests ≤ h₁.requests := (s.heap.grown_allocate.trans fresh₁.takes.grown).requests
  have makes : Makes s node a b h₃ := by
    refine ⟨?_, Nat.le_of_eq same.symm, numbered, ⟨fresh₁.nobody, fresh₂.nobody⟩, ⟨fresh₁.id, fresh₂.id⟩,
      ⟨Nat.le_of_succ_le fresh₁.low, Nat.le_trans later fresh₂.low⟩, fresh₁.value, fresh₂.value⟩
    rw [same]
    exact ((s.heap.takes_allocate.trans fresh₁.takes).trans fresh₂.takes).trans takes
  refine ⟨node, a, b, h₃,
    .pipeMade pipeId :: .created (s.sems.semId + 1) PIPE_BUFFER_SIZE :: .created s.sems.semId 0 :: s.history,
    congrArg some same.symm, makes, (proper₁.add fresh₂.added).grown takes.grown.requests, ?_⟩
  rw [Pipes.push, same, fresh₁.id, fresh₂.id]
  rfl

@[simp] theorem semId_given (sems : Sems) (id : Int) : (sems.given id).semId = sems.semId := by
  unfold Sems.given
  split <;> rfl

@[simp] theorem semId_taken (sems : Sems) (id : Int) : (sems.taken id).semId = sems.semId := by
  unfold Sems.taken
  split <;> rfl

/-! ## Opening -/

/-- What each action keeps, a program that goes on to its end keeps. -/
theorem Ends.keeps {α : Type} {p : Program State Fault α} {post : α → State → Prop} {inv : State → Prop}
    (ends : Ends bad p post s)
    (every : p.Every fun f => Keeps (fun _ => True) inv f) (here : inv s) :
    Ends bad p (fun a s' => post a s' ∧ inv s') s := by
  intro since
  replace ends := ends since
  induction p generalizing s with
  | done a => exact ⟨ends, here⟩
  | act action rest ih =>
    exact (Resumption.Meets.and ends (every.1 s here)).mono fun b s' later => ih b (every.2 b) later.2 later.1
  | pause rest ih => exact ends.1.elim

/-- The kernel is in order, a process runs, and the mutex of the pipes is free. -/
structure AtRest (s : State) : Prop where
  sound : Sound s
  guarded : s.Guarded
  attended : ∃ c q, s.procs.Attended c q
  unit : ∀ m, s.mutex = some m → 0 < m.value

theorem AtRest.nobody (atRest : AtRest s) (there : s.mutex = some m) : m.blockedPids = [] :=
  (atRest.guarded.sems.settled m (find_some there).1 (atRest.unit m there)).1

/-- The state while the mutex is held. -/
def State.held (s : State) (h : Heap) (history : List Event) : State :=
  { s with heap := h, sems := s.sems.taken s.pipes.allPipesSem, history }

theorem semWait_held (atRest : AtRest s) : Ends bad (semWait s.pipes.allPipesSem) (fun _ s' =>
    ∃ h history, s.heap.Drops 0 h ∧ s' = s.held h history) s :=
  semWait_free atRest.sound.grants atRest.sound.sems atRest.unit

theorem AtRest.held_nobody (atRest : AtRest s) : ∀ m,
    (s.sems.taken s.pipes.allPipesSem).find s.pipes.allPipesSem = some m → m.blockedPids = [] := by
  intro m found
  rw [Sems.find_taken_self] at found
  obtain ⟨m', there, rfl⟩ := Option.map_eq_some_iff.mp found
  exact atRest.nobody (m := m') there

/-- What was taken of the mutex can be put back. -/
theorem raises_taken (fits : bad .overflow ∨ ∀ m, s.mutex = some m → m.value ≤ INT_MAX) {sems : Sems}
    (kept : sems.find s.pipes.allPipesSem = (s.sems.taken s.pipes.allPipesSem).find s.pipes.allPipesSem) :
    Raises bad sems s.pipes.allPipesSem := by
  refine fits.imp_right fun fits m found => ?_
  rw [kept, Sems.find_taken_self] at found
  obtain ⟨m', there, rfl⟩ := Option.map_eq_some_iff.mp found
  exact Int.sub_one_lt_iff.mpr (fits m' there)

theorem AtRest.mutex_given (atRest : AtRest s) {sems : Sems} (kept : sems.find s.pipes.allPipesSem =
    (s.sems.taken s.pipes.allPipesSem).find s.pipes.allPipesSem) :
    (sems.given s.pipes.allPipesSem).find s.pipes.allPipesSem = s.mutex := by
  rw [Sems.find_given_self, kept, Sems.find_taken_self, Option.map_map]
  cases there : s.mutex with
  | none => exact congrArg (Option.map _) there
  | some m =>
    have unlocked := (atRest.sound.sems.plain m (find_some there).1).1
    refine (congrArg (Option.map _) there).trans ?_
    rw [Option.map_some, Function.comp_apply, Int.sub_add_cancel, ← unlocked, ← atRest.nobody there]

/-- The mutex is given back, after two semaphores were made. -/
theorem given_held (atRest : AtRest s) (a b : Node Sem) (ids : s.sems.semId ≤ a.value.id ∧ s.sems.semId ≤ b.value.id)
    (refs : s.heap.requests ≤ a.value.ref ∧ s.heap.requests ≤ b.value.ref) :
    (((s.sems.taken s.pipes.allPipesSem).push a).push b).given s.pipes.allPipesSem = (s.sems.push a).push b := by
  have early := atRest.guarded.sems.early.2
  have apart : s.pipes.allPipesSem ≠ a.value.id ∧ s.pipes.allPipesSem ≠ b.value.id := by omega
  have older : ∀ sem, (s.sems.taken s.pipes.allPipesSem).find s.pipes.allPipesSem = some sem →
    sem.ref < s.heap.requests := by
    intro sem found
    exact ((atRest.sound.sems.taken _).below sem (find_some found).1).1
  rw [Sems.given_push b apart.2, Sems.given_push a apart.1, Sems.given_taken atRest.sound.sems fun m => atRest.nobody]
  · exact fun sem found => Nat.ne_of_gt (Nat.lt_of_lt_of_le (older sem found) refs.1)
  · intro sem found
    rw [Sems.find_push a apart.1] at found
    exact Nat.ne_of_gt (Nat.lt_of_lt_of_le (older sem found) refs.2)

theorem Sound.held (sound : Sound s) (grown : s.heap.Grown h) (history : List Event) : Sound (s.held h history) :=
  ⟨sound.grants.grown grown, (sound.sems.taken _).grown grown.requests, sound.pipes.grown grown.requests⟩

/-- What `pipeOpen` comes to: the pipe is counted once more, or made. -/
inductive Gained (s : State) (pipeId : Int) : Multiset Ref → State → Prop
  | joined (history : List Event) (found : s.pipes.find pipeId = some r) (drops : s.heap.Drops 0 h) :
    Gained s pipeId 0 { s with
      heap := h
      pipes := (s.pipes.cache pipeId).modify r fun p => { p with totalProcesses := p.totalProcesses + 1 }
      history }
  | made (history : List Event) (absent : s.pipes.find pipeId = none) (drops : s.heap.Drops 0 h)
    (makes : Makes (s.withHeap h) node a b h') :
    Gained s pipeId ({node.value} + semBlocks a + semBlocks b + {node.ref}) { s with
      heap := h'
      sems := (s.sems.push a).push b
      pipes := ((s.pipes.cache pipeId).push node (.fresh pipeId a.value.id b.value.id)).modify node.value
        fun p => { p with totalProcesses := p.totalProcesses + 1 }
      history }

/-- The processes of the pipe can be counted, or its semaphores numbered, and the mutex can be put back. -/
structure State.Opens (s : State) (pipeId : Int) : Prop where
  counted : ∀ r p, s.pipes.find pipeId = some r → s.pipes.pipes r = some p → p.totalProcesses < INT_MAX
  numbered : s.sems.semId + 1 < INT_MAX
  mutex : ∀ m, s.mutex = some m → m.value ≤ INT_MAX

theorem pipeOpenEntered_gains (within : bad .overflow ∨ s.Opens pipeId) (atRest : AtRest s) (held : s.heap.Drops 0 h)
    (history : List Event) : Meets bad (pipeOpenEntered pipeId) (fun _ s' => ∃ taken, s.heap.Takes taken s'.heap ∧
      Gained s pipeId taken s') (s.held h history) := by
  have sound := atRest.sound.held held.grown history
  obtain ⟨c, q, attended⟩ := atRest.attended
  unfold pipeOpenEntered
  rw [meets_bind]
  refine (getPipe_drops sound.grants sound.pipes pipeId).mono ?_
  rintro found s₁ ⟨rfl, h₁, drops, rfl⟩
  have grants₁ : ∀ n, h₁.grants n = true := (sound.grants.withHeap drops.grown)
  obtain absent | ⟨r, found⟩ := (s.pipes.find pipeId).eq_none_or_eq_some
  · have absent' : (s.held h history).pipes.find pipeId = none := absent
    rw [absent']
    simp only [meets_bind]
    have numbered : bad .overflow ∨ (s.held h history).sems.semId + 1 < INT_MAX := by
      rw [State.held, semId_taken]
      exact within.imp_right State.Opens.numbered
    refine (createPipe_takes (by exact numbered) (by exact grants₁)
      (by exact sound.sems.grown drops.grown.requests) pipeId).mono ?_
    rintro _ s₂ ⟨node, a, b, h₂, history₂, rfl, makes, proper₂, rfl⟩
    simp only [meets_bind, meets_pure, meets_discard, meets_log, meets_modifyPipe]
    rw [meets_readPipe (by exact Function.update_self ..) rfl]
    refine meets_increment_within (.inr (show (0 : Int) < INT_MAX by decide)) fun _ => ?_
    have early := atRest.guarded.sems.early.2
    have low : s.heap.requests ≤ h₁.requests := (held.before drops).grown.requests
    have ids : a.value.id = s.sems.semId ∧ b.value.id = s.sems.semId + 1 := by
      have := makes.ids
      simp only [State.held, semId_taken] at this
      exact this
    have refs := And.intro (Nat.le_trans low makes.refs.1) (Nat.le_trans low makes.refs.2)
    have kept : (((s.sems.taken s.pipes.allPipesSem).push a).push b).find s.pipes.allPipesSem =
        (s.sems.taken s.pipes.allPipesSem).find s.pipes.allPipesSem := by
      rw [Sems.find_push b (by omega), Sems.find_push a (by omega)]
    have nobody : ∀ m, (((s.sems.taken s.pipes.allPipesSem).push a).push b).find s.pipes.allPipesSem = some m →
        m.blockedPids = [] := fun m found => atRest.held_nobody m (kept ▸ found)
    have raises := raises_taken (within.imp_right State.Opens.mutex) kept
    refine (semPost_alone (by exact raises) (by exact sound.grants.withHeap (drops.grown.trans makes.takes.grown))
      (by exact proper₂)
      (by exact attended) nobody).mono ?_
    rintro _ s₃ ⟨h₃, history₃, drops₃, rfl⟩
    rw [meets_readPipe (p := { Pipe.fresh pipeId a.value.id b.value.id with totalProcesses := 0 + 1 })
      (by simp [State.held, Pipes.modify, Pipes.push, Pipe.fresh]) rfl]
    have numbered' : s.sems.semId + 1 < INT_MAX := by
      have := makes.numbered
      simp only [State.held, semId_taken] at this
      exact this
    have makes' : Makes (s.withHeap h₁) node a b h₃ :=
      ⟨makes.takes.before drops₃, makes.low, numbered', makes.nobody, ids, makes.refs, makes.empty, makes.room⟩
    refine ⟨_, (held.before drops).nothing.trans makes'.takes, ?_⟩
    rw [zero_add]
    change Gained s pipeId _ { s with
      heap := h₃
      sems := (((s.sems.taken s.pipes.allPipesSem).push a).push b).given s.pipes.allPipesSem
      pipes := _
      history := history₃ }
    rw [given_held atRest a b (by omega) refs]
    exact .made history₃ absent (held.before drops) makes'
  · have found' : (s.held h history).pipes.find pipeId = some r := found
    rw [found']
    obtain ⟨member, p, here, isOpen, -⟩ := pipe_find_some atRest.sound.pipes found
    simp only [meets_bind, meets_pure, meets_discard, meets_log, meets_modifyPipe]
    rw [meets_readPipe (by exact here) isOpen]
    refine meets_increment_within (within.imp_right fun opens => opens.counted r p found here) fun _ => ?_
    have raises := raises_taken (within.imp_right State.Opens.mutex) rfl
    refine (semPost_alone (by exact raises) (by exact grants₁) (by exact sound.sems)
      (by exact attended) atRest.held_nobody).mono ?_
    rintro _ s₂ ⟨h₂, history₂, drops₂, rfl⟩
    rw [meets_readPipe (p := { p with totalProcesses := p.totalProcesses + 1 })
      (by simp [State.held, Pipes.modify, Pipes.cache, here]) isOpen]
    have all := held.before (drops.before drops₂)
    have given : (s.sems.taken s.pipes.allPipesSem).given s.pipes.allPipesSem = s.sems :=
      Sems.given_taken atRest.sound.sems fun m => atRest.nobody
    refine ⟨0, all.nothing, ?_⟩
    change Gained s pipeId 0 { s with
      heap := h₂, sems := (s.sems.taken s.pipes.allPipesSem).given s.pipes.allPipesSem, pipes :=
      _, history := history₂ }
    rw [given]
    exact .joined history₂ found all

theorem Gained.mutex (atRest : AtRest s) (gained : Gained s pipeId taken s') :
    s'.procs = s.procs ∧ s'.pipes.allPipesSem = s.pipes.allPipesSem ∧ s'.mutex = s.mutex := by
  cases gained with
  | joined history found drops => exact ⟨rfl, rfl, rfl⟩
  | @made h node a b h' history absent drops makes =>
    refine ⟨rfl, rfl, ?_⟩
    have early := atRest.guarded.sems.early.2
    obtain ⟨first, second⟩ : a.value.id = s.sems.semId ∧ b.value.id = s.sems.semId + 1 := makes.ids
    change ((s.sems.push a).push b).find s.pipes.allPipesSem = s.sems.find s.pipes.allPipesSem
    rw [Sems.find_push b (by omega), Sems.find_push a (by omega)]

/-- A new pipe is none of those that were there. -/
theorem Makes.older (makes : Makes (s.withHeap h) node a b h') (drops : s.heap.Drops 0 h)
    (proper : s.pipes.Proper s.heap.requests) :
    ∀ r ∈ values s.pipes.pipeQueue, r ≠ node.value := by
  intro r listed
  obtain ⟨p, here, -⟩ := proper.live r listed
  have low : h.requests ≤ node.value := makes.low
  exact Nat.ne_of_lt (Nat.lt_of_lt_of_le (proper.below r p here) (Nat.le_trans drops.grown.requests low))

/-- `pipeOpen` ends in its turn, and leaves the kernel as ready for the next. -/
theorem pipeOpen_gains (within : bad .overflow ∨ s.Opens pipeId) (atRest : AtRest s) :
    Ends bad (pipeOpen pipeId) (fun _ s' =>
    (∃ taken, s.heap.Takes taken s'.heap ∧ Gained s pipeId taken s') ∧ AtRest s') s := by
  have ends : Ends bad (pipeOpen pipeId) (fun _ s' =>
      (∃ taken, s.heap.Takes taken s'.heap ∧ Gained s pipeId taken s') ∧ Sound s') s := by
    unfold pipeOpen
    apply Ends.bind_get
    apply (Ends.discard (semWait_held atRest)).bind
    rintro _ s₁ ⟨h, history, held, rfl⟩
    obtain ⟨c, q, attended⟩ := atRest.attended
    have sound := atRest.sound.held held.grown history
    have spec : Meets (fun _ => True) _ _ _ := pipeOpenEntered_spec sound attended pipeId
    apply Ends.lift
    refine ((pipeOpenEntered_gains within atRest held history).and spec).mono ?_
    rintro _ s' ⟨gains, s₂, opened, posts⟩
    exact ⟨gains, posts.sound (opened.sound sound)⟩
  refine (ends.keeps (every_pipeOpen guards_sweeping.toElementary pipeId) atRest.guarded).mono ?_
  rintro _ s' ⟨⟨⟨taken, takes, gained⟩, sound⟩, guarded⟩
  obtain ⟨procs, -, mutex⟩ := gained.mutex atRest
  refine ⟨⟨taken, takes, gained⟩, sound, guarded, ?_, ?_⟩
  · rw [procs]
    exact atRest.attended
  · rw [mutex]
    exact atRest.unit

/-! ## Closing -/

/-- What was there is there: the semaphores, and the pipes with their counts. -/
structure State.Matches (s s' : State) : Prop where
  sems : s.sems.Same s'.sems
  pipeQueue : s'.pipes.pipeQueue = s.pipes.pipeQueue
  cards : ∀ r ∈ values s.pipes.pipeQueue, s'.pipes.card r = s.pipes.card r

theorem State.Matches.refl (s : State) : s.Matches s := ⟨.refl _, rfl, fun _ _ => rfl⟩

theorem State.Matches.trans (first : s.Matches s₁) (second : s₁.Matches s₂) : s.Matches s₂ := by
  refine ⟨first.sems.trans second.sems, second.pipeQueue.trans first.pipeQueue, fun r listed => ?_⟩
  rw [second.cards r (first.pipeQueue ▸ listed), first.cards r listed]

theorem hasId_card (pipes : Pipes) (pipeId : Int) (r : Ref) :
    pipes.hasId pipeId r = (pipes.card r).any (·.id = pipeId) := by
  unfold Pipes.hasId Pipes.card
  cases pipes.pipes r <;> rfl

theorem State.Matches.find (same : s.Matches s') (pipeId : Int) : s'.pipes.find pipeId = s.pipes.find pipeId := by
  unfold Pipes.find
  rw [same.pipeQueue]
  apply List.find?_congr
  intro r listed
  rw [hasId_card, hasId_card, same.cards r listed]

/-- The last two of a list are the last two of the other. -/
theorem forall_last_two {l l' : Queue Sem} (same : List.Forall₂ SameSem (l ++ [a, b]) l') :
    ∃ older a' b', l' = older ++ [a', b'] ∧ List.Forall₂ SameSem l older ∧ SameSem a a' ∧ SameSem b b' := by
  induction l generalizing l' with
  | nil =>
    cases same with
    | cons first rest =>
      cases rest with
      | cons second rest =>
        cases rest
        exact ⟨[], _, _, rfl, .nil, first, second⟩
  | cons x l ih =>
    cases same with
    | cons first rest =>
      obtain ⟨older, a', b', rfl, olds, sames⟩ := ih rest
      exact ⟨_ :: older, a', b', rfl, .cons first olds, sames⟩

variable (bad) in
/-- `semClose` of a semaphore that comes after others. -/
theorem semClose_later (grants : s.Grants) (proper : s.sems.Proper n) {id : Int}
    (queue : s.sems.semQueue = older ++ node :: rest)
    (apart : ∀ x ∈ older, x.value.id ≠ id) (here : node.value.id = id) : Meets bad (semClose id) (fun _ s' =>
      ∃ h, s.heap.Drops (semBlocks node) h ∧ s' = { s with heap := h, sems := s.sems.close id }) s ∧
      (s.sems.close id).semQueue = older ++ rest := by
  have later := @find_later _ older rest node (fun x => decide (x.value.id = id))
    (by simpa using apart) (by simpa using here)
  rw [← queue] at later
  exact ⟨semClose_drops grants proper later.1, later.2⟩

theorem removePipe_drops (found : s.pipes.pipeQueue.find? (s.pipes.hasId pipeId ·.value) = some node) :
    Meets bad (removePipe pipeId) (fun _ s' => ∃ h, s.heap.Drops ({node.ref} + {node.value}) h ∧
      s' = { s with heap := h, pipes := s.pipes.remove pipeId }) s := by
  have there : s.pipes.find pipeId = some node.value := by
    unfold Pipes.find values
    rw [List.find?_map]
    exact congrArg (Option.map Node.value) found
  unfold removePipe
  simp only [meets_bind, meets_get]
  refine (takeElement_drops found).mono ?_
  rintro _ s' ⟨rfl, h, drops, rfl⟩
  refine ⟨_, drops.trans (Heap.drops_release _ _), ?_⟩
  unfold Pipes.remove
  rw [there]
  rfl

/-- A close that is not the last. -/
theorem pipeCloseEntered_keeps (fits : bad .overflow ∨ ∀ m, s.mutex = some m → m.value ≤ INT_MAX)
    (atRest : AtRest s) (held : s.heap.Drops 0 h) (history : List Event) (here : s.pipes.pipes r = some p)
    (isOpen : p.freed = false) (more : 1 < p.totalProcesses) (pipeId : Int) :
    Meets bad (pipeCloseEntered r pipeId) (fun _ s' =>
      ∃ h' history', s.heap.Drops 0 h' ∧
        s' = { s with heap := h', pipes := s.pipes.modify r Pipe.leave, history := history' })
      (s.held h history) := by
  obtain ⟨c, q, attended⟩ := atRest.attended
  have sound := atRest.sound.held held.grown history
  have now : (s.pipes.modify r Pipe.leave).pipes r = some p.leave := by simp [Pipes.modify, here]
  have still : ¬p.leave.totalProcesses ≤ 0 := by
    change ¬p.totalProcesses - 1 ≤ 0
    omega
  have given : (s.sems.taken s.pipes.allPipesSem).given s.pipes.allPipesSem = s.sems :=
    Sems.given_taken atRest.sound.sems fun m => atRest.nobody
  unfold pipeCloseEntered
  simp only [meets_bind, meets_discard]
  rw [meets_readPipe (by exact here) isOpen, meets_modifyPipe, meets_log,
    meets_readPipe (p := p.leave) (by exact now) isOpen, meets_ite]
  refine ⟨fun last => (still last).elim, fun _ => ?_⟩
  simp only [meets_bind, meets_discard, meets_get, meets_pure]
  refine (semPost_alone (raises_taken fits rfl) (by exact sound.grants) (by exact sound.sems) (by exact attended)
    (by exact atRest.held_nobody)).mono ?_
  rintro _ s' ⟨h', history', drops, rfl⟩
  refine ⟨h', history', held.before drops, ?_⟩
  change { s with
    heap := h'
    sems := (s.sems.taken s.pipes.allPipesSem).given s.pipes.allPipesSem
    pipes := s.pipes.modify r Pipe.leave
    history := history' } = _
  rw [given]

theorem pipeQueue_remove (pipes : Pipes) (id : Int) :
    (pipes.remove id).pipeQueue = pipes.pipeQueue.eraseP (pipes.hasId id ·.value) := by
  unfold Pipes.remove
  cases pipes.find id <;> dsimp only <;> split <;> rfl

/-- The pipe that was added last is found under its id. -/
theorem last_pipe {pipes : Pipes} (proper : pipes.Proper n) (queue : pipes.pipeQueue = olds ++ [node])
    (isLast : node.value = r)
    (here : pipes.pipes r = some p) (same : p.id = pipeId) :
    pipes.pipeQueue.find? (pipes.hasId pipeId ·.value) = some node ∧
      pipes.pipeQueue.eraseP (pipes.hasId pipeId ·.value) = olds := by
  have once := proper.refs
  rw [queue, values, List.map_append, List.map_singleton, List.nodup_append] at once
  have others : ∀ x ∈ olds, ¬pipes.hasId pipeId x.value = true := by
    intro x member hasId
    obtain ⟨p', here', rfl⟩ := hasId_iff.mp hasId
    have listed : x.value ∈ values pipes.pipeQueue := by
      rw [queue]
      exact List.mem_map_of_mem (List.mem_append_left _ member)
    have listed' : r ∈ values pipes.pipeQueue := by
      rw [queue, ← isLast]
      exact List.mem_map_of_mem (List.mem_append_right _ (List.mem_singleton_self _))
    have one := proper.ids _ listed _ listed' p' p here' here same.symm
    exact once.2.2 _ (List.mem_map_of_mem member) _ (List.mem_singleton_self _) (one.trans isLast.symm)
  have there : pipes.hasId pipeId node.value = true := hasId_iff.mpr ⟨p, isLast ▸ here, same⟩
  rw [queue]
  have later := @find_later _ _ [] _ (fun x : Node Ref => pipes.hasId pipeId x.value) others there
  rwa [List.append_nil] at later

variable (bad) in
/-- Both semaphores of a pipe are closed, which come last. -/
theorem semClose_two (grants : s.Grants) (proper : s.sems.Proper n)
    (same : List.Forall₂ SameSem (older ++ [a, b]) s.sems.semQueue)
    {x y : Int} (ids : a.value.id = x ∧ b.value.id = y) (nobody : a.value.blockedPids = [] ∧ b.value.blockedPids = []) :
    Meets bad (semClose x) (fun _ s₁ =>
      Meets bad (semClose y) (fun _ s' => ∃ h, s.heap.Drops (semBlocks a + semBlocks b) h ∧
      s' = { s with heap := h, sems := (s.sems.close x).close y }) s₁) s ∧
      List.Forall₂ SameSem older ((s.sems.close x).close y).semQueue := by
  obtain ⟨older₁, a₁, b₁, queue₁, olds₁, first, second⟩ := forall_last_two same
  have once : ((values (older₁ ++ [a₁, b₁])).map Sem.id).Nodup := queue₁ ▸ proper.ids
  simp only [values, List.map_append, List.map_cons, List.map_nil, List.map_map, List.nodup_append, List.nodup_cons,
    List.mem_map, List.mem_cons, List.not_mem_nil, or_false, Function.comp_apply, forall_exists_index, and_imp,
    forall_apply_eq_imp_iff₂] at once
  obtain ⟨-, -, apart⟩ := once
  have firstId : a₁.value.id = x := first.id.trans ids.1
  have secondId : b₁.value.id = y := second.id.trans ids.2
  obtain ⟨close₁, queue₂⟩ := semClose_later bad grants proper queue₁
    (fun z member => firstId ▸ apart z member _ (.inl rfl)) firstId
  have close₂ := fun h (grown : s.heap.Grown h) =>
    semClose_later bad (s := { s with heap := h, sems := s.sems.close x })
    (grants.withHeap grown) (proper.close x) queue₂ (fun z member => secondId ▸ apart z member _ (.inr rfl)) secondId
  rw [first.blocks nobody.1] at close₁
  simp only [second.blocks nobody.2] at close₂
  refine ⟨close₁.mono ?_, ?_⟩
  · rintro _ s₁ ⟨h₁, drops₁, rfl⟩
    refine (close₂ h₁ drops₁.grown).1.mono ?_
    rintro _ s₂ ⟨h₂, drops₂, rfl⟩
    exact ⟨h₂, drops₁.trans drops₂, rfl⟩
  · rw [(close₂ s.heap (.refl _)).2, List.append_nil]
    exact olds₁

/-- The last close of a pipe whose semaphores are the last two. -/
theorem pipeCloseEntered_last (fits : bad .overflow ∨ ∀ m, s.mutex = some m → m.value ≤ INT_MAX)
    (atRest : AtRest s) (held : s.heap.Drops 0 h) (history : List Event) (here : s.pipes.pipes r = some p)
    (isOpen : p.freed = false) (last : p.totalProcesses ≤ 1) (same : p.id = pipeId)
    (queue : s.pipes.pipeQueue = olds ++ [node]) (isLast : node.value = r)
    (sems : s.sems.semQueue = older ++ [a, b]) (ids : a.value.id = p.readSemId ∧ b.value.id = p.writeSemId)
    (nobody : a.value.blockedPids = [] ∧ b.value.blockedPids = []) : Meets bad (pipeCloseEntered r pipeId) (fun _ s' =>
      s.heap.Drops (semBlocks a + semBlocks b + ({node.ref} + {node.value})) s'.heap ∧
        List.Forall₂ SameSem older s'.sems.semQueue ∧
      s'.pipes = (s.pipes.modify r Pipe.leave).remove pipeId ∧ s'.procs = s.procs ∧
      s'.mutex = s.mutex ∧ s'.sems.semId = s.sems.semId) (s.held h history) := by
  obtain ⟨c, q, attended⟩ := atRest.attended
  have sound := atRest.sound.held held.grown history
  have now : (s.pipes.modify r Pipe.leave).pipes r = some p.leave := by simp [Pipes.modify, here]
  have still : p.leave.totalProcesses ≤ 0 := by
    change p.totalProcesses - 1 ≤ 0
    omega
  unfold pipeCloseEntered
  simp only [meets_bind, meets_discard]
  rw [meets_readPipe (by exact here) isOpen, meets_modifyPipe, meets_log,
    meets_readPipe (p := p.leave) (by exact now) isOpen, meets_ite]
  refine ⟨fun _ => ?_, fun more => (more still).elim⟩
  have sames := Sems.same_taken s.sems s.pipes.allPipesSem
  unfold Sems.Same at sames
  rw [sems] at sames
  have closes := semClose_two bad
    (s := { s.held h history with pipes := s.pipes.modify r Pipe.leave, history := .pipeClosed pipeId :: history })
    (by exact sound.grants) (by exact sound.sems) (by exact sames) ids nobody
  simp only [meets_bind, meets_discard]
  refine closes.1.mono fun _ s₁ closing => closing.mono ?_
  rintro _ s₂ ⟨h₂, drops₂, rfl⟩
  have left := atRest.sound.pipes.modify r (f := Pipe.leave) fun _ => ⟨rfl, rfl⟩
  have found := (last_pipe left queue isLast (p := p.leave) now same).1
  refine (removePipe_drops (by exact found)).mono ?_
  rintro _ s₃ ⟨h₃, drops₃, rfl⟩
  simp only [meets_get, allPipesSem_remove]
  have apart := atRest.guarded.pipes.apart r p here
  have kept : (((s.sems.taken s.pipes.allPipesSem).close p.readSemId).close p.writeSemId).find s.pipes.allPipesSem =
      (s.sems.taken s.pipes.allPipesSem).find s.pipes.allPipesSem := by
    rw [find_close_other _ apart.2.symm, find_close_other _ apart.1.symm]
  refine (semPost_alone (by exact raises_taken fits kept)
    (by exact sound.grants.withHeap (drops₂.grown.trans drops₃.grown))
    (by exact (sound.sems.close _).close _) (by exact attended) (by
      intro m found
      exact atRest.held_nobody m (kept ▸ found))).mono ?_
  rintro _ s₄ ⟨h₄, history₄, drops₄, rfl⟩
  refine ⟨held.after (drops₂.trans (drops₃.before drops₄)),
    forall_trans closes.2 (Sems.same_given _ _), rfl, rfl, ?_, ?_⟩
  · unfold State.mutex
    simp only [allPipesSem_remove]
    exact atRest.mutex_given kept
  · rw [semId_given]
    exact semId_taken s.sems s.pipes.allPipesSem

/-- The state after the pipe was looked up. -/
def State.looked (s : State) (pipeId : Int) : State := { s with pipes := s.pipes.cache pipeId }

theorem AtRest.looked (atRest : AtRest s) (pipeId : Int) : AtRest (s.looked pipeId) :=
  ⟨⟨atRest.sound.grants, atRest.sound.sems, atRest.sound.pipes.cache pipeId⟩,
    ⟨atRest.guarded.sems, atRest.guarded.pipes.cache fun _ found => (pipe_find_some atRest.sound.pipes found).1⟩,
    atRest.attended,
    atRest.unit⟩

/-- `pipeClose` of a pipe that is there comes to what is done while the mutex is held. -/
theorem pipeClose_ends (atRest : AtRest s) (found : s.pipes.find pipeId = some r) {post : State → Prop}
    (entered : ∀ h history, s.heap.Drops 0 h →
      Meets bad (pipeCloseEntered r pipeId) (fun _ => post) ((s.looked pipeId).held h history))
    (frame : ∀ s', post s' → s'.procs = s.procs ∧ s'.mutex = s.mutex) :
    Ends bad (pipeClose pipeId) (fun _ s' => post s' ∧ AtRest s') s := by
  obtain ⟨c, q, attended⟩ := atRest.attended
  have ends : Ends bad (pipeClose pipeId) (fun _ s' => post s' ∧ Sound s') s := by
    unfold pipeClose
    apply Ends.bind (.lift (getPipe_drops atRest.sound.grants atRest.sound.pipes pipeId))
    rintro _ s₁ ⟨rfl, h, drops, rfl⟩
    have atRest₁ := atRest.looked pipeId
    simp only [found]
    apply Ends.bind_get
    have grants : ∀ n, h.grants n = true := atRest.sound.grants.withHeap drops.grown
    apply (Ends.discard (semWait_free (by exact grants) (by exact atRest.sound.sems) (by exact atRest.unit))).bind
    rintro _ s₂ ⟨h₂, history, drops₂, rfl⟩
    have held : s.heap.Drops 0 h₂ := drops.before drops₂
    have sound := atRest₁.sound.held (by exact held.grown) history
    obtain ⟨-, p, here, isOpen, -⟩ := pipe_find_some atRest.sound.pipes found
    have spec : Meets (fun _ => True) _ _ _ :=
      pipeCloseEntered_spec sound (by exact attended) (by exact here) isOpen pipeId
    apply Ends.lift
    refine ((entered h₂ history held).and spec).mono ?_
    rintro _ s' ⟨closed, s₃, before, posts⟩
    exact ⟨closed, posts.sound (before.sound sound)⟩
  refine (ends.keeps (every_pipeClose guards_sweeping.toElementary pipeId) atRest.guarded).mono ?_
  rintro _ s' ⟨⟨closed, sound⟩, guarded⟩
  obtain ⟨procs, mutex⟩ := frame s' closed
  refine ⟨closed, sound, guarded, ⟨c, q, ?_⟩, ?_⟩
  · rw [procs]
    exact attended
  · rw [mutex]
    exact atRest.unit

theorem card_modify_other (pipes : Pipes) {f : Pipe → Pipe} (other : r' ≠ r) :
    (pipes.modify r f).card r' = pipes.card r' := by
  exact congrArg (Option.map Pipe.card) (Function.update_of_ne other ..)

/-- A pipe that was joined is left. -/
theorem pipeClose_joined (fits : bad .overflow ∨ ∀ m, s₂.mutex = some m → m.value ≤ INT_MAX)
    (matched : s₁.Matches s₂) (atRest : AtRest s₂) (proper : s.pipes.Proper n) (sems : s₁.sems = s.sems)
    (found : s.pipes.find pipeId = some r)
    (counted : ∀ p, s.pipes.pipes r = some p → 0 < p.totalProcesses)
    (pipes : s₁.pipes = (s.pipes.cache pipeId).modify r fun p => { p with totalProcesses := p.totalProcesses + 1 }) :
    Ends bad (pipeClose pipeId) (fun _ s' => (s₂.heap.Drops 0 s'.heap ∧ s.Matches s' ∧
      s'.procs = s₂.procs ∧ s'.mutex = s₂.mutex) ∧
      AtRest s') s₂ := by
  obtain ⟨listed, p, here, isOpen, same⟩ := pipe_find_some proper found
  have queue : s₁.pipes.pipeQueue = s.pipes.pipeQueue := by rw [pipes]; rfl
  have joined : s₁.pipes.card r = some { p.card with totalProcesses := p.totalProcesses + 1 } := by
    rw [pipes]
    simp [Pipes.card, Pipes.modify, Pipes.cache, here, Pipe.card]
  obtain ⟨p₂, here₂, card₂⟩ := card_some ((matched.cards r (queue ▸ listed)).trans joined)
  have listed₂ : r ∈ values s₂.pipes.pipeQueue := by
    rw [matched.pipeQueue, queue]
    exact listed
  have id₂ : p₂.id = pipeId := (congrArg Card.id card₂).trans same
  have isOpen₂ : p₂.freed = false := (congrArg Card.freed card₂).trans isOpen
  have total₂ : p₂.totalProcesses = p.totalProcesses + 1 := congrArg Card.totalProcesses card₂
  have more := counted p here
  have found₂ := pipe_find_eq atRest.sound.pipes listed₂ (hasId_iff.mpr ⟨p₂, here₂, id₂⟩)
  apply pipeClose_ends atRest found₂ (fun h history held => ?_) fun s' closed => closed.2.2
  refine (pipeCloseEntered_keeps (by exact fits) (atRest.looked pipeId) held history (by exact here₂) isOpen₂
    (by omega) pipeId).mono ?_
  rintro _ s' ⟨h', history', drops, rfl⟩
  refine ⟨drops, ⟨sems ▸ matched.sems, matched.pipeQueue.trans queue, fun r' listed' => ?_⟩, rfl, rfl⟩
  by_cases this : r' = r
  · subst this
    have left : p₂.leave.card = p.card := by
      unfold Pipe.card at card₂ ⊢
      simp only [Card.mk.injEq] at card₂
      simp [Pipe.leave, card₂]
    simp [Pipes.card, Pipes.modify, State.looked, Pipes.cache, here, here₂, left]
  · have other := matched.cards r' (queue ▸ listed')
    have before : s₁.pipes.card r' = s.pipes.card r' := by
      rw [pipes, card_modify_other _ this]
      rfl
    change ((s₂.pipes.cache pipeId).modify r Pipe.leave).card r' = s.pipes.card r'
    rw [card_modify_other _ this]
    exact other.trans before

/-- A pipe that was made goes, and its semaphores with it. -/
theorem pipeClose_made (fits : bad .overflow ∨ ∀ m, s₂.mutex = some m → m.value ≤ INT_MAX)
    (matched : s₁.Matches s₂) (atRest : AtRest s₂) (older : ∀ r ∈ values s.pipes.pipeQueue, r ≠ node.value)
    (sems : s₁.sems = (s.sems.push a).push b) (nobody : a.value.blockedPids = [] ∧ b.value.blockedPids = [])
    (pipes : s₁.pipes = ((s.pipes.cache pipeId).push node (.fresh pipeId a.value.id b.value.id)).modify node.value
      fun p => { p with totalProcesses := p.totalProcesses + 1 }) :
    Ends bad (pipeClose pipeId) (fun _ s' =>
      (s₂.heap.Drops (semBlocks a + semBlocks b + ({node.ref} + {node.value})) s'.heap ∧
      s.Matches s' ∧ s'.procs = s₂.procs ∧ s'.mutex = s₂.mutex ∧ s'.sems.semId = s₂.sems.semId) ∧ AtRest s') s₂ := by
  have queue : s₂.pipes.pipeQueue = s.pipes.pipeQueue ++ [node] := by
    rw [matched.pipeQueue, pipes]
    rfl
  have made : s₁.pipes.card node.value =
      some { (Pipe.fresh pipeId a.value.id b.value.id).card with totalProcesses := 1 } := by
    rw [pipes]
    simp [Pipes.card, Pipes.modify, Pipes.push, Pipe.card, Pipe.fresh]
  have listed₂ : node.value ∈ values s₂.pipes.pipeQueue := by
    rw [queue]
    exact List.mem_map_of_mem (List.mem_append_right _ (List.mem_singleton_self _))
  obtain ⟨p₂, here₂, card₂⟩ := card_some ((matched.cards node.value (matched.pipeQueue ▸ listed₂)).trans made)
  have id₂ : p₂.id = pipeId := congrArg Card.id card₂
  have isOpen₂ : p₂.freed = false := congrArg Card.freed card₂
  have total₂ : p₂.totalProcesses = 1 := congrArg Card.totalProcesses card₂
  have found₂ := pipe_find_eq atRest.sound.pipes listed₂ (hasId_iff.mpr ⟨p₂, here₂, id₂⟩)
  have sames := matched.sems
  unfold Sems.Same at sames
  rw [sems, Sems.push, Sems.push, List.append_assoc] at sames
  obtain ⟨olds, a₂, b₂, split, olds₂, first, second⟩ := forall_last_two sames
  have ids : a₂.value.id = p₂.readSemId ∧ b₂.value.id = p₂.writeSemId := by
    rw [first.id, second.id]
    exact ⟨(congrArg Card.readSemId card₂).symm, (congrArg Card.writeSemId card₂).symm⟩
  have nobody₂ : a₂.value.blockedPids = [] ∧ b₂.value.blockedPids = [] := by
    obtain ⟨-, _, _, _, same₁, still₁⟩ := first
    obtain ⟨-, _, _, _, same₂, still₂⟩ := second
    rw [same₁, same₂]
    exact ⟨still₁ nobody.1, still₂ nobody.2⟩
  have left : ((s₂.pipes.cache pipeId).modify node.value Pipe.leave).Proper s₂.heap.requests :=
    (atRest.sound.pipes.cache pipeId).modify _ fun _ => ⟨rfl, rfl⟩
  have now : ((s₂.pipes.cache pipeId).modify node.value Pipe.leave).pipes node.value = some p₂.leave := by
    simp [Pipes.modify, Pipes.cache, here₂]
  have erased := (last_pipe left queue rfl now id₂).2
  have there := pipe_find_eq left (by exact listed₂) (hasId_iff.mpr ⟨_, now, id₂⟩)
  apply pipeClose_ends atRest found₂ (fun h history held => ?_) fun s' closed => ⟨closed.2.2.1, closed.2.2.2.1⟩
  refine (pipeCloseEntered_last (by exact fits) (atRest.looked pipeId) held history (by exact here₂) isOpen₂
    (Int.le_of_eq total₂) id₂
    (by exact queue) rfl (by exact split) ids nobody₂).mono ?_
  rintro _ s' ⟨drops, semQueue, pipes', procs, mutex, semId⟩
  rw [first.blocks nobody.1, second.blocks nobody.2] at drops
  obtain ⟨-, blocks, -⟩ := remove_some left there
  refine ⟨drops, ⟨forall_trans olds₂ semQueue, ?_, fun r listed => ?_⟩, procs, mutex, semId⟩
  · rw [pipes', pipeQueue_remove]
    exact erased
  · have other := older r listed
    have removed : s'.pipes.card r = ((s₂.pipes.cache pipeId).modify node.value Pipe.leave).card r := by
      rw [pipes']
      refine congrArg (Option.map Pipe.card) ((congrFun blocks r).trans ?_)
      exact Function.update_of_ne other ..
    have listed' : r ∈ values s₁.pipes.pipeQueue := by
      rw [← matched.pipeQueue, queue, values, List.map_append]
      exact List.mem_append_left _ listed
    have before : s₁.pipes.card r = s.pipes.card r := by
      rw [pipes, card_modify_other _ other]
      exact congrArg (Option.map Pipe.card) (Function.update_of_ne other ..)
    rw [removed, card_modify_other _ other, ← before]
    exact matched.cards r listed'

/-! ## Again and again -/

/-- A program that never pauses and raises no fault. -/
theorem Ends.finishes {α : Type} {p : Program State Fault α} {post : α → State → Prop}
    (ends : Ends (fun _ => False) p post s) :
    ∃ a s', p.execute s = .ok (.finished a s') ∧ post a s' := by
  obtain ⟨outcome, ran, comes⟩ := (ends s).returns
  cases outcome with
  | paused rest s' => exact comes.1.elim
  | finished a s' => exact ⟨a, s', ran, comes⟩

/-- `init` opens a pipe and closes it again, so many times. -/
def openAndClose : Nat → List Move
  | 0 => []
  | n + 1 => .call (.pipeOpen 7) :: .call (.pipeClose 7) :: openAndClose n

/-- The kernel before `init`'s first call, all requests granted. -/
abbrev started : State := initState (fun _ => true) (none, [])

/-- `init` is alone, and is to make its next call. -/
structure AtInit (S : System) : Prop where
  due : S.due = false
  procs : S.state.procs = started.procs
  fresh : S.contexts initRef = none

theorem AtInit.take (alone : AtInit S) (call : Call) (ran : call.perform.execute S.state = .ok (.finished a s')) :
    take (fun _ _ => true) S (.call call) = some { S with state := s' } := by
  have running : S.state.procs.currentProcessPCB = some initRef := by
    rw [alone.procs]
    rfl
  have awake : some initRef ≠ S.state.procs.idleProcessPCB := by
    rw [alone.procs]
    decide
  exact take_call _ alone.due running awake alone.fresh rfl ran

theorem AtInit.after (alone : AtInit S) (procs : s'.procs = S.state.procs) : AtInit { S with state := s' } :=
  ⟨alone.due, procs.trans alone.procs, alone.fresh⟩

/-- Between two openings, so many semaphores have been numbered. -/
structure Numbers (S : System) (next : Int) : Prop extends AtInit S where
  atRest : AtRest S.state
  absent : S.state.pipes.find 7 = none
  mutex : S.state.mutex = started.mutex
  next : S.state.sems.semId = next

namespace Numbers
variable {S : System} {next : Int}

theorem start : Numbers ⟨started, fun _ => none, false⟩ 6 := by
  have run : Run (fun _ _ => True) (boot (fun _ => true) (none, [])) ⟨started, fun _ => none, false⟩ :=
    .single (initState_step _ _ _)
  have ordered := ordered_reachable run
  have working : Working started initRef := ⟨ordered.sound, ordered.table, rfl⟩
  have unit : ∀ m, started.mutex = some m → 0 < m.value := by
    intro m there
    cases there
    decide
  exact ⟨⟨rfl, rfl, rfl⟩, ⟨ordered.sound, initState_guarded _ _, ⟨initRef, working.attended⟩, unit⟩,
    by decide, rfl, rfl⟩

theorem fits (numbers : Numbers S next) : ∀ m, S.state.mutex = some m → m.value ≤ INT_MAX := by
  rw [numbers.mutex]
  intro m there
  cases there
  decide

theorem opens (numbers : Numbers S next) (left : next + 1 < INT_MAX) : S.state.Opens 7 := by
  refine ⟨fun r p found => ?_, numbers.next ▸ left, numbers.fits⟩
  cases numbers.absent.symm.trans found

/-- While there are numbers left, each turn takes two. -/
theorem round (numbers : Numbers S next) (left : next + 1 < INT_MAX) :
    ∃ S', play (fun _ _ => true) (openAndClose 1) S = some S' ∧ Numbers S' (next + 2) := by
  obtain ⟨a, s', opened, ⟨taken, takes, gained⟩, atRest⟩ :=
    (pipeOpen_gains (.inr (numbers.opens left)) numbers.atRest).finishes
  have first := numbers.toAtInit.take (.pipeOpen 7) opened
  obtain ⟨procs, mutexId, mutex⟩ := gained.mutex numbers.atRest
  have fits : ∀ m, s'.mutex = some m → m.value ≤ INT_MAX := mutex ▸ numbers.fits
  have between := numbers.toAtInit.after procs
  cases gained with
  | joined history found drops => cases numbers.absent.symm.trans found
  | @made h node a b h' history absent drops makes =>
    have older := makes.older drops numbers.atRest.sound.pipes
    obtain ⟨a', s'', closed, ⟨-, same, procs', mutex', semId⟩, atRest'⟩ :=
      (pipeClose_made (.inr fits) (.refl _) atRest older rfl makes.nobody rfl).finishes
    have second := between.take (.pipeClose 7) closed
    refine ⟨_, ?_, ⟨between.after procs', atRest', ?_, ?_, ?_⟩⟩
    · simp only [openAndClose, play, first, second, Option.bind_some]
    · exact (same.find 7).trans numbers.absent
    · exact (mutex'.trans mutex).trans numbers.mutex
    · calc s''.sems.semId = S.state.sems.semId + 1 + 1 := semId
        _ = next + 2 := by rw [numbers.next, Int.add_assoc]; rfl

theorem rounds (numbers : Numbers S next) (n : Nat) (left : next + 2 * n < INT_MAX) :
    ∃ S', play (fun _ _ => true) (openAndClose n) S = some S' ∧ Numbers S' (next + 2 * n) := by
  induction n generalizing S next with
  | zero => exact ⟨S, rfl, by simpa using numbers⟩
  | succ n ih =>
    obtain ⟨S₁, first, numbers₁⟩ := numbers.round (by omega)
    obtain ⟨S₂, rest, numbers₂⟩ := ih numbers₁ (by omega)
    have total : next + 2 + 2 * (n : Int) = next + 2 * ((n + 1 : Nat) : Int) := by omega
    refine ⟨S₂, ?_, total ▸ numbers₂⟩
    calc play (fun _ _ => true) (openAndClose (n + 1)) S
        = play (fun _ _ => true) (openAndClose 1 ++ openAndClose n) S := rfl
      _ = some S₂ := by rw [play_append, first, Option.bind_some, rest]

/-- There is no number for the second of the pipe's semaphores. -/
theorem overflows (numbers : Numbers S next) (last : INT_MAX ≤ next + 1) :
    (pipeOpen 7).execute S.state = .error .overflow := by
  have opens : Ends (· = .overflow) (pipeOpen 7) _ _ := pipeOpen_gains (.inl rfl) numbers.atRest
  obtain ⟨outcome, -, comes⟩ | ⟨_, overflow, rfl⟩ := (opens S.state).ends
  · cases outcome with
    | paused rest s' => exact comes.1.elim
    | finished a s' =>
      obtain ⟨⟨taken, takes, gained⟩, -⟩ := comes
      cases gained with
      | joined history found drops => cases numbers.absent.symm.trans found
      | made history absent drops makes =>
        have numbered : S.state.sems.semId + 1 < INT_MAX := makes.numbered
        rw [numbers.next] at numbered
        omega
  · exact overflow

theorem exhausts (n : Nat) (left : 6 + 2 * (n : Int) < INT_MAX) (last : INT_MAX ≤ 6 + 2 * (n : Int) + 1) :
    ∃ S, play (fun _ _ => true) (.schedule :: openAndClose n) (boot (fun _ => true) (none, [])) = some S ∧
      (pipeOpen 7).execute S.state = .error .overflow := by
  obtain ⟨S, played, numbers⟩ := start.rounds n left
  refine ⟨S, ?_, numbers.overflows last⟩
  calc play (fun _ _ => true) (.schedule :: openAndClose n) (boot (fun _ => true) (none, []))
      = play (fun _ _ => true) (openAndClose n) ⟨started, fun _ => none, false⟩ := rfl
    _ = some S := played

end Numbers

/-- Each new pipe takes two numbers, and they are used up long before 2^31 openings. -/
theorem pipes_exact_overflows : ∃ S, play (fun _ _ => true) (.schedule :: openAndClose 1073741820)
    (boot (fun _ => true) (none, [])) = some S ∧ (pipeOpen 7).execute S.state = .error .overflow :=
  Numbers.exhausts 1073741820 (by decide) (by decide)

end QuesOs.Kernel
