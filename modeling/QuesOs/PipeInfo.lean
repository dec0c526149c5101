import QuesOs.Guarded

/-! What `getPipeInfo` reports: every pipe, its two semaphores and who waits for
them. The report is made of many requests for memory, and how many it makes
depends on which are granted. -/
namespace QuesOs.Kernel
open Resumption

variable {s : State}

/-! ## `shared.h` -/

/-- `array` is `NULL` or the block that `pids` were written to. -/
structure UserlandBlockedPids where
  ref : Ref
  array : Option Ref
  pids : List Int
  length : Int

structure UserlandSem where
  ref : Ref
  attachedProcesses : Nat
  id : Int
  value : Int
  lock : Int
  name : String
  nameRef : Ref
  blockedPids : Option UserlandBlockedPids

structure UserlandPipe where
  id : Int
  writeIndex : Nat
  readIndex : Nat
  totalProcesses : Int
  readSem : Option UserlandSem
  writeSem : Option UserlandSem

/-- `pipes` are the elements of `array` that were written. -/
structure UserlandPipeInfo where
  ref : Ref
  array : Ref
  pipes : List UserlandPipe
  length : Int
  pipeBufferSize : Nat

/-! ## `sem.c` and `pipes.c` -/

/-- `malloc(sizeof(...) * length)`. Both allocators return `NULL` when 0 bytes are asked for. -/
def mallocArray (length : Nat) : K (Option Ref) := if length = 0 then return none else malloc

def getBlockedPids (semId : Int) : K (Option UserlandBlockedPids) := do
  let sem ← findSem semId
  match ← malloc with
  | none => return none
  | some blockedPids =>
    match sem with
    | none => return some { ref := blockedPids, array := none, pids := [], length := -1 }
    | some sem =>
      discard <| deref sem.queueRef
      match ← mallocArray sem.blockedPids.length with
      | none =>
        free blockedPids
        return none
      | some array =>
        let it ← malloc
        it.forM free
        -- without memory for the iterator nothing is written
        let pids := if it.isSome then sem.pids else []
        return some { ref := blockedPids, array := some array, pids, length := sem.blockedPids.length }

def getSingleSem (semId : Int) : K (Option UserlandSem) := do
  match ← findSem semId with
  | none => return none
  | some sem =>
    match ← malloc with
    | none => return none
    | some semToRet =>
      match ← malloc with
      | none =>
        free semToRet
        return none
      | some name =>
        let blockedPids ← getBlockedPids sem.id
        return some
          { ref := semToRet, attachedProcesses := sem.attachedProcesses, id := sem.id,
            value := sem.value, lock := sem.lock,
            name := sem.name, nameRef := name, blockedPids }

/-- The loop of `getPipeInfo`. -/
def getPipeInfoLoop : List Ref → K (List UserlandPipe)
  | [] => return []
  | pipe :: rest => do
    let p ← readPipe pipe
    let readSem ← getSingleSem p.readSemId
    let writeSem ← getSingleSem p.writeSemId
    let others ← getPipeInfoLoop rest
    return { id := p.id, writeIndex := p.writeIndex, readIndex := p.readIndex,
             totalProcesses := p.totalProcesses, readSem, writeSem } :: others

/-- `getPipeInfo` once it has `allPipesSem`. -/
def getPipeInfoEntered (info : Ref) : K (Option UserlandPipeInfo) := do
  let pipeQueue := (← get).pipes.pipeQueue
  match ← mallocArray pipeQueue.length with
  | none =>
    free info
    return none
  | some array =>
    let it ← malloc
    let pipes ← getPipeInfoLoop (if it.isSome then values pipeQueue else [])
    it.forM free
    discard <| semPost (← get).pipes.allPipesSem
    return some { ref := info, array, pipes, length := pipeQueue.length, pipeBufferSize := PIPE_BUFFER_SIZE }

def getPipeInfo : Task (Option UserlandPipeInfo) := do
  match ← malloc with
  | none => return none
  | some info =>
    discard <| semWait (← (get : K State)).pipes.allPipesSem
    getPipeInfoEntered info

section
variable {P : ∀ {α : Type}, K α → Prop} (holds : Primitive P)
include holds

theorem built_mallocArray (length : Nat) : P (mallocArray length) := built_ite (holds.ends _) holds.asks

theorem built_getBlockedPids (semId : Int) : P (getBlockedPids semId) := by
  refine holds.follows (built_findSem holds semId) fun sem => holds.follows holds.asks fun blockedPids => ?_
  cases blockedPids with
  | none => exact holds.ends _
  | some blockedPids =>
    cases sem with
    | none => exact holds.ends _
    | some sem =>
      refine holds.follows (built_discard holds (built_deref holds _)) fun _ =>
        holds.follows (built_mallocArray holds _) fun array => ?_
      cases array with
      | none => exact holds.follows (holds.releases _) fun _ => holds.ends _
      | some array =>
        exact holds.follows holds.asks fun it => holds.follows (built_freeOption holds it) fun _ => holds.ends _

theorem built_getSingleSem (semId : Int) : P (getSingleSem semId) := by
  refine holds.follows (built_findSem holds semId) fun sem => ?_
  cases sem with
  | none => exact holds.ends _
  | some sem =>
    refine holds.follows holds.asks fun semToRet => ?_
    cases semToRet with
    | none => exact holds.ends _
    | some semToRet =>
      refine holds.follows holds.asks fun name => ?_
      cases name with
      | none => exact holds.follows (holds.releases _) fun _ => holds.ends _
      | some name => exact holds.follows (built_getBlockedPids holds _) fun _ => holds.ends _

theorem built_getPipeInfoLoop (refs : List Ref) : P (getPipeInfoLoop refs) := by
  induction refs with
  | nil => exact holds.ends _
  | cons pipe rest ih =>
    exact holds.follows (built_readPipe holds pipe) fun _ => holds.follows (built_getSingleSem holds _) fun _ =>
      holds.follows (built_getSingleSem holds _) fun _ => holds.follows ih fun _ => holds.ends _

end

theorem every_getPipeInfo {P : ∀ {α : Type}, K α → Prop} (holds : Elementary P) : getPipeInfo.Every P := by
  have base := holds.toPrimitive
  have entered : ∀ info, P (getPipeInfoEntered info) := by
    intro info
    refine base.follows base.reads fun s => base.follows (built_mallocArray base _) fun array => ?_
    cases array with
    | none => exact base.follows (base.releases _) fun _ => base.ends _
    | some array =>
      exact base.follows base.asks fun it => base.follows (built_getPipeInfoLoop base _) fun _ =>
        base.follows (built_freeOption base it) fun _ => base.follows base.reads fun _ =>
        base.follows (built_discard base (holds.posts _)) fun _ => base.ends _
  refine (Program.Every.lift base.asks).bind fun info => ?_
  cases info with
  | none => exact .pure _
  | some info =>
    exact (every_get holds).bind fun _ => (every_semWait holds _).discard.bind fun _ => .lift (entered info)

/-! ## How many requests a report makes -/

/-- The request that is due after `getBlockedPids`, where `n` is due before it, and `sem` is what there
is to be found. It stops at a semaphore without a queue. -/
def Heap.afterBlockedPids (heap : Heap) (n : Nat) (sem : Option Sem) : Option Nat :=
  if heap.Grants (n + 1) then
    match if heap.Grants n then sem else none with
    | none => some (n + 2)
    | some sem =>
      if sem.queueRef.isNone then none
      else if sem.blockedPids.length = 0 then some (n + 2)
      else if heap.Grants (n + 2) then some (n + 4)
      else some (n + 3)
  else some (n + 2)

/-- The same for `getSingleSem`. -/
def Heap.afterSingleSem (heap : Heap) (n : Nat) (sem : Option Sem) : Option Nat :=
  match if heap.Grants n then sem else none with
  | none => some (n + 1)
  | some _ =>
    if heap.Grants (n + 1) then
      if heap.Grants (n + 2) then heap.afterBlockedPids (n + 3) sem
      else some (n + 3)
    else some (n + 2)

/-- The same for the loop of `getPipeInfo`. -/
def State.afterPipes (s : State) : List Ref → Nat → Option Nat
  | [], n => some n
  | pipe :: rest, n => do
    let p ← s.pipes.pipes pipe
    let n ← s.heap.afterSingleSem n (s.sems.find p.readSemId)
    let n ← s.heap.afterSingleSem n (s.sems.find p.writeSemId)
    s.afterPipes rest n

theorem afterBlockedPids_le {heap : Heap} {sem : Option Sem} (counted : heap.afterBlockedPids n sem = some n') :
    n ≤ n' := by
  unfold Heap.afterBlockedPids at counted
  grind

theorem afterSingleSem_le {heap : Heap} {sem : Option Sem} (counted : heap.afterSingleSem n sem = some n') :
    n ≤ n' := by
  have blocked : heap.afterBlockedPids (n + 3) sem = some n' → n + 3 ≤ n' := afterBlockedPids_le
  unfold Heap.afterSingleSem at counted
  grind

theorem afterPipes_le {refs : List Ref} (counted : s.afterPipes refs n = some n') : n ≤ n' := by
  induction refs generalizing n with
  | nil =>
    cases counted
    exact Nat.le_refl _
  | cons pipe rest ih =>
    simp only [State.afterPipes, Option.bind_eq_bind, Option.bind_eq_some_iff] at counted
    obtain ⟨p, -, n₁, read, n₂, write, later⟩ := counted
    exact Nat.le_trans (afterSingleSem_le read) (Nat.le_trans (afterSingleSem_le write) (ih later))

section
variable {t : Heap} {n : Nat} {id : Int}

theorem freeOption_asks (ref : Option Ref) :
    Meets bad (ref.forM free) (fun _ s' => ∃ h, s.heap.Asked 0 h ∧ s' = s.withHeap h) s := by
  cases ref with
  | none => exact ⟨_, .refl _, rfl⟩
  | some ref => exact ⟨_, (Heap.Asked.refl _).release ref, rfl⟩

theorem malloc_after {post : Option Ref → State → Prop} (asked : t.Asked n s.heap)
    (granted : t.Grants n → ∀ ref h, t.Asked (n + 1) h → post (some ref) (s.withHeap h))
    (refused : ¬t.Grants n → ∀ h, t.Asked (n + 1) h → post none (s.withHeap h)) : Meets bad malloc post s := by
  have now : s.heap.Grants 0 ↔ t.Grants n := asked.later 0
  exact malloc_cases (fun yes h asked' => granted (now.mp yes) _ h (asked.trans asked'))
    fun no h asked' => refused (fun yes => no (now.mpr yes)) h (asked.trans asked')

theorem findSem_after (asked : t.Asked n s.heap) : Meets bad (findSem id) (fun found s' =>
    (found = if t.Grants n then s.sems.find id else none) ∧ ∃ h, t.Asked (n + 1) h ∧ s' = s.withHeap h) s := by
  have now : s.heap.Grants 0 ↔ t.Grants n := asked.later 0
  refine (findSem_asks id).mono ?_
  rintro found s' ⟨rfl, h, asked', rfl⟩
  refine ⟨?_, h, asked.trans asked', rfl⟩
  unfold State.findable
  by_cases granted : t.Grants n
  · rw [if_pos granted, if_pos (now.mpr granted)]
  · rw [if_neg granted, if_neg fun yes => granted (now.mp yes)]

theorem getBlockedPids_asks (asked : t.Asked n s.heap) :
    Meets (fun _ => t.afterBlockedPids n (s.sems.find id) = none) (getBlockedPids id) (fun _ s' =>
      ∃ n' h, t.afterBlockedPids n (s.sems.find id) = some n' ∧ t.Asked n' h ∧ s' = s.withHeap h) s := by
  unfold getBlockedPids Heap.afterBlockedPids
  rw [meets_bind]
  refine (findSem_after asked).mono ?_
  rintro found s₁ ⟨isFound, h₁, asked₁, rfl⟩
  rw [meets_bind]
  refine malloc_after asked₁ (fun granted ref h₂ asked₂ => ?_) fun refused h₂ asked₂ => ?_
  · simp only [if_pos granted, ← isFound]
    cases found with
    | none => exact ⟨_, _, rfl, asked₂, rfl⟩
    | some sem =>
      simp only [meets_bind, meets_discard]
      cases sem.queueRef with
      | none => exact rfl
      | some queueRef =>
        simp only [Option.isNone_some, Bool.false_eq_true, if_false, meets_deref_some, mallocArray]
        by_cases empty : sem.blockedPids.length = 0
        · simp only [if_pos empty, meets_pure, meets_bind, meets_free]
          exact ⟨_, _, rfl, asked₂.release _, rfl⟩
        · simp only [if_neg empty]
          refine malloc_after asked₂ (fun granted' array h₃ asked₃ => ?_) fun refused h₃ asked₃ => ?_
          · simp only [if_pos granted', meets_bind]
            refine malloc_asks.mono ?_
            rintro it s₄ ⟨-, h₄, asked₄, rfl⟩
            refine (freeOption_asks it).mono ?_
            rintro _ s₅ ⟨h₅, asked₅, rfl⟩
            exact ⟨_, _, rfl, (asked₃.trans asked₄).trans asked₅, rfl⟩
          · simp only [if_neg refused, meets_bind, meets_free, meets_pure]
            exact ⟨_, _, rfl, asked₃.release _, rfl⟩
  · simp only [if_neg refused, meets_pure]
    exact ⟨_, _, rfl, asked₂, rfl⟩

theorem getSingleSem_asks (asked : t.Asked n s.heap) (id : Int) :
    Meets (fun _ => t.afterSingleSem n (s.sems.find id) = none) (getSingleSem id) (fun _ s' =>
      ∃ n' h, t.afterSingleSem n (s.sems.find id) = some n' ∧ t.Asked n' h ∧ s' = s.withHeap h) s := by
  unfold getSingleSem Heap.afterSingleSem
  rw [meets_bind]
  refine (findSem_after asked).mono ?_
  rintro found s₁ ⟨isFound, h₁, asked₁, rfl⟩
  simp only [← isFound]
  cases found with
  | none => exact ⟨_, _, rfl, asked₁, rfl⟩
  | some sem =>
    have there : s.sems.find id = some sem := by
      split at isFound
      · exact isFound.symm
      · cases isFound
    rw [meets_bind]
    refine malloc_after asked₁ (fun granted ref h₂ asked₂ => ?_) fun refused h₂ asked₂ => ?_
    · simp only [if_pos granted, meets_bind]
      refine malloc_after asked₂ (fun granted' name h₃ asked₃ => ?_) fun refused h₃ asked₃ => ?_
      · simp only [if_pos granted', meets_bind, (find_some there).2]
        refine (getBlockedPids_asks asked₃).mono ?_
        rintro _ s₄ ⟨n', h₄, counted, asked₄, rfl⟩
        exact ⟨n', h₄, counted, asked₄, rfl⟩
      · simp only [if_neg refused, meets_bind, meets_free, meets_pure]
        exact ⟨_, _, rfl, asked₃.release _, rfl⟩
    · simp only [if_neg refused, meets_pure]
      exact ⟨_, _, rfl, asked₂, rfl⟩

end

/-- So many requests later the pipes are what they were, and so are their semaphores. -/
structure State.Surveyed (t : State) (n : Nat) (s : State) : Prop where
  asked : t.heap.Asked n s.heap
  pipes : s.pipes = t.pipes
  next : s.sems.semId = t.sems.semId
  sems : ∀ id, id ≠ t.pipes.allPipesSem → s.sems.find id = t.sems.find id

theorem State.Surveyed.later {t : State} (surveyed : t.Surveyed n s) (asked : t.heap.Asked n' h) :
    t.Surveyed n' (s.withHeap h) :=
  ⟨asked, surveyed.pipes, surveyed.next, surveyed.sems⟩

theorem getPipeInfoLoop_asks {t : State} (guarded : t.Guarded) {refs : List Ref}
    (listed : ∀ r ∈ refs, r ∈ values t.pipes.pipeQueue)
    (surveyed : t.Surveyed n s) :
    Meets (fun _ => t.afterPipes refs n = none) (getPipeInfoLoop refs) (fun _ s' =>
      ∃ n' h, t.afterPipes refs n = some n' ∧ t.heap.Asked n' h ∧ s' = s.withHeap h) s := by
  induction refs generalizing s n with
  | nil => exact ⟨n, s.heap, rfl, surveyed.asked, rfl⟩
  | cons pipe rest ih =>
    obtain ⟨p, here, isOpen⟩ := guarded.pipes.listed pipe (listed pipe (List.mem_cons_self ..))
    obtain ⟨notRead, notWrite⟩ := guarded.pipes.apart pipe p here
    simp only [getPipeInfoLoop, State.afterPipes, meets_bind]
    rw [meets_readPipe (by rw [surveyed.pipes]; exact here) isOpen, here]
    simp only [Option.bind_eq_bind, Option.bind_some]
    have readSem := getSingleSem_asks surveyed.asked p.readSemId
    rw [surveyed.sems _ notRead] at readSem
    refine (readSem.allow fun _ stops => by rw [stops, Option.bind_none]).mono ?_
    rintro _ s₁ ⟨n₁, h₁, counted₁, asked₁, rfl⟩
    have surveyed₁ := surveyed.later asked₁
    simp only [counted₁, Option.bind_some]
    have writeSem := getSingleSem_asks surveyed₁.asked p.writeSemId
    rw [surveyed₁.sems _ notWrite] at writeSem
    refine (writeSem.allow fun _ stops => by rw [stops, Option.bind_none]).mono ?_
    rintro _ s₂ ⟨n₂, h₂, counted₂, asked₂, rfl⟩
    simp only [counted₂, Option.bind_some]
    refine (ih (fun r member => listed r (List.mem_cons_of_mem _ member)) (surveyed₁.later asked₂)).mono ?_
    rintro _ s₃ ⟨n₃, h₃, counted₃, asked₃, rfl⟩
    exact ⟨n₃, h₃, counted₃, asked₃, rfl⟩

end QuesOs.Kernel
