import QuesOs.PipeMutex
import Mathlib.Data.List.Forall2

/-! What `getSemInfo` reports while memory is granted: every semaphore, and who
waits for it. A request for 0 bytes is answered with `NULL` and taken for a
failure, so a semaphore nobody waits for has no record of its pids, and without
semaphores there is no report. -/
namespace QuesOs.Kernel
open Resumption Threads

variable {s : State}

/-! ## `sem.c` -/

/-- `sems` are the elements of `array` that were written. -/
structure UserlandSemInfo where
  ref : Ref
  array : Ref
  sems : List UserlandSem
  length : Int

/-- The loop of `getSemInfo`, which ends early when it is refused memory for a name. -/
def getSemInfoLoop (array : Ref) : List Sem → K (Option (List UserlandSem))
  | [] => return some []
  | sem :: rest => do
    match ← malloc with
    | none => return none
    | some name =>
      let blockedPids ← getBlockedPids sem.id
      match ← getSemInfoLoop array rest with
      | none => return none
      | some others =>
        return some <|
          { ref := array, attachedProcesses := sem.attachedProcesses, id := sem.id, value := sem.value,
            lock := sem.lock, name := sem.name, nameRef := name, blockedPids } :: others

def getSemInfo : K (Option UserlandSemInfo) := do
  let it ← malloc
  match ← malloc with
  | none => return none
  | some info =>
    let semQueue := (← get).sems.semQueue
    match ← mallocArray semQueue.length with
    | none =>
      free info
      return none
    | some array =>
      -- without memory for the iterator nothing is written
      match ← getSemInfoLoop array (if it.isSome then values semQueue else []) with
      | none =>
        free array
        free info
        return none
      | some sems =>
        it.forM free
        return some { ref := info, array, sems, length := semQueue.length }

/-! ## The report -/

/-- The record lists who waits for the semaphore. -/
structure Sem.ListedBy (sem : Sem) (record : UserlandBlockedPids) : Prop where
  length : record.length = sem.blockedPids.length
  pids : record.pids = sem.pids

/-- The entry tells of the semaphore. -/
structure Sem.ShownBy (sem : Sem) (entry : UserlandSem) : Prop where
  id : entry.id = sem.id
  value : entry.value = sem.value
  lock : entry.lock = sem.lock
  attachedProcesses : entry.attachedProcesses = sem.attachedProcesses
  name : entry.name = sem.name
  blockedPids : ∃ record, entry.blockedPids = some record ∧ sem.ListedBy record

/-- `getSemInfo` returns an entry for each semaphore, in the order of the queue. -/
def State.Reports (s : State) : Prop :=
  ∃ info s', getSemInfo.run s = .ok (some info, s') ∧ info.length = s.sems.semQueue.length ∧
    List.Forall₂ Sem.ShownBy (values s.sems.semQueue) info.sems

/-- There is a semaphore, and each has a queue and somebody who waits in it. -/
def State.AllAwaited (s : State) : Prop :=
  s.sems.semQueue ≠ [] ∧ ∀ sem ∈ values s.sems.semQueue, sem.queueRef.isSome ∧ sem.blockedPids ≠ []

/-! ## While memory is granted -/

/-- Every request from now on is granted. -/
def Heap.Plenty (h : Heap) : Prop := ∀ n, h.Grants n

theorem Heap.Plenty.grown {h h' : Heap} (plenty : h.Plenty) (grown : h.Grown h') : h'.Plenty := by
  intro n
  have later := plenty (h'.requests - h.requests + n)
  have more := grown.requests
  unfold Heap.Grants at later ⊢
  rw [grown.grants]
  convert later using 2
  omega

theorem meets_malloc_plenty {post : Option Ref → State → Prop} (plenty : s.heap.Plenty) :
    Meets bad malloc post s ↔ post (some s.heap.requests) (s.withHeap s.heap.ask) := by
  rw [meets_malloc_any, if_pos (plenty 0)]

theorem meets_mallocArray_zero {length : Nat} {post : Option Ref → State → Prop} (zero : length = 0) :
    Meets bad (mallocArray length) post s ↔ post none s := by
  unfold mallocArray
  rw [if_pos zero, meets_pure]

theorem meets_mallocArray_plenty {length : Nat} {post : Option Ref → State → Prop}
    (plenty : s.heap.Plenty) (some : length ≠ 0) :
    Meets bad (mallocArray length) post s ↔ post (.some s.heap.requests) (s.withHeap s.heap.ask) := by
  unfold mallocArray
  rw [if_neg some, meets_malloc_plenty plenty]

/-- What `getBlockedPids` makes of a semaphore: nothing, when nobody waits for it. -/
structure Sem.Recorded (sem : Sem) (record : Option UserlandBlockedPids) : Prop where
  queued : sem.queueRef.isSome
  nobody : sem.blockedPids = [] → record = none
  awaited : sem.blockedPids ≠ [] → ∃ listed, record = some listed ∧ sem.ListedBy listed

theorem getBlockedPids_plenty {id : Int} (plenty : s.heap.Plenty) (found : s.sems.find id = some sem) :
    Meets (fun _ => sem.queueRef = none) (getBlockedPids id) (fun record s' => sem.Recorded record ∧
      ∃ h, s.heap.Grown h ∧ s' = s.withHeap h) s := by
  have first : s.heap.Grown s.heap.ask := s.heap.asked_ask.grown
  unfold getBlockedPids
  rw [meets_bind]
  refine (findSem_asks id).mono ?_
  rintro _ s₁ ⟨rfl, h₁, asked₁, rfl⟩
  have plenty₁ := plenty.grown asked₁.grown
  rw [State.findable, if_pos (plenty 0), found, meets_bind, meets_malloc_plenty (by exact plenty₁)]
  simp only [withHeap_heap, withHeap_withHeap, meets_bind, meets_discard]
  have grown₂ := asked₁.grown.trans h₁.asked_ask.grown
  have plenty₂ := plenty.grown grown₂
  cases queued : sem.queueRef with
  | none => exact rfl
  | some queueRef =>
    have isQueue : sem.queueRef.isSome := Option.isSome_iff_exists.mpr ⟨queueRef, queued⟩
    simp only [meets_deref_some]
    by_cases nobody : sem.blockedPids.length = 0
    · rw [meets_mallocArray_zero nobody]
      simp only [meets_bind, meets_free, meets_pure]
      exact ⟨⟨isQueue, fun _ => rfl, fun awaited => (awaited (List.length_eq_zero_iff.mp nobody)).elim⟩, _,
        grown₂.trans (Heap.grown_release _ _), rfl⟩
    · have plenty₃ := plenty₂.grown h₁.ask.asked_ask.grown
      rw [meets_mallocArray_plenty (by exact plenty₂) nobody]
      simp only [meets_bind]
      rw [meets_malloc_plenty (by exact plenty₃)]
      refine (freeOption_asks _).mono ?_
      rintro _ s₂ ⟨h₂, asked₂, rfl⟩
      refine ⟨⟨isQueue, fun empty => (nobody (List.length_eq_zero_iff.mpr empty)).elim,
        fun _ => ⟨_, rfl, rfl, rfl⟩⟩, h₂, ?_, rfl⟩
      exact grown₂.trans (h₁.ask.asked_ask.grown.trans (h₁.ask.ask.asked_ask.grown.trans asked₂.grown))

/-- What the loop of `getSemInfo` makes of a semaphore. -/
structure Sem.Written (sem : Sem) (entry : UserlandSem) : Prop where
  id : entry.id = sem.id
  value : entry.value = sem.value
  lock : entry.lock = sem.lock
  attachedProcesses : entry.attachedProcesses = sem.attachedProcesses
  name : entry.name = sem.name
  blockedPids : sem.Recorded entry.blockedPids

theorem Sem.Written.shown_iff (written : Sem.Written sem entry) : sem.ShownBy entry ↔ sem.blockedPids ≠ [] := by
  constructor
  · rintro shown empty
    obtain ⟨record, there, -⟩ := shown.blockedPids
    rw [written.blockedPids.nobody empty] at there
    cases there
  · intro awaited
    exact ⟨written.id, written.value, written.lock, written.attachedProcesses, written.name,
      written.blockedPids.awaited awaited⟩

theorem getSemInfoLoop_plenty (plenty : s.heap.Plenty) (array : Ref) (list : List Sem)
    (found : ∀ sem ∈ list, s.sems.find sem.id = some sem) :
    Meets (fun _ => ∃ sem ∈ list, sem.queueRef = none) (getSemInfoLoop array list) (fun entries s' =>
      (∃ sems, entries = some sems ∧ List.Forall₂ Sem.Written list sems) ∧ ∃ h, s.heap.Grown h ∧
        s' = s.withHeap h) s := by
  induction list generalizing s with
  | nil => exact ⟨⟨[], rfl, .nil⟩, s.heap, .refl _, rfl⟩
  | cons sem rest ih =>
    have grown₁ := s.heap.asked_ask.grown
    unfold getSemInfoLoop
    rw [meets_bind, meets_malloc_plenty plenty, meets_bind]
    have records := getBlockedPids_plenty (s := s.withHeap s.heap.ask) (plenty.grown grown₁)
      (found sem (List.mem_cons_self ..))
    refine (records.allow fun _ stops => ⟨sem, List.mem_cons_self .., stops⟩).mono ?_
    rintro record s₂ ⟨recorded, h₂, grown₂, rfl⟩
    have grown := grown₁.trans grown₂
    rw [meets_bind]
    have others := ih (s := s.withHeap h₂) (plenty.grown grown)
      fun sem member => found sem (List.mem_cons_of_mem _ member)
    refine (others.allow fun _ ⟨sem, member, stops⟩ => ⟨sem, List.mem_cons_of_mem _ member, stops⟩).mono ?_
    rintro _ s₃ ⟨⟨sems, rfl, written⟩, h₃, grown₃, rfl⟩
    exact ⟨⟨_, rfl, .cons ⟨rfl, rfl, rfl, rfl, rfl, recorded⟩ written⟩, h₃, grown.trans grown₃, rfl⟩

theorem getSemInfo_plenty (plenty : s.heap.Plenty) (guarded : s.Guarded) :
    Meets (fun _ => ∃ sem ∈ values s.sems.semQueue, sem.queueRef = none) getSemInfo (fun info _ =>
      (s.sems.semQueue = [] → info = none) ∧ (s.sems.semQueue ≠ [] → ∃ shown, info = some shown ∧
        shown.length = s.sems.semQueue.length ∧ List.Forall₂ Sem.Written (values s.sems.semQueue) shown.sems)) s := by
  have grown₁ := s.heap.asked_ask.grown
  have grown₂ := grown₁.trans s.heap.ask.asked_ask.grown
  have plenty₂ := plenty.grown grown₂
  have found : ∀ sem ∈ values s.sems.semQueue, s.sems.find sem.id = some sem := by
    intro sem listed
    exact find_eq_some listed (by simp) fun other listed' same =>
      List.inj_on_of_nodup_map guarded.sems.ids listed' listed (by simpa using same)
  unfold getSemInfo
  rw [meets_bind, meets_malloc_plenty plenty, meets_bind, meets_malloc_plenty (by exact plenty.grown grown₁)]
  simp only [withHeap_heap, withHeap_withHeap, meets_bind, meets_get]
  by_cases empty : s.sems.semQueue.length = 0
  · rw [meets_mallocArray_zero (by exact empty)]
    simp only [meets_bind, meets_free, meets_pure]
    exact ⟨fun _ => trivial, fun some => (some (List.length_eq_zero_iff.mp empty)).elim⟩
  · have plenty₃ := plenty₂.grown s.heap.ask.ask.asked_ask.grown
    rw [meets_mallocArray_plenty (by exact plenty₂) (by exact empty)]
    simp only [withHeap_heap, withHeap_withHeap, Option.isSome_some, if_true, meets_bind]
    refine (getSemInfoLoop_plenty (by exact plenty₃) _ _ (by exact found)).mono ?_
    rintro _ s₂ ⟨⟨sems, rfl, written⟩, h, grown, rfl⟩
    rw [meets_bind]
    refine (freeOption_asks _).mono ?_
    rintro _ s₃ ⟨h', asked, rfl⟩
    exact ⟨fun none => (empty (List.length_eq_zero_iff.mpr none)).elim, fun _ => ⟨_, rfl, rfl, written⟩⟩

theorem shown_iff (written : List.Forall₂ Sem.Written list entries) :
    List.Forall₂ Sem.ShownBy list entries ↔ ∀ sem ∈ list, sem.queueRef.isSome ∧ sem.blockedPids ≠ [] := by
  induction written with
  | nil => exact iff_of_true .nil nofun
  | cons first rest ih =>
    rw [List.forall₂_cons, ih, first.shown_iff, List.forall_mem_cons]
    exact and_congr_left fun _ => (and_iff_right first.blockedPids.queued).symm

theorem reports_iff (guarded : s.Guarded) (plenty : s.heap.Plenty) : s.Reports ↔ s.AllAwaited := by
  have meets := getSemInfo_plenty plenty guarded
  constructor
  · rintro ⟨info, s', ran, -, shown⟩
    obtain ⟨nothing, report⟩ := (meets_of_run ran).mp (meets.allow fun _ _ => trivial)
    have present : s.sems.semQueue ≠ [] := by
      intro none
      cases nothing none
    obtain ⟨info', same, -, written⟩ := report present
    cases same
    exact ⟨present, (shown_iff written).mp shown⟩
  · rintro ⟨present, awaited⟩
    have returns : Meets (fun _ => False) getSemInfo _ s := meets.allow fun _ ⟨sem, listed, missing⟩ => by
      have queued := (awaited sem listed).1
      rw [missing] at queued
      cases queued
    obtain ⟨_, s', ran, -, report⟩ := returns.returns
    obtain ⟨info, rfl, length, written⟩ := report present
    exact ⟨info, s', ran, length, (shown_iff written).mpr awaited⟩

/-- **The semaphores are reported** exactly where there are any, and somebody waits for each. -/
theorem semaphores_reported_iff (run : Threads.Run machine Requests (boot grants garbage) S)
    (plenty : S.state.heap.Plenty) :
    S.state.Reports ↔ S.state.AllAwaited :=
  reports_iff (guarded_run run) plenty

/-- `init` runs, and these semaphores are left. -/
def leftState (requests : Nat) (live : List Ref) (semQueue : Queue Sem) : State :=
  { initState (fun _ => true) (none, []) with
    heap := { grants := fun _ => true, garbage := (none, []), requests, live }
    sems := { bootSems with semQueue } }

theorem leftState_closes {left rest : Queue Sem} (closed : Int)
    (run : Threads.Run machine Requests (boot (fun _ => true) (none, []))
      ⟨leftState requests live left, fun _ => none, false⟩)
    (closes : ∀ live, ∃ live', (liftM (semClose closed) : Task Int).execute (leftState requests live left) =
      .ok (.finished 0 (leftState (requests + 1) live' rest))) :
    ∃ live', Threads.Run machine Requests (boot (fun _ => true) (none, []))
      ⟨leftState (requests + 1) live' rest, fun _ => none, false⟩ := by
  obtain ⟨live', ran⟩ := closes live
  have step : Step machine Requests ⟨leftState requests live left, fun _ => none, false⟩ _ :=
    .call rfl rfl rfl (.semClose closed) ran
  simp only [System.settle, Function.update_eq_self_iff.mpr] at step
  exact ⟨live', run.tail step⟩

/-- `init` closes all semaphores but one, and waits for that. -/
theorem semaphores_reported_awaited : ∃ S, Threads.Run machine Requests (boot (fun _ => true) (none, [])) S ∧
    S.state.Reports := by
  have start : Threads.Run machine Requests (boot (fun _ => true) (none, []))
      ⟨leftState 40 _ bootSems.semQueue, fun _ => none, false⟩ := .single (initState_step _ _ _)
  obtain ⟨_, first⟩ := leftState_closes 0 start fun _ => ⟨_, rfl⟩
  obtain ⟨_, second⟩ := leftState_closes 1 first fun _ => ⟨_, rfl⟩
  obtain ⟨_, third⟩ := leftState_closes 2 second fun _ => ⟨_, rfl⟩
  obtain ⟨_, fourth⟩ := leftState_closes 3 third fun _ => ⟨_, rfl⟩
  obtain ⟨live, fifth⟩ := leftState_closes 4 fourth fun _ => ⟨_, rfl⟩
  have awake : some initRef ≠ some idleRef := by decide
  have waits := fifth.tail (.call rfl rfl rfl (.interrupts (.inl ⟨.semWait 5, trivial, rfl, .inr awake⟩)) rfl)
  refine ⟨_, waits, (semaphores_reported_iff waits fun _ => rfl).mpr ⟨List.cons_ne_nil _ _, fun sem listed => ?_⟩⟩
  rw [List.mem_singleton.mp listed]
  exact ⟨rfl, List.cons_ne_nil _ _⟩

/-- Nobody waits for any of the semaphores made during boot. -/
theorem semaphores_not_reported : ¬∀ (grants : Nat → Bool) (garbage : Option Ref × List Ref) (S : System),
    Threads.Run machine Requests (boot grants garbage) S → S.state.heap.Plenty → S.state.Reports := by
  intro claim
  have reports := claim (fun _ => true) (none, []) _ (.single (initState_step _ _ _)) fun _ => rfl
  have plenty : (initState (fun _ => true) (none, [])).heap.Plenty := fun _ => rfl
  have awaited := ((reports_iff (initState_guarded _ _) plenty).mp reports).2 (bootSem 0 1).value (by decide)
  exact awaited.2 rfl

end QuesOs.Kernel
