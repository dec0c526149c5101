import QuesOs.PipeMutex

/-! Whether creating a semaphore is all or nothing. `createSem` gives up when it
is refused the block or the name, and then keeps the queue of pids it may have
been granted; without that queue, or without the node that lists the semaphore,
it goes on. -/
namespace QuesOs.Kernel
open Resumption Threads

variable {s s' s₁ : State}

inductive Creation where
  | semInit (initialValue : Int)
  | semOpen (semaphoreName : String) (initialValue : Int)

def Creation.perform : Creation → K Int
  | .semInit initialValue => Kernel.semInit initialValue
  | .semOpen semaphoreName initialValue => Kernel.semOpen semaphoreName initialValue

def Creation.initialValue : Creation → Int
  | .semInit initialValue => initialValue
  | .semOpen _ initialValue => initialValue

/-- The queue of pids is there. -/
def Sem.Usable (sem : Sem) (heap : Heap) : Prop := ∃ queueRef, sem.queueRef = some queueRef ∧ queueRef ∈ heap.live

/-- The id is that of a semaphore that can be used, or nothing was done. -/
structure AllOrNothing (initialValue : Int) (s : State) (a : Int) (s' : State) : Prop where
  all : 0 ≤ a → ∃ sem ∈ values s'.sems.semQueue, sem.id = a ∧ sem.Usable s'.heap ∧
    (s.sems.find a = none → sem.value = initialValue)
  nothing : a = -1 → s'.sems.semQueue = s.sems.semQueue ∧ s'.heap.live.Perm s.heap.live

def Creation.AllOrNothing (call : Creation) (s : State) : Prop :=
  ∀ a s', call.perform.run s = .ok (a, s') → Kernel.AllOrNothing call.initialValue s a s'

/-- What `createSem` asks for from the request on is granted as a whole, or what it was granted
before it gives up is not the queue of pids. -/
def Heap.Decides (heap : Heap) (n : Nat) : Prop :=
  if heap.Grants n ∧ heap.Grants (n + 2) then heap.Grants (n + 1) ∧ heap.Grants (n + 3)
  else heap.Grants n → ¬heap.Grants (n + 1)

instance (heap : Heap) (n : Nat) : Decidable (heap.Decides n) := inferInstanceAs (Decidable (ite ..))

/-- A new semaphore comes whole, and one that is found by its name has a queue. -/
def State.Decides (s : State) : Creation → Prop
  | .semInit _ => s.heap.Decides 0
  | .semOpen semaphoreName _ =>
    match s.findableName semaphoreName with
    | some sem => sem.Usable s.heap
    | none => s.heap.Decides 1

/-- A semaphore that is made gets an id and a value that are `int`s. -/
def Creation.Counts (s : State) : Creation → Prop
  | .semInit initialValue => s.Counts initialValue
  | .semOpen semaphoreName initialValue =>
    match s.findableName semaphoreName with
    | some _ => True
    | none => (s.after 1).Counts initialValue

/-! ## What the calls do -/

/-- The callers of `createSem` attach themselves to what it made. -/
def State.attached (s : State) : Option Sem → State
  | none => s
  | some sem => { s with sems := s.sems.modify sem.ref Sem.attach }

/-- The id they return. -/
def createdId : Option Sem → Int
  | none => -1
  | some sem => sem.id

theorem semInit_creates (isOpen : s.sems.allSemsLock = 0) {initialValue : Int}
    (within : bad .overflow ∨ s.Counts initialValue) :
    Meets bad (semInit initialValue) (fun a s' => s.Counts initialValue ∧
      ∃ created s₁, Creates s initialValue "" created s₁ ∧ a = createdId created ∧ s' = s₁.attached created) s := by
  refine (semInit_within within isOpen).mono ?_
  rintro a s' ⟨inits, counts⟩
  refine ⟨counts, ?_⟩
  cases inits with
  | refused short => exact ⟨none, _, .refused short, rfl, rfl⟩
  | unnamed granted short => exact ⟨none, _, .unnamed granted short, rfl, rfl⟩
  | made granted named => exact ⟨_, _, .made granted named, rfl, rfl⟩

/-- The iterator of a search is freed again. -/
theorem find_exact {α : Type} {queue : Queue α} (findCondition : α → Bool) : Meets bad (find queue findCondition)
    (fun found s' => (found = if s.heap.Grants 0 then (values queue).find? findCondition else none) ∧
      s' = s.after 1) s :=
  meets_find.mpr ⟨rfl, rfl⟩

theorem semOpen_creates (isOpen : s.sems.allSemsLock = 0) (name : String) {initialValue : Int}
    (within : bad .overflow ∨ Creation.Counts s (.semOpen name initialValue)) :
    Meets bad (semOpen name initialValue) (fun a s' => Creation.Counts s (.semOpen name initialValue) ∧
      match s.findableName name with
      | some sem => a = sem.id ∧ s' = (s.after 1).attached (some sem)
      | none => ∃ created s₁, Creates (s.after 1) initialValue name created s₁ ∧ a = createdId created ∧
          s' = s₁.attached created) s := by
  simp only [Creation.Counts] at within ⊢
  unfold semOpen findSemName
  simp only [meets_bind, meets_get]
  refine (find_exact _).mono ?_
  rintro found s' ⟨isFound, rfl⟩
  have same : found = s.findableName name := isFound
  rw [meets_acquireAllSems (by exact isOpen), ← same]
  rw [← same] at within
  obtain ⟨heap, ⟨semId, semQueue, allSemsLock⟩, pipes, procs, history⟩ := s
  obtain rfl : allSemsLock = 0 := isOpen
  cases found with
  | some sem => exact ⟨trivial, rfl, rfl⟩
  | none =>
    simp only [meets_bind]
    refine (createSem_within (by exact within) name).mono ?_
    rintro created s' ⟨creates, counts⟩
    cases creates with
    | refused short => exact ⟨counts, none, _, .refused short, rfl, rfl⟩
    | unnamed granted short => exact ⟨counts, none, _, .unnamed granted short, rfl, rfl⟩
    | made granted named => exact ⟨counts, _, _, .made granted named, rfl, rfl⟩

/-! ## When they are all or nothing -/

theorem ask_later (h : Heap) (n : Nat) : h.ask.Grants n ↔ h.Grants (n + 1) := by
  rw [h.asked_ask.later, Nat.add_comm]

/-- Of what it was granted, `createSem` gives back the block only. -/
theorem live_unnamed {h : Heap} (granted : h.Grants 0) (short : ¬h.Grants 2) :
    (h.ask.ask.ask.release h.requests).live = (if h.Grants 1 then [h.requests + 1] else []) ++ h.live := by
  have refused : ¬h.ask.ask.Grants 0 := by rwa [ask_later, ask_later]
  have third : h.ask.ask.ask.live = h.ask.ask.live := if_neg refused
  have first : h.ask.live = h.requests :: h.live := if_pos granted
  have second : h.ask.ask.live = if h.Grants 1 then (h.requests + 1) :: h.ask.live else h.ask.live :=
    if_congr (ask_later h 0) rfl rfl
  rw [Heap.release, third, second, first]
  by_cases queued : h.Grants 1
  · simp [queued]
  · simp [queued]

/-- The queue of a new semaphore is allocated if it was granted. -/
theorem newSem_usable (s : State) (initialValue : Int) (name : String) :
    (s.newSem initialValue name).Usable s.heap.ask.ask.ask.ask ↔ s.heap.Grants 1 := by
  have kept : ∀ (h : Heap) (r : Ref), r ∈ h.live → r ∈ h.ask.live := by
    intro h r member
    unfold Heap.ask
    dsimp only
    split
    · exact List.mem_cons_of_mem _ member
    · exact member
  constructor
  · rintro ⟨queueRef, there, -⟩
    by_cases granted : s.heap.Grants 1
    · exact granted
    · rw [State.newSem, if_neg granted] at there
      cases there
  · intro granted
    refine ⟨s.heap.requests + 1, if_pos granted, kept _ _ (kept _ _ ?_)⟩
    have here : s.heap.ask.ask.live = (s.heap.requests + 1) :: s.heap.ask.live := if_pos ((ask_later _ 0).mpr granted)
    rw [here]
    exact List.mem_cons_self

/-- The semaphore with the new id is the new one. -/
theorem attached_newSem (guarded : s.Guarded) (initialValue : Int) (name : String) :
    sem ∈ values ((s.withNewSem initialValue name).modify s.heap.requests Sem.attach).semQueue ∧ sem.id = s.sems.semId ↔
      s.heap.Grants 3 ∧ sem = (s.newSem initialValue name).attach := by
  have older : ∀ x ∈ values s.sems.semQueue, x.ref ≠ s.heap.requests ∧ x.id ≠ s.sems.semId := fun x listed =>
    ⟨Nat.ne_of_lt (guarded.sems.below x listed).1, Int.ne_of_lt (guarded.sems.below x listed).2.2⟩
  rw [values_modify, values_withNewSem, List.mem_map]
  constructor
  · rintro ⟨⟨x, member, rfl⟩, id⟩
    rcases List.mem_append.mp member with old | new
    · rw [if_neg (older x old).1] at id
      exact ((older x old).2 id).elim
    · by_cases listed : s.heap.Grants 3
      · rw [if_pos listed, List.mem_singleton] at new
        rw [new]
        exact ⟨listed, if_pos rfl⟩
      · rw [if_neg listed] at new
        cases new
  · rintro ⟨listed, rfl⟩
    refine ⟨⟨s.newSem initialValue name, List.mem_append_right _ ?_, if_pos rfl⟩, rfl⟩
    rw [if_pos listed]
    exact List.mem_singleton.mpr rfl

theorem allOrNothing_after (s : State) (n : Nat) :
    Kernel.AllOrNothing initialValue (s.after n) a s' ↔ Kernel.AllOrNothing initialValue s a s' :=
  ⟨fun fine => ⟨fine.all, fine.nothing⟩, fun fine => ⟨fine.all, fine.nothing⟩⟩

theorem decides_after (h : Heap) (n : Nat) :
    Heap.Decides { h with requests := h.requests + n } 0 ↔ h.Decides n := by
  have later : ∀ k, Heap.Grants { h with requests := h.requests + n } k ↔ h.Grants (n + k) :=
    Heap.Asked.later ⟨rfl, rfl, rfl⟩
  unfold Heap.Decides
  simp only [later, Nat.add_zero, Nat.zero_add]

theorem creates_iff (guarded : s.Guarded) (creates : Creates s initialValue name created s₁) :
    Kernel.AllOrNothing initialValue s (createdId created) (s₁.attached created) ↔ s.heap.Decides 0 := by
  have next : 0 ≤ s.sems.semId := Int.le_trans guarded.sems.early.1 (Int.le_of_lt guarded.sems.early.2)
  unfold Heap.Decides
  cases creates with
  | refused short =>
    rw [if_neg fun both => short both.1]
    refine iff_of_true ⟨fun positive => absurd positive (by decide), fun _ => ⟨rfl, ?_⟩⟩ fun granted =>
      absurd granted short
    have same : s.heap.ask.live = s.heap.live := if_neg short
    exact List.Perm.of_eq same
  | unnamed granted short =>
    rw [if_neg fun both => short both.2]
    have live := live_unnamed granted short
    constructor
    · intro fine _ queued
      have perm : (s.heap.ask.ask.ask.release s.heap.requests).live.Perm s.heap.live := (fine.nothing rfl).2
      have length := perm.length_eq
      rw [live, if_pos queued, List.length_append, List.length_singleton] at length
      omega
    · intro keeps
      refine ⟨fun positive => absurd positive (by decide), fun _ => ⟨rfl, ?_⟩⟩
      rw [if_neg (keeps granted), List.nil_append] at live
      exact List.Perm.of_eq live
  | made granted named =>
    rw [if_pos ⟨granted, named⟩]
    constructor
    · intro fine
      obtain ⟨sem, listed, id, usable, -⟩ := fine.all next
      obtain ⟨node, rfl⟩ := (attached_newSem guarded initialValue name).mp ⟨listed, id⟩
      exact ⟨(newSem_usable s initialValue name).mp usable, node⟩
    · rintro ⟨queued, node⟩
      refine ⟨fun _ => ?_, fun none => absurd (show s.sems.semId = -1 from none) (by omega)⟩
      obtain ⟨listed, id⟩ := (attached_newSem guarded initialValue name).mpr ⟨node, rfl⟩
      exact ⟨_, listed, id, (newSem_usable s initialValue name).mpr queued, fun _ => rfl⟩

/-- A semaphore that is found by its name stays what it was. -/
theorem attaches_iff (guarded : s.Guarded) (initialValue : Int) (listed : sem ∈ values s.sems.semQueue) :
    Kernel.AllOrNothing initialValue s sem.id ((s.after 1).attached (some sem)) ↔ sem.Usable s.heap := by
  have here : sem.attach ∈ values ((s.after 1).attached (some sem)).sems.semQueue := by
    change _ ∈ values (s.sems.modify sem.ref Sem.attach).semQueue
    rw [values_modify]
    exact List.mem_map.mpr ⟨sem, listed, if_pos rfl⟩
  have present : s.sems.find sem.id ≠ none := by
    unfold Sems.find
    rw [ne_eq, List.find?_eq_none]
    intro none
    exact none sem listed (decide_eq_true rfl)
  constructor
  · intro fine
    obtain ⟨other, member, id, usable, -⟩ := fine.all (guarded.sems.below sem listed).2.1
    -- Ids are told apart, so the other one is the same.
    have sorted : ((values (s.sems.modify sem.ref Sem.attach).semQueue).map Sem.id).Nodup :=
      (guarded.sems.attached sem.ref).ids
    obtain rfl : other = sem.attach := List.inj_on_of_nodup_map sorted member here id
    exact usable
  · intro usable
    refine ⟨fun _ => ⟨_, here, rfl, usable, fun missing => absurd missing present⟩, fun none => ?_⟩
    have positive := (guarded.sems.below sem listed).2.1
    omega

theorem all_or_nothing_iff (guarded : s.Guarded) (call : Creation) :
    ((∃ a s', call.perform.run s = .ok (a, s')) ∨ call.perform.run s = .error .overflow ∧ ¬call.Counts s) ∧
      (call.AllOrNothing s ↔ (call.Counts s → s.Decides call)) := by
  -- The calls return unless a counter overflows, and what they return decides.
  suffices decided : ∀ {bad : Fault → Prop}, bad .overflow ∨ call.Counts s → Meets bad call.perform (fun a s' =>
      call.Counts s ∧ (Kernel.AllOrNothing call.initialValue s a s' ↔ s.Decides call)) s by
    have meets : Meets (fun fault : Fault => fault = .overflow ∧ ¬call.Counts s) _ _ _ :=
      decided ((em' _).imp_left fun full => ⟨rfl, full⟩)
    rcases meets.ends with ⟨a, s', ran, counts, decides⟩ | ⟨_, ran, rfl, full⟩
    · refine ⟨.inl ⟨a, s', ran⟩, fun fine _ => decides.mp (fine a s' ran), fun whole a' s'' ran' => ?_⟩
      cases ran.symm.trans ran'
      exact decides.mpr (whole counts)
    · refine ⟨.inr ⟨ran, full⟩, fun _ counts => absurd counts full, fun _ a s' ran' => ?_⟩
      cases ran.symm.trans ran'
  intro bad within
  cases call with
  | semInit initialValue =>
    refine (semInit_creates guarded.sems.isOpen within).mono ?_
    rintro _ _ ⟨counts, created, s₁, creates, rfl, rfl⟩
    exact ⟨counts, creates_iff guarded creates⟩
  | semOpen name initialValue =>
    refine (semOpen_creates guarded.sems.isOpen name within).mono ?_
    rintro a s' ⟨counts, opens⟩
    refine ⟨counts, ?_⟩
    cases found : s.findableName name with
    | some sem =>
      rw [found] at opens
      obtain ⟨rfl, rfl⟩ := opens
      have listed : sem ∈ values s.sems.semQueue := by
        unfold State.findableName at found
        split at found
        · exact List.mem_of_find?_eq_some found
        · cases found
      simp only [State.Decides, found]
      exact attaches_iff guarded initialValue listed
    | none =>
      rw [found] at opens
      obtain ⟨created, s₁, creates, rfl, rfl⟩ := opens
      have later : State.Guarded (s.after 1) := guarded.grown ⟨rfl, Nat.le_add_right _ _⟩
      simp only [State.Decides, found]
      exact (allOrNothing_after s 1).symm.trans ((creates_iff later creates).trans (decides_after s.heap 1))

/-- **Creating a semaphore is all or nothing** exactly where it is made whole or given up before it has
a queue. Where the ids are used up, the counter overflows. -/
theorem creation_all_or_nothing_iff (run : Threads.Run machine Requests (boot grants garbage) S) (call : Creation) :
    ((∃ a s', call.perform.run S.state = .ok (a, s')) ∨ call.perform.run S.state = .error .overflow ∧
      ¬call.Counts S.state) ∧
      (call.AllOrNothing S.state ↔ (call.Counts S.state → S.state.Decides call)) :=
  all_or_nothing_iff (guarded_run run) call

/-- With enough memory `init` creates a semaphore. -/
theorem creation_all_or_nothing_init : ∃ S, Threads.Run machine Requests (boot (fun _ => true) (none, [])) S ∧
    Creation.AllOrNothing (.semOpen "mutex" 1) S.state := by
  have run : Threads.Run machine Requests (boot (fun _ => true) (none, [])) _ := .single (initState_step _ _ _)
  refine ⟨_, run, (creation_all_or_nothing_iff run (.semOpen "mutex" 1)).2.mpr fun _ => ?_⟩
  have missing : (initState (fun _ => true) (none, [])).findableName "mutex" = none := by decide
  simp only [State.Decides, missing]
  decide

/-- When the queue of pids is refused, the semaphore is created without it. -/
theorem creation_without_queue :
    ¬∀ (grants : Nat → Bool) (garbage : Option Ref × List Ref) (S : System) (call : Creation),
    Threads.Run machine Requests (boot grants garbage) S → call.AllOrNothing S.state := by
  intro claim
  have fine := claim (· ≠ 41) (none, []) _ (.semInit 1) (.single (initState_step _ _ _))
  have decides : Heap.Decides _ 0 := (all_or_nothing_iff (initState_guarded (· ≠ 41) (none, [])) _).2.mp fine
    (show State.Counts _ 1 by decide)
  exact absurd decides (by decide)

end QuesOs.Kernel
