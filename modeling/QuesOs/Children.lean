import QuesOs.Lookups
import QuesOs.ProcessActions

/-! `terminateChildren`, whichever requests for memory are refused. Its loop leaves
out the last process of the queue, and the running process is not among those that
`sendTaskToInit` finds: a child that is running makes it follow `NULL`. -/
namespace QuesOs.Kernel
open Resumption

variable {s s' : State} {c r : Ref} {p q : Pcb} {pid : Int}

/-! ## The table -/

/-- The running process and those in the queue are different ones with different pids. -/
structure Procs.Lists (procs : Procs) (c : Ref) : Prop where
  running : procs.currentProcessPCB = some c
  once : (c :: values procs.queue).Nodup
  blocks : ∀ r ∈ c :: values procs.queue, procs.pcbs r ≠ none
  unique : ∀ r ∈ c :: values procs.queue, ∀ r' ∈ c :: values procs.queue, procs.pidOf r = procs.pidOf r' → r = r'

namespace Procs.Lists
variable {procs procs' : Procs}

theorem alive (lists : procs.Lists c) : ∀ r ∈ values procs.queue, procs.pcbs r ≠ none :=
  fun r member => lists.blocks r (List.mem_cons_of_mem _ member)

theorem current (lists : procs.Lists c) : ∃ q, procs.pcbs c = some q :=
  Option.ne_none_iff_exists'.mp (lists.blocks c (List.mem_cons_self ..))

theorem kept (lists : procs.Lists c) (current : procs'.currentProcessPCB = procs.currentProcessPCB)
    (queue : procs'.queue = procs.queue) (pids : ∀ r, procs'.pidOf r = procs.pidOf r) : procs'.Lists c := by
  refine ⟨current.trans lists.running, queue ▸ lists.once, fun r member none => ?_, fun r member r' member' same => ?_⟩
  · rw [queue] at member
    have there := lists.blocks r member
    have gone : procs.pidOf r = Option.none := (pids r).symm.trans (congrArg (Option.map Pcb.pid) none)
    exact there (Option.map_eq_none_iff.mp gone)
  · rw [queue] at member member'
    rw [pids, pids] at same
    exact lists.unique r member r' member' same

/-- A process of the queue is found by its pid. -/
theorem process (lists : procs.Lists c) (member : r ∈ values procs.queue) (block : procs.pcbs r = some p) :
    procs.process p.pid = some r := by
  cases found : procs.process p.pid with
  | none => exact absurd (by simp [block]) (List.find?_eq_none.mp found r member)
  | some r' =>
    obtain ⟨member', p', block', same⟩ := process_some found
    refine congrArg some (lists.unique r' (List.mem_cons_of_mem _ member') r (List.mem_cons_of_mem _ member) ?_)
    simp [Procs.pidOf, block, block', same]

/-- The running process is not found by its pid. -/
theorem absent (lists : procs.Lists c) (block : procs.pcbs c = some q) : procs.process q.pid = none := by
  cases found : procs.process q.pid with
  | none => rfl
  | some r =>
    obtain ⟨member, p, block', same⟩ := process_some found
    have here : r = c := lists.unique r (List.mem_cons_of_mem _ member) c (List.mem_cons_self ..)
      (by simp [Procs.pidOf, block, block', same])
    subst here
    exact absurd member (List.nodup_cons.mp lists.once).1

/-- A process of the queue has another pid than the running one. -/
theorem other (lists : procs.Lists c) (running : procs.pcbs c = some q) (member : r ∈ values procs.queue)
    (block : procs.pcbs r = some p) : p.pid ≠ q.pid := by
  intro same
  have here : r = c := lists.unique r (List.mem_cons_of_mem _ member) c (List.mem_cons_self ..)
    (by simp [Procs.pidOf, block, running, same])
  subst here
  exact (List.nodup_cons.mp lists.once).1 member

end Procs.Lists

/-! ## Reparenting -/

/-- After some requests, with other blocks. -/
def State.withPcbs (s : State) (h : Heap) (pcbs : Ref → Option Pcb) : State :=
  { s with heap := h, procs := { s.procs with pcbs } }

/-- The processes that `sendTaskToInit` looks at, with and without memory for its iterator. -/
def Procs.viewed (procs : Procs) (c : Ref) (granted : Prop) [Decidable granted] : List Ref :=
  c :: if granted then (values procs.queue).dropLast else []

/-- Whoever did not find the process follows `NULL`. -/
theorem sendTaskToInit_null (lists : s.procs.Lists c) (missing : ¬s.heap.Grants 1 ∨ s.procs.process pid = none) :
    Meets (· = .nullPointer) (sendTaskToInit pid) (fun _ _ => False) s := by
  unfold sendTaskToInit
  rw [meets_bind]
  refine malloc_asks.mono ?_
  rintro it s₁ ⟨-, h, asked, rfl⟩
  rw [meets_bind]
  refine (getProcess_asks (by exact lists.alive) pid).mono ?_
  rintro found s₂ ⟨rfl, h', -, rfl⟩
  have none : (s.withHeap h).sought pid = Option.none := by
    unfold State.sought
    split
    · rename_i granted
      exact missing.resolve_left (not_not.mpr ((asked.later 0).mp granted))
    · rfl
  simp only [meets_bind, meets_get, withHeap_procs, lists.running, none]
  unfold sendTaskToInitLoop
  simp [deref]

/-- The children that are looked at go to `init`, and perhaps the process itself. -/
theorem sendTaskToInit_asks (lists : s.procs.Lists c) (found : s.procs.process pid = some r)
    (block : s.procs.pcbs r = some p)
    (granted : s.heap.Grants 1) {bad : Fault → Prop} : Meets bad (sendTaskToInit pid) (fun _ s' => ∃ h ppid,
      s.heap.Asked 2 h ∧
      s' = s.withPcbs h (Function.update (s.procs.adoptAmong pid (s.procs.viewed c (s.heap.Grants 0))).pcbs
        r (some { p with ppid }))) s := by
  unfold sendTaskToInit
  rw [meets_bind]
  refine malloc_asks.mono ?_
  rintro it s₁ ⟨rfl, h₁, asked₁, rfl⟩
  rw [meets_bind]
  refine (getProcess_asks (by exact lists.alive) pid).mono ?_
  rintro _ s₂ ⟨rfl, h₂, asked₂, rfl⟩
  have sought : (s.withHeap h₁).sought pid = some r := (if_pos ((asked₁.later 0).mpr granted)).trans found
  have both : s.heap.Asked 2 h₂ := asked₁.trans asked₂
  have live : ∀ x ∈ c :: (if s.heap.Grants 0 then values s.procs.queue else []), s.procs.pcbs x ≠ none := by
    intro x member
    split at member
    · exact lists.blocks x member
    · exact lists.blocks x (List.mem_cons.mpr (.inl (List.mem_singleton.mp member)))
  have viewed : c :: (if s.heap.Grants 0 then values s.procs.queue else []).dropLast =
    s.procs.viewed c (s.heap.Grants 0) := by
    unfold Procs.viewed
    split <;> rfl
  simp only [meets_bind, meets_get, withHeap_procs, lists.running, sought]
  have queue : (if (if s.heap.Grants 0 then some s.heap.requests else none).isSome then values s.procs.queue else []) =
      if s.heap.Grants 0 then values s.procs.queue else [] := by
    by_cases here : s.heap.Grants 0 <;> simp [here]
  rw [queue]
  refine (sendTaskToInitLoop_spec (by exact block) c _ (by exact live) false).mono ?_
  rintro hasParent s₃ ⟨rfl, -⟩
  rw [viewed]
  obtain ⟨ppid, adopted⟩ : ∃ ppid, (s.procs.adoptAmong pid (s.procs.viewed c (s.heap.Grants 0))).pcbs r =
    some { p with ppid } := by
    simp [Procs.adoptAmong, block]
  have same : Function.update (s.procs.adoptAmong pid (s.procs.viewed c (s.heap.Grants 0))).pcbs r
    (some { p with ppid }) =
      (s.procs.adoptAmong pid (s.procs.viewed c (s.heap.Grants 0))).pcbs := Function.update_eq_self_iff.mpr adopted.symm
  have ends : ∀ h, s.heap.Asked 2 h → Meets bad (do
      if !hasParent then
        let initPid := (← get).procs.initPid
        modifyPcb (← deref (some r)) fun p => { p with ppid := initPid }
      return (0 : Int)) (fun _ s' => ∃ h ppid, s.heap.Asked 2 h ∧ s' = s.withPcbs h (Function.update
        (s.procs.adoptAmong pid (s.procs.viewed c (s.heap.Grants 0))).pcbs r (some { p with ppid })))
      { s with heap := h, procs := s.procs.adoptAmong pid (s.procs.viewed c (s.heap.Grants 0)) } := by
    intro h asked
    cases hasParent with
    | true =>
      refine ⟨h, ppid, asked, ?_⟩
      rw [same]
      rfl
    | false =>
      simp only [Bool.not_false, if_true, meets_bind, meets_get, meets_deref_some, meets_modifyPcb, meets_pure, adopted]
      exact ⟨h, s.procs.initPid, asked, rfl⟩
  by_cases here : s.heap.Grants 0
  · rw [if_pos here] at *
    exact ends _ (both.release _)
  · rw [if_neg here] at *
    exact ends _ both

/-! ## Termination -/

/-- What `changeState(pid, TERMINATED)` makes of a process of the queue. -/
inductive Buries (s : State) (c : Ref) (r : Ref) (p : Pcb) : State → Prop
  | spared (why : p.state = .terminated ∨ ¬s.heap.Grants 0) (asked : s.heap.Asked 1 h) : Buries s c r p (s.withHeap h)
  | buried (alive : p.state ≠ .terminated) (found : s.heap.Grants 0) (again : s.heap.Grants 2)
    (asked : s.heap.Asked 3 h)
    (readyCount : Int) (history : List Event) (ppid : Int) : Buries s c r p { s with
      heap := h
      history
      procs := { s.procs with
        readyCount
        pcbs := Function.update (s.procs.adoptAmong p.pid (s.procs.viewed c (s.heap.Grants 1))).pcbs r
          (some { p with ppid, state := .terminated }) } }

/-- It follows `NULL` where `changeState` finds the process and `sendTaskToInit` does not. -/
theorem terminate_queued (lists : s.procs.Lists c) (member : r ∈ values s.procs.queue)
    (block : s.procs.pcbs r = some p) :
    Meets (fun e => e = .nullPointer ∧ p.state ≠ .terminated ∧ s.heap.Grants 0 ∧ ¬s.heap.Grants 2)
      (changeState p.pid .terminated) (fun _ => Buries s c r p) s := by
  obtain ⟨q, running⟩ := lists.current
  have other := lists.other running member block
  unfold changeState changeStateWith
  rw [meets_bind]
  refine (processOf_asks lists.running running lists.alive p.pid).mono ?_
  rintro found s₁ ⟨rfl, h₁, asked₁, rfl⟩
  rw [if_neg other] at asked₁ ⊢
  unfold State.sought
  by_cases granted : s.heap.Grants 0
  · rw [if_pos granted, lists.process member block]
    dsimp only
    simp only [changeProcess, meets_bind, meets_readPcb, withHeap_procs, block, meets_lookup_some, reduceCtorEq, ne_eq,
      not_true, and_false, false_or, meets_ite, meets_pure, meets_get, if_false, if_true, meets_discard]
    refine ⟨fun dead => .spared (.inl dead) asked₁, fun alive => ?_⟩
    have lists₁ : (s.withHeap h₁).procs.Lists c := lists
    by_cases again : s.heap.Grants 2
    · refine (sendTaskToInit_asks lists₁ (lists.process member block) block ((asked₁.later 1).mpr again)).mono ?_
      rintro _ s₂ ⟨h₂, ppid, asked₂, rfl⟩
      have viewed : (s.withHeap h₁).procs.viewed c ((s.withHeap h₁).heap.Grants 0) =
        s.procs.viewed c (s.heap.Grants 1) := by
        have same : (s.withHeap h₁).heap.Grants 0 ↔ s.heap.Grants 1 := asked₁.later 0
        unfold Procs.viewed
        by_cases here : s.heap.Grants 1
        · rw [if_pos here, if_pos (same.mpr here)]
          rfl
        · rw [if_neg here, if_neg (mt same.mp here)]
      rw [viewed]
      simp only [State.withPcbs, withHeap_procs, Function.update_self, meets_lookup_some, meets_modifyProcs, meets_log,
        Procs.moveState, Function.update_idem]
      exact .buried alive granted again (asked₁.trans asked₂) _ _ ppid
    · have missing : ¬(s.withHeap h₁).heap.Grants 1 := fun here => again ((asked₁.later 1).mp here)
      refine ((sendTaskToInit_null lists₁ (.inl missing)).allow ?_).mono fun _ _ never => never.elim
      rintro e rfl
      exact ⟨rfl, alive, granted, again⟩
  · rw [if_neg granted]
    exact .spared (.inr granted) asked₁

/-- The running process is left alone where it is dead; where it is not, `sendTaskToInit` follows `NULL`. -/
theorem terminate_running (lists : s.procs.Lists c) (block : s.procs.pcbs c = some q) :
    Meets (fun e => e = .nullPointer ∧ q.state ≠ .terminated) (changeState q.pid .terminated) (fun _ s' =>
      q.state = .terminated ∧ ∃ h, s.heap.Asked 0 h ∧ s' = s.withHeap h) s := by
  unfold changeState changeStateWith
  rw [meets_bind]
  refine (processOf_asks lists.running block lists.alive q.pid).mono ?_
  rintro found s₁ ⟨rfl, h₁, asked₁, rfl⟩
  rw [if_pos rfl] at asked₁ ⊢
  have lists₁ : (s.withHeap h₁).procs.Lists c := lists
  dsimp only
  simp only [changeProcess, meets_bind, meets_readPcb, withHeap_procs, block, meets_lookup_some, reduceCtorEq, ne_eq,
    not_true, and_false, false_or, meets_ite, meets_pure, meets_get, if_false, if_true, meets_discard]
  refine ⟨fun dead => ⟨dead, h₁, asked₁, rfl⟩, fun alive => ?_⟩
  refine ((sendTaskToInit_null lists₁ (.inr (lists₁.absent block))).allow ?_).mono fun _ _ never => never.elim
  rintro e rfl
  exact ⟨rfl, alive⟩

/-! ## One round of the loop -/

/-- What the loop does with a process. -/
def examineChild (pid : Int) (current : Ref) : K Unit := do
  let p ← readPcb current
  if p.ppid = pid then
    discard <| changeState p.pid .terminated
    let initPid := (← get).procs.initPid
    modifyPcb current fun p => { p with ppid := initPid }

/-- The loop comes to the first, and to all that follow but the last. -/
theorem terminateChildrenLoop_eq (pid : Int) (current : Ref) (it : List Ref) :
    terminateChildrenLoop pid current it = (current :: it.dropLast).forM (examineChild pid) := by
  have round : ∀ (r : Ref) (rest : K Unit), (do
      let p ← readPcb r
      if p.ppid = pid then
        discard <| changeState p.pid .terminated
        let initPid := (← get).procs.initPid
        modifyPcb r fun p => { p with ppid := initPid }
      rest) = examineChild pid r >>= fun _ => rest := by
    intro r rest
    unfold examineChild
    rw [bind_assoc]
    refine congrArg _ (funext fun p => ?_)
    split
    · simp only [bind_assoc]
    · rfl
  have ends : ∀ r, (do
      let p ← readPcb r
      if p.ppid = pid then
        discard <| changeState p.pid .terminated
        let initPid := (← get).procs.initPid
        modifyPcb r fun p => { p with ppid := initPid }
      return) = List.forM [r] (examineChild pid) := fun r => round r _
  induction it generalizing current with
  | nil =>
    unfold terminateChildrenLoop
    exact ends current
  | cons next rest ih =>
    unfold terminateChildrenLoop
    cases rest with
    | nil => exact ends current
    | cons after rest =>
      dsimp only
      rw [ih next]
      exact round current _

/-- What becomes of a process of the queue that the loop comes to. -/
inductive Examines (s : State) (c : Ref) (pid : Int) (r : Ref) (p : Pcb) : State → Prop
  | passed (other : p.ppid ≠ pid) : Examines s c pid r p s
  | spared (child : p.ppid = pid) (why : p.state = .terminated ∨ ¬s.heap.Grants 0) (asked : s.heap.Asked 1 h) :
    Examines s c pid r p (s.withPcbs h (Function.update s.procs.pcbs r (some { p with ppid := s.procs.initPid })))
  | buried (child : p.ppid = pid) (alive : p.state ≠ .terminated) (found : s.heap.Grants 0) (again : s.heap.Grants 2)
    (asked : s.heap.Asked 3 h) (readyCount : Int) (history : List Event) : Examines s c pid r p { s with
      heap := h
      history
      procs := { s.procs with
        readyCount
        pcbs := Function.update (s.procs.adoptAmong p.pid (s.procs.viewed c (s.heap.Grants 1))).pcbs r
          (some { p with ppid := s.procs.initPid, state := .terminated }) } }

theorem examineChild_queued (lists : s.procs.Lists c) (member : r ∈ values s.procs.queue)
    (block : s.procs.pcbs r = some p)
    (pid : Int) : Meets (fun e => e = .nullPointer ∧ p.ppid = pid ∧ p.state ≠ .terminated ∧
      s.heap.Grants 0 ∧ ¬s.heap.Grants 2)
      (examineChild pid r) (fun _ => Examines s c pid r p) s := by
  unfold examineChild
  rw [meets_bind, meets_readPcb, block, meets_lookup_some, meets_ite]
  refine ⟨fun child => ?_, fun other => .passed other⟩
  rw [meets_bind, meets_discard]
  refine ((terminate_queued lists member block).mono ?_).allow fun e null => ⟨null.1, child, null.2⟩
  intro _ s' buries
  cases buries with
  | spared why asked =>
    simp only [meets_bind, meets_get, meets_modifyPcb, withHeap_procs, block, Option.map_some]
    exact .spared child why asked
  | buried alive found again asked readyCount history ppid =>
    simp only [meets_bind, meets_get, meets_modifyPcb, Function.update_self, Option.map_some, Function.update_idem]
    exact .buried child alive found again asked readyCount history

theorem examineChild_running (lists : s.procs.Lists c) (block : s.procs.pcbs c = some q) (pid : Int) :
    Meets (fun e => e = .nullPointer ∧ q.ppid = pid ∧ q.state ≠ .terminated) (examineChild pid c) (fun _ s' =>
      (q.ppid = pid → q.state = .terminated) ∧ ∃ h, s.heap.Asked 0 h ∧ s' = s.withPcbs h (Function.update s.procs.pcbs c
        (some { q with ppid := if q.ppid = pid then s.procs.initPid else q.ppid }))) s := by
  unfold examineChild
  rw [meets_bind, meets_readPcb, block, meets_lookup_some, meets_ite]
  constructor
  · intro child
    rw [meets_bind, meets_discard]
    refine ((terminate_running lists block).mono ?_).allow fun e null => ⟨null.1, child, null.2⟩
    rintro _ s' ⟨dead, h, asked, rfl⟩
    simp only [meets_bind, meets_get, meets_modifyPcb, withHeap_procs, block, Option.map_some]
    refine ⟨fun _ => dead, h, asked, ?_⟩
    rw [if_pos child]
    rfl
  · intro other
    refine ⟨fun child => (other child).elim, s.heap, .refl _, ?_⟩
    rw [if_neg other, Function.update_eq_self_iff.mpr block.symm]
    rfl

/-! ## The loop -/

/-- The parent of the process once `init` has adopted the children of these. -/
def Procs.presentPpid (procs : Procs) (adopted : List Int) (p : Pcb) : Int :=
  if p.state ≠ .terminated ∧ p.ppid ∈ adopted then procs.initPid else p.ppid

/-- The loop finds every living child twice or not at all, after so many requests and with the children of
some adopted. -/
def State.Finds (s : State) (pid : Int) : Nat → List Int → List Ref → Prop
  | _, _, [] => True
  | asked, adopted, r :: rest => ∀ p, s.procs.pcbs r = some p →
    if s.procs.presentPpid adopted p = pid then
      if p.state = .terminated ∨ ¬s.heap.Grants asked then s.Finds pid (asked + 1) adopted rest
      else s.heap.Grants (asked + 2) ∧
        s.Finds pid (asked + 3) (if s.heap.Grants (asked + 1) then p.pid :: adopted else adopted) rest
    else s.Finds pid asked adopted rest

/-- The loop gets these right, after so many requests and with the children of some adopted: it comes to
nobody who became or ceased to be a child meanwhile, unless it fails to find him, and finds every child that
is not dead both times. -/
def State.Clears (s : State) (pid : Int) : Nat → List Int → List Ref → Prop
  | _, _, [] => True
  | asked, adopted, r :: rest => ∀ p, s.procs.pcbs r = some p →
    if s.procs.presentPpid adopted p = pid then
      if p.state = .terminated then s.Clears pid (asked + 1) adopted rest
      else if p.ppid = pid then
        (s.heap.Grants asked ∧ s.heap.Grants (asked + 2)) ∧
          s.Clears pid (asked + 3) (if s.heap.Grants (asked + 1) then p.pid :: adopted else adopted) rest
      else ¬s.heap.Grants asked ∧ s.Clears pid (asked + 1) adopted rest
    else p.ppid ≠ pid ∧ s.Clears pid asked adopted rest

theorem State.Clears.finds {refs : List Ref} {asked : Nat} {adopted : List Int}
    (clears : s.Clears pid asked adopted refs) :
    s.Finds pid asked adopted refs := by
  induction refs generalizing asked adopted with
  | nil => trivial
  | cons r rest ih =>
    intro p block
    have here := clears p block
    split at here
    · rename_i child
      rw [if_pos child]
      split at here
      · rename_i dead
        rw [if_pos (.inl dead)]
        exact ih here
      · rename_i alive
        split at here
        · rw [if_neg (not_or.mpr ⟨alive, not_not.mpr here.1.1⟩)]
          exact ⟨here.1.2, ih here.2⟩
        · rw [if_pos (.inr here.1)]
          exact ih here.2
    · rename_i other
      rw [if_neg other]
      exact ih here.2

/-- The process ended as it should: a child is dead and a child of `init`, and others are as they were. -/
def Procs.Handled (procs procs' : Procs) (pid : Int) (r : Ref) : Prop :=
  ∀ p, procs.pcbs r = some p → ∃ p', procs'.pcbs r = some p' ∧
    if p.ppid = pid then p'.state = .terminated ∧ p'.ppid = procs.initPid else p'.state = p.state

/-- Whoever is not among these stayed as it was, if it was dead or the loop never looks at it; else it may
have been adopted. -/
def Procs.Leaves (procs : Procs) (c : Ref) (among : List Ref) (procs' : Procs) : Prop :=
  ∀ r ∉ among, ∀ p, procs.pcbs r = some p → ∃ p', procs'.pcbs r = some p' ∧ p'.state = p.state ∧
    (p.state = .terminated ∨ r ∉ c :: (values procs.queue).dropLast → p' = p)

theorem Procs.Leaves.refl (procs : Procs) (c : Ref) (among : List Ref) : procs.Leaves c among procs :=
  fun _ _ p block => ⟨p, block, rfl, fun _ => rfl⟩

theorem Procs.Leaves.trans {procs procs' procs'' : Procs} {among among' : List Ref}
    (first : procs.Leaves c among procs')
    (second : procs'.Leaves c among' procs'') (queue : procs'.queue = procs.queue) :
    procs.Leaves c (among ++ among') procs'' := by
  intro r away p block
  rw [List.mem_append, not_or] at away
  obtain ⟨p', block', state, same⟩ := first r away.1 p block
  obtain ⟨p'', block'', state', same'⟩ := second r away.2 p' block'
  refine ⟨p'', block'', state'.trans state, fun stays => ?_⟩
  have here := same stays
  subst here
  rw [queue] at same'
  exact same' stays

/-- Where the loop is: after so many requests and with the children of some adopted, these are still to come. -/
structure Midway (s : State) (c : Ref) (asked : Nat) (adopted : List Int) (rest : List Ref) (t : State) : Prop where
  asked : s.heap.Asked asked t.heap
  initPid : t.procs.initPid = s.procs.initPid
  queue : t.procs.queue = s.procs.queue
  lists : t.procs.Lists c
  once : rest.Nodup
  among : ∀ r ∈ rest, r ∈ (values s.procs.queue).dropLast
  blocks : ∀ r ∈ rest, t.procs.pcbs r = (s.procs.pcbs r).map fun p => { p with ppid := s.procs.presentPpid adopted p }

/-- One more is adopted. -/
theorem presentPpid_cons (procs : Procs) (adopted : List Int) (pid : Int) (p : Pcb) :
    (if procs.presentPpid adopted p = pid ∧ p.state ≠ .terminated then procs.initPid else procs.presentPpid adopted p) =
      procs.presentPpid (pid :: adopted) p := by
  unfold Procs.presentPpid
  by_cases dead : p.state = .terminated
  · simp [dead]
  · by_cases here : p.ppid ∈ adopted
    · simp [dead, here]
    · by_cases same : p.ppid = pid
      · rw [same] at here
        simp [dead, same, here]
      · simp [dead, here, same]

variable {t t' : State} {asked : Nat} {adopted : List Int} {rest : List Ref}

/-- The processes of another state are the same ones, in the same places. -/
theorem Procs.Lists.rewritten {procs : Procs} (lists : procs.Lists c) {pcbs : Ref → Option Pcb} (readyCount : Int)
    (pids : ∀ r, (pcbs r).map Pcb.pid = procs.pidOf r) : Procs.Lists { procs with pcbs, readyCount } c :=
  lists.kept rfl rfl pids

theorem Midway.tail (midway : Midway s c asked adopted (r :: rest) t) : Midway s c asked adopted rest t :=
  ⟨midway.asked, midway.initPid, midway.queue, midway.lists, (List.nodup_cons.mp midway.once).2,
    fun x member => midway.among x (List.mem_cons_of_mem _ member),
    fun x member => midway.blocks x (List.mem_cons_of_mem _ member)⟩

/-- Somebody in the queue is written to, and nobody else. -/
theorem Midway.spared (midway : Midway s c asked adopted (r :: rest) t) (block : t.procs.pcbs r = some p)
    (more : t.heap.Asked 1 h) (ppid : Int) :
    Midway s c (asked + 1) adopted rest (t.withPcbs h (Function.update t.procs.pcbs r (some { p with ppid }))) ∧
      t.procs.Leaves c [r] (t.withPcbs h (Function.update t.procs.pcbs r (some { p with ppid }))).procs := by
  obtain ⟨fresh, once⟩ := List.nodup_cons.mp midway.once
  have others : ∀ x ≠ r, Function.update t.procs.pcbs r (some { p with ppid }) x = t.procs.pcbs x := fun x other =>
    Function.update_of_ne other _ _
  refine ⟨⟨midway.asked.trans more, midway.initPid, midway.queue, ?_, once,
    fun x member => midway.among x (List.mem_cons_of_mem _ member), fun x member => ?_⟩, fun x away q block' => ?_⟩
  · refine midway.lists.rewritten t.procs.readyCount fun x => ?_
    by_cases here : x = r
    · subst here
      simp [Procs.pidOf, block]
    · exact congrArg (Option.map Pcb.pid) (others x here)
  · have other : x ≠ r := fun same => fresh (same ▸ member)
    exact (others x other).trans (midway.blocks x (List.mem_cons_of_mem _ member))
  · have other : x ≠ r := fun same => away (List.mem_singleton.mpr same)
    exact ⟨q, (others x other).trans block', rfl, fun _ => rfl⟩

/-- Somebody in the queue is terminated, and his children are adopted if there is memory to look for them. -/
theorem Midway.buried (midway : Midway s c asked adopted (r :: rest) t) (block : t.procs.pcbs r = some p)
    (more : t.heap.Asked 3 h) (readyCount : Int) (history : List Event) (ended : t' = { t with
      heap := h
      history
      procs := { t.procs with
        readyCount
        pcbs := Function.update (t.procs.adoptAmong p.pid (t.procs.viewed c (t.heap.Grants 1))).pcbs r
          (some { p with ppid := t.procs.initPid, state := .terminated }) } }) :
    Midway s c (asked + 3) (if s.heap.Grants (asked + 1) then p.pid :: adopted else adopted) rest t' ∧
      t.procs.Leaves c [r] t'.procs := by
  subst ended
  obtain ⟨fresh, once⟩ := List.nodup_cons.mp midway.once
  have granted : t.heap.Grants 1 ↔ s.heap.Grants (asked + 1) := midway.asked.later 1
  have others : ∀ x ≠ r, Function.update (t.procs.adoptAmong p.pid (t.procs.viewed c (t.heap.Grants 1))).pcbs r
      (some { p with ppid := t.procs.initPid, state := .terminated }) x =
      (t.procs.adoptAmong p.pid (t.procs.viewed c (t.heap.Grants 1))).pcbs x :=
      fun x other => Function.update_of_ne other _ _
  refine ⟨⟨midway.asked.trans more, midway.initPid, midway.queue, ?_, once,
    fun x member => midway.among x (List.mem_cons_of_mem _ member), fun x member => ?_⟩, fun x away q block' => ?_⟩
  · refine midway.lists.rewritten readyCount fun x => ?_
    by_cases here : x = r
    · subst here
      simp [Procs.pidOf, block]
    · rw [others x here]
      simp only [Procs.adoptAmong, Procs.pidOf, Option.map_map]
      rfl
  · have other : x ≠ r := fun same => fresh (same ▸ member)
    have among := midway.among x (List.mem_cons_of_mem _ member)
    have apart : x ≠ c := by
      rintro rfl
      exact (List.nodup_cons.mp midway.lists.once).1 (midway.queue ▸ List.dropLast_subset _ among)
    refine (others x other).trans ?_
    simp only [Procs.adoptAmong, midway.blocks x (List.mem_cons_of_mem _ member), Option.map_map]
    refine congrArg (Option.map · _) (funext fun q => ?_)
    simp only [Function.comp_apply, Procs.viewed, List.mem_cons, apart, false_or, midway.queue, midway.initPid]
    by_cases here : s.heap.Grants (asked + 1)
    · rw [if_pos here, if_pos (granted.mpr here), ← presentPpid_cons]
      simp only [among, true_and]
    · rw [if_neg here, if_neg (mt granted.mp here)]
      simp only [List.not_mem_nil, false_and, if_false]
  · have other : x ≠ r := fun same => away (List.mem_singleton.mpr same)
    refine ⟨_, (others x other).trans (congrArg (Option.map _) block'), rfl, ?_⟩
    have unseen : q.state = .terminated ∨ x ∉ c :: (values t.procs.queue).dropLast →
        ¬(x ∈ t.procs.viewed c (t.heap.Grants 1) ∧ q.ppid = p.pid ∧ q.state ≠ .terminated) := by
      rintro (dead | away) ⟨viewed, -, alive⟩
      · exact alive dead
      · refine away ?_
        unfold Procs.viewed at viewed
        split at viewed
        · exact viewed
        · exact List.mem_cons.mpr (.inl (List.mem_singleton.mp viewed))
    intro stays
    dsimp only
    rw [if_neg (unseen stays)]

/-- How the rest of the loop ends, where the first was handled exactly if `here`. -/
theorem examineChildren_cons (here : Prop) {clears finds : Prop} (first : t.procs.Leaves c [r] t'.procs)
    (queue : t'.procs.queue = t.procs.queue)
    (later : Meets (fun e => e = .nullPointer ∧ ¬finds) (rest.forM (examineChild pid)) (fun _ t'' => finds ∧
      ((∀ x ∈ rest, s.procs.Handled t''.procs pid x) ↔ clears) ∧ t'.procs.Leaves c rest t''.procs) t')
    (found : s.Finds pid asked adopted (r :: rest) ↔ finds)
    (split : s.Clears pid asked adopted (r :: rest) ↔ here ∧ clears)
    (head : ∀ t'' : State, t'.procs.Leaves c rest t''.procs → (s.procs.Handled t''.procs pid r ↔ here)) :
    Meets (fun e => e = .nullPointer ∧ ¬s.Finds pid asked adopted (r :: rest))
    (rest.forM (examineChild pid)) (fun _ t'' =>
      s.Finds pid asked adopted (r :: rest) ∧
        ((∀ x ∈ r :: rest, s.procs.Handled t''.procs pid x) ↔ s.Clears pid asked adopted (r :: rest)) ∧
        t.procs.Leaves c (r :: rest) t''.procs) t' := by
  refine (later.mono ?_).allow ?_
  · rintro _ t'' ⟨finds, handled, leaves⟩
    refine ⟨found.mpr finds, ?_, first.trans leaves queue⟩
    rw [List.forall_mem_cons, handled, head t'' leaves, split]
  · rintro e ⟨null, missed⟩
    exact ⟨null, mt found.mp missed⟩

/-- **The loop gets everybody right exactly where it `Clears`**, and follows `NULL` exactly where it does not
find somebody again. -/
theorem examineChildren (midway : Midway s c asked adopted rest t) : Meets
    (fun e => e = .nullPointer ∧ ¬s.Finds pid asked adopted rest) (rest.forM (examineChild pid)) (fun _ t' =>
      s.Finds pid asked adopted rest ∧ ((∀ r ∈ rest, s.procs.Handled t'.procs pid r) ↔
        s.Clears pid asked adopted rest) ∧
        t.procs.Leaves c rest t'.procs) t := by
  induction rest generalizing t asked adopted with
  | nil => exact ⟨trivial, by simp [State.Clears], .refl _ _ _⟩
  | cons r rest ih =>
    have among := List.dropLast_subset _ (midway.among r (List.mem_cons_self ..))
    have fresh := (List.nodup_cons.mp midway.once).1
    obtain ⟨q, block⟩ := Option.ne_none_iff_exists'.mp (midway.lists.alive r (midway.queue ▸ among))
    obtain ⟨p, was, rfl⟩ := Option.map_eq_some_iff.mp ((midway.blocks r (List.mem_cons_self ..)).symm.trans block)
    have now : t.heap.Grants 0 ↔ s.heap.Grants asked := midway.asked.later 0
    have again : t.heap.Grants 2 ↔ s.heap.Grants (asked + 2) := midway.asked.later 2
    -- Whoever was dead on entry has the parent he had.
    have settled : p.state = .terminated → s.procs.presentPpid adopted p = p.ppid :=
      fun dead => if_neg fun alive => alive.1 dead
    have clears : s.Clears pid asked adopted (r :: rest) ↔ if s.procs.presentPpid adopted p = pid then
        if p.state = .terminated then s.Clears pid (asked + 1) adopted rest
        else if p.ppid = pid then
          (s.heap.Grants asked ∧ s.heap.Grants (asked + 2)) ∧
            s.Clears pid (asked + 3) (if s.heap.Grants (asked + 1) then p.pid :: adopted else adopted) rest
        else ¬s.heap.Grants asked ∧ s.Clears pid (asked + 1) adopted rest
      else p.ppid ≠ pid ∧ s.Clears pid asked adopted rest := by
      rw [State.Clears]
      exact ⟨fun all => all p was, fun here q same => Option.some.inj (was.symm.trans same) ▸ here⟩
    have finds : s.Finds pid asked adopted (r :: rest) ↔ if s.procs.presentPpid adopted p = pid then
        if p.state = .terminated ∨ ¬s.heap.Grants asked then s.Finds pid (asked + 1) adopted rest
        else s.heap.Grants (asked + 2) ∧
          s.Finds pid (asked + 3) (if s.heap.Grants (asked + 1) then p.pid :: adopted else adopted) rest
      else s.Finds pid asked adopted rest := by
      rw [State.Finds]
      exact ⟨fun all => all p was, fun here q same => Option.some.inj (was.symm.trans same) ▸ here⟩
    have handled : ∀ (t'' : State) p', t''.procs.pcbs r = some p' → (s.procs.Handled t''.procs pid r ↔
        if p.ppid = pid then p'.state = .terminated ∧ p'.ppid = s.procs.initPid else p'.state = p.state) := by
      intro t'' p' after
      constructor
      · intro all
        obtain ⟨q, block', here⟩ := all p was
        rw [Option.some.inj (after.symm.trans block')]
        exact here
      · intro here q same
        exact ⟨p', after, Option.some.inj (was.symm.trans same) ▸ here⟩
    rw [List.forM_eq_forM, List.forM_cons, meets_bind]
    refine ((examineChild_queued midway.lists (midway.queue ▸ among) block pid).mono ?_).allow ?_
    · intro _ t' examined
      cases examined with
      | passed other =>
        refine examineChildren_cons (p.ppid ≠ pid) (.refl _ _ _) rfl (ih midway.tail) (by rw [finds, if_neg other])
          (by rw [clears, if_neg other]) fun t'' leaves => ?_
        obtain ⟨p', block', state, -⟩ := leaves r fresh _ block
        rw [handled t'' p' block', state]
        constructor
        · intro here child
          rw [if_pos child] at here
          exact other ((settled here.1).trans child)
        · intro notChild
          rw [if_neg notChild]
      | @spared h child why more =>
        obtain ⟨midway', leaves'⟩ := midway.spared block more t.procs.initPid
        have missed : p.state = .terminated ∨ ¬s.heap.Grants asked := why.imp_right (mt now.mpr)
        refine examineChildren_cons (p.state = .terminated ∨ p.ppid ≠ pid) leaves' rfl (ih midway')
          (by rw [finds, if_pos child, if_pos missed]) ?_ fun t'' leaves => ?_
        · rw [clears, if_pos child]
          by_cases dead : p.state = .terminated
          · simp [dead]
          · simp [dead, missed.resolve_left dead]
        · obtain ⟨p', block', state, same⟩ := leaves r fresh _ (Function.update_self ..)
          rw [handled t'' p' block']
          by_cases dead : p.state = .terminated
          · rw [same (.inl dead), if_pos ((settled dead).symm.trans child)]
            exact ⟨fun _ => .inl dead, fun _ => ⟨dead, midway.initPid⟩⟩
          · have alive : p'.state ≠ .terminated := fun here => dead (state.symm.trans here)
            by_cases own : p.ppid = pid
            · simp [own, dead, alive]
            · simpa [own] using state
      | @buried h child alive found granted more readyCount history =>
        obtain ⟨midway', leaves'⟩ := midway.buried block more readyCount history rfl
        have again' := again.mp granted
        have seen : ¬(p.state = .terminated ∨ ¬s.heap.Grants asked) := not_or.mpr ⟨alive, not_not.mpr (now.mp found)⟩
        refine examineChildren_cons (p.ppid = pid) leaves' rfl (ih midway')
          (by rw [finds, if_pos child, if_neg seen]; exact and_iff_right again') ?_ fun t'' leaves => ?_
        · rw [clears, if_pos child, if_neg alive]
          by_cases own : p.ppid = pid
          · rw [if_pos own]
            exact and_congr_left fun _ => ⟨fun _ => own, fun _ => ⟨now.mp found, again'⟩⟩
          · rw [if_neg own]
            exact ⟨fun here => absurd (now.mp found) here.1, fun here => absurd here.1 own⟩
        · obtain ⟨p', block', state, same⟩ := leaves r fresh _ (Function.update_self ..)
          rw [handled t'' p' block', same (.inl rfl)]
          by_cases own : p.ppid = pid
          · simp [own, midway.initPid]
          · simpa [own] using Ne.symm alive
    · rintro e ⟨null, child, alive, found, missing⟩
      refine ⟨null, fun here => ?_⟩
      rw [finds, if_pos child, if_neg (not_or.mpr ⟨alive, not_not.mpr (now.mp found)⟩)] at here
      exact missing (again.mpr here.1)

/-! ## The whole of it -/

/-- The processes of the queue that `terminateChildren` comes to: without memory for its iterator, none. -/
def State.examines (s : State) : List Ref := if s.heap.Grants 0 then (values s.procs.queue).dropLast else []

/-- The running process is not a child, unless it is dead. -/
def Procs.SparesRunning (procs : Procs) (pid : Int) : Prop :=
  ∀ c p, procs.currentProcessPCB = some c → procs.pcbs c = some p → p.ppid = pid → p.state = .terminated

/-- The loop comes to the running process first. -/
theorem meets_terminateChildren {bad : Fault → Prop} {post : Unit → State → Prop} (lists : s.procs.Lists c) (pid : Int)
    (loop : ∀ h, s.heap.Asked 1 h →
      Meets bad (examineChild pid c) (fun _ s₁ => Meets bad (s.examines.forM (examineChild pid))
      (fun _ s' => ∀ h, s'.heap.Asked 0 h → post () (s'.withHeap h)) s₁) (s.withHeap h)) :
    Meets bad (terminateChildren pid) post s := by
  obtain ⟨q, block⟩ := lists.current
  unfold terminateChildren
  rw [meets_bind]
  refine malloc_asks.mono ?_
  rintro it s₁ ⟨rfl, h₁, asked₁, rfl⟩
  have lists₁ : (s.withHeap h₁).procs.Lists c := lists
  rw [meets_bind, meets_currentPcb lists₁.running block]
  simp only [meets_bind, meets_get, withHeap_procs]
  have examined :
    (if (if s.heap.Grants 0 then some s.heap.requests else none).isSome then values s.procs.queue else []).dropLast =
      s.examines := by
    unfold State.examines
    by_cases here : s.heap.Grants 0 <;> simp [here]
  rw [terminateChildrenLoop_eq, examined, List.forM_eq_forM, List.forM_cons, meets_bind]
  refine (loop h₁ asked₁).mono fun _ _ rest => rest.mono fun _ s' ends => ?_
  by_cases granted : s.heap.Grants 0
  · rw [if_pos granted]
    exact ends _ ((Heap.Asked.refl _).release _)
  · rw [if_neg granted]
    exact ends _ (.refl _)

/-- The running process may have another parent, and the queue is to come. -/
theorem Midway.start (lists : s.procs.Lists c) (block : s.procs.pcbs c = some q)
    (asked : s.heap.Asked 1 h) (ppid : Int) :
    Midway s c 1 [] s.examines (s.withPcbs h (Function.update s.procs.pcbs c (some { q with ppid }))) := by
  have among : ∀ r ∈ s.examines, r ∈ (values s.procs.queue).dropLast := by
    unfold State.examines
    split
    · exact fun _ => id
    · nofun
  have once : s.examines.Nodup := by
    unfold State.examines
    split
    · exact (List.nodup_cons.mp lists.once).2.sublist (List.dropLast_sublist _)
    · exact .nil
  have others : ∀ r ≠ c, Function.update s.procs.pcbs c (some { q with ppid }) r = s.procs.pcbs r :=
    fun r other => Function.update_of_ne other _ _
  refine ⟨asked, rfl, rfl, ?_, once, among, fun r member => ?_⟩
  · refine lists.rewritten s.procs.readyCount fun r => ?_
    by_cases here : r = c
    · subst here
      simp [Procs.pidOf, block]
    · exact congrArg (Option.map Pcb.pid) (others r here)
  · have apart : r ≠ c := by
      rintro rfl
      exact (List.nodup_cons.mp lists.once).1 (List.dropLast_subset _ (among r member))
    refine (others r apart).trans ?_
    cases s.procs.pcbs r <;> simp [Procs.presentPpid]

theorem terminateChildren_spec (lists : s.procs.Lists c) (pid : Int) : Meets
    (fun e => e = .nullPointer ∧ ¬(s.procs.SparesRunning pid ∧ s.Finds pid 1 [] s.examines)) (terminateChildren pid)
    (fun _ s' => s.procs.SparesRunning pid ∧ s.Finds pid 1 [] s.examines ∧ s.procs.Handled s'.procs pid c ∧
      ((∀ r ∈ s.examines, s.procs.Handled s'.procs pid r) ↔ s.Clears pid 1 [] s.examines) ∧
      ∀ r ∉ c :: s.examines, ∀ p, s.procs.pcbs r = some p → s'.procs.pcbs r = some p) s := by
  obtain ⟨q, block⟩ := lists.current
  have spares : (q.ppid = pid → q.state = .terminated) ↔ s.procs.SparesRunning pid := by
    constructor
    · intro here c' p running block'
      cases lists.running.symm.trans running
      cases block.symm.trans block'
      exact here
    · exact fun here => here c q lists.running block
  refine meets_terminateChildren lists pid fun h₁ asked₁ => ?_
  have lists₁ : (s.withHeap h₁).procs.Lists c := lists
  refine ((examineChild_running lists₁ block pid).mono ?_).allow ?_
  · rintro _ t ⟨dead, h₂, asked₂, ended⟩
    have own : t.procs.pcbs c = some { q with ppid := if q.ppid = pid then s.procs.initPid else q.ppid } := by
      rw [ended]
      exact Function.update_self ..
    have others : ∀ r ≠ c, t.procs.pcbs r = s.procs.pcbs r := by
      intro r other
      rw [ended]
      exact Function.update_of_ne other _ _
    have midway : Midway s c 1 [] s.examines t := by
      rw [ended]
      exact .start lists block (asked₁.trans asked₂) _
    have queue : t.procs.queue = s.procs.queue := midway.queue
    have loop : Meets (fun e => e = .nullPointer ∧ ¬s.Finds pid 1 [] s.examines) (s.examines.forM (examineChild pid))
        (fun _ t' => s.Finds pid 1 [] s.examines ∧
          ((∀ r ∈ s.examines, s.procs.Handled t'.procs pid r) ↔ s.Clears pid 1 [] s.examines) ∧
          t.procs.Leaves c s.examines t'.procs ∧
          ∀ r ∉ c :: s.examines, ∀ p, t.procs.pcbs r = some p → t'.procs.pcbs r = some p) t := by
      by_cases granted : s.heap.Grants 0
      · have all : s.examines = (values t.procs.queue).dropLast := by rw [State.examines, if_pos granted, queue]
        refine (examineChildren midway).mono fun _ t' ⟨finds, handled, leaves⟩ =>
          ⟨finds, handled, leaves, fun r away p here => ?_⟩
        obtain ⟨p', block', -, same⟩ := leaves r (fun member => away (List.mem_cons_of_mem _ member)) p here
        rw [block', same (.inr (all ▸ away))]
      · have nobody : s.examines = [] := if_neg granted
        rw [nobody]
        exact ⟨trivial, by simp [State.Clears], .refl _ _ _, fun _ _ _ here => here⟩
    refine (loop.mono ?_).allow ?_
    · rintro _ t' ⟨finds, handled, leaves, unseen⟩
      have away : c ∉ s.examines := fun member =>
        (List.nodup_cons.mp lists.once).1 (List.dropLast_subset _ (midway.among c member))
      obtain ⟨q', block', state, same⟩ := leaves c away _ own
      have first : s.procs.Handled t'.procs pid c := by
        intro p here
        cases block.symm.trans here
        refine ⟨q', block', ?_⟩
        by_cases child : q.ppid = pid
        · rw [same (.inl (dead child))]
          simp [child, dead child]
        · simpa [child] using state
      have rest : ∀ r ∉ c :: s.examines, ∀ p, s.procs.pcbs r = some p → t'.procs.pcbs r = some p := by
        intro r away p here
        refine unseen r away p ((others r fun same => ?_).trans here)
        exact away (same ▸ List.mem_cons_self ..)
      exact fun h _ => ⟨spares.mp dead, finds, first, handled, rest⟩
    · rintro e ⟨null, missed⟩
      exact ⟨null, fun both => missed both.2⟩
  · rintro e ⟨null, child, alive⟩
    exact ⟨null, fun both => alive (spares.mpr both.1 child)⟩

/-- All who were children, in the queue or running, are dead and children of `init`, and everybody else is in the state
he was in. -/
def State.TerminatesChildren (s : State) (pid : Int) : Prop :=
  ∃ s', (terminateChildren pid).run s = .ok ((), s') ∧ ∀ r p, s.procs.pcbs r = some p →
    ∃ p', s'.procs.pcbs r = some p' ∧
    if (s.procs.currentProcessPCB = some r ∨ r ∈ values s.procs.queue) ∧ p.ppid = pid then
      p'.state = .terminated ∧ p'.ppid = s.procs.initPid
    else p'.state = p.state

/-- The processes of the queue that `terminateChildren` does not come to: the last one, or all of them. -/
def State.skips (s : State) : List Ref := (values s.procs.queue).drop s.examines.length

/-- No child is missed: the running process is none, and neither is whoever is skipped, unless there is
nothing to do, and those in between are `Clears`. -/
structure State.ReachesChildren (s : State) (pid : Int) : Prop where
  running : s.procs.SparesRunning pid
  skipped : ∀ r ∈ s.skips, ∀ p, s.procs.pcbs r = some p → p.ppid = pid → p.state = .terminated ∧ pid = s.procs.initPid
  examined : s.Clears pid 1 [] s.examines

theorem examines_skips (s : State) : s.examines ++ s.skips = values s.procs.queue := by
  have front : s.examines = (values s.procs.queue).take s.examines.length := by
    unfold State.examines
    split
    · rw [List.length_dropLast, ← List.dropLast_eq_take]
    · rfl
  unfold State.skips
  nth_rewrite 1 [front]
  exact List.take_append_drop _ _

/-- With memory, and for a process that is neither `init` nor its own parent, nobody in between is missed. -/
theorem State.Clears.of_served {refs : List Ref} (served : ∀ n, s.heap.Grants n) (notInit : pid ≠ s.procs.initPid)
    (apart : ∀ r ∈ refs, ∀ p, s.procs.pcbs r = some p → p.ppid = pid → p.pid ≠ pid) (fresh : pid ∉ adopted) :
    s.Clears pid asked adopted refs := by
  induction refs generalizing asked adopted with
  | nil => trivial
  | cons r rest ih =>
    have later : ∀ asked adopted, pid ∉ adopted → s.Clears pid asked adopted rest := fun _ _ fresh =>
      ih (fun x member => apart x (List.mem_cons_of_mem _ member)) fresh
    intro p block
    by_cases child : p.ppid = pid
    · have present : s.procs.presentPpid adopted p = pid := (if_neg fun here => fresh (child ▸ here.2)).trans child
      rw [if_pos present, if_pos child]
      split
      · exact later _ _ fresh
      · refine ⟨⟨served _, served _⟩, later _ _ ?_⟩
        split
        · exact fun member =>
            (List.mem_cons.mp member).elim (apart r (List.mem_cons_self ..) p block child ∘ Eq.symm) fresh
        · exact fresh
    · have present : s.procs.presentPpid adopted p ≠ pid := by
        unfold Procs.presentPpid
        split
        · exact notInit.symm
        · exact child
      rw [if_neg present]
      exact ⟨child, later _ _ fresh⟩

/-- **`terminateChildren` reaches every child exactly where it `ReachesChildren`.** -/
theorem terminateChildren_complete_iff (lists : s.procs.Lists c) (pid : Int) : s.TerminatesChildren pid ↔
    s.ReachesChildren pid := by
  have queued : ∀ r, r ∈ values s.procs.queue ↔ r ∈ s.examines ∨ r ∈ s.skips := fun r => by
    rw [← examines_skips, List.mem_append]
  have once := (List.nodup_cons.mp lists.once).2
  rw [← examines_skips] at once
  have apart : ∀ r ∈ s.skips, r ∉ c :: s.examines := by
    intro r member here
    rcases List.mem_cons.mp here with rfl | here
    · exact (List.nodup_cons.mp lists.once).1 ((queued r).mpr (.inr member))
    · exact (List.nodup_append.mp once).2.2 r here r member rfl
  have spec := terminateChildren_spec lists pid
  constructor
  · rintro ⟨s', ran, all⟩
    obtain ⟨running, -, -, handled, rest⟩ := (meets_of_run ran).mp spec
    refine ⟨running, fun r member p block child => ?_, handled.mp fun r member p block => ?_⟩
    · obtain ⟨p', block', here⟩ := all r p block
      cases (rest r (apart r member) p block).symm.trans block'
      rw [if_pos ⟨.inr ((queued r).mpr (.inr member)), child⟩] at here
      exact ⟨here.1, child.symm.trans here.2⟩
    · obtain ⟨p', block', here⟩ := all r p block
      refine ⟨p', block', ?_⟩
      simpa only [(queued r).mpr (.inl member), or_true, true_and] using here
  · rintro ⟨running, skipped, examined⟩
    obtain ⟨_, s', ran, -, -, own, handled, rest⟩ := (spec.allow fun _ bad => bad.2 ⟨running, examined.finds⟩).returns
    refine ⟨s', ran, fun r p block => ?_⟩
    by_cases here : r = c
    · subst here
      obtain ⟨p', block', here⟩ := own p block
      exact ⟨p', block', by simpa only [lists.running, true_or, true_and] using here⟩
    · by_cases member : r ∈ s.examines
      · obtain ⟨p', block', here⟩ := handled.mpr examined r member p block
        exact ⟨p', block', by simpa only [(queued r).mpr (.inl member), or_true, true_and] using here⟩
      · refine ⟨p, rest r (fun both => (List.mem_cons.mp both).elim here member) p block, ?_⟩
        split
        · rename_i child
          have listed : r ∈ values s.procs.queue := child.1.resolve_left fun same => here
            (Option.some.inj (same.symm.trans lists.running))
          obtain ⟨dead, init⟩ := skipped r (((queued r).mp listed).resolve_left member) p block child.2
          exact ⟨dead, child.2.trans init⟩
        · rfl

/-- `init` is running, and the queue is a child of the shell and the shell. -/
def childState : State :=
  { initState (fun _ => true) (none, []) with
    procs := { bootProcs with
      currentProcessPCB := some initRef
      queue := [⟨44, 40⟩, ⟨39, userlandRef⟩]
      pcbs := Function.update bootPcbs 40 (some { bootPcb 4 1 FOREGROUND_PRIORITY "p" (0, 1) 40 6 with ppid := 3 }) } }

theorem terminateChildren_complete_shell : childState.TerminatesChildren 3 := by
  have lists : childState.procs.Lists initRef := by
    refine ⟨rfl, by decide, by decide, by decide⟩
  refine (terminateChildren_complete_iff lists 3).mpr ⟨?_, ?_, ?_⟩
  · rintro c p ⟨⟩ ⟨⟩ ⟨⟩
  · intro r member p block child
    obtain rfl : r = userlandRef := List.mem_singleton.mp member
    cases block
    cases child
  · refine .of_served (fun _ => rfl) (by decide) (fun r member p block _ => ?_) (by decide)
    obtain rfl : r = 40 := List.mem_singleton.mp member
    cases block
    decide

/-- A foreground process is running, and its child is the last of the queue: it is not terminated. -/
theorem terminateChildren_misses : ∃ S, Run (fun _ _ => True) (boot (fun _ => true) (none, [])) S ∧
    ¬S.state.TerminatesChildren 4 := by
  have played : ((play (fun _ _ => true) (List.replicate 3 .schedule ++
      [.call (.startTask (some 0) ["p"] 1 (some (0, 1)))] ++ List.replicate 5 .schedule ++
      [.call (.startTask (some 0) ["p"] 1 (some (0, 1)))]) (boot (fun _ => true) (none, []))).map fun S =>
      (decide (52 ∈ values S.state.procs.queue), (S.state.procs.pcbs 52).map Pcb.ppid,
        ((terminateChildren 4).run S.state).toOption.map fun result => (result.2.procs.pcbs 52).map Pcb.state)) =
      some (true, some 4, some (some .ready)) := by decide +kernel
  obtain ⟨S, played, observed⟩ := Option.map_eq_some_iff.mp played
  obtain ⟨queued, parent, ready⟩ : _ ∧ _ ∧ _ := by simpa only [Prod.mk.injEq] using observed
  refine ⟨S, play_run (fun _ _ _ => trivial) played, ?_⟩
  rintro ⟨s', ran, all⟩
  obtain ⟨p, block, child⟩ := Option.map_eq_some_iff.mp parent
  obtain ⟨p', block', ended⟩ := all 52 p block
  rw [if_pos ⟨.inr (of_decide_eq_true queued), child⟩] at ended
  have state : some (some p'.state) = some (some ProcessState.ready) := by
    simpa [ran, Except.toOption, block'] using ready
  rw [ended.1] at state
  cases state

end QuesOs.Kernel
