import QuesOs.Quiet
import QuesOs.Reachable

/-! The numbering of the processes. `freeProcess` takes back a pid when the current
process has the latest one, whichever process it frees: the scheduler frees the
current one, and where `startTask` fails a pid after its own was given out. So no
pid is given out twice while it is in use, whichever allocations fail. -/
namespace QuesOs.Kernel
open Resumption Threads

/-- The pid of the process, if it exists. -/
def Procs.pidOf (procs : Procs) (r : Ref) : Option Int := (procs.pcbs r).map Pcb.pid

/-- Pids are positive, below the next one and given to one process each, and so are
those of the processes that are being made. -/
structure Procs.Numbered (procs : Procs) (requests : Nat) : Prop where
  pids : ∀ r n, procs.pidOf r = some n → 0 < n ∧ n < procs.pidCounter ∧ r < requests
  unique : ∀ r r' n, procs.pidOf r = some n → procs.pidOf r' = some n → r = r'
  new : ∀ c r p, procs.newProcess c = some (r, p) → 0 < p.pid ∧ p.pid < procs.pidCounter ∧ r < requests ∧ c < requests
  apart : ∀ c r p, procs.newProcess c = some (r, p) → procs.pidOf r = none ∧ procs.newProcess r = none ∧
    ∀ r', procs.pidOf r' ≠ some p.pid
  older : ∀ c r p n, procs.newProcess c = some (r, p) → procs.pidOf c = some n → n < p.pid
  newUnique : ∀ c c' r r' p p', procs.newProcess c = some (r, p) → procs.newProcess c' = some (r', p') →
    r = r' ∨ p.pid = p'.pid → c = c'

namespace Procs.Numbered
variable {procs procs' : Procs} {n n' : Nat}

theorem alike (numbered : procs.Numbered n) (more : n ≤ n') (counter : procs'.pidCounter = procs.pidCounter)
    (newProcess : procs'.newProcess = procs.newProcess) (same : ∀ r, procs'.pidOf r = procs.pidOf r) :
    procs'.Numbered n' := by
  refine ⟨fun r i pid => ?_, fun r r' i pid pid' => ?_, fun c r p new => ?_, fun c r p new =>
    ?_, fun c r p i new pid => ?_, ?_⟩
  · obtain ⟨positive, low, old⟩ := numbered.pids r i (same r ▸ pid)
    exact ⟨positive, counter ▸ low, Nat.lt_of_lt_of_le old more⟩
  · exact numbered.unique r r' i (same r ▸ pid) (same r' ▸ pid')
  · obtain ⟨positive, low, old, old'⟩ := numbered.new c r p (newProcess ▸ new)
    exact ⟨positive, counter ▸ low, Nat.lt_of_lt_of_le old more, Nat.lt_of_lt_of_le old' more⟩
  · obtain ⟨absent, idle, others⟩ := numbered.apart c r p (newProcess ▸ new)
    exact ⟨same r ▸ absent, newProcess ▸ idle, fun r' => same r' ▸ others r'⟩
  · exact numbered.older c r p i (newProcess ▸ new) (same c ▸ pid)
  · rw [newProcess]
    exact numbered.newUnique

/-- A pid is given out. -/
theorem counted (numbered : procs.Numbered n) : Procs.Numbered { procs with pidCounter := procs.pidCounter + 1 } n :=
  ⟨fun r i pid => ⟨(numbered.pids r i pid).1, Int.lt_trans (numbered.pids r i pid).2.1 (Int.lt_succ _),
    (numbered.pids r i pid).2.2⟩,
    numbered.unique,
    fun c r p new =>
      ⟨(numbered.new c r p new).1, Int.lt_trans (numbered.new c r p new).2.1 (Int.lt_succ _),
        (numbered.new c r p new).2.2⟩,
    numbered.apart, numbered.older, numbered.newUnique⟩

/-- The latest pid is given to a new block. -/
theorem allocated (numbered : procs.Numbered n) (running : procs.pidOf c = some i) (low : n ≤ r) (high : r < n')
    (pid : p.pid = procs.pidCounter) : Procs.Numbered { procs with
      pidCounter := procs.pidCounter + 1, newProcess := Function.update procs.newProcess c (some (r, p)) } n' := by
  have old := numbered.pids c i running
  have more : n ≤ n' := Nat.le_of_lt (Nat.lt_of_le_of_lt low high)
  have fresh : procs.pidOf r = none := by
    refine Option.eq_none_iff_forall_ne_some.mpr fun j here => ?_
    exact absurd (numbered.pids r j here).2.2 (Nat.not_lt.mpr low)
  have idle : procs.newProcess r = none := by
    refine Option.eq_none_iff_forall_ne_some.mpr fun q here => ?_
    exact absurd (numbered.new r q.1 q.2 here).2.2.2 (Nat.not_lt.mpr low)
  have notOwn : r ≠ c := by
    rintro rfl
    rw [fresh] at running
    cases running
  -- Every pending block is the new one, or was there.
  have each : ∀ c' r' p', Function.update procs.newProcess c (some (r, p)) c' = some (r', p') →
      (c' = c ∧ r' = r ∧ p' = p) ∨ (c' ≠ c ∧ procs.newProcess c' = some (r', p')) := by
    intro c' r' p' new
    by_cases here : c' = c
    · subst here
      simp only [Function.update_self, Option.some.injEq, Prod.mk.injEq] at new
      exact .inl ⟨rfl, new.1.symm, new.2.symm⟩
    · rw [Function.update_of_ne here] at new
      exact .inr ⟨here, new⟩
  refine ⟨fun r' j pid' => ?_, numbered.unique, fun c' r' p' new => ?_, fun c' r' p' new =>
    ?_, fun c' r' p' j new pid' => ?_,
    fun c₁ c₂ r₁ r₂ p₁ p₂ new₁ new₂ same => ?_⟩
  · obtain ⟨positive, below, older⟩ := numbered.pids r' j pid'
    exact ⟨positive, Int.lt_trans below (Int.lt_succ _), Nat.lt_of_lt_of_le older more⟩
  · rcases each c' r' p' new with ⟨rfl, rfl, rfl⟩ | ⟨-, was⟩
    · exact ⟨by omega, by dsimp only; omega, high, Nat.lt_of_lt_of_le old.2.2 more⟩
    · obtain ⟨positive, below, older, older'⟩ := numbered.new c' r' p' was
      exact ⟨positive, Int.lt_trans below (Int.lt_succ _), Nat.lt_of_lt_of_le older more,
        Nat.lt_of_lt_of_le older' more⟩
  · rcases each c' r' p' new with ⟨rfl, rfl, rfl⟩ | ⟨-, was⟩
    · refine ⟨fresh, (Function.update_of_ne notOwn _ _).trans idle, fun r₂ pid' => ?_⟩
      have below := (numbered.pids r₂ _ pid').2.1
      omega
    · obtain ⟨absent, none, others⟩ := numbered.apart c' r' p' was
      refine ⟨absent, ?_, others⟩
      have other : r' ≠ c := by
        rintro rfl
        rw [running] at absent
        cases absent
      exact (Function.update_of_ne other _ _).trans none
  · rcases each c' r' p' new with ⟨rfl, rfl, rfl⟩ | ⟨-, was⟩
    · have below := (numbered.pids c' j pid').2.1
      omega
    · exact numbered.older c' r' p' j was pid'
  · rcases each c₁ r₁ p₁ new₁ with ⟨rfl, rfl, rfl⟩ | ⟨-, was₁⟩ <;> rcases each c₂ r₂ p₂ new₂
      with ⟨rfl, rfl, rfl⟩ | ⟨-, was₂⟩
    · rfl
    · obtain ⟨-, below, older, -⟩ := numbered.new c₂ r₂ p₂ was₂
      rcases same with rfl | same
      · exact absurd older (Nat.not_lt.mpr low)
      · omega
    · obtain ⟨-, below, older, -⟩ := numbered.new c₁ r₁ p₁ was₁
      rcases same with rfl | same
      · exact absurd older (Nat.not_lt.mpr low)
      · omega
    · exact numbered.newUnique c₁ c₂ r₁ r₂ p₁ p₂ was₁ was₂ same

/-- A block that is being made keeps its pid, or is given up. -/
theorem rewritten (numbered : procs.Numbered n) (new' : Option (Ref × Pcb))
    (same : ∀ r p', new' = some (r, p') → ∃ p, procs.newProcess c = some (r, p) ∧ p'.pid = p.pid) :
    Procs.Numbered { procs with newProcess := Function.update procs.newProcess c new' } n := by
  have each : ∀ c' r p', Function.update procs.newProcess c new' c' = some (r, p') →
      ∃ p, procs.newProcess c' = some (r, p) ∧ p'.pid = p.pid := by
    intro c' r p' new
    by_cases here : c' = c
    · subst here
      exact same r p' (by simpa using new)
    · rw [Function.update_of_ne here] at new
      exact ⟨p', new, rfl⟩
  refine ⟨numbered.pids, numbered.unique, fun c' r p' new => ?_, fun c' r p' new => ?_, fun c' r p' i new pid => ?_,
    fun c₁ c₂ r₁ r₂ p₁ p₂ new₁ new₂ same' => ?_⟩
  · obtain ⟨p, was, pid⟩ := each c' r p' new
    rw [pid]
    exact numbered.new c' r p was
  · obtain ⟨p, was, pid⟩ := each c' r p' new
    obtain ⟨absent, idle, others⟩ := numbered.apart c' r p was
    refine ⟨absent, ?_, pid ▸ others⟩
    have unborn : r ≠ c ∨ new' = none := by
      by_cases here : r = c
      · subst here
        refine .inr (Option.eq_none_iff_forall_ne_some.mpr fun q made => ?_)
        obtain ⟨q', made', -⟩ := same q.1 q.2 made
        rw [idle] at made'
        cases made'
      · exact .inl here
    change Function.update procs.newProcess c new' r = none
    by_cases here : r = c
    · subst here
      rw [Function.update_self]
      exact unborn.resolve_left (fun other => other rfl)
    · rw [Function.update_of_ne here, idle]
  · obtain ⟨p, was, pid'⟩ := each c' r p' new
    rw [pid']
    exact numbered.older c' r p i was pid
  · obtain ⟨q₁, was₁, pid₁⟩ := each c₁ r₁ p₁ new₁
    obtain ⟨q₂, was₂, pid₂⟩ := each c₂ r₂ p₂ new₂
    refine numbered.newUnique c₁ c₂ r₁ r₂ q₁ q₂ was₁ was₂ ?_
    rwa [← pid₁, ← pid₂]

/-- A block that was made becomes a process. -/
theorem published (numbered : procs.Numbered n) (was : procs.newProcess c = some (r, p)) (pid : p'.pid = p.pid)
    (queue : Queue Ref) (readyCount : Int) : Procs.Numbered { procs with
      queue, readyCount
      pcbs := Function.update procs.pcbs r (some p'), newProcess := Function.update procs.newProcess c none } n := by
  obtain ⟨positive, low, old, -⟩ := numbered.new c r p was
  obtain ⟨absent, idle, others⟩ := numbered.apart c r p was
  have given := numbered.rewritten (c := c) none fun r p' impossible => by cases impossible
  have pidOf : ∀ r', Procs.pidOf { procs with
      queue, readyCount
      pcbs := Function.update procs.pcbs r (some p'), newProcess := Function.update procs.newProcess c none } r' =
      if r' = r then some p.pid else procs.pidOf r' := by
    intro r'
    by_cases here : r' = r
    · subst here
      simp [Procs.pidOf, pid]
    · simp [Procs.pidOf, here]
  have pending : ∀ c' r' q, Function.update procs.newProcess c none c' = some (r', q) →
      c' ≠ c ∧ procs.newProcess c' = some (r', q) := by
    intro c' r' q new
    by_cases here : c' = c
    · subst here
      simp at new
    · rw [Function.update_of_ne here] at new
      exact ⟨here, new⟩
  refine ⟨fun r' i here => ?_, fun r₁ r₂ i here₁ here₂ => ?_, given.new, fun c' r' q new =>
    ?_, fun c' r' q i new here => ?_,
    given.newUnique⟩
  · rw [pidOf] at here
    split at here
    · rename_i same
      obtain rfl := Option.some.inj here
      exact ⟨positive, low, same ▸ old⟩
    · exact numbered.pids r' i here
  · rw [pidOf] at here₁ here₂
    split at here₁ <;> split at here₂
    · rename_i same₁ same₂
      rw [same₁, same₂]
    · exact (others r₂ (here₂.trans here₁.symm)).elim
    · exact (others r₁ (here₁.trans here₂.symm)).elim
    · exact numbered.unique r₁ r₂ i here₁ here₂
  · obtain ⟨other, before⟩ := pending c' r' q new
    have apart : r' ≠ r ∧ q.pid ≠ p.pid :=
      ⟨fun same => other (numbered.newUnique c' c r' r q p before was (.inl same)),
        fun same => other (numbered.newUnique c' c r' r q p before was (.inr same))⟩
    obtain ⟨absent', idle', others'⟩ := given.apart c' r' q new
    refine ⟨by rw [pidOf, if_neg apart.1]; exact absent', idle', fun r₂ => ?_⟩
    rw [pidOf]
    split
    · exact fun same => apart.2 (Option.some.inj same).symm
    · exact others' r₂
  · obtain ⟨other, before⟩ := pending c' r' q new
    rw [pidOf, if_neg] at here
    · exact numbered.older c' r' q i before here
    · -- The new process is making nobody.
      rintro rfl
      rw [idle] at before
      cases before

/-- A process is freed, and gives its pid back if it is the latest. -/
theorem freed (numbered : procs.Numbered n) (running : procs.pidOf c = some i) : Procs.Numbered { procs with
    pidCounter := procs.pidCounter - if i = procs.pidCounter - 1 then 1 else 0
    pcbs := Function.update procs.pcbs c none } n := by
  have pidOf : ∀ r j, Procs.pidOf { procs with
      pidCounter := procs.pidCounter - if i = procs.pidCounter - 1 then 1 else 0
      pcbs := Function.update procs.pcbs c none } r = some j → r ≠ c ∧ procs.pidOf r = some j := by
    intro r j here
    by_cases same : r = c
    · subst same
      simp [Procs.pidOf] at here
    · exact ⟨same, by simpa [Procs.pidOf, same] using here⟩
  -- A pid that is in use by somebody else is below the latest.
  have below : ∀ j, j < procs.pidCounter → j ≠ i →
    j < procs.pidCounter - if i = procs.pidCounter - 1 then 1 else 0 := by
    intro j low other
    split <;> omega
  refine ⟨fun r j here => ?_, fun r r' j here here' => ?_, fun c' r p new => ?_, fun c' r p new =>
    ?_, fun c' r p j new here => ?_,
    numbered.newUnique⟩
  · obtain ⟨other, was⟩ := pidOf r j here
    obtain ⟨positive, low, old⟩ := numbered.pids r j was
    refine ⟨positive, below j low fun same => other ?_, old⟩
    exact numbered.unique r c j was (same ▸ running)
  · exact numbered.unique r r' j (pidOf r j here).2 (pidOf r' j here').2
  · obtain ⟨positive, low, old, old'⟩ := numbered.new c' r p new
    refine ⟨positive, below p.pid low fun same => ?_, old, old'⟩
    exact (numbered.apart c' r p new).2.2 c (same ▸ running)
  · obtain ⟨absent, idle, others⟩ := numbered.apart c' r p new
    refine ⟨Option.eq_none_iff_forall_ne_some.mpr fun j here => ?_, idle, fun r' here => ?_⟩
    · have was := (pidOf r j here).2
      rw [absent] at was
      cases was
    · exact others r' (pidOf r' _ here).2
  · exact numbered.older c' r p j new (pidOf c' j here).2

end Procs.Numbered

/-! ## A process at work -/

/-- The process is running and has this block in the making; the others' blocks are
as they were when its turn began. -/
structure Holding (t : Ref) (made : Option (Ref × Pcb)) (since s : State) : Prop where
  numbered : s.procs.Numbered s.heap.requests
  running : s.procs.currentProcessPCB = some t
  own : s.procs.newProcess t = made
  others : ∀ t' ≠ t, s.procs.newProcess t' = since.procs.newProcess t'

/-- How it finds the state when it goes on. -/
structure Found (t : Ref) (s s' : State) : Prop where
  numbered : s'.procs.Numbered s'.heap.requests
  running : s'.procs.currentProcessPCB = some t
  own : s'.procs.newProcess t = s.procs.newProcess t

theorem State.Alike.numbered {s s' : State} (alike : s.Alike s') (numbered : s.procs.Numbered s.heap.requests) :
    s'.procs.Numbered s'.heap.requests :=
  numbered.alike alike.requests alike.counter alike.newProcess alike.pids

theorem Holding.alike (holding : Holding t made since s) (alike : s.Alike s') : Holding t made since s' :=
  ⟨alike.numbered holding.numbered, alike.current.trans holding.running, alike.newProcess ▸ holding.own,
    alike.newProcess ▸ holding.others⟩

/-- The program keeps the numbering, and takes the block it has in the making to
what `post` says. -/
def Minds {α : Type} (t : Ref) (made : Option (Ref × Pcb)) (p : Task α) (post : α → Option (Ref × Pcb) → Prop) : Prop :=
  ∀ since s, Holding t made since s →
    p.Meets (fun _ => True) (fun since s' => ∃ made', Holding t made' since s') (Found t)
    (fun a since s' => ∃ made', post a made' ∧ Holding t made' since s') since s

section
variable {α β : Type} {p : Task α} {t : Ref} {made : Option (Ref × Pcb)}

theorem Minds.pure {a : α} {post : α → Option (Ref × Pcb) → Prop} (here : post a made) :
    Minds t made (Pure.pure a) post :=
  fun _ _ holding => ⟨made, here, holding⟩

theorem Minds.lift {f : K α} {post : α → Option (Ref × Pcb) → Prop} (meets : ∀ since s, Holding t made since s →
    Meets (fun _ => True) f (fun a s' => ∃ made', post a made' ∧ Holding t made' since s') s) :
    Minds t made (liftM f) post :=
  fun since s holding => meets since s holding

theorem Minds.bind {f : α → Task β} {middle : α → Option (Ref × Pcb) → Prop} {post : β → Option (Ref × Pcb) → Prop}
    (first : Minds t made p middle) (rest : ∀ a made', middle a made' → Minds t made' (f a) post) :
    Minds t made (p >>= f) post := by
  intro since s holding
  rw [Program.meets_bind]
  refine (first since s holding).mono ?_
  rintro a since' s' ⟨made', middle, holding'⟩
  exact rest a made' middle since' s' holding'

/-- What leaves the pids alone leaves the block alone. -/
theorem Hushed.minds (hushed : Hushed p) : Minds t made p fun _ made' => made' = made := by
  intro since s holding
  induction p generalizing since s with
  | done a => exact ⟨made, rfl, holding⟩
  | act action rest ih =>
    exact (hushed.1 s).mono fun b s' alike => ih b (hushed.2 b) since s' (holding.alike alike)
  | pause rest ih =>
    refine ⟨⟨made, holding⟩, fun s' found => ih hushed s' s' ?_⟩
    exact ⟨found.numbered, found.running, found.own.trans holding.own, fun _ _ => rfl⟩

theorem Minds.mono {post post' : α → Option (Ref × Pcb) → Prop} (minds : Minds t made p post)
    (weaker : ∀ a made', post a made' → post' a made') : Minds t made p post' := by
  intro since s holding
  refine (minds since s holding).mono ?_
  rintro a since' s' ⟨made', here, holding'⟩
  exact ⟨made', weaker a made' here, holding'⟩

/-- A hushed program is run under a condition, and what follows in any case. -/
theorem Minds.whenever {P : Prop} [Decidable P] {f : Task Unit} {g : Unit → Task β}
    {post : β → Option (Ref × Pcb) → Prop} (hushed : Hushed f) (rest : Minds t made (g ()) post) :
    Minds t made (if P then f >>= g else g ()) post := by
  split
  · refine Minds.bind hushed.minds ?_
    rintro _ _ rfl
    exact rest
  · exact rest

end

/-! ## Making a process -/

variable {s since : State}

/-- The heap after a request that was refused. -/
def Heap.refuse (h : Heap) : Heap := { h with requests := h.requests + 1 }

theorem malloc_any {bad : Fault → Prop} {post : Option Ref → State → Prop}
    (granted : post (some s.heap.requests) (s.withHeap s.heap.allocate))
    (refused : post none (s.withHeap s.heap.refuse)) :
    Meets bad malloc post s := by
  simp only [malloc, meets_bind, meets_get]
  split
  · exact granted
  · exact refused

theorem Holding.meets_getpid {post : Int → State → Prop} (holding : Holding t made since s)
    (here : ∀ i, s.procs.pidOf t = some i → post i s) : Meets (fun _ => True) getpid post s := by
  unfold getpid
  simp only [meets_bind, meets_get, holding.running, meets_readPcb]
  cases block : s.procs.pcbs t with
  | none => trivial
  | some p => exact here p.pid (by simp [Procs.pidOf, block])

/-- What `allocateBlock` comes to: a block in the making that has the next pid, or none, and then the pid may
be lost. -/
inductive Allocates (t : Ref) (s : State) : Bool → State → Prop
  | refused (grown : s.heap.requests ≤ h.requests) : Allocates t s false (s.withHeap h)
  | lost (grown : s.heap.requests ≤ h.requests) : Allocates t s false
      { s with heap := h, procs := { s.procs with pidCounter := s.procs.pidCounter + 1 } }
  | made (running : s.procs.pcbs t = some q) (low : s.heap.requests < h.requests) (pid : p.pid = s.procs.pidCounter)
      (ready : p.state = .ready) : Allocates t s true
      { s with heap := h, procs := { s.procs with
          pidCounter := s.procs.pidCounter + 1
          newProcess := Function.update s.procs.newProcess t (some (s.heap.requests, p)) } }

theorem Holding.allocates (holding : Holding t made since s) (name : String) (foreground : Int) (fd : Int × Int) :
    Meets (fun _ => True) (allocateBlock name foreground fd) (Allocates t s) s := by
  unfold allocateBlock
  rw [meets_ite]
  refine ⟨fun _ => .refused (Nat.le_refl _), fun _ => ?_⟩
  rw [meets_bind]
  apply malloc_any
  · have holding₁ : Holding t made since (s.withHeap s.heap.allocate) :=
      holding.alike ⟨Nat.le_succ _, rfl, rfl, rfl, fun _ => rfl⟩
    simp only [meets_bind]
    refine holding₁.meets_getpid fun i running => ?_
    obtain ⟨q, block, -⟩ := Option.map_eq_some_iff.mp running
    refine meets_copyName ?_
    rw [meets_get]
    refine meets_increment ?_
    rw [meets_modifyProcs]
    have more : s.heap.requests < s.heap.requests + 1 + 1 := by omega
    apply malloc_any
    · rw [meets_bind, meets_setNewProcess (by exact holding.running)]
      exact .made block more rfl rfl
    · exact .lost (Nat.le_of_lt more)
  · exact .refused (Nat.le_succ _)

theorem minds_allocateBlock (name : String) (foreground : Int) (fd : Int × Int) (made : Option (Ref × Pcb)) :
    Minds t made (liftM (allocateBlock name foreground fd) : Task Bool) fun goes made' =>
      goes = true → ∃ r p, made' = some (r, p) := by
  refine .lift fun since s holding => (holding.allocates name foreground fd).mono ?_
  rintro _ _ (grown | grown | ⟨block, low, pid, -⟩)
  · exact ⟨made, nofun, holding.alike ⟨grown, rfl, rfl, rfl, fun _ => rfl⟩⟩
  · refine ⟨made, nofun, ?_, holding.running, holding.own, holding.others⟩
    exact holding.numbered.counted.alike grown rfl rfl fun _ => rfl
  · -- The block gets the pid that was given out.
    refine ⟨_, fun _ => ⟨_, _, rfl⟩, ?_, holding.running, Function.update_self .., fun t' other => ?_⟩
    · exact holding.numbered.allocated (congrArg (Option.map Pcb.pid) block) (Nat.le_refl _) low pid
    · exact (Function.update_of_ne other _ _).trans (holding.others t' other)

theorem Holding.meets_readNewProcess {post : Ref × Pcb → State → Prop} (holding : Holding t made since s)
    (here : ∀ r p, made = some (r, p) → post (r, p) s) : Meets (fun _ => True) readNewProcess post s := by
  rw [Kernel.meets_readNewProcess holding.running, holding.own]
  cases made with
  | none => trivial
  | some made => exact here made.1 made.2 rfl

/-- The block is filled in, or given up. -/
theorem Holding.rewritten (holding : Holding t made since s)
    (same : ∀ r p', made' = some (r, p') → ∃ p, made = some (r, p) ∧ p'.pid = p.pid) : Holding t made' since
      { s with procs := { s.procs with newProcess := Function.update s.procs.newProcess t made' } } := by
  refine ⟨?_, holding.running, Function.update_self .., fun t' other => ?_⟩
  · refine holding.numbered.rewritten made' fun r p' now => ?_
    obtain ⟨p, was, pid⟩ := same r p' now
    exact ⟨p, holding.own.trans was, pid⟩
  · exact (Function.update_of_ne other _ _).trans (holding.others t' other)

theorem Holding.dropped (holding : Holding t made since s) : Holding t none since
    { s with procs := { s.procs with newProcess := Function.update s.procs.newProcess t none } } := by
  refine holding.rewritten fun r p' impossible => ?_
  cases impossible

theorem minds_attachSemaphore (r : Ref) (p : Pcb) :
    Minds t (some (r, p)) (liftM attachSemaphore : Task Bool) fun goes made' =>
    goes = true → ∃ p', made' = some (r, p') := by
  refine .lift fun since s holding => ?_
  unfold attachSemaphore
  rw [meets_bind]
  apply (quiet_elementary.inits 0 s).mono
  intro semId s₁ alike
  have holding₁ := holding.alike alike
  rw [meets_bind]
  refine holding₁.meets_readNewProcess fun r' p' same => ?_
  obtain ⟨rfl, rfl⟩ := Prod.mk.inj (Option.some.inj same)
  rw [meets_ite]
  constructor
  · intro _
    simp only [meets_bind, meets_free]
    rw [meets_setNewProcess (by exact holding₁.running)]
    have freed : s₁.Alike ((s₁.withHeap (s₁.heap.release p.stack)).withHeap ((s₁.heap.release p.stack).release r)) :=
      ⟨Nat.le_refl _, rfl, rfl, rfl, fun _ => rfl⟩
    exact ⟨none, by simp, (holding₁.alike freed).dropped⟩
  · intro _
    rw [meets_bind, meets_setNewProcess holding₁.running]
    refine ⟨some (r, { p with semId }), fun _ => ⟨_, rfl⟩, holding₁.rewritten fun r₂ p₂ now => ?_⟩
    cases now
    exact ⟨p, rfl, rfl⟩

theorem minds_initializeBlock (name : String) (foreground : Int) (fd : Int × Int) (made : Option (Ref × Pcb)) :
    Minds t made (initializeBlock name foreground fd) fun goes made' => goes = true → ∃ r p, made' = some (r, p) := by
  refine (minds_allocateBlock name foreground fd made).bind fun goes made₁ allocated => ?_
  cases goes with
  | false => exact .pure nofun
  | true =>
    obtain ⟨r, p, rfl⟩ := allocated rfl
    have attached : Minds t (some (r, p)) (liftM attachSemaphore : Task Bool) fun goes made' =>
        goes = true → ∃ r p, made' = some (r, p) := by
      refine (minds_attachSemaphore r p).mono fun goes made' given goes => ?_
      obtain ⟨p', same⟩ := given goes
      exact ⟨r, p', same⟩
    rw [if_pos rfl]
    refine Minds.whenever (every_pipeOpen quiet_elementary _).discard ?_
    exact Minds.whenever (every_pipeOpen quiet_elementary _).discard attached

theorem Holding.meets_currentPcb {post : Ref × Pcb → State → Prop} (holding : Holding t made since s)
    (here : ∀ p, s.procs.pcbs t = some p → post (t, p) s) : Meets (fun _ => True) currentPcb post s := by
  cases block : s.procs.pcbs t with
  | none =>
    unfold currentPcb
    simp [holding.running, block, lookup]
  | some p =>
    rw [Kernel.meets_currentPcb holding.running block]
    exact here p block

/-- What `freeProcess` does before it comes to the blocks leaves the pids alone. -/
theorem minds_freeProcess {post : Unit → Option (Ref × Pcb) → Prop} (r : Ref) (q : Pcb)
    (blocks : Minds t made (liftM (freeBlocks r q) : Task Unit) post) : Minds t made (freeProcess r q) post := by
  refine Minds.bind (Hushed.minds (every_get quiet_elementary)) ?_
  rintro _ _ rfl
  refine Minds.bind (built_freeArguments quiet_elementary q).hushed.minds ?_
  rintro _ _ rfl
  refine Minds.bind (Hushed.minds (every_freePipes quiet_elementary q.fileDescriptors)) ?_
  rintro _ _ rfl
  refine Minds.bind (Hushed.minds (every_get quiet_elementary)) ?_
  rintro _ _ rfl
  refine Minds.bind (quiet_log _).hushed.minds ?_
  rintro _ _ rfl
  exact blocks

/-- A process that is given up in the making takes no pid back: its creator's is older. -/
theorem minds_freeBlocks_new (r : Ref) (p q : Pcb) : Minds t (some (r, p)) (liftM (freeBlocks r q) : Task Unit)
    fun _ made' => made' = some (r, p) := by
  refine .lift fun since s holding => ?_
  unfold freeBlocks
  rw [meets_bind]
  refine holding.meets_currentPcb fun current block =>
    ⟨_, rfl, holding.alike ⟨Nat.le_refl _, ?_, rfl, rfl, fun r' => ?_⟩⟩
  · have older := holding.numbered.older t r p current.pid holding.own (by simp [Procs.pidOf, block])
    have given := (holding.numbered.new t r p holding.own).2.1
    have kept : ¬current.pid = s.procs.pidCounter - 1 := by omega
    exact (congrArg (s.procs.pidCounter - ·) (if_neg kept)).trans (Int.sub_zero _)
  · by_cases here : r' = r
    · subst here
      have absent := (holding.numbered.apart t r' p holding.own).1
      change (Function.update s.procs.pcbs r' none r').map Pcb.pid = _
      rw [Function.update_self]
      exact absent.symm
    · change (Function.update s.procs.pcbs r none r').map Pcb.pid = _
      rw [Function.update_of_ne here]

/-- The process that is running gives its own pid back. -/
theorem minds_freeBlocks_own (q : Pcb) :
    Minds t made (liftM (freeBlocks t q) : Task Unit) fun _ made' => made' = made := by
  refine .lift fun since s holding => ?_
  unfold freeBlocks
  rw [meets_bind]
  refine holding.meets_currentPcb fun current block => ?_
  have numbered := holding.numbered.freed (c := t) (i := current.pid) (by simp [Procs.pidOf, block])
  exact ⟨made, rfl, numbered, holding.running, holding.own, holding.others⟩

theorem minds_enqueueNewProcess (foreground : Int) (args : Option Ref) (strings : List Ref) :
    Minds t (some (r, p)) (liftM (enqueueNewProcess foreground args strings) : Task Int) fun _ _ => True := by
  refine .lift fun since s holding => ?_
  unfold enqueueNewProcess
  rw [meets_bind]
  refine holding.meets_readNewProcess fun r' p' same => ?_
  cases same
  simp only [meets_bind, meets_get]
  apply (built_enqueue quiet_primitive s.procs.queue r s).mono
  intro queue s₁ alike
  have holding₁ := holding.alike alike
  refine holding₁.meets_currentPcb fun current block => ?_
  rw [meets_setNewProcess holding₁.running]
  simp only [meets_modifyProcs, meets_pure]
  refine ⟨none, trivial, ?_, holding₁.running, Function.update_self .., fun t' other => ?_⟩
  · refine Procs.Numbered.published holding₁.numbered holding₁.own ?_ queue _
    rfl
  · exact (Function.update_of_ne other _ _).trans (holding₁.others t' other)

theorem minds_readNewProcess (r : Ref) (p : Pcb) :
    Minds t (some (r, p)) (liftM readNewProcess : Task (Ref × Pcb)) fun a made' =>
      made' = some (r, p) ∧ a = (r, p) := by
  refine .lift fun since s holding => holding.meets_readNewProcess fun r' p' same => ?_
  exact ⟨_, ⟨rfl, (Option.some.inj same).symm⟩, holding⟩

theorem minds_giveUp (r : Ref) (p : Pcb) :
    Minds t (some (r, p)) (liftM (setNewProcess none) : Task Unit) fun _ _ => True := by
  refine .lift fun since s holding => ?_
  rw [meets_setNewProcess holding.running]
  exact ⟨none, trivial, holding.dropped⟩

theorem minds_fillNewProcess (argv : List String) (foreground : Int) :
    Minds t (some (r, p)) (fillNewProcess argv foreground) fun _ _ => True := by
  refine Minds.bind quiet_malloc.hushed.minds ?_
  rintro args _ rfl
  refine Minds.bind (built_cpyArgs quiet_primitive args argv).hushed.minds ?_
  rintro strings _ rfl
  cases strings with
  | some strings => exact minds_enqueueNewProcess foreground args strings
  | none =>
    refine (minds_readNewProcess r p).bind ?_
    rintro _ _ ⟨rfl, rfl⟩
    refine (minds_freeProcess r p (minds_freeBlocks_new r p p)).bind ?_
    rintro _ _ rfl
    exact (minds_giveUp r p).bind fun _ _ _ => .pure trivial

theorem minds_startTask (process : Option Ref) (argv : List String) (foreground : Int) (fd : Option (Int × Int))
    (made : Option (Ref × Pcb)) : Minds t made (startTask process argv foreground fd) fun _ _ => True := by
  unfold startTask
  split
  · exact .pure trivial
  · refine Minds.bind (built_deref quiet_primitive argv.head?).hushed.minds ?_
    rintro name _ rfl
    refine Minds.bind (built_descriptorsOf quiet_primitive fd).hushed.minds ?_
    rintro fd _ rfl
    refine (minds_initializeBlock name foreground fd _).bind fun goes made' given => ?_
    cases goes with
    | false => exact .pure trivial
    | true =>
      obtain ⟨r, p, rfl⟩ := given rfl
      exact minds_fillNewProcess argv foreground

theorem minds_call (call : Call) (made : Option (Ref × Pcb)) : Minds t made call.perform fun _ _ => True := by
  have calm : ∀ {p : Task Int}, Hushed p → Minds t made p fun _ _ => True := fun hushed =>
    hushed.minds.mono fun _ _ _ => trivial
  cases call with
  | startTask process argv foreground fd => exact minds_startTask process argv foreground fd made
  | _ => exact calm (every_call quiet_elementary _ (by nofun))

/-! ## The scheduler -/

/-- The processes are numbered, and the blocks in the making are these. -/
structure Keeping (made : Ref → Option (Ref × Pcb)) (s : State) : Prop where
  numbered : s.procs.Numbered s.heap.requests
  made : s.procs.newProcess = made

section
variable {made : Ref → Option (Ref × Pcb)}

theorem Quiet.keeps {α : Type} {f : K α} (quiet : Quiet f) : Keeps (fun _ => True) (Keeping made) f :=
  fun s keeping => (quiet s).mono fun _ _ alike =>
    ⟨alike.numbered keeping.numbered, alike.newProcess.trans keeping.made⟩

/-- Processes change places. -/
theorem keeps_modifyProcs {f : Procs → Procs} (same : ∀ procs, (f procs).pidCounter = procs.pidCounter ∧
    (f procs).newProcess = procs.newProcess ∧ ∀ r, (f procs).pidOf r = procs.pidOf r) :
    Keeps (fun _ => True) (Keeping made) (modifyProcs f) := by
  intro s keeping
  obtain ⟨counter, newProcess, pids⟩ := same s.procs
  exact ⟨keeping.numbered.alike (Nat.le_refl _) counter newProcess pids, newProcess.trans keeping.made⟩

theorem Keeping.meets_freeProcess (keeping : Keeping made s) (running : s.procs.currentProcessPCB = some t) (p : Pcb) :
    Meets (fun _ => True) ((freeProcess t p).complete .nestedTick) (fun _ s' => Keeping made s') s := by
  have holding : Holding t (s.procs.newProcess t) s s := ⟨keeping.numbered, running, rfl, fun _ _ => rfl⟩
  have freed := minds_freeProcess t p (minds_freeBlocks_own p) s s holding
  have completed : Meets (fun _ => True) ((freeProcess t p).complete .nestedTick) _ s :=
    freed.complete_of_nested trivial
  apply completed.mono
  rintro _ s' ⟨_, rfl, after⟩
  refine ⟨after.numbered, funext fun t' => ?_⟩
  rw [← keeping.made]
  by_cases own : t' = t
  · rw [own, after.own]
  · exact after.others t' own

theorem keeps_takeTurn {later : K Unit} (follows : Keeps (fun _ => True) (Keeping made) later) :
    Keeps (fun _ => True) (Keeping made) (do
      let (queue, next) ← dequeue (← get).procs.queue
      modifyProcs fun procs => { procs with queue, currentProcessPCB := next }
      later) := by
  refine quiet_get.keeps.bind fun _ => (built_dequeue quiet_primitive _).keeps.bind fun taken => ?_
  obtain ⟨queue, next⟩ := taken
  have turned : Keeps (fun _ => True) (Keeping made)
      (modifyProcs fun procs => { procs with queue, currentProcessPCB := next }) :=
    keeps_modifyProcs fun _ => ⟨rfl, rfl, fun _ => rfl⟩
  exact turned.bind fun _ => follows

theorem keeps_scheduleLoop (fuel : Nat) : Keeps (fun _ => True) (Keeping made) (scheduleLoop fuel) := by
  induction fuel with
  | zero => exact fun _ _ => trivial
  | succ fuel ih =>
    intro s keeping
    unfold scheduleLoop
    cases running : s.procs.currentProcessPCB with
    | none =>
      unfold currentPcb
      simp [running, deref]
    | some t =>
      cases block : s.procs.pcbs t with
      | none =>
        unfold currentPcb
        simp [running, block, lookup]
      | some p =>
        rw [meets_bind, meets_currentPcb running block, meets_ite]
        refine ⟨fun _ => keeping, fun _ => ?_⟩
        have next := keeps_takeTurn ih
        rw [meets_ite]
        constructor
        · intro _
          rw [meets_bind]
          exact (keeping.meets_freeProcess running p).mono fun _ s' after => next s' after
        · intro _
          have requeued : ∀ queue, Keeps (fun _ => True) (Keeping made) (modifyProcs fun procs =>
            { procs with queue }) :=
            fun _ => keeps_modifyProcs fun _ => ⟨rfl, rfl, fun _ => rfl⟩
          exact (quiet_get.keeps.bind fun _ => (built_enqueue quiet_primitive _ t).keeps.bind fun queue =>
            (requeued queue).bind fun _ => next) s keeping

theorem keeps_choose : Keeps (fun _ => True) (Keeping made) scheduleTask.choose := by
  have runs : Keeps (fun _ => True) (Keeping made) (do
      let priority := (← currentPcb).2.priority
      modifyProcs fun procs => { procs with currentCycles := priority }) := by
    refine (built_currentPcb quiet_primitive).keeps.bind fun current => ?_
    exact keeps_modifyProcs fun _ => ⟨rfl, rfl, fun _ => rfl⟩
  refine quiet_get.keeps.bind fun s => ?_
  intro s' keeping
  rw [meets_ite]
  constructor
  · intro _
    refine Keeps.bind (built_dequeue quiet_primitive _).keeps (fun taken => ?_) s' keeping
    obtain ⟨queue, next⟩ := taken
    have turned : Keeps (fun _ => True) (Keeping made)
        (modifyProcs fun procs => { procs with queue, currentProcessPCB := next }) :=
      keeps_modifyProcs fun _ => ⟨rfl, rfl, fun _ => rfl⟩
    exact turned.bind fun _ => (keeps_scheduleLoop _).bind fun _ => runs
  · intro _
    have rests : Keeps (fun _ => True) (Keeping made)
        (modifyProcs fun procs => { procs with currentProcessPCB := procs.idleProcessPCB }) :=
      keeps_modifyProcs fun _ => ⟨rfl, rfl, fun _ => rfl⟩
    exact (rests.bind fun _ => runs) s' keeping

theorem keeps_scheduleTask : Keeps (fun _ => True) (Keeping made) scheduleTask := by
  refine quiet_get.keeps.bind fun s => ?_
  cases s.procs.currentProcessPCB with
  | none => exact keeps_choose
  | some current =>
    refine (built_readPcb quiet_primitive current).keeps.bind fun p => quiet_get.keeps.bind fun s₁ => ?_
    intro s' keeping
    rw [meets_ite]
    constructor
    · intro _
      have counted : Keeps (fun _ => True) (Keeping made)
          (modifyProcs fun procs => { procs with currentCycles := procs.currentCycles - 1 }) :=
        keeps_modifyProcs fun _ => ⟨rfl, rfl, fun _ => rfl⟩
      exact counted s' keeping
    · intro _
      have requeued : ∀ queue, Keeps (fun _ => True) (Keeping made) (modifyProcs fun procs => { procs with queue }) :=
        fun _ => keeps_modifyProcs fun _ => ⟨rfl, rfl, fun _ => rfl⟩
      have idled : Keeps (fun _ => True) (Keeping made) (modifyProcs fun procs =>
        { procs with idleProcessPCB := some current }) :=
        keeps_modifyProcs fun _ => ⟨rfl, rfl, fun _ => rfl⟩
      refine Keeps.bind quiet_get.keeps (fun _ => (built_deref quiet_primitive _).keeps.bind fun _ =>
        (built_readPcb quiet_primitive _).keeps.bind fun idle => ?_)
        s' keeping
      intro s₂ keeping₂
      rw [meets_ite]
      constructor
      · intro _
        exact (quiet_get.keeps.bind fun _ => (built_enqueue quiet_primitive _ current).keeps.bind fun queue =>
          (requeued queue).bind fun _ =>
          keeps_choose) s₂ keeping₂
      · intro _
        exact (idled.bind fun _ => keeps_choose) s₂ keeping₂

end

/-! ## Every run -/

/-- The turns of the processes, and the blocks that they have in the making. -/
def numbering : Discipline machine where
  inv s := s.procs.Numbered s.heap.requests
  turn _ := True
  does t s s' := ∀ t' ≠ t, s'.procs.newProcess t' = s.procs.newProcess t'
  rely t s s' := s'.procs.newProcess t = s.procs.newProcess t
  refl _ _ := rfl
  trans _ _ _ _ first second := second.trans first
  spared _ t' _ _ _ _ does other := does t' other
  schedule s s' numbered ran := by
    have kept := (meets_of_run ran).mp (keeps_scheduleTask s ⟨numbered, rfl⟩)
    exact ⟨kept.numbered, trivial, fun t => congrFun kept.made t⟩

theorem numbering_follows (call : Call) {s : State} (numbered : numbering.inv s)
    (running : machine.running s = some t) :
    numbering.Follows t call.perform s := by
  apply (minds_call call (s.procs.newProcess t) s s ⟨numbered, running, rfl, fun _ _ => rfl⟩).weaken
  · rintro since s' ⟨made', holding⟩
    exact ⟨holding.numbered, holding.others⟩
  · rintro s' s'' ⟨numbered', -, running', same⟩
    exact ⟨numbered', running', same⟩
  · rintro _ since s' ⟨made', -, holding⟩
    exact ⟨holding.numbered, trivial, holding.others⟩

theorem numbering_calls (allowed : State → Call → Prop) : numbering.Calls (Issues allowed) := by
  rintro s p t ⟨call, -, rfl, -⟩ numbered - running
  exact numbering_follows call numbered running

variable {grants : Nat → Bool} {garbage : Option Ref × List Ref} {allowed : State → Call → Prop} {S : System}

theorem numbering_boot : numbering.Holds (boot grants garbage) := by
  have table := boot_table
  have nothing : ∀ c made, bootProcs.newProcess c ≠ some made := fun _ _ => nofun
  refine ⟨⟨fun r i pid => ?_, fun r r' i pid pid' => ?_, fun c r p new => (nothing c _ new).elim,
    fun c r p new => (nothing c _ new).elim, fun c r p _ new => (nothing c _ new).elim,
    fun c _ r _ p _ new => (nothing c _ new).elim⟩, fun _ => trivial, ?_⟩
  · obtain ⟨p, block, rfl⟩ := Option.map_eq_some_iff.mp pid
    exact ⟨(table.pids r p block).1, (table.pids r p block).2, table.below r p block⟩
  · obtain ⟨p, block, rfl⟩ := Option.map_eq_some_iff.mp pid
    obtain ⟨p', block', same⟩ := Option.map_eq_some_iff.mp pid'
    exact table.unique r r' p p' block block' same.symm
  · rintro t p ⟨⟩

/-! ## Arguments that are refused -/

section
variable {bad : Fault → Prop} {s : State} {c r : Ref} {p q : Pcb}

/-- A process is running. -/
def State.Runs (s : State) : Prop := ∃ c q, s.procs.currentProcessPCB = some c ∧ s.procs.pcbs c = some q

end

end QuesOs.Kernel
