import QuesOs.Reachable

/-! Parents and children. A process whose parent is gone must be `init`'s, for nobody
else will wait for it. When a process is terminated `sendTaskToInit` sees to that,
for the processes it looks at: its loop never comes to the last one of the queue. -/
namespace QuesOs.Kernel
open Resumption Threads Relation

variable {allowed : State → Call → Prop} {garbage : Option Ref × List Ref} {S : System} {s : State}

/-- What a family knows of a process. -/
structure Relative where
  pid : Int
  ppid : Int
  gone : Bool
  deriving DecidableEq

def Pcb.relative (p : Pcb) : Relative where
  pid := p.pid
  ppid := p.ppid
  gone := p.state = .terminated

def Procs.relative (procs : Procs) (r : Ref) : Option Relative := (procs.pcbs r).map Pcb.relative

/-- The parent of the process with the pid, which is in the queue. -/
def Procs.ppidOf (procs : Procs) (pid : Int) : Option Int := ((procs.process pid).bind procs.pcbs).map Pcb.ppid

/-- The process with the pid is not `init`, and whoever `sendTaskToInit` will not look at
is neither a living child of it nor its living parent. -/
def Procs.Spots (procs : Procs) (pid : Int) : Prop :=
  pid ≠ procs.initPid ∧ ∀ r ∈ values procs.queue ++ procs.idleProcessPCB.toList, r ∉ procs.examined →
    ∀ p ∈ procs.pcbs r, p.state ≠ .terminated →
      p.ppid ≠ pid ∧ (p.state ≠ .exited → procs.ppidOf pid ≠ some p.pid)

instance (procs : Procs) (pid : Int) : Decidable (procs.Spots pid) :=
  inferInstanceAs (Decidable (_ ∧ ∀ r ∈ _, _ → ∀ p ∈ _, _ → _ ∧ (_ → _)))

/-- Every living child of the process is `init`'s now, and the process itself is only
if its parent is missing or dead. -/
structure Procs.Adopts (before : Procs) (pid : Int) (after : Procs) : Prop where
  children : ∀ r p, before.pcbs r = some p → p.ppid = pid → p.state ≠ .terminated →
    ∃ p', after.pcbs r = some p' ∧ p'.ppid = before.initPid
  own : ∀ r p p', before.pcbs r = some p → p.pid = pid → after.pcbs r = some p' → p'.ppid ≠ p.ppid →
    p'.ppid = before.initPid ∧ ∀ r' q, before.pcbs r' = some q → q.pid = p.ppid → q.state = .exited ∨
    q.state = .terminated

/-- Every living process with a parent has a living one, `init` lives and has none, and
who is being made has its creator for a parent. -/
structure Procs.Kin (procs : Procs) (requests : Nat) : Prop where
  parents : ∀ r x, procs.relative r = some x → x.gone = false → x.ppid ≠ 0 →
    ∃ r' y, procs.relative r' = some y ∧ y.pid = x.ppid ∧ y.gone = false
  init : ∃ r x, procs.relative r = some x ∧ x.pid = procs.initPid ∧ x.gone = false
  root : ∀ r x, procs.relative r = some x → x.gone = false → x.pid = procs.initPid → x.ppid = 0
  notOwn : ∀ r x, procs.relative r = some x → x.gone = false → x.ppid ≠ x.pid
  pending : ∀ c r p, procs.newProcess c = some (r, p) → c < requests ∧ procs.newProcess r = none ∧
    ∀ x, procs.relative c = some x → p.ppid = x.pid

namespace Procs.Kin
variable {procs procs' : Procs} {n n' : Nat}

/-- Nothing changes that a family knows of. -/
theorem alike (kin : procs.Kin n) (more : n ≤ n') (relatives : procs'.relative = procs.relative)
    (initPid : procs'.initPid = procs.initPid) (newProcess : procs'.newProcess = procs.newProcess) : procs'.Kin n' := by
  refine ⟨?_, ?_, ?_, ?_, ?_⟩
  · rw [relatives]
    exact kin.parents
  · rw [relatives, initPid]
    exact kin.init
  · rw [relatives, initPid]
    exact kin.root
  · rw [relatives]
    exact kin.notOwn
  · rw [relatives, newProcess]
    intro c r p new
    obtain ⟨low, rest⟩ := kin.pending c r p new
    exact ⟨Nat.lt_of_lt_of_le low more, rest⟩

/-- What happens to the dead is nothing to their families. -/
theorem dead (kin : procs.Kin n) (more : n ≤ n')
    (same : ∀ r, procs'.relative r = procs.relative r ∨ ∃ x, procs.relative r = some x ∧ x.gone = true ∧
      ∀ y, procs'.relative r = some y → y.pid = x.pid ∧ y.gone = true)
    (initPid : procs'.initPid = procs.initPid) (newProcess : procs'.newProcess = procs.newProcess) : procs'.Kin n' := by
  -- The living are the same.
  have living : ∀ r x, x.gone = false → (procs'.relative r = some x ↔ procs.relative r = some x) := by
    intro r x alive
    rcases same r with unchanged | ⟨y, was, gone, now⟩
    · rw [unchanged]
    · constructor
      · intro here
        rw [(now x here).2] at alive
        cases alive
      · intro here
        cases was.symm.trans here
        rw [gone] at alive
        cases alive
  refine ⟨fun r x here alive child => ?_, ?_, fun r x here alive => ?_, fun r x here alive => ?_, fun c r p new => ?_⟩
  · obtain ⟨r', y, there, parent, alive'⟩ := kin.parents r x ((living r x alive).mp here) alive child
    exact ⟨r', y, (living r' y alive').mpr there, parent, alive'⟩
  · obtain ⟨r, x, here, init, alive⟩ := kin.init
    exact ⟨r, x, (living r x alive).mpr here, init.trans initPid.symm, alive⟩
  · rw [initPid]
    exact kin.root r x ((living r x alive).mp here) alive
  · exact kin.notOwn r x ((living r x alive).mp here) alive
  · obtain ⟨low, idle, creator⟩ := kin.pending c r p (newProcess ▸ new)
    refine ⟨Nat.lt_of_lt_of_le low more, newProcess ▸ idle, fun x here => ?_⟩
    rcases same c with unchanged | ⟨y, was, -, now⟩
    · exact creator x (unchanged ▸ here)
    · rw [(now x here).1]
      exact creator y was

theorem allocated (kin : procs.Kin n) (apart : ∀ c r p, procs.newProcess c = some (r, p) → procs.pcbs r = none)
    (running : procs.pcbs c = some q) (young : c < n) (low : n ≤ r) (high : r < n')
    (ppid : p.ppid = q.pid) (pidCounter : Int) : Procs.Kin { procs with
      pidCounter, newProcess := Function.update procs.newProcess c (some (r, p)) } n' := by
  have more : n ≤ n' := Nat.le_of_lt (Nat.lt_of_le_of_lt low high)
  have notOwn : ∀ c', c' < n → r ≠ c' := by
    rintro _ small rfl
    exact Nat.not_lt.mpr low small
  refine ⟨kin.parents, kin.init, kin.root, kin.notOwn, fun c' r' p' new => ?_⟩
  dsimp only at new ⊢
  by_cases here : c' = c
  · subst here
    simp only [Function.update_self, Option.some.injEq, Prod.mk.injEq] at new
    obtain ⟨rfl, rfl⟩ := new
    refine ⟨Nat.lt_of_lt_of_le young more, ?_, fun x creator => ?_⟩
    · rw [Function.update_of_ne (notOwn c' young)]
      refine Option.eq_none_iff_forall_ne_some.mpr fun made new => ?_
      exact notOwn r ((kin.pending r made.1 made.2 new).1) rfl
    · have same : procs.relative c' = some x := creator
      unfold Procs.relative at same
      rw [running, Option.map_some, Option.some.injEq] at same
      rw [ppid, ← same]
      rfl
  · rw [Function.update_of_ne here] at new
    obtain ⟨low', idle, creator⟩ := kin.pending c' r' p' new
    refine ⟨Nat.lt_of_lt_of_le low' more, ?_, creator⟩
    have other : r' ≠ c := by
      rintro rfl
      cases running.symm.trans (apart c' r' p' new)
    rw [Function.update_of_ne other, idle]

/-- A block that is being made is given its semaphore. -/
theorem filled (kin : procs.Kin n) (was : procs.newProcess c = some (r, p)) (semId : Int) : Procs.Kin { procs with
    newProcess := Function.update procs.newProcess c (some (r, { p with semId })) } n := by
  refine ⟨kin.parents, kin.init, kin.root, kin.notOwn, fun c' r' p' new => ?_⟩
  have before : ∃ q, procs.newProcess c' = some (r', q) ∧ p'.ppid = q.ppid := by
    by_cases here : c' = c
    · subst here
      simp only [Function.update_self, Option.some.injEq, Prod.mk.injEq] at new
      obtain ⟨rfl, rfl⟩ := new
      exact ⟨p, was, rfl⟩
    · simp only [Function.update_of_ne here] at new
      exact ⟨p', new, rfl⟩
  obtain ⟨q, new', ppid⟩ := before
  obtain ⟨low, idle, creator⟩ := kin.pending c' r' q new'
  have other : r' ≠ c := by
    rintro rfl
    cases was.symm.trans idle
  refine ⟨low, ?_, ?_⟩
  · dsimp only
    rw [Function.update_of_ne other, idle]
  · rw [ppid]
    exact creator

/-- A block that was made becomes a process, its creator's or `init`'s child. -/
theorem published (kin : procs.Kin n) (was : procs.newProcess c = some (r, p)) (running : procs.pcbs c = some q)
    (alive : q.state ≠ .terminated) (absent : procs.pcbs r = none)
    (unused : ∀ r' p', procs.pcbs r' = some p' → p'.pid ≠ p.pid) (same : p'.pid = p.pid)
    (parent : p'.ppid = p.ppid ∨ p'.ppid = procs.initPid) (queue : Queue Ref) (readyCount : Int) :
    Procs.Kin { procs with
      queue, readyCount
      pcbs := Function.update procs.pcbs r (some p'), newProcess := Function.update procs.newProcess c none } n := by
  obtain ⟨-, idle, creator⟩ := kin.pending c r p was
  have relatives : Procs.relative { procs with
      queue, readyCount
      pcbs := Function.update procs.pcbs r (some p'), newProcess := Function.update procs.newProcess c none } =
      Function.update procs.relative r (some p'.relative) := by
    funext r'
    by_cases here : r' = r
    · subst here
      simp [Procs.relative]
    · simp [Procs.relative, here]
  have new : procs.relative r = none := by
    rw [Procs.relative, absent]
    rfl
  have older : ∀ r' x, procs.relative r' = some x → r' ≠ r ∧ x.pid ≠ p.pid := by
    intro r' x here
    obtain ⟨p₁, block, rfl⟩ := Option.map_eq_some_iff.mp here
    refine ⟨?_, unused r' p₁ block⟩
    rintro rfl
    cases absent.symm.trans block
  have kept : ∀ r' x, procs.relative r' = some x → Function.update procs.relative r (some p'.relative) r' = some x := by
    intro r' x here
    rw [Function.update_of_ne (older r' x here).1, here]
  have each : ∀ r' x, Function.update procs.relative r (some p'.relative) r' = some x →
      (r' = r ∧ x = p'.relative) ∨ procs.relative r' = some x := by
    intro r' x here
    by_cases this : r' = r
    · subst this
      simp only [Function.update_self, Option.some.injEq] at here
      exact .inl ⟨rfl, here.symm⟩
    · rw [Function.update_of_ne this] at here
      exact .inr here
  obtain ⟨initRef, init, initHere, isInit, initAlive⟩ := kin.init
  have creatorHere : procs.relative c = some q.relative := congrArg (Option.map Pcb.relative) running
  have notInit : p'.pid ≠ procs.initPid := by
    rw [same, ← isInit]
    exact (older initRef init initHere).2.symm
  refine ⟨?_, ?_, ?_, ?_, fun c' r' p₁ pending => ?_⟩
  · rw [relatives]
    intro r' x here living child
    rcases each r' x here with ⟨-, rfl⟩ | before
    · rcases parent with own | init'
      · refine ⟨c, q.relative, kept c _ creatorHere, ?_, ?_⟩
        · exact ((creator _ creatorHere).symm.trans own.symm)
        · simpa [Pcb.relative] using alive
      · exact ⟨initRef, init, kept initRef init initHere, isInit.trans init'.symm, initAlive⟩
    · obtain ⟨r₁, y, there, isParent, living'⟩ := kin.parents r' x before living child
      exact ⟨r₁, y, kept r₁ y there, isParent, living'⟩
  · rw [relatives]
    exact ⟨initRef, init, kept initRef init initHere, isInit, initAlive⟩
  · rw [relatives]
    intro r' x here living first
    rcases each r' x here with ⟨-, rfl⟩ | before
    · exact (notInit first).elim
    · exact kin.root r' x before living first
  · rw [relatives]
    intro r' x here living
    rcases each r' x here with ⟨-, rfl⟩ | before
    · change p'.ppid ≠ p'.pid
      rcases parent with own | init'
      · rw [own, same, creator _ creatorHere]
        exact (older c _ creatorHere).2
      · rw [init']
        exact notInit.symm
    · exact kin.notOwn r' x before living
  · have other : c' ≠ c ∧ procs.newProcess c' = some (r', p₁) := by
      by_cases this : c' = c
      · subst this
        simp at pending
      · exact ⟨this, by simpa [this] using pending⟩
    obtain ⟨low, idle', creator'⟩ := kin.pending c' r' p₁ other.2
    refine ⟨low, ?_, ?_⟩
    · dsimp only
      by_cases this : r' = c
      · rw [this, Function.update_self]
      · rw [Function.update_of_ne this, idle']
    · rw [relatives]
      intro x here
      rcases each c' x here with ⟨rfl, -⟩ | before
      · -- The new process is making nobody.
        cases idle.symm.trans other.2
      · exact creator' x before

/-- The family of a process after it was terminated. -/
theorem relative_terminated (children : ∀ r q, procs.pcbs r = some q → q.ppid = p.pid → q.state ≠ .terminated →
    r ∈ procs.examined) (reparented : procs.Reparented r p middle) (p' : Pcb) (r' : Ref) (other : r' ≠ r) :
    (middle.moveState r p' .terminated).relative r' = (procs.relative r').map fun x => { x with
      ppid := if x.ppid = p.pid ∧ x.gone = false then procs.initPid else x.ppid } := by
  unfold Procs.relative Procs.moveState
  simp only [Function.update_of_ne other]
  rw [reparented.adopted r' other, Procs.adopt, Procs.adoptAmong]
  cases block : procs.pcbs r' with
  | none => simp [block]
  | some q =>
    have looked : r' ∈ procs.examined ∧ q.ppid = p.pid ∧ q.state ≠ .terminated ↔ q.ppid = p.pid ∧
      q.state ≠ .terminated :=
      and_iff_right_of_imp fun child => children r' q block child.1 child.2
    simp [block, looked, Pcb.relative]

theorem terminated (kin : procs.Kin n) (isOther : p.pid ≠ procs.initPid)
    (children : ∀ r q, procs.pcbs r = some q → q.ppid = p.pid → q.state ≠ .terminated → r ∈ procs.examined)
    (parent : ∀ r q, procs.pcbs r = some q → q.pid = p.ppid → q.state ≠ .terminated →
      q.state ≠ .exited → r ∈ procs.examined)
    (positive : 0 < p.pid)
    (unique : ∀ r' p', procs.pcbs r' = some p' → p'.pid = p.pid → r' = r) (block : procs.pcbs r = some p)
    (notTerminated : p.state ≠ .terminated) (reparented : procs.Reparented r p middle)
    (block' : middle.pcbs r = some p') :
    (middle.moveState r p' .terminated).Kin n ∧ procs.Adopts p.pid (middle.moveState r p' .terminated) := by
  have here : procs.relative r = some p.relative := congrArg (Option.map Pcb.relative) block
  have living : p.relative.gone = false := by simpa [Pcb.relative] using notTerminated
  have notOwn : p.ppid ≠ p.pid := kin.notOwn r p.relative here living
  have others := relative_terminated children reparented p'
  obtain ⟨relabel, relabelled⟩ := reparented.relabelled
  have initPid : (middle.moveState r p' .terminated).initPid = procs.initPid := by rw [relabelled]; rfl
  have newProcess : (middle.moveState r p' .terminated).newProcess = procs.newProcess := by rw [relabelled]; rfl
  have pid : p'.pid = p.pid := by
    rw [relabelled] at block'
    obtain ⟨q, was, rfl⟩ := Option.map_eq_some_iff.mp block'
    cases block.symm.trans was
    rfl
  -- Who is alive afterwards was alive before.
  have alive : ∀ r' x, (middle.moveState r p' .terminated).relative r' = some x → x.gone = false → r' ≠ r ∧
      ∃ y, procs.relative r' = some y ∧ y.gone = false ∧ y.pid = x.pid ∧
        x.ppid = if y.ppid = p.pid then procs.initPid else y.ppid := by
    intro r' x now living'
    have other : r' ≠ r := by
      rintro rfl
      simp only [Procs.relative, Procs.moveState, Function.update_self, Option.map_some, Option.some.injEq] at now
      rw [← now] at living'
      simp [Pcb.relative] at living'
    rw [others r' other] at now
    obtain ⟨y, was, rfl⟩ := Option.map_eq_some_iff.mp now
    dsimp only at living'
    exact ⟨other, y, was, living', rfl, by simp [living']⟩
  have stays : ∀ r' y, procs.relative r' = some y → y.gone = false → y.pid ≠ p.pid →
      ∃ x, (middle.moveState r p' .terminated).relative r' = some x ∧ x.pid = y.pid ∧ x.gone = false := by
    intro r' y was living' apart
    have other : r' ≠ r := by
      rintro rfl
      cases here.symm.trans was
      exact apart rfl
    have now := others r' other
    rw [was, Option.map_some] at now
    exact ⟨_, now, rfl, living'⟩
  obtain ⟨initRef, init, initHere, isInit, initAlive⟩ := kin.init
  have notInit : init.pid ≠ p.pid := fun same => isOther (same.symm.trans isInit)
  constructor
  · refine ⟨fun r' x now living' child => ?_, ?_, fun r' x now living' first => ?_, fun r' x now living' => ?_,
      fun c r' q new => ?_⟩
    · obtain ⟨-, y, was, living'', -, ppid⟩ := alive r' x now living'
      by_cases orphan : y.ppid = p.pid
      · rw [if_pos orphan] at ppid
        obtain ⟨z, there, same, living₁⟩ := stays initRef init initHere initAlive notInit
        exact ⟨initRef, z, there, by rw [same, isInit, ppid], living₁⟩
      · rw [if_neg orphan] at ppid
        obtain ⟨r₁, y₁, there, parent, living₁⟩ := kin.parents r' y was living'' (ppid ▸ child)
        obtain ⟨z, there', same, living₂⟩ := stays r₁ y₁ there living₁ (fun same => orphan (parent ▸ same))
        exact ⟨r₁, z, there', by rw [same, parent, ppid], living₂⟩
    · obtain ⟨z, there, same, living₁⟩ := stays initRef init initHere initAlive notInit
      exact ⟨initRef, z, there, by rw [same, isInit, initPid], living₁⟩
    · rw [initPid] at first
      obtain ⟨-, y, was, living'', same, ppid⟩ := alive r' x now living'
      have root := kin.root r' y was living'' (same.trans first)
      rw [ppid, if_neg (by omega), root]
    · obtain ⟨-, y, was, living'', same, ppid⟩ := alive r' x now living'
      rw [ppid, ← same]
      split
      · rename_i child
        intro own
        have root := kin.root r' y was living'' own.symm
        omega
      · exact kin.notOwn r' y was living''
    · rw [newProcess] at new ⊢
      obtain ⟨low, idle, creator⟩ := kin.pending c r' q new
      refine ⟨low, idle, fun x now => ?_⟩
      by_cases own : c = r
      · subst own
        rw [creator p.relative here]
        simp only [Procs.relative, Procs.moveState, Function.update_self, Option.map_some, Option.some.injEq] at now
        rw [← now]
        exact pid.symm
      · rw [others c own] at now
        obtain ⟨y, was, rfl⟩ := Option.map_eq_some_iff.mp now
        exact creator y was
  · refine ⟨fun r' q was child living' => ?_, fun r' q q' was own now changed => ?_⟩
    · have other : r' ≠ r := by
        rintro rfl
        cases block.symm.trans was
        exact notOwn child
      have looked := children r' q was child living'
      refine ⟨{ q with ppid := procs.initPid }, ?_, rfl⟩
      simp only [Procs.moveState, Function.update_of_ne other]
      rw [reparented.adopted r' other]
      simp [Procs.adopt, Procs.adoptAmong, was, looked, child, living']
    · obtain rfl := unique r' q was own
      cases block.symm.trans was
      simp only [Procs.moveState, Function.update_self, Option.some.injEq] at now
      rw [← now] at changed ⊢
      by_cases seen : procs.sees p.ppid
      · have kept := reparented.kept notOwn seen
        rw [block', Option.some.injEq] at kept
        rw [kept] at changed
        exact (changed rfl).elim
      · have orphan := reparented.orphan notOwn seen
        rw [block', Option.some.injEq] at orphan
        refine ⟨by rw [orphan], fun r₁ q₁ there isParent => ?_⟩
        by_contra healthy
        rw [not_or] at healthy
        exact seen ⟨r₁, parent r₁ q₁ there isParent healthy.2 healthy.1, q₁, there, isParent, healthy.2, healthy.1⟩

end Procs.Kin

/-- Everybody else is looked at. -/
theorem Procs.Spots.examined {procs : Procs} (spots : procs.Spots pid) (table : procs.Table n)
    (queued : r ∈ values procs.queue)
    (block : procs.pcbs r = some p) (same : p.pid = pid) (there : procs.pcbs r' = some q)
    (alive : q.state ≠ .terminated)
    (relative : q.ppid = pid ∨ q.pid = p.ppid ∧ q.state ≠ .exited) : r' ∈ procs.examined := by
  by_contra away
  have found : procs.process pid = some r := by
    refine find_eq_some queued (by simp [block, same]) fun x _ this => ?_
    obtain ⟨p', block', pid'⟩ := (Option.any_eq_true _ _).mp this
    exact table.unique x r p' p block' block (by rw [same]; simpa using pid')
  have listed : r' ∈ values procs.queue ++ procs.idleProcessPCB.toList := by
    rcases (table.listed r').mp (by rw [there]; simp) with idle | other
    · exact List.mem_append_right _ (by rw [← idle]; simp)
    · rcases List.mem_append.mp other with queued' | current
      · exact List.mem_append_left _ queued'
      · have running := (Option.filter_eq_some_iff.mp (Option.mem_toList.mp current)).1
        exact (away (List.mem_append_left _ (Option.mem_toList.mpr running))).elim
  obtain ⟨notChild, notParent⟩ := spots.2 r' listed away q there alive
  rcases relative with child | ⟨parent, notExited⟩
  · exact notChild child
  · refine notParent notExited ?_
    simp [Procs.ppidOf, found, block, parent]


/-! ## Steps -/

/-- As long as `sendTaskToInit` looks where it must, the families are in order, and it
saw to that whenever a process was terminated. -/
def State.Families (s : State) : Prop :=
  (∀ pid before after, .terminated pid before after ∈ s.deaths → before.Spots pid) →
    s.procs.Kin s.heap.requests ∧ ∀ pid before after, .terminated pid before after ∈ s.deaths → before.Adopts pid after

theorem State.Families.still {s s' : State} (families : s.Families) (deaths : s'.deaths = s.deaths)
    (kin : s.procs.Kin s.heap.requests → s'.procs.Kin s'.heap.requests) : s'.Families := by
  intro spots
  rw [deaths] at spots ⊢
  exact (families spots).imp_left kin

theorem relative_moveState {procs : Procs} {newState : ProcessState} (block : procs.pcbs r = some p)
    (alive : p.state ≠ .terminated) (stays : newState ≠ .terminated) :
    (procs.moveState r p newState).relative = procs.relative := by
  funext r'
  by_cases here : r' = r
  · subst here
    simp [Procs.relative, Procs.moveState, block, Pcb.relative, alive, stays]
  · simp [Procs.relative, Procs.moveState, here]

theorem Wake.relative (wake : Wake s s') : s'.procs.relative = s.procs.relative ∧ s'.procs.initPid = s.procs.initPid ∧
    s'.procs.newProcess = s.procs.newProcess ∧ s'.deaths = s.deaths ∧ s.heap.Grown s'.heap := by
  cases wake with
  | quiet grown deaths procs =>
    rw [procs]
    exact ⟨rfl, rfl, rfl, deaths, grown⟩
  | woken grown deaths listed block notExited notTerminated procs =>
    rw [procs]
    exact ⟨relative_moveState block notTerminated (by decide), rfl, rfl, deaths, grown⟩

theorem Wake.families (wake : Wake s s') (families : s.Families) : s'.Families := by
  obtain ⟨relatives, initPid, newProcess, deaths, grown⟩ := wake.relative
  exact families.still deaths fun kin => kin.alike grown.requests relatives initPid newProcess

theorem Life.families (table : s.procs.Table s.heap.requests) (life : Life s s')
    (families : s.Families) : s'.Families := by
  cases life with
  | wake wake => exact wake.families families
  | moved grown deaths listed block notExited notTerminated alive procs =>
    refine families.still deaths fun kin => kin.alike grown.requests ?_ ?_ ?_
    · rw [procs]
      exact relative_moveState block notTerminated alive
    · rw [procs]
      rfl
    · rw [procs]
      rfl
  | @terminated r p middle p' grown queued block notTerminated reparented block' procs deaths =>
    intro spots
    rw [deaths] at spots ⊢
    obtain ⟨kin, adopts⟩ := families fun pid before after member =>
      spots pid before after (List.mem_cons_of_mem _ member)
    have spot : s.procs.Spots p.pid := spots p.pid s.procs s'.procs (List.mem_cons_self ..)
    have looks : ∀ r' q, s.procs.pcbs r' = some q → q.state ≠ .terminated → q.ppid = p.pid ∨
      q.pid = p.ppid ∧ q.state ≠ .exited →
        r' ∈ s.procs.examined := fun r' q there alive => spot.examined table queued block rfl there alive
    have after := kin.terminated spot.1 (fun r' q there child alive => looks r' q there alive (.inl child))
      (fun r' q there parent alive notExited => looks r' q there alive (.inr ⟨parent, notExited⟩))
      (table.pids r p block).1
      (fun r' q there same => table.unique r' r q p there block same) block notTerminated reparented block'
    rw [← procs] at after
    refine ⟨after.1.alike grown.requests rfl rfl rfl, fun pid before after' member => ?_⟩
    rcases List.mem_cons.mp member with latest | older
    · cases latest
      exact after.2
    · exact adopts pid before after' older
  | @disowned r p grown deaths block dead procs =>
    refine families.still deaths fun kin => kin.dead grown.requests (fun r' => ?_) ?_ ?_
    · rw [procs]
      by_cases here : r' = r
      · subst here
        refine .inr ⟨p.relative, congrArg (Option.map Pcb.relative) block,
          by simp [Pcb.relative, dead], fun y now => ?_⟩
        simp only [Procs.relative, Function.update_self, Option.map_some, Option.some.injEq] at now
        rw [← now]
        exact ⟨rfl, by simp [Pcb.relative, dead]⟩
      · exact .inl (by simp [Procs.relative, here])
    · rw [procs]
    · rw [procs]
  | tuned grown deaths priority procs =>
    refine families.still deaths fun kin => kin.alike grown.requests ?_ ?_ ?_
    · rw [procs]
      funext r
      simp only [Procs.relative, Option.map_map]
      rfl
    · rw [procs]
    · rw [procs]
  | @allocated c q r p grown deaths running block low high pid ppid ready procs =>
    refine families.still deaths fun kin => ?_
    rw [procs]
    exact kin.allocated (fun c r p new => (table.newApart c r p new).1) block (table.below c q block) low high ppid _
  | filled grown deaths was procs =>
    refine families.still deaths fun kin => ?_
    rw [procs]
    exact (kin.filled was _).alike grown.requests rfl rfl rfl
  | @published c q r p queue ppid arguments grown deaths running block alive was listed parent procs =>
    refine families.still deaths fun kin => ?_
    rw [procs]
    obtain ⟨absent, unused⟩ := table.newApart c r p was
    have same : Pcb.pid { p with arguments := some arguments, ppid } = p.pid := rfl
    exact (kin.published was block alive absent unused same parent queue _).alike grown.requests rfl rfl rfl

theorem Lives.families (table : s.procs.Table s.heap.requests) (lives : Lives s s')
    (families : s.Families) : s'.Families := by
  induction lives with
  | refl => exact families
  | tail lives life ih => exact life.families (Lives.table table lives) ih

theorem Shift.families (ordered : Ordered s) (shift : Shift s s') (families : s.Families) : s'.Families := by
  cases shift with
  | rotated grown same =>
    have turned : ∀ s' : State, s'.deaths = s.deaths → s.heap.Grown s'.heap → s'.procs.relative = s.procs.relative →
        s'.procs.initPid = s.procs.initPid → s'.procs.newProcess = s.procs.newProcess → s'.Families :=
      fun s' deaths grown relatives initPid newProcess =>
        families.still deaths fun kin => kin.alike grown.requests relatives initPid newProcess
    exact turned _ rfl grown rfl rfl rfl
  | @reaped c p s₁ h queue currentProcessPCB working reaped grown others =>
    have woken := Lives.families ordered.table (reaped.wakes working).lives families
    have block := reaped.block working
    have dead : p.state = .terminated := by
      cases reaped
      assumption
    -- Nobody who lives has a dead parent.
    have freed : ∀ s' : State, s'.deaths = s₁.deaths → s₁.heap.Grown s'.heap → s'.procs.initPid = s₁.procs.initPid →
        s'.procs.newProcess = s₁.procs.newProcess → s'.procs.pcbs = Function.update s₁.procs.pcbs c none →
        s'.Families := by
      intro s' deaths grown initPid newProcess pcbs
      refine woken.still deaths fun kin => kin.dead grown.requests (fun r' => ?_) initPid newProcess
      unfold Procs.relative
      rw [pcbs]
      by_cases here : r' = c
      · subst here
        refine .inr ⟨p.relative, congrArg (Option.map Pcb.relative) block,
          by simp [Pcb.relative, dead], fun y now => ?_⟩
        simp at now
      · exact .inl (by rw [Function.update_of_ne here])
    exact freed _ rfl grown rfl rfl rfl

theorem families_boot (garbage : Option Ref × List Ref) : (bootState (fun _ => true) garbage).Families := by
  intro _
  have each : ∀ r x, bootProcs.relative r = some x → x = ⟨1, 0, false⟩ ∨ x = ⟨2, 0, false⟩ ∨ x = ⟨3, 0, false⟩ := by
    intro r x here
    obtain ⟨p, block, rfl⟩ := Option.map_eq_some_iff.mp here
    rcases bootPcbs_some block with ⟨-, rfl⟩ | ⟨-, rfl⟩ | ⟨-, rfl⟩ <;> decide
  refine ⟨⟨fun r x here _ child => ?_, ⟨initRef, ⟨2, 0, false⟩, rfl, rfl, rfl⟩, fun r x here _ _ =>
    ?_, fun r x here _ => ?_,
    fun c r p new => by cases new⟩, fun pid before after member => ?_⟩
  · rcases each r x here with rfl | rfl | rfl <;> exact (child rfl).elim
  · rcases each r x here with rfl | rfl | rfl <;> rfl
  · rcases each r x here with rfl | rfl | rfl <;> decide
  · simp [State.deaths, bootState, bootHistory, Event.isDeath] at member

/-- **No orphan is forgotten** while `sendTaskToInit` looks where it must: every living
process with a parent has one that is still there, and who was terminated left its
living children to `init`. -/
theorem no_orphans (run : Run allowed (boot (fun _ => true) garbage) S)
    (spots : ∀ pid before after, .terminated pid before after ∈ S.state.history → before.Spots pid) :
    (∀ r p, S.state.procs.pcbs r = some p → p.state ≠ .terminated → p.ppid ≠ 0 →
      ∃ r' p', S.state.procs.pcbs r' = some p' ∧ p'.pid = p.ppid) ∧
    ∀ pid before after, .terminated pid before after ∈ S.state.history → before.Adopts pid after := by
  have families : S.state.Families := reachable_keeps (families_boot garbage)
    (fun _ _ _ _ working families _ does => Lives.families working.table (does.advance working).2 families)
    (fun _ _ ordered families shift => shift.families ordered families) run
  have death : ∀ {pid before after}, Event.terminated pid before after ∈ S.state.deaths ↔
      .terminated pid before after ∈ S.state.history := by
    intro pid before after
    simp [State.deaths, Event.isDeath]
  obtain ⟨kin, adopts⟩ := families fun pid before after member => spots pid before after (death.mp member)
  refine ⟨fun r p block alive child => ?_, fun pid before after member => adopts pid before after (death.mpr member)⟩
  have here : S.state.procs.relative r = some p.relative := congrArg (Option.map Pcb.relative) block
  obtain ⟨r', y, there, parent, -⟩ := kin.parents r p.relative here (by simpa [Pcb.relative] using alive) child
  obtain ⟨p', block', rfl⟩ := Option.map_eq_some_iff.mp there
  exact ⟨r', p', block', parent⟩

/-- Whoever sees to it that `sendTaskToInit` looks where it must. -/
def spotted : Event → Bool
  | .terminated pid before _ => decide (before.Spots pid)
  | _ => true

/-- The shell started a process, which started another and was killed and waited for. -/
theorem no_orphans_adopted : ∃ S, Run (fun _ _ => True) (boot (fun _ => true) (none, [])) S ∧
    (S.state.procs.relative 52).map Relative.ppid = some 2 ∧ S.state.procs.relative 41 = none ∧
    ∀ r p, S.state.procs.pcbs r = some p → p.state ≠ .terminated → p.ppid ≠ 0 →
      ∃ r' p', S.state.procs.pcbs r' = some p' ∧ p'.pid = p.ppid := by
  have played :
    ((play (fun _ _ => true) [.schedule, .call .yield, .schedule, .call (.startTask (some 0) ["p"] 1 (some (0, 1))),
      .call .yield, .schedule, .resume, .call .yield, .schedule,
      .call (.startTask (some 0) ["p"] 1 (some (0, 1))), .call .yield,
      .schedule, .resume, .call (.killTask 4), .call (.waitpid 4), .call .yield, .schedule,
      .resume, .call .yield, .schedule,
      .call .yield, .schedule] (boot (fun _ => true) (none, []))).map fun S =>
      ((S.state.procs.relative 52).map Relative.ppid,
      S.state.procs.relative 41, S.state.history.all spotted)) = some (some 2, none, true) := by decide +kernel
  obtain ⟨S, played, observed⟩ := Option.map_eq_some_iff.mp played
  obtain ⟨adopted, freed, all⟩ : _ ∧ _ ∧ _ := by simpa only [Prod.mk.injEq] using observed
  have run : Run (fun _ _ => True) (boot (fun _ => true) (none, [])) S := play_run (fun _ _ _ => trivial) played
  refine ⟨S, run, adopted, freed, (no_orphans run fun pid before after member => ?_).1⟩
  exact of_decide_eq_true (List.all_eq_true.mp all _ member)

/-- A process killed its parent and waited for it while its elder brother was the last
one of the queue: `sendTaskToInit` did not come to the brother, whose parent is gone. -/
theorem no_orphans_fails : ¬∀ S, Run (fun _ _ => True) (boot (fun _ => true) (none, [])) S →
    ∀ r p, S.state.procs.pcbs r = some p → p.state ≠ .terminated → p.ppid ≠ 0 →
      ∃ r' p', S.state.procs.pcbs r' = some p' ∧ p'.pid = p.ppid := by
  intro always
  have played :
    ((play (fun _ _ => true) (List.replicate 3 .schedule ++ [.call (.startTask (some 0) ["p"] 1 (some (0, 1)))] ++
      List.replicate 5 .schedule ++ [.call (.startTask (some 0) ["p"] 1 (some (0, 1))),
        .call (.startTask (some 0) ["p"] 1 (some (0, 1)))] ++
      List.replicate 11 .schedule ++ [.call (.killTask 4), .call (.waitpid 4)] ++ List.replicate 3 .schedule)
      (boot (fun _ => true) (none, []))).map fun S => (S.state.procs.relative 52,
      (S.state.procs.idleProcessPCB.toList ++ S.state.procs.others).filterMap fun r =>
      (S.state.procs.relative r).map Relative.pid)) =
      some (some ⟨5, 4, false⟩, [1, 2, 5, 6, 3]) := by decide +kernel
  obtain ⟨S, played, observed⟩ := Option.map_eq_some_iff.mp played
  obtain ⟨orphan, pids⟩ := Prod.mk.inj observed
  have run : Run (fun _ _ => True) (boot (fun _ => true) (none, [])) S := play_run (fun _ _ _ => trivial) played
  obtain ⟨p, block, same⟩ := Option.map_eq_some_iff.mp orphan
  have pid := congrArg Relative.ppid same
  obtain ⟨r', p', block', parent⟩ := always S run 52 p block (by simpa [Pcb.relative] using congrArg Relative.gone same)
    (by rw [show p.ppid = 4 from pid]; decide)
  -- Nobody has the pid of the parent.
  have listed : r' ∈ S.state.procs.idleProcessPCB.toList ++ S.state.procs.others := by
    rcases ((ordered_reachable run).table.listed r').mp (by rw [block']; simp) with idle | other
    · exact List.mem_append_left _ (by rw [← idle]; simp)
    · exact List.mem_append_right _ other
  have member : p'.pid ∈ (S.state.procs.idleProcessPCB.toList ++ S.state.procs.others).filterMap
      fun r => (S.state.procs.relative r).map Relative.pid :=
    List.mem_filterMap.mpr ⟨r', listed, by simp [Procs.relative, block', Pcb.relative]⟩
  rw [pids, parent, show p.ppid = 4 from pid] at member
  exact absurd member (by decide)

end QuesOs.Kernel
