import QuesOs.Waiters

/-! Who stands in line at the semaphores. As long as nobody is resumed inside
`semWait` from outside, and no pid is given out again while it is in line, the queue of
a semaphore holds every living process that is blocked there, once, and no other living
process. -/
namespace QuesOs.Kernel
open Resumption Threads Relation

variable {allowed : State → Call → Prop} {garbage : Option Ref × List Ref} {S : System} {s : State}

/-! ## Lines -/

/-- The pids in line at the semaphore. -/
def Sems.line (sems : Sems) (sem : Int) : List Int := (sems.find sem).elim [] Sem.pids

theorem line_modify {sems : Sems} (proper : sems.Proper n) (found : sems.find sem = some x) {f : Sem → Sem}
    (kept : ∀ x, (f x).id = x.id) : (sems.modify x.ref f).line = Function.update sems.line sem (f x).pids := by
  obtain ⟨member, rfl⟩ := find_some found
  funext id
  unfold Sems.line
  rw [find_modify kept]
  by_cases here : id = x.id
  · subst here
    rw [Function.update_self, found]
    simp
  · rw [Function.update_of_ne here]
    cases found' : sems.find id with
    | none => rfl
    | some y =>
      obtain ⟨member', rfl⟩ := find_some found'
      have other : y.ref ≠ x.ref := by
        intro same
        exact here (congrArg Sem.id (List.inj_on_of_nodup_map proper.refs member' member same))
      simp [other]

theorem line_close {sems : Sems} (proper : sems.Proper n) (closed : Int) :
    (sems.close closed).line = Function.update sems.line closed [] := by
  funext id
  unfold Sems.line
  by_cases here : id = closed
  · subst here
    rw [find_close_self proper.ids, Function.update_self]
    rfl
  · rw [find_close_other _ here, Function.update_of_ne here]

theorem find_added {sems : Sems} (proper : sems.Proper n) (added : sems.Added initialValue m m' sems') (id : Int) :
    ∃ fresh : Sem, fresh.pids = [] ∧ fresh.value = initialValue ∧ fresh.id = sems.semId ∧
      sems'.find id = if id = sems.semId then some fresh else sems.find id := by
  obtain @⟨ref, queue, queueRef, nameRef, low, high, listed⟩ := added
  refine ⟨sems.fresh initialValue ref queueRef nameRef, rfl, rfl, rfl, ?_⟩
  unfold Sems.find
  dsimp only
  rw [listed, List.find?_append]
  by_cases here : id = sems.semId
  · subst here
    have none : (values sems.semQueue).find? (·.id = sems.semId) = none := by
      refine List.find?_eq_none.mpr fun x member this => ?_
      have same : x.id = sems.semId := by simpa using this
      exact Int.ne_of_lt (proper.below x member).2 same
    simp [none, Sems.fresh]
  · have other : (sems.fresh initialValue ref queueRef nameRef).id ≠ id := fun same => here same.symm
    simp [here, other]

theorem line_added {sems : Sems} (proper : sems.Proper n) (added : sems.Added initialValue m m' sems') :
    sems'.line = sems.line := by
  funext id
  obtain ⟨fresh, pids, -, -, found⟩ := find_added proper added id
  unfold Sems.line
  rw [found]
  by_cases here : id = sems.semId
  · subst here
    have none : sems.find sems.semId = none := by
      refine Option.eq_none_iff_forall_ne_some.mpr fun x found' => ?_
      obtain ⟨member, same⟩ := find_some found'
      exact Int.ne_of_lt (proper.below x member).2 same
    simp [none, pids]
  · simp [here]

/-- A living process as a semaphore knows it. -/
structure Place where
  pid : Int
  blocked : Bool
  deriving DecidableEq

def Pcb.place (p : Pcb) : Option Place :=
  match p.state with
  | .ready => some ⟨p.pid, false⟩
  | .blocked => some ⟨p.pid, true⟩
  | .exited | .terminated => none

def Procs.place (procs : Procs) (r : Ref) : Option Place := (procs.pcbs r).bind Pcb.place

/-- Every living process in line is blocked there, in one place of one line, and every one
that waits for a semaphore that is open is in its line; nobody who is being made is in line. -/
structure Lineup (procs : Procs) (sems : Sems) (requests : Nat) : Prop where
  queued : ∀ r x sem, procs.place r = some x → x.pid ∈ sems.line sem → x.blocked = true ∧ (r, sem) ∈ procs.waiting
  once : ∀ r x sem, procs.place r = some x → (sems.line sem).count x.pid ≤ 1
  single : ∀ r x sem sem', procs.place r = some x → x.pid ∈ sems.line sem → x.pid ∈ sems.line sem' → sem = sem'
  waits : ∀ r x sem, procs.place r = some x → (r, sem) ∈ procs.waiting → sems.find sem ≠ none → x.pid ∈ sems.line sem
  pending : ∀ c r p sem, procs.newProcess c = some (r, p) → p.pid ∉ sems.line sem
  settled : ∀ w ∈ procs.waiting, w.1 < requests ∧ w.2 < sems.semId ∧ ∀ c q, procs.newProcess c ≠ some (w.1, q)

theorem place_some {procs : Procs} (here : procs.place r = some x) : ∃ p, procs.pcbs r = some p ∧ p.pid = x.pid ∧
    p.state ≠ .exited ∧ p.state ≠ .terminated ∧ (p.state = .blocked ↔ x.blocked = true) := by
  obtain ⟨p, block, place⟩ := Option.bind_eq_some_iff.mp here
  refine ⟨p, block, ?_⟩
  unfold Pcb.place at place
  split at place <;> cases place <;> simp [*]

theorem place_unique {procs : Procs} (table : procs.Table n) (here : procs.place r = some x)
    (here' : procs.place r' = some x')
    (same : x.pid = x'.pid) : r = r' := by
  obtain ⟨p, block, pid, -⟩ := place_some here
  obtain ⟨p', block', pid', -⟩ := place_some here'
  exact table.unique r r' p p' block block' (pid.trans (same.trans pid'.symm))

theorem place_of_block {procs : Procs} (block : procs.pcbs r = some p) (notExited : p.state ≠ .exited)
    (notTerminated : p.state ≠ .terminated) : procs.place r = some ⟨p.pid, p.state = .blocked⟩ := by
  unfold Procs.place Pcb.place
  rw [block, Option.bind_some]
  split <;> simp_all

theorem place_moveState {procs : Procs} (q : Pcb) (newState : ProcessState) :
    (procs.moveState r q newState).place = Function.update procs.place r (Pcb.place { q with state := newState }) := by
  funext r'
  by_cases here : r' = r
  · subst here
    simp [Procs.place, Procs.moveState]
  · simp [Procs.place, Procs.moveState, here]

namespace Lineup
variable {procs procs' : Procs} {sems sems' : Sems} {n n' : Nat}

/-- Some die or some line closes, and nothing changes for the others. -/
theorem fade (lineup : Lineup procs sems n) (places : ∀ r x, procs'.place r = some x → procs.place r = some x)
    (shorter : ∀ r x sem, procs'.place r = some x → (sems'.line sem).count x.pid ≤ (sems.line sem).count x.pid)
    (stays : ∀ r x sem, procs'.place r = some x → sems'.find sem ≠ none → x.pid ∈ sems.line sem →
      x.pid ∈ sems'.line sem)
    (fewer : ∀ w ∈ procs'.waiting, w ∈ procs.waiting)
    (kept : ∀ r x sem, procs'.place r = some x → x.pid ∈ sems.line sem → (r, sem) ∈ procs.waiting →
      (r, sem) ∈ procs'.waiting)
    (found : ∀ w ∈ procs.waiting, sems'.find w.2 ≠ none → sems.find w.2 ≠ none)
    (pending : ∀ c r p, procs'.newProcess c = some (r, p) →
      (n ≤ r ∨ ∃ q, procs.newProcess c = some (r, q)) ∧ ∀ sem, p.pid ∉ sems'.line sem)
    (requests : n ≤ n') (semId : sems.semId ≤ sems'.semId) : Lineup procs' sems' n' := by
  have inLine : ∀ r x sem, procs'.place r = some x → x.pid ∈ sems'.line sem → x.pid ∈ sems.line sem := by
    intro r x sem here inside
    exact List.count_pos_iff.mp (Nat.lt_of_lt_of_le (List.count_pos_iff.mpr inside) (shorter r x sem here))
  constructor
  · intro r x sem here inside
    have before := inLine r x sem here inside
    obtain ⟨blocked, waits⟩ := lineup.queued r x sem (places r x here) before
    exact ⟨blocked, kept r x sem here before waits⟩
  · intro r x sem here
    exact Nat.le_trans (shorter r x sem here) (lineup.once r x sem (places r x here))
  · intro r x sem sem' here inside inside'
    exact lineup.single r x sem sem' (places r x here) (inLine r x sem here inside) (inLine r x sem' here inside')
  · intro r x sem here waits there
    have before := fewer _ waits
    exact stays r x sem here there (lineup.waits r x sem (places r x here) before (found _ before there))
  · intro c r p sem new
    exact (pending c r p new).2 sem
  · intro w waits
    obtain ⟨old, low, settled⟩ := lineup.settled w (fewer w waits)
    refine ⟨Nat.lt_of_lt_of_le old requests, Int.lt_of_lt_of_le low semId, fun c q new => ?_⟩
    rcases (pending c w.1 q new).1 with young | ⟨q', was⟩
    · exact Nat.not_lt.mpr young old
    · exact settled c q' was

/-- Some die, and the lines stay. -/
theorem fewer (lineup : Lineup procs sems n) (places : ∀ r x, procs'.place r = some x → procs.place r = some x)
    (waiting : procs'.waiting = procs.waiting) (newProcess : procs'.newProcess = procs.newProcess) (requests : n ≤ n') :
    Lineup procs' sems n' := by
  apply lineup.fade places (fun _ _ _ _ => Nat.le_refl _) (fun _ _ _ _ _ inside => inside) _ _
    (fun _ _ there => there) _
    requests (Int.le_refl _)
  · rw [waiting]
    exact fun _ => id
  · rw [waiting]
    exact fun _ _ _ _ _ => id
  · intro c r p new
    rw [newProcess] at new
    exact ⟨.inr ⟨p, new⟩, fun sem => lineup.pending c r p sem new⟩

/-- The lines stay. -/
theorem stocked (lineup : Lineup procs sems n) (lines : sems'.line = sems.line) (semId : sems.semId ≤ sems'.semId)
    (found : ∀ id < sems.semId, sems'.find id ≠ none → sems.find id ≠ none) (requests : n ≤ n') :
    Lineup procs sems' n' := by
  apply lineup.fade (fun _ _ => id) _ _ (fun _ => id) (fun _ _ _ _ _ => id) _ _ requests semId
  · rw [lines]
    exact fun _ _ _ _ => Nat.le_refl _
  · rw [lines]
    exact fun _ _ _ _ _ => id
  · intro w waits there
    exact found w.2 (lineup.settled w waits).2.1 there
  · intro c r p new
    rw [lines]
    exact ⟨.inr ⟨p, new⟩, fun sem => lineup.pending c r p sem new⟩

/-- A line closes. -/
theorem closed (lineup : Lineup procs sems n) (proper : sems.Proper m) (sem : Int) :
    Lineup procs (sems.close sem) n := by
  have shorter : ∀ id, ((sems.close sem).line id).Sublist (sems.line id) := by
    intro id
    rw [line_close proper]
    by_cases here : id = sem
    · subst here
      rw [Function.update_self]
      exact List.nil_sublist _
    · rw [Function.update_of_ne here]
  apply lineup.fade (fun _ _ => id) (fun r x id _ => (shorter id).count_le _) _ (fun _ => id) (fun _ _ _ _ _ => id) _ _
    (Nat.le_refl _) (Int.le_refl _)
  · intro r x id _ there inside
    rw [line_close proper]
    by_cases here : id = sem
    · rw [here, find_close_self proper.ids] at there
      exact (there rfl).elim
    · rwa [Function.update_of_ne here]
  · intro w _ there
    by_cases here : w.2 = sem
    · rw [here, find_close_self proper.ids] at there
      exact (there rfl).elim
    · rwa [find_close_other _ here] at there
  · intro c r p new
    exact ⟨.inr ⟨p, new⟩, fun id inside => lineup.pending c r p id new ((shorter id).subset inside)⟩

/-- A process takes another state; it does not become ready in line. -/
theorem moved (lineup : Lineup procs sems n) (here : procs.place r = some x)
    (stays : blocked = true ∨ ∀ sem, x.pid ∉ sems.line sem)
    (places : procs'.place = Function.update procs.place r (some ⟨x.pid, blocked⟩))
    (waiting : procs'.waiting = procs.waiting)
    (newProcess : procs'.newProcess = procs.newProcess) : Lineup procs' sems n := by
  have each : ∀ r' y, procs'.place r' = some y → ∃ z, procs.place r' = some z ∧ z.pid = y.pid ∧
      ((r' = r ∧ y.blocked = blocked) ∨ z = y) := by
    intro r' y now
    rw [places] at now
    by_cases own : r' = r
    · subst own
      rw [Function.update_self, Option.some.injEq] at now
      exact ⟨x, here, by rw [← now], .inl ⟨rfl, by rw [← now]⟩⟩
    · rw [Function.update_of_ne own] at now
      exact ⟨y, now, rfl, .inr rfl⟩
  constructor
  · intro r' y sem now inside
    obtain ⟨z, was, pid, alike⟩ := each r' y now
    obtain ⟨isBlocked, waits⟩ := lineup.queued r' z sem was (pid ▸ inside)
    rw [waiting]
    refine ⟨?_, waits⟩
    rcases alike with ⟨rfl, same⟩ | rfl
    · rw [same]
      cases here.symm.trans was
      exact stays.resolve_right fun apart => apart sem (pid ▸ inside)
    · exact isBlocked
  · intro r' y sem now
    obtain ⟨z, was, pid, -⟩ := each r' y now
    rw [← pid]
    exact lineup.once r' z sem was
  · intro r' y sem sem' now inside inside'
    obtain ⟨z, was, pid, -⟩ := each r' y now
    rw [← pid] at inside inside'
    exact lineup.single r' z sem sem' was inside inside'
  · intro r' y sem now waits there
    obtain ⟨z, was, pid, -⟩ := each r' y now
    rw [waiting] at waits
    rw [← pid]
    exact lineup.waits r' z sem was waits there
  · rw [newProcess]
    exact lineup.pending
  · rw [newProcess, waiting]
    exact lineup.settled

/-- A blocked process gets in line. -/
theorem joined (lineup : Lineup procs sems n) (table : procs.Table n) (here : procs.place c = some ⟨pid, true⟩)
    (apart : ∀ sem, pid ∉ sems.line sem) (isOpen : sems.find sem ≠ none)
    (lines : sems'.line = Function.update sems.line sem (sems.line sem ++ [pid])) (places : procs'.place = procs.place)
    (waiting : procs'.waiting = (c, sem) :: procs.waiting) (newProcess : procs'.newProcess = procs.newProcess)
    (found : ∀ id, sems'.find id = none ↔ sems.find id = none) (semId : sems'.semId = sems.semId)
    (below : sem < sems.semId) : Lineup procs' sems' n := by
  obtain ⟨p, block, pid', -⟩ := place_some here
  have inLine : ∀ id i, i ∈ sems'.line id ↔ i ∈ sems.line id ∨ (id = sem ∧ i = pid) := by
    intro id i
    rw [lines]
    by_cases there : id = sem
    · subst there
      simp
    · simp [there]
  have own : ∀ r x, procs.place r = some x → x.pid = pid → r = c ∧ x = ⟨pid, true⟩ := by
    intro r x now same
    obtain rfl := place_unique table now here same
    cases now.symm.trans here
    exact ⟨rfl, rfl⟩
  constructor
  · intro r x id now inside
    rw [places] at now
    rw [waiting]
    rcases (inLine id x.pid).mp inside with before | ⟨rfl, same⟩
    · obtain ⟨blocked, waits⟩ := lineup.queued r x id now before
      exact ⟨blocked, List.mem_cons_of_mem _ waits⟩
    · obtain ⟨rfl, rfl⟩ := own r x now same
      exact ⟨rfl, List.mem_cons_self ..⟩
  · intro r x id now
    rw [places] at now
    have before := lineup.once r x id now
    rw [lines]
    by_cases there : id = sem
    · subst there
      rw [Function.update_self, List.count_append]
      by_cases same : x.pid = pid
      · have once : (sems.line id).count pid + [pid].count pid = 1 := by
          rw [List.count_eq_zero_of_not_mem (apart id), List.count_singleton_self]
        rw [same]
        exact Nat.le_of_eq once
      · rw [List.count_singleton, if_neg (by simpa using fun other => same other.symm)]
        exact before
    · rw [Function.update_of_ne there]
      exact before
  · intro r x id id' now inside inside'
    rw [places] at now
    rcases (inLine id x.pid).mp inside with before | ⟨rfl, same⟩ <;>
      rcases (inLine id' x.pid).mp inside' with before' | ⟨rfl, same'⟩
    · exact lineup.single r x id id' now before before'
    · exact (apart id (same' ▸ before)).elim
    · exact (apart id' (same ▸ before')).elim
    · rfl
  · intro r x id now waits there
    rw [places] at now
    rw [waiting] at waits
    apply (inLine id x.pid).mpr
    rcases List.mem_cons.mp waits with same | before
    · cases same
      cases now.symm.trans here
      exact .inr ⟨rfl, rfl⟩
    · exact .inl (lineup.waits r x id now before fun gone => there ((found id).mpr gone))
  · intro c' r p id new inside
    rw [newProcess] at new
    rcases (inLine id p.pid).mp inside with before | ⟨rfl, same⟩
    · exact lineup.pending c' r p id new before
    · exact (table.newApart c' r p new).2 c _ block (pid'.trans same.symm)
  · intro w waits
    rw [waiting] at waits
    rw [semId, newProcess]
    rcases List.mem_cons.mp waits with rfl | before
    · refine ⟨table.below c p block, below, fun c' q new => ?_⟩
      cases block.symm.trans (table.newApart c' c q new).1
    · exact lineup.settled w before

/-- The first living process in line leaves it; those before it are forgotten. -/
theorem left (lineup : Lineup procs sems n) (table : procs.Table n) (here : procs.place r = some x)
    (split : sems.line sem = skipped ++ x.pid :: rest) (inVain : ∀ r' y, procs.place r' = some y → y.pid ∉ skipped)
    (lines : sems'.line = Function.update sems.line sem rest) (places : procs'.place = procs.place)
    (waiting : ∀ w, w ∈ procs'.waiting ↔ w ∈ procs.waiting ∧ w ≠ (r, sem))
    (newProcess : procs'.newProcess = procs.newProcess)
    (found : ∀ id, sems'.find id = none ↔ sems.find id = none) (semId : sems'.semId = sems.semId) :
    Lineup procs' sems' n ∧ ∀ id, x.pid ∉ sems'.line id := by
  have front : x.pid ∈ sems.line sem := by simp [split]
  have fewer : ∀ id, (sems'.line id).Sublist (sems.line id) := by
    intro id
    rw [lines]
    by_cases there : id = sem
    · subst there
      rw [Function.update_self, split]
      exact (List.sublist_cons_self _ _).trans (List.sublist_append_right _ _)
    · rw [Function.update_of_ne there]
  have gone : ∀ id, x.pid ∉ sems'.line id := by
    intro id inside
    obtain rfl := lineup.single r x id sem here ((fewer id).subset inside) front
    rw [lines, Function.update_self] at inside
    have once := lineup.once r x id here
    have again := List.count_pos_iff.mpr inside
    rw [split, List.count_append, List.count_cons_self] at once
    omega
  have others : ∀ r' y id, procs.place r' = some y → r' ≠ r → y.pid ∈ sems.line id → y.pid ∈ sems'.line id := by
    intro r' y id there other inside
    rw [lines]
    by_cases same : id = sem
    · subst same
      rw [split] at inside
      have apart : y.pid ≠ x.pid := fun alike => other (place_unique table there here alike)
      simp only [List.mem_append, inVain r' y there, List.mem_cons, apart, false_or] at inside
      rwa [Function.update_self]
    · rwa [Function.update_of_ne same]
  refine ⟨?_, gone⟩
  constructor
  · intro r' y id there inside
    rw [places] at there
    obtain ⟨blocked, waits⟩ := lineup.queued r' y id there ((fewer id).subset inside)
    refine ⟨blocked, (waiting _).mpr ⟨waits, fun same => ?_⟩⟩
    cases same
    cases there.symm.trans here
    exact gone sem inside
  · intro r' y id there
    rw [places] at there
    exact Nat.le_trans ((fewer id).count_le _) (lineup.once r' y id there)
  · intro r' y id id' there inside inside'
    rw [places] at there
    exact lineup.single r' y id id' there ((fewer id).subset inside) ((fewer id').subset inside')
  · intro r' y id there waits isOpen
    rw [places] at there
    obtain ⟨before, other⟩ := (waiting _).mp waits
    have inside := lineup.waits r' y id there before fun none => isOpen ((found id).mpr none)
    apply others r' y id there _ inside
    rintro rfl
    cases there.symm.trans here
    exact other (Prod.ext rfl (lineup.single r' x id sem here inside front))
  · intro c r' p id new inside
    rw [newProcess] at new
    exact lineup.pending c r' p id new ((fewer id).subset inside)
  · intro w waits
    rw [semId, newProcess]
    exact lineup.settled w ((waiting w).mp waits).1

/-- A new process starts. -/
theorem published (lineup : Lineup procs sems n) (was : procs.newProcess c = some (r, p))
    (places : procs'.place = Function.update procs.place r (some ⟨p.pid, false⟩))
    (waiting : procs'.waiting = procs.waiting)
    (newProcess : procs'.newProcess = Function.update procs.newProcess c none) : Lineup procs' sems n := by
  have each : ∀ r' y, procs'.place r' = some y → (r' = r ∧ y = ⟨p.pid, false⟩) ∨ procs.place r' = some y := by
    intro r' y now
    rw [places] at now
    by_cases own : r' = r
    · subst own
      rw [Function.update_self, Option.some.injEq] at now
      exact .inl ⟨rfl, now.symm⟩
    · rw [Function.update_of_ne own] at now
      exact .inr now
  have still : ∀ c' r' q, procs'.newProcess c' = some (r', q) → procs.newProcess c' = some (r', q) := by
    intro c' r' q new
    rw [newProcess] at new
    by_cases own : c' = c
    · subst own
      simp at new
    · rwa [Function.update_of_ne own] at new
  constructor
  · intro r' y sem now inside
    rw [waiting]
    rcases each r' y now with ⟨-, rfl⟩ | before
    · exact (lineup.pending c r p sem was inside).elim
    · exact lineup.queued r' y sem before inside
  · intro r' y sem now
    rcases each r' y now with ⟨-, rfl⟩ | before
    · rw [List.count_eq_zero_of_not_mem (lineup.pending c r p sem was)]
      exact Nat.zero_le 1
    · exact lineup.once r' y sem before
  · intro r' y sem sem' now inside inside'
    rcases each r' y now with ⟨-, rfl⟩ | before
    · exact (lineup.pending c r p sem was inside).elim
    · exact lineup.single r' y sem sem' before inside inside'
  · intro r' y sem now waits isOpen
    rw [waiting] at waits
    rcases each r' y now with ⟨rfl, -⟩ | before
    · exact ((lineup.settled _ waits).2.2 c p was).elim
    · exact lineup.waits r' y sem before waits isOpen
  · intro c' r' q sem new
    exact lineup.pending c' r' q sem (still c' r' q new)
  · intro w waits
    rw [waiting] at waits
    obtain ⟨old, low, settled⟩ := lineup.settled w waits
    exact ⟨old, low, fun c' q new => settled c' q (still c' w.1 q new)⟩

end Lineup

/-! ## Posts -/

/-- The living processes are lined up at the semaphores. -/
def State.Lined (s : State) : Prop := Lineup s.procs s.sems s.heap.requests

/-- The post was handed to a process that was blocked in `semWait`, or no living process was. -/
def Event.Lawful : Event → Prop
  | .handed sem _ pid before =>
    ∃ r p, before.pcbs r = some p ∧ p.pid = pid ∧ p.state = .blocked ∧ (r, sem) ∈ before.waiting
  | .raised sem _ before => ∀ r, before.lives r = true → (r, sem) ∉ before.waiting
  | _ => True

/-- The living processes are lined up, and every post so far went to one of them if it could. -/
structure State.Orderly (s : State) : Prop where
  lined : s.Lined
  lawful : ∀ event ∈ s.history, event.Lawful

/-- Whoever is in line is found, and can be resumed. -/
theorem Working.moved_in_line (working : Working s c) (lined : s.Lined) (here : s.procs.place r = some x)
    (inside : x.pid ∈ s.sems.line sem) : s.procs.moved x.pid .ready ≠ none := by
  obtain ⟨p, block, pid, notExited, notTerminated, blocked⟩ := place_some here
  have waits := blocked.mpr (lined.queued r x sem here inside).1
  have listed : r ∈ s.procs.others := by
    apply ((working.table.listed r).mp (by simp [block])).resolve_left
    intro idle
    have ready := (idle_ready working.table idle.symm block).1
    rw [ready] at waits
    cases waits
  have near : r = c ∨ r ∈ values s.procs.queue := by
    rcases List.mem_append.mp listed with queued | current
    · exact .inr queued
    · rw [working.running, Option.mem_toList, Option.filter_eq_some_iff] at current
      exact .inl (Option.some.inj current.1).symm
  have target := working.target_eq near block
  rw [pid] at target
  have moves : s.procs.moved x.pid .ready = some (s.procs.moveState r p .ready) :=
    moved_eq_some.mpr ⟨r, p, target, block, notExited, notTerminated, rfl⟩
  rw [moves]
  exact Option.some_ne_none _

theorem lives_place {procs : Procs} (lives : procs.lives r = true) : ∃ x, procs.place r = some x := by
  obtain ⟨p, block, alive⟩ := (Option.any_eq_true _ _).mp lives
  simp only [Bool.and_eq_true, decide_eq_true_eq] at alive
  exact ⟨_, place_of_block block alive.1 alive.2⟩

/-- Which waits a post ends. -/
theorem mem_grant {procs : Procs} (table : procs.Table n) (block : procs.pcbs r = some p) (sem : Int) (w : Ref × Int) :
    w ∈ (procs.grant sem p.pid).waiting ↔ w ∈ procs.waiting ∧ w ≠ (r, sem) := by
  simp only [Procs.grant, List.mem_filter, Bool.not_eq_true', Bool.and_eq_false_iff, decide_eq_false_iff_not]
  refine and_congr_right fun _ => ?_
  constructor
  · rintro other rfl
    rcases other with other | other
    · exact other rfl
    · simp [block] at other
  · intro other
    by_cases here : w.2 = sem
    · right
      apply Bool.eq_false_iff.mpr
      intro same
      obtain ⟨q, block', pid⟩ := (Option.any_eq_true _ _).mp same
      have alike := table.unique w.1 r q p block' block (by simpa using pid)
      exact other (Prod.ext alike here)
    · exact .inl here

theorem Posts.orderly (working : Working s c) (posts : Posts s sem s') (orderly : s.Orderly) : s'.Orderly := by
  have passing : ∀ (pids : List Int) (id : Int), ∀ event ∈ (pids.map (Event.skipped id)).reverse ++
    s.history, event.Lawful := by
    intro pids id event member
    rcases List.mem_append.mp member with skipped | older
    · obtain ⟨pid, -, rfl⟩ := List.mem_map.mp (List.mem_reverse.mp skipped)
      trivial
    · exact orderly.lawful event older
  have lined := orderly.lined
  rcases posts with ⟨-, h, grown, rfl⟩ | ⟨x, found, posted⟩
  · exact ⟨lined.fewer (fun _ _ => id) rfl rfl grown.requests, orderly.lawful⟩
  · have proper := working.sound.sems
    obtain ⟨-, rfl⟩ := find_some found
    have front : s.sems.line x.id = x.pids := by simp [Sems.line, found]
    cases posted with
    | @handed skipped pid rest procs blockedPids h queued inVain resumed forgotten grown =>
      obtain ⟨r, q, target, block, notExited, notTerminated, rfl⟩ := moved_eq_some.mp resumed
      obtain ⟨_, attended⟩ := working.attended
      obtain ⟨-, q', block', rfl⟩ := target_some attended target
      cases block.symm.trans block'
      have here := place_of_block block notExited notTerminated
      have split : s.sems.line x.id = skipped ++ q.pid :: rest := front.trans queued
      obtain ⟨blocked, waits⟩ := lined.queued r _ x.id here (by simp [split])
      have lines : (s.sems.modify x.ref fun y => { y with blockedPids, lock := 0 }).line =
          Function.update s.sems.line x.id rest := by
        rw [line_modify proper found (f := fun y => { y with blockedPids, lock := 0 }) fun _ => rfl]
        exact congrArg _ forgotten
      have moving : ∀ w, w ∈ ((s.procs.moveState r q .ready).grant x.id q.pid).waiting ↔
          w ∈ s.procs.waiting ∧ w ≠ (r, x.id) := by
        intro w
        have listed : r ∈ s.procs.others := by
          apply ((working.table.listed r).mp (by simp [block])).resolve_left
          intro idle
          have ready := (idle_ready working.table idle.symm block).1
          simp [ready] at blocked
        have table := working.table.moveState listed block .ready
        exact mem_grant table (p := { q with state := .ready }) (Function.update_self ..) x.id w
      have passedOver : ∀ r' y, s.procs.place r' = some y → y.pid ∉ skipped := by
        intro r' y there inside
        have front : y.pid ∈ s.sems.line x.id := by simp [split, inside]
        exact working.moved_in_line lined there front (inVain y.pid inside)
      have leaving : Lineup { s.procs with waiting := ((s.procs.moveState r q .ready).grant x.id q.pid).waiting }
          (s.sems.modify x.ref fun y => { y with blockedPids, lock := 0 }) s.heap.requests ∧ _ :=
        lined.left working.table here split passedOver lines rfl moving rfl
          (find_modify_none (by exact fun _ => rfl) x.ref) rfl
      have started : Lineup ((s.procs.moveState r q .ready).grant x.id q.pid) _ s.heap.requests :=
        leaving.1.moved here (.inr leaving.2) ((place_moveState q .ready).trans rfl) rfl rfl
      refine ⟨started.fewer (fun _ _ => id) rfl rfl grown.requests, fun event member => ?_⟩
      rcases List.mem_cons.mp member with rfl | older
      · exact ⟨r, q, block, rfl, by simpa using blocked, waits⟩
      · exact passing skipped x.id event older
    | @raised h inVain grown =>
      have lines : (s.sems.modify x.ref fun y => { y with blockedPids := [], value := y.value + 1, lock := 0 }).line =
          Function.update s.sems.line x.id [] :=
        line_modify proper found fun _ => rfl
      have nobody : ∀ r y, s.procs.place r = some y → y.pid ∉ s.sems.line x.id := by
        intro r y there inside
        have resumes := working.moved_in_line lined there inside
        rw [front] at inside
        exact resumes (inVain y.pid inside)
      have shorter :
        ∀ id, ((s.sems.modify x.ref fun y =>
        { y with blockedPids := [], value := y.value + 1, lock := 0 }).line id).Sublist
          (s.sems.line id) := by
        intro id
        rw [lines]
        by_cases here : id = x.id
        · subst here
          rw [Function.update_self]
          exact List.nil_sublist _
        · rw [Function.update_of_ne here]
      refine ⟨?_, fun event member => ?_⟩
      · refine lined.fade (fun _ _ => id) (fun r y id _ => (shorter id).count_le _) ?_ (fun _ =>
          id) (fun _ _ _ _ _ => id)
          ?_ ?_ grown.requests (Int.le_refl _)
        · intro r y id there _ inside
          rw [lines]
          by_cases here : id = x.id
          · subst here
            exact (nobody r y there inside).elim
          · rwa [Function.update_of_ne here]
        · intro w _ there none
          exact there ((find_modify_none (by exact fun _ => rfl) x.ref w.2).mpr none)
        · intro c' r p new
          exact ⟨.inr ⟨p, new⟩, fun id inside => lined.pending c' r p id new ((shorter id).subset inside)⟩
      · rcases List.mem_cons.mp member with rfl | older
        · intro r lives waits
          obtain ⟨y, there⟩ := lives_place lives
          exact nobody r y there (lined.waits r y x.id there waits (by simp [found]))
        · exact passing x.pids x.id event older

/-! ## Waits -/

theorem State.Orderly.plain {s s' : State} (orderly : s.Orderly) (lined : s'.Lined)
    (lawful : ∀ event ∈ s'.history, event ∈ s.history ∨ event.Lawful) : s'.Orderly :=
  ⟨lined, fun event member => (lawful event member).elim (orderly.lawful event) id⟩

/-- The history goes on with an event that is no post. -/
theorem lawful_cons {event : Event} {history : List Event} (lawful : event.Lawful) :
    ∀ e ∈ event :: history, e ∈ history ∨ e.Lawful := by
  intro e member
  rcases List.mem_cons.mp member with rfl | older
  · exact .inr lawful
  · exact .inl older

theorem line_take {sems : Sems} (proper : sems.Proper n) (found : sems.find sem = some x) :
    (sems.modify x.ref fun y => { y with value := y.value - 1, lock := 0 }).line = sems.line := by
  rw [line_modify proper found (f := fun y => { y with value := y.value - 1, lock := 0 }) fun _ => rfl]
  apply Function.update_eq_self_iff.mpr
  change x.pids = sems.line sem
  simp [Sems.line, found]

theorem Entered.took_orderly (working : Working s c) (found : s.sems.find sem = some x)
    (entered : Entered s c p x (.inl a) s')
    (orderly : s.Orderly) : s'.Orderly := by
  cases entered with
  | took positive grown =>
    refine orderly.plain ?_ (lawful_cons trivial)
    apply orderly.lined.stocked (line_take working.sound.sems found) (Int.le_refl _) _ grown.requests
    intro id _ there none
    exact there ((find_modify_none (by exact fun _ => rfl) x.ref id).mpr none)

theorem line_push {sems : Sems} (proper : sems.Proper n) (found : sems.find sem = some x)
    (last : (values blockedPids).map Caller.pid = x.pids ++ [pid]) :
    (sems.modify x.ref fun y => { y with blockedPids, lock := 0 }).line =
      Function.update sems.line sem (sems.line sem ++ [pid]) := by
  rw [line_modify proper found (f := fun y => { y with blockedPids, lock := 0 }) fun _ => rfl]
  have front : sems.line sem = x.pids := by simp [Sems.line, found]
  rw [front]
  exact congrArg _ last

/-- A process that is blocked anyway gets in line. -/
theorem Entered.join (working : Working s c) (found : s.sems.find sem = some x)
    (entered : Entered s c p x (.inr pid) s')
    (lineup : Lineup procs s.sems s.heap.requests) (table : procs.Table s.heap.requests)
    (here : procs.place c = some ⟨pid, true⟩) (apart : ∀ sem, pid ∉ s.sems.line sem) :
    Lineup { procs with waiting := (c, sem) :: procs.waiting } s'.sems s'.heap.requests := by
  have proper := working.sound.sems
  obtain ⟨member, rfl⟩ := find_some found
  cases entered with
  | @queued h blockedPids empty grown last =>
    have lines := line_push proper found last
    have joined : Lineup { procs with waiting := (c, x.id) :: procs.waiting } _ s.heap.requests :=
      lineup.joined table here apart (by simp [found]) lines rfl rfl rfl
        (find_modify_none (by exact fun _ => rfl) x.ref)
        rfl (proper.below x member).2
    exact joined.fewer (fun _ _ => id) rfl rfl grown.requests

/-- Whoever is ready is in no line. -/
theorem State.Lined.ready {s : State} (lined : s.Lined) (block : s.procs.pcbs c = some p) (ready : p.state = .ready) :
    ∀ sem, p.pid ∉ s.sems.line sem := by
  intro sem inside
  have here := place_of_block block (by simp [ready]) (by simp [ready])
  have blocked := (lined.queued c _ sem here inside).1
  simp [ready] at blocked

theorem Passed.orderly (working : Working s c) (passed : Passed s c sem s') (orderly : s.Orderly) : s'.Orderly := by
  have lined := orderly.lined
  cases passed with
  | absent absent grown => exact ⟨lined.fewer (fun _ _ => id) rfl rfl grown.requests, orderly.lawful⟩
  | took found block entered => exact entered.took_orderly working found orderly
  | @woken p block ready record =>
    refine ⟨?_, orderly.lawful⟩
    change Lineup (s.procs.endWait c sem) s.sems s.heap.requests
    refine lined.fade (fun _ _ => id) (fun _ _ _ _ => Nat.le_refl _) (fun _ _ _ _ _ => id) ?_ ?_ (fun _ _ => id) ?_
      (Nat.le_refl _) (Int.le_refl _)
    · intro w waits
      exact (List.mem_filter.mp waits).1
    · intro r x id here inside waits
      refine List.mem_filter.mpr ⟨waits, ?_⟩
      apply decide_eq_true
      rintro ⟨⟩
      obtain ⟨q, block', pid, -⟩ := place_some here
      cases block.symm.trans block'
      exact (lined.ready block ready _ (pid ▸ inside)).elim
    · intro c' r q new
      exact ⟨.inr ⟨q, new⟩, fun id => lined.pending c' r q id new⟩
  | @forced x p pid s₁ h found block dead entered grown =>
    obtain ⟨member, rfl⟩ := find_some found
    cases entered with
    | @queued h₁ blockedPids empty grown₁ last =>
      refine orderly.plain ?_ (lawful_cons trivial)
      have lines := line_push working.sound.sems found last
      have other : ∀ r y, s.procs.place r = some y → y.pid ≠ p.pid := by
        intro r y here same
        obtain ⟨q, block', pid, -, alive, -⟩ := place_some here
        obtain rfl := working.table.unique r c q p block' block (pid.trans same)
        cases block.symm.trans block'
        exact alive dead
      have same : ∀ i id, i ≠ p.pid →
        ((s.sems.modify x.ref fun y => { y with blockedPids, lock := 0 }).line id).count i =
          (s.sems.line id).count i := by
        intro i id apart
        rw [lines]
        by_cases there : id = x.id
        · subst there
          rw [Function.update_self, List.count_append, List.count_singleton,
            if_neg (by simpa using fun h => apart h.symm)]
          rfl
        · rw [Function.update_of_ne there]
      refine lined.fade (fun _ _ => id) ?_ ?_ ?_ ?_ ?_ ?_ (Nat.le_trans grown₁.requests grown.requests) (Int.le_refl _)
      · intro r y id here
        exact Nat.le_of_eq (same y.pid id (other r y here))
      · intro r y id here _ inside
        apply List.count_pos_iff.mp
        rw [same y.pid id (other r y here)]
        exact List.count_pos_iff.mpr inside
      · intro w waits
        obtain ⟨inside, ended⟩ := List.mem_filter.mp waits
        exact (List.mem_cons.mp inside).resolve_left (by simpa using ended)
      · intro r y id here _ waits
        refine List.mem_filter.mpr ⟨List.mem_cons_of_mem _ waits, ?_⟩
        apply decide_eq_true
        rintro ⟨⟩
        obtain ⟨q, block', -, -, alive, -⟩ := place_some here
        cases block.symm.trans block'
        exact (alive dead).elim
      · intro w _ there none
        exact there ((find_modify_none (by exact fun _ => rfl) x.ref w.2).mpr none)
      · intro c' r q new
        refine ⟨.inr ⟨q, new⟩, fun id inside => ?_⟩
        have apart : q.pid ≠ p.pid := fun alike => (working.table.newApart c' r q new).2 c p block alike.symm
        rw [← List.count_pos_iff, same q.pid id apart] at inside
        exact lined.pending c' r q id new (List.count_pos_iff.mp inside)

/-! ## Deeds -/

/-- Nobody is resumed in line, and no new process gets a pid that is in line. -/
def keepsLine : Deed → State → State → Prop
  | .moves pid .ready, s, _ => ∀ r ∈ s.procs.target pid, s.procs.lives r = true → ∀ sem, pid ∉ s.sems.line sem
  | .creates, s, s' => s'.procs.pidCounter = s.procs.pidCounter ∨ ∀ sem, s.procs.pidCounter ∉ s.sems.line sem
  | _, _, _ => True

/-- The semaphores, the places and the waits are as they were. -/
theorem State.Orderly.calm {s s' : State} (orderly : s.Orderly) (grown : s.heap.Grown s'.heap) (sems : s'.sems = s.sems)
    (places : s'.procs.place = s.procs.place) (waiting : s'.procs.waiting = s.procs.waiting)
    (newProcess : s'.procs.newProcess = s.procs.newProcess)
    (lawful : ∀ event ∈ s'.history, event ∈ s.history ∨ event.Lawful) : s'.Orderly := by
  refine orderly.plain ?_ lawful
  unfold State.Lined
  rw [sems]
  refine orderly.lined.fewer (fun r x here => ?_) waiting newProcess grown.requests
  rwa [← places]

theorem found_added {sems : Sems} (proper : sems.Proper n) (added : sems.Added initialValue m m' sems') :
    ∀ id < sems.semId, sems'.find id ≠ none → sems.find id ≠ none := by
  intro id low there none
  obtain ⟨fresh, -, -, -, found⟩ := find_added proper added id
  rw [found, if_neg (Int.ne_of_lt low), none] at there
  exact there rfl

/-- An open semaphore more. -/
theorem Lineup.added (lineup : Lineup procs sems n) (proper : sems.Proper m)
    (added : sems.Added initialValue k k' sems')
    (requests : n ≤ n') : Lineup procs sems' n' := by
  apply lineup.stocked (line_added proper added) _ (found_added proper added) requests
  obtain ⟨low, high, listed⟩ := added
  exact Int.le_of_lt (Int.lt_succ _)

theorem place_relabelled {procs : Procs} (f : Ref → Pcb → Pcb) (same : ∀ r p, (f r p).pid = p.pid ∧
      (f r p).state = p.state) :
    Procs.place { procs with pcbs := fun r => (procs.pcbs r).map (f r) } = procs.place := by
  funext r
  unfold Procs.place
  dsimp only
  cases procs.pcbs r with
  | none => rfl
  | some p =>
    simp only [Option.map_some, Option.bind_some, Pcb.place, (same r p).1, (same r p).2]

theorem place_update {procs : Procs} (block : procs.pcbs r = some p) (pid : p'.pid = p.pid)
    (state : p'.state = p.state) :
    Procs.place { procs with pcbs := Function.update procs.pcbs r (some p') } = procs.place := by
  funext r'
  unfold Procs.place
  dsimp only
  by_cases here : r' = r
  · subst here
    simp only [Function.update_self, block, Option.bind_some, Pcb.place, pid, state]
  · rw [Function.update_of_ne here]

/-- A process dies, and the others stay where they are. -/
theorem place_dead {procs : Procs} (dead : newState = .exited ∨ newState = .terminated) (q : Pcb)
    (now : (procs.moveState r q newState).place r' = some x) : procs.place r' = some x := by
  rw [place_moveState] at now
  by_cases here : r' = r
  · subst here
    rw [Function.update_self] at now
    rcases dead with rfl | rfl <;> cases now
  · rwa [Function.update_of_ne here] at now

theorem Opened.orderly (working : Working s c) (opened : Opened s pipeId s') (orderly : s.Orderly) : s'.Orderly := by
  cases opened with
  | found found grown => exact orderly.calm grown rfl rfl rfl rfl (lawful_cons trivial)
  | created absent grown created =>
    obtain ⟨grown', low, high, readSem, writeSem, listed⟩ := created
    have proper := working.sound.sems
    have readProper := (proper.grown (Nat.le_trans grown.requests (Nat.le_succ_of_le low))).add readSem
    have reads := orderly.lined.added proper readSem (Nat.le_refl _)
    refine orderly.plain (reads.added readProper writeSem (Nat.le_trans grown.requests grown'.requests))
      fun event member => ?_
    simp only [List.mem_cons] at member
    rcases member with rfl | rfl | rfl | rfl | older
    · exact .inr trivial
    · exact .inr trivial
    · exact .inr trivial
    · exact .inr trivial
    · exact .inl older

theorem Does.orderly (working : Working s c) (allowed : keepsLine deed s s') (does : Does s c deed s')
    (orderly : s.Orderly) : s'.Orderly := by
  have lined := orderly.lined
  have proper := working.sound.sems
  cases does with
  | looked grown => exact orderly.calm grown rfl rfl rfl rfl fun _ => .inl
  | cached pipeId grown => exact orderly.calm grown rfl rfl rfl rfl fun _ => .inl
  | awaited => exact orderly.calm (.refl _) rfl rfl rfl rfl (lawful_cons trivial)
  | passed passed => exact passed.orderly working orderly
  | @slept sem x p pid s₁ h found block ready notIdle entered grown =>
    have alive : p.state ≠ .exited ∧ p.state ≠ .terminated := by simp [ready]
    have here := place_of_block block alive.1 alive.2
    have apart := lined.ready block ready
    have table := working.table.moveState (working.listed notIdle) block .blocked
    have stops : Lineup (s.procs.moveState c p .blocked) s.sems s.heap.requests :=
      lined.moved here (.inl rfl) (place_moveState p .blocked) rfl rfl
    have now : (s.procs.moveState c p .blocked).place c = some ⟨p.pid, true⟩ := by
      rw [place_moveState]
      exact Function.update_self ..
    have pid : pid = p.pid := by
      cases entered
      rfl
    subst pid
    have joined := entered.join working found stops table now apart
    obtain ⟨member, rfl⟩ := find_some found
    cases entered with
    | queued empty grown₁ last =>
      exact orderly.plain (joined.fewer (fun _ _ => id) rfl rfl grown.requests) (lawful_cons trivial)
  | watched passed block =>
    exact (passed.orderly working orderly).calm (.refl _) rfl rfl rfl rfl (lawful_cons trivial)
  | posted posts => exact posts.orderly working orderly
  | initiated grown added =>
    exact orderly.plain (lined.added proper added grown.requests) (lawful_cons trivial)
  | @moved h target r p newState grown found listed block notExited notTerminated alive =>
    refine orderly.plain ?_ fun _ => .inl
    have here := place_of_block block notExited notTerminated
    have moves : Lineup (s.procs.moveState r p newState) s.sems s.heap.requests := by
      rcases alive with rfl | rfl
      · have lives : s.procs.lives r = true := by simp [Procs.lives, block, notExited, notTerminated]
        obtain ⟨_, attended⟩ := working.attended
        obtain ⟨-, q, block', rfl⟩ := target_some attended found
        cases block.symm.trans block'
        exact lined.moved here (.inr (allowed r found lives)) (place_moveState p .ready) rfl rfl
      · exact lined.moved here (.inl rfl) (place_moveState p .blocked) rfl rfl
    exact moves.fewer (fun _ _ => id) rfl rfl grown.requests
  | exited listed exited =>
    obtain ⟨target, block', notExited, notTerminated, grown, posts, now⟩ := exited
    have looked : (s.withHeap _).Orderly := orderly.calm grown rfl rfl rfl rfl fun _ => .inl
    have posted := posts.orderly (working.withHeap grown) looked
    exact posted.plain (posted.lined.fewer (fun _ _ => place_dead (.inl rfl) _) rfl rfl (Nat.le_refl _)) fun _ => .inl
  | terminated terminated =>
    obtain ⟨target, queued, block', notTerminated, grown, reparented, now⟩ := terminated
    obtain ⟨ppid, rfl⟩ := reparented.relabelled
    refine orderly.plain ?_ (lawful_cons trivial)
    refine lined.fewer (fun r x here => ?_) rfl rfl grown.requests
    have before := place_dead (.inr rfl) _ here
    rwa [place_relabelled (fun r p => { p with ppid := ppid r p }) fun _ _ => ⟨rfl, rfl⟩] at before
  | disowned block dead => exact orderly.calm (.refl _) rfl (place_update block rfl rfl) rfl rfl fun _ => .inl
  | reniced grown queued block low high =>
    exact orderly.calm grown rfl (place_update block rfl rfl) rfl rfl fun _ => .inl
  | yielded => exact orderly.calm (.refl _) rfl rfl rfl rfl fun _ => .inl
  | @allocated q h r p block grown low high pid ppid ready gentle unset =>
    refine orderly.plain ?_ fun _ => .inl
    refine lined.fade (fun _ _ => id) (fun _ _ _ _ => Nat.le_refl _) (fun _ _ _ _ _ => id) (fun _ => id)
      (fun _ _ _ _ _ => id) (fun _ _ => id) (fun c' r' p' new => ?_) grown.requests (Int.le_refl _)
    by_cases here : c' = c
    · subst here
      simp only [Function.update_self, Option.some.injEq, Prod.mk.injEq] at new
      obtain ⟨rfl, rfl⟩ := new
      refine ⟨.inl low, fun sem => ?_⟩
      rw [pid]
      have counts : s.procs.pidCounter + 1 ≠ s.procs.pidCounter := Int.ne_of_gt (Int.lt_succ _)
      exact allowed.resolve_left counts sem
    · simp only [Function.update_of_ne here] at new
      exact ⟨.inr ⟨p', new⟩, fun sem => lined.pending c' r' p' sem new⟩
  | @filled h sems r p grown added was =>
    have stocked := lined.added proper added grown.requests
    refine orderly.plain ?_ (lawful_cons trivial)
    refine stocked.fade (fun _ _ => id) (fun _ _ _ _ => Nat.le_refl _) (fun _ _ _ _ _ => id) (fun _ => id)
      (fun _ _ _ _ _ => id) (fun _ _ => id) (fun c' r' p' new => ?_) (Nat.le_refl _) (Int.le_refl _)
    by_cases here : c' = c
    · subst here
      simp only [Function.update_self, Option.some.injEq, Prod.mk.injEq] at new
      obtain ⟨rfl, rfl⟩ := new
      exact ⟨.inr ⟨p, was⟩, fun sem => stocked.pending c' r p sem was⟩
    · simp only [Function.update_of_ne here] at new
      exact ⟨.inr ⟨p', new⟩, fun sem => stocked.pending c' r' p' sem new⟩
  | @published q h r p queue ppid arguments block alive grown was listed parent =>
    refine orderly.plain ?_ fun _ => .inl
    have ready := working.table.newReady c r p was
    have starts : Lineup { s.procs with
        queue
        pcbs := Function.update s.procs.pcbs r (some { p with arguments := some arguments, ppid })
        readyCount := s.procs.readyCount + 1
        newProcess := Function.update s.procs.newProcess c none } s.sems s.heap.requests := by
      refine lined.published was ?_ rfl rfl
      funext r'
      unfold Procs.place
      by_cases here : r' = r
      · subst here
        simp [Pcb.place, ready]
      · simp [here]
    exact starts.fewer (fun _ _ => id) rfl rfl grown.requests
  | opened opened => exact opened.orderly working orderly
  | missed absent => exact orderly.calm (.refl _) rfl rfl rfl rfl (lawful_cons trivial)
  | closed here isOpen same closed =>
    cases closed with
    | kept more => exact orderly.calm (.refl _) rfl rfl rfl rfl (lawful_cons trivial)
    | last last grown =>
      exact orderly.plain (((lined.closed proper _).closed (proper.close _) _).fewer (fun _ _ =>
        id) rfl rfl grown.requests)
        (lawful_cons trivial)
  | @put r p s₁ ch _ here isOpen passed posts =>
    have working₁ := (working.passed passed).writePipe r (f := (·.put ch)) fun _ => ⟨rfl, rfl⟩
    apply posts.orderly working₁
    exact (passed.orderly working orderly).calm (.refl _) rfl rfl rfl rfl fun _ => .inl
  | @took r p s₁ _ here isOpen passed posts =>
    have working₁ := (working.passed passed).writePipe r (f := Pipe.take) fun _ => ⟨rfl, rfl⟩
    apply posts.orderly working₁
    exact (passed.orderly working orderly).calm (.refl _) rfl rfl rfl rfl fun _ => .inl
  | destroyed block dead grown =>
    exact orderly.plain ((lined.closed proper _).fewer (fun _ _ => id) rfl rfl grown.requests) fun _ => .inl

theorem Shift.orderly (shift : Shift s s') (orderly : s.Orderly) : s'.Orderly := by
  cases shift with
  | rotated grown same => exact orderly.calm grown rfl rfl rfl rfl fun _ => .inl
  | @reaped c p s₁ h queue currentProcessPCB working reaped grown others =>
    obtain @⟨s₂, block, dead, chain⟩ := reaped
    have before : s₂.Orderly := chain.keeps working orderly fun s₃ s₄ deed working₃ orderly₃ reaps does => by
      refine does.orderly working₃ ?_ orderly₃
      cases deed with
      | moves => exact reaps.elim
      | creates => exact reaps.elim
      | _ => trivial
    refine before.plain (before.lined.fewer (fun r x here => ?_) rfl rfl grown.requests) (lawful_cons trivial)
    unfold Procs.place at here ⊢
    by_cases own : r = c
    · subst own
      simp at here
    · simpa only [Function.update_of_ne own] using here

/-! ## Runs -/

/-- The call resumes nobody who is in line, and starts no process whose pid is in line. -/
def State.KeepsLine (s : State) : Call → Prop
  | .resumeTask pid => ∀ r ∈ s.procs.target pid, s.procs.lives r = true → ∀ x ∈ values s.sems.semQueue, pid ∉ x.pids
  | .startTask .. => ∀ x ∈ values s.sems.semQueue, s.procs.pidCounter ∉ x.pids
  | _ => True

instance (s : State) : (call : Call) → Decidable (s.KeepsLine call)
  | .resumeTask pid => inferInstanceAs (Decidable (∀ r ∈ s.procs.target pid, s.procs.lives r = true →
      ∀ x ∈ values s.sems.semQueue, pid ∉ x.pids))
  | .startTask .. => inferInstanceAs (Decidable (∀ x ∈ values s.sems.semQueue, s.procs.pidCounter ∉ x.pids))
  | .killCurrent | .killTask _ | .blockTask _ | .waitpid _ | .nice .. | .yield | .semInit _ | .semWait _
  | .semPost _ | .pipeOpen _ | .pipeClose _ | .pipeRead _ | .pipePutchar .. | .pipeWrite .. | .killCurrentForeground =>
    .isTrue trivial

theorem not_mem_line {sems : Sems} (apart : ∀ x ∈ values sems.semQueue, pid ∉ x.pids) (sem : Int) :
    pid ∉ sems.line sem := by
  unfold Sems.line
  cases found : sems.find sem with
  | none => exact List.not_mem_nil
  | some x => exact apart x (find_some found).1

theorem calls_keep_line (keeps : ∀ s call, allowed s call → s.KeepsLine call) :
    (discipline keepsLine).Calls (Issues allowed) := by
  apply calls_of_covers
  intro start call permitted deed makes s s' c finds _ _
  have condition := keeps start call permitted
  cases deed with
  | moves pid newState =>
    cases newState with
    | ready =>
      cases call with
      | resumeTask target =>
        obtain ⟨rfl, -⟩ := makes
        obtain rfl : s = start := finds
        intro r found lives
        exact not_mem_line (condition r found lives)
      | blockTask target => cases makes.2
      | _ => exact makes.elim
    | _ => trivial
  | creates =>
    cases call with
    | startTask process argv foreground fd =>
      rcases finds with rfl | same
      · exact .inr (not_mem_line condition)
      · exact .inl same
    | _ => exact makes.elim
  | _ => trivial

theorem orderly_boot (garbage : Option Ref × List Ref) : (bootState (fun _ => true) garbage).Orderly := by
  have empty : ∀ sem, bootSems.line sem = [] := by
    intro sem
    unfold Sems.line
    cases found : bootSems.find sem with
    | none => rfl
    | some x =>
      have listed := (find_some found).1
      simp only [bootSems, values, bootSem, List.map_cons, List.map_nil, List.mem_cons,
        List.not_mem_nil, or_false] at listed
      rcases listed with rfl | rfl | rfl | rfl | rfl | rfl <;> rfl
  refine ⟨⟨fun r x sem _ inside => ?_, fun r x sem _ => ?_, fun r x sem sem' _ inside => ?_, fun _ _ _ _ waits => ?_,
    fun _ _ _ _ new => ?_, fun _ waits => ?_⟩, fun event member => ?_⟩
  · exact (List.not_mem_nil (empty sem ▸ inside)).elim
  · exact Nat.le_trans (Nat.le_of_eq (congrArg (List.count x.pid) (empty sem))) (Nat.zero_le 1)
  · exact (List.not_mem_nil (empty sem ▸ inside)).elim
  · exact (List.not_mem_nil waits).elim
  · cases new
  · exact (List.not_mem_nil waits).elim
  · have listed : event ∈ bootHistory := member
    simp only [bootHistory, List.mem_cons, List.not_mem_nil, or_false] at listed
    rcases listed with rfl | rfl | rfl | rfl | rfl | rfl | rfl | rfl | rfl | rfl <;> trivial

theorem orderly_reachable (keeps : ∀ s call, allowed s call → s.KeepsLine call)
    (run : Run allowed (boot (fun _ => true) garbage) S) : S.state.Orderly :=
  run_keeps (calls_keep_line keeps) (orderly_boot garbage)
    (fun _ _ _ _ working orderly allowed does => does.orderly working allowed orderly)
    (fun _ _ _ orderly shift => shift.orderly orderly) run

/-- What `semPost` does with its unit. -/
inductive State.Conserves (s : State) (id : Int) (s' : State) : Prop
  | absent (absent : s.sems.find id = none)
  | handed (found : s.sems.find id = some x) (block : s.procs.pcbs r = some p) (blocked : p.state = .blocked)
    (waits : (r, id) ∈ s.procs.waiting) (resumed : s'.procs.pcbs r = some { p with state := .ready })
    (kept : (s'.sems.find id).map Sem.value = some x.value)
  | raised (found : s.sems.find id = some x) (nobody : ∀ r, s.procs.lives r = true → (r, id) ∉ s.procs.waiting)
    (raised : (s'.sems.find id).map Sem.value = some (x.value + 1)) (procs : s'.procs = s.procs)

theorem Posts.conserves {id : Int} (working : Working s c) (posts : Posts s id s')
    (orderly : s.Orderly) : s.Conserves id s' := by
  have after := (posts.orderly working orderly).lawful
  rcases posts with ⟨absent, -⟩ | ⟨x, found, posted⟩
  · exact .absent absent
  · obtain ⟨-, rfl⟩ := find_some found
    have value : ∀ f : Sem → Sem, (∀ y, (f y).id = y.id) →
        ((s.sems.modify x.ref f).find x.id).map Sem.value = some (f x).value := by
      intro f kept
      rw [find_modify kept, found]
      simp
    cases posted with
    | @handed skipped pid rest procs blockedPids h queued inVain resumed forgotten grown =>
      obtain ⟨r, q, target, block, notExited, notTerminated, rfl⟩ := moved_eq_some.mp resumed
      obtain ⟨r', p, block', pid', blocked, waits⟩ := after _ (List.mem_cons_self ..)
      obtain ⟨_, attended⟩ := working.attended
      obtain ⟨-, q', block'', same⟩ := target_some attended target
      cases block.symm.trans block''
      obtain rfl := working.table.unique r r' q p block block' (same.trans pid'.symm)
      cases block.symm.trans block'
      exact .handed found block blocked waits (Function.update_self ..)
        (value (fun y => { y with blockedPids, lock := 0 }) fun _ => rfl)
    | raised inVain grown =>
      have nobody : ∀ r, s.procs.lives r = true → (r, x.id) ∉ s.procs.waiting := after _ (List.mem_cons_self ..)
      exact .raised found nobody
        (value (fun y => { y with blockedPids := [], value := y.value + 1, lock := 0 }) fun _ => rfl) rfl

/-- **No post is lost.** As long as nobody who is in line is resumed from outside, and no
process gets a pid that is in line, every post so far was handed to a process that was blocked
in `semWait` on the semaphore, or no living process was; and so will the next be. -/
theorem posts_conserved (keeps : ∀ s call, allowed s call → s.KeepsLine call)
    (run : Run allowed (boot (fun _ => true) garbage) S) : (∀ event ∈ S.state.history, event.Lawful) ∧
      ∀ c, S.state.procs.currentProcessPCB = some c → ∀ id a s', (semPost id).run S.state = .ok (a, s') →
        S.state.Conserves id s' := by
  have orderly := orderly_reachable keeps run
  refine ⟨orderly.lawful, fun c running id a s' ran => ?_⟩
  have ordered := ordered_reachable run
  have working : Working S.state c := ⟨ordered.sound, ordered.table, running⟩
  obtain ⟨p, attended⟩ := working.attended
  have meets : Meets (fun _ => True) (semPost id) (fun _ => Posts S.state id) S.state :=
    semPost_spec ordered.sound.grants ordered.sound.sems attended id
  have posts : Posts S.state id s' := (meets_of_run ran).mp meets
  exact posts.conserves working orderly

/-- The post that an event is about. -/
def Event.post : Event → Option (Int × Int)
  | .handed sem _ pid _ => some (sem, pid)
  | .raised sem _ _ => some (sem, 0)
  | _ => none

/-- The shell's child hands it a unit, and posts one more that nobody waits for. -/
theorem posts_conserved_two : ∃ S, Run State.KeepsLine (boot (fun _ => true) (none, [])) S ∧
    S.state.history.filterMap Event.post = [(6, 0), (6, 3)] ∧ ((∀ event ∈ S.state.history, event.Lawful) ∧
      ∀ c, S.state.procs.currentProcessPCB = some c → ∀ id a s', (semPost id).run S.state = .ok (a, s') →
        S.state.Conserves id s') := by
  have played : ((play (fun s call => decide (s.KeepsLine call)) [.schedule, .schedule, .schedule, .call (.semInit 0),
      .call (.startTask (some 0) ["p"] 1 (some (0, 1))), .call (.semWait 6), .schedule, .schedule, .schedule,
      .call (.semPost 6), .call (.semPost 6)] (boot (fun _ => true) (none, []))).map fun S =>
      S.state.history.filterMap Event.post) =
      some [(6, 0), (6, 3)] := by decide +kernel
  obtain ⟨S, played, observed⟩ := Option.map_eq_some_iff.mp played
  have run : Run State.KeepsLine (boot (fun _ => true) (none, [])) S := play_run (fun _ _ => of_decide_eq_true) played
  exact ⟨S, run, observed, posts_conserved (fun _ _ => id) run⟩

/-- The calls of processes and semaphores. -/
def Call.synchronizes : Call → Bool
  | .startTask .. | .semInit _ | .semWait _ | .semPost _ | .killTask _ | .blockTask
    _ | .resumeTask _ | .waitpid _ => true
  | _ => false

/-- The post was handed to a process that did not wait. -/
def Event.stray : Event → Bool
  | .handed _ _ _ before => before.waiting.isEmpty
  | _ => false

/-- The shell waits, and its child resumes it. Its pid is still in line when it posts. -/
theorem posts_conserved_fails : ¬∀ S, Run (fun _ call => call.synchronizes = true) (boot (fun _ => true) (none, [])) S →
    (∀ event ∈ S.state.history, event.Lawful) ∧
      ∀ c, S.state.procs.currentProcessPCB = some c → ∀ id a s', (semPost id).run S.state = .ok (a, s') →
        S.state.Conserves id s' := by
  intro always
  have played : ((play (fun _ call => call.synchronizes) [.schedule, .schedule, .schedule, .call (.semInit 0),
      .call (.startTask (some 0) ["p"] 1 (some (0, 1))), .call (.semWait 6), .schedule, .schedule, .schedule,
      .call (.resumeTask 3), .schedule, .schedule, .schedule, .schedule, .schedule, .resume,
      .call (.semPost 6)] (boot (fun _ => true) (none, []))).map fun S => S.state.history.any Event.stray) =
      some true := by decide +kernel
  obtain ⟨S, played, observed⟩ := Option.map_eq_some_iff.mp played
  have run : Run (fun _ call => call.synchronizes = true) (boot (fun _ => true) (none, [])) S :=
    play_run (fun _ _ => id) played
  obtain ⟨event, member, stray⟩ := List.any_eq_true.mp observed
  have lawful := (always S run).1 event member
  cases event with
  | handed sem poster pid before =>
    obtain ⟨r, p, -, -, -, waits⟩ := lawful
    rw [List.isEmpty_iff.mp stray] at waits
    exact (List.not_mem_nil waits).elim
  | _ => cases stray

end QuesOs.Kernel
