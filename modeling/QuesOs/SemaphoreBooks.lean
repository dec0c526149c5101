import QuesOs.Counting
import QuesOs.WaitQueues

/-! The books of the semaphores. Whatever processes call, in whatever order, every open
semaphore is where its history has brought a counting semaphore that serves first
come, first served: no unit is lost or made up, nobody in line is overtaken, and nobody
waits for a unit that is there. -/
namespace QuesOs.Kernel
open Resumption Threads Counting

variable {allowed : State → Call → Prop} {garbage : Option Ref × List Ref} {S : System} {s : State}

/-! ## The books -/

/-- The semaphore that the event is about. -/
def Event.sem : Event → Option Int
  | .created sem _ | .took sem _ | .arrived sem _ | .handed sem _ _ _ | .skipped sem _ | .raised sem _ _ => some sem
  | _ => none

/-- What the event is to the semaphore. -/
def Event.note (sem : Int) : Event → Option (Note Int)
  | .took id pid => if id = sem then some (.took pid) else none
  | .arrived id pid => if id = sem then some (.arrived pid) else none
  | .handed id _ pid _ => if id = sem then some (.handed pid) else none
  | .skipped id pid => if id = sem then some (.skipped pid) else none
  | .raised id _ _ => if id = sem then some .raised else none
  | _ => none

/-- The value that the semaphore is created with. -/
def Event.initial (sem : Int) : Event → Option Int
  | .created id value => if id = sem then some value else none
  | _ => none

/-- What was noted down at the semaphore, in the order in which it happened. -/
def notes (sem : Int) (history : List Event) : List (Note Int) := history.reverse.filterMap (Event.note sem)

def initials (sem : Int) (history : List Event) : List Int := history.reverse.filterMap (Event.initial sem)

theorem notes_append (sem : Int) (new history : List Event) :
    notes sem (new ++ history) = notes sem history ++ notes sem new := by
  unfold notes
  rw [List.reverse_append, List.filterMap_append]

theorem initials_append (sem : Int) (new history : List Event) :
    initials sem (new ++ history) = initials sem history ++ initials sem new := by
  unfold initials
  rw [List.reverse_append, List.filterMap_append]

/-- What is about others is not noted down. -/
theorem notes_others {sem : Int} {new : List Event} (others : ∀ event ∈ new, event.sem ≠ some sem) :
    notes sem new = [] := by
  refine List.filterMap_eq_nil_iff.mpr fun event member => ?_
  have other := others event (List.mem_reverse.mp member)
  cases event <;> simp_all [Event.sem, Event.note]

theorem initials_others {sem : Int} {new : List Event} (others : ∀ event ∈ new, event.sem ≠ some sem) :
    initials sem new = [] := by
  refine List.filterMap_eq_nil_iff.mpr fun event member => ?_
  have other := others event (List.mem_reverse.mp member)
  cases event <;> simp_all [Event.sem, Event.initial]

theorem notes_skipped (sem : Int) (pids : List Int) :
    notes sem (pids.map (Event.skipped sem)).reverse = pids.map Note.skipped := by
  unfold notes
  rw [List.reverse_reverse, List.filterMap_map]
  induction pids with
  | nil => rfl
  | cons pid pids ih => simp [Event.note, ih]

/-- What is noted down is about the semaphore, and creates none. -/
theorem of_note {sem : Int} {event : Event} {note : Note Int} (noted : event.note sem = some note) :
    event.sem = some sem ∧ event.initial sem = none := by
  cases event <;> simp_all [Event.note, Event.sem, Event.initial]

/-- What a post leaves in the history: some are passed over, and then the unit is given. -/
theorem events_of_post {sem : Int} {last : Event} {note : Note Int}
    (noted : last.note sem = some note) (pids : List Int) :
    (∀ event ∈ last :: (pids.map (Event.skipped sem)).reverse, event.sem = some sem) ∧
      initials sem (last :: (pids.map (Event.skipped sem)).reverse) = [] ∧
      notes sem (last :: (pids.map (Event.skipped sem)).reverse) = pids.map Note.skipped ++ [note] := by
  obtain ⟨about, created⟩ := of_note noted
  have skips : ∀ event ∈ (pids.map (Event.skipped sem)).reverse, event.sem = some sem ∧ event.initial sem = none := by
    intro event member
    obtain ⟨pid, -, rfl⟩ := List.mem_map.mp (List.mem_reverse.mp member)
    exact ⟨rfl, rfl⟩
  refine ⟨List.forall_mem_cons.mpr ⟨about, fun event member => (skips event member).1⟩, ?_, ?_⟩
  · refine List.filterMap_eq_nil_iff.mpr fun event member => ?_
    rcases List.mem_cons.mp (List.mem_reverse.mp member) with rfl | older
    · exact created
    · exact (skips event older).2
  · rw [← List.singleton_append, notes_append, notes_skipped]
    simp [notes, noted]

/-- Every open semaphore is where its history has brought it, and nothing is on record of those to come. -/
structure Sems.Booked (sems : Sems) (history : List Event) : Prop where
  known : ∀ event ∈ history, ∀ sem, event.sem = some sem → sem < sems.semId
  books : ∀ x ∈ values sems.semQueue, ∃ v, initials x.id history = [v] ∧
    Counter.Steps ⟨v, []⟩ (notes x.id history) ⟨x.value, x.pids⟩

def State.Booked (s : State) : Prop := s.sems.Booked s.history

namespace Sems.Booked
variable {sems sems' : Sems} {history : List Event}

/-- Some semaphores close, and what happens is about none. -/
theorem fewer (booked : sems.Booked history) (semId : sems'.semId = sems.semId)
    (closed : ∀ x ∈ values sems'.semQueue, x ∈ values sems.semQueue) (new : List Event)
    (others : ∀ event ∈ new, event.sem = none) :
    sems'.Booked (new ++ history) := by
  have apart : ∀ sem, ∀ event ∈ new, event.sem ≠ some sem := by
    intro sem event member
    rw [others event member]
    exact Option.some_ne_none sem |>.symm
  refine ⟨fun event member sem about => ?_, fun x member => ?_⟩
  · rw [semId]
    rcases List.mem_append.mp member with young | old
    · exact (apart sem event young about).elim
    · exact booked.known event old sem about
  · rw [notes_append, initials_append, notes_others (apart x.id), initials_others (apart x.id),
      List.append_nil, List.append_nil]
    exact booked.books x (closed x member)

/-- Something happens at one semaphore. -/
theorem write (booked : sems.Booked history) (proper : sems.Proper n) {id : Int}
    (found : sems.find id = some x) {f : Sem → Sem}
    (kept : ∀ y, (f y).id = y.id) (new : List Event) (about : ∀ event ∈ new, event.sem = some x.id)
    (first : initials x.id new = [])
    (steps : Counter.Steps ⟨x.value, x.pids⟩ (notes x.id new) ⟨(f x).value, (f x).pids⟩) :
    (sems.modify x.ref f).Booked (new ++ history) := by
  obtain ⟨listed, rfl⟩ := find_some found
  refine ⟨fun event member sem same => ?_, fun y member => ?_⟩
  · rcases List.mem_append.mp member with young | old
    · obtain rfl := Option.some.inj ((about event young).symm.trans same)
      exact (proper.below x listed).2
    · exact booked.known event old sem same
  · rw [values_modify] at member
    obtain ⟨z, listed', rfl⟩ := List.mem_map.mp member
    by_cases here : z.ref = x.ref
    · obtain rfl : z = x := List.inj_on_of_nodup_map proper.refs listed' listed here
      obtain ⟨v, created, before⟩ := booked.books z listed
      refine ⟨v, ?_, ?_⟩
      · rw [if_pos rfl, kept, initials_append, created, first]
        rfl
      · rw [if_pos rfl, kept, notes_append]
        exact before.trans steps
    · rw [if_neg here]
      have apart : ∀ event ∈ new, event.sem ≠ some z.id := by
        intro event young same
        have alike : x.id = z.id := Option.some.inj ((about event young).symm.trans same)
        exact here (congrArg Sem.ref (List.inj_on_of_nodup_map proper.ids listed' listed alike.symm))
      rw [notes_append, initials_append, notes_others apart, initials_others apart, List.append_nil, List.append_nil]
      exact booked.books z listed'

theorem added (booked : sems.Booked history) (proper : sems.Proper n) (added : sems.Added v m m' sems') :
    sems'.Booked (.created sems.semId v :: history) := by
  obtain ⟨low, high, listed⟩ := added
  change Sems.Booked _ ([.created sems.semId v] ++ history)
  have fresh : ∀ event ∈ history, event.sem ≠ some sems.semId := fun event old same =>
    Int.lt_irrefl _ (booked.known event old _ same)
  refine ⟨fun event member sem about => ?_, fun x member => ?_⟩
  · rcases List.mem_cons.mp member with rfl | old
    · cases about
      exact Int.lt_succ _
    · exact Int.lt_trans (booked.known event old sem about) (Int.lt_succ _)
  · dsimp only at member
    rw [listed] at member
    rw [notes_append, initials_append]
    rcases List.mem_append.mp member with old | new
    · have apart : ∀ event ∈ [Event.created sems.semId v], event.sem ≠ some x.id := by
        rintro event member same
        rw [List.mem_singleton.mp member] at same
        exact Int.ne_of_gt (proper.below x old).2 (Option.some.inj same)
      rw [notes_others apart, initials_others apart, List.append_nil, List.append_nil]
      exact booked.books x old
    · obtain rfl := List.mem_singleton.mp new
      change ∃ v', initials sems.semId history ++ _ = [v'] ∧ Counter.Steps _ (notes sems.semId history ++ _) _
      rw [notes_others fresh, initials_others fresh]
      exact ⟨v, by simp [initials, Event.initial, Sems.fresh], .refl⟩

end Sems.Booked

/-! ## Every deed -/

theorem Posts.booked (sound : Sound s) (posts : Posts s sem s') (booked : s.Booked) : s'.Booked := by
  rcases posts with ⟨-, h, grown, rfl⟩ | ⟨x, found, posted⟩
  · exact booked
  · cases posted with
    | @handed skipped pid rest procs blockedPids h queued inVain resumed left grown =>
      have noted : Event.note x.id (.handed x.id s.procs.callerPid pid s.procs) = some (.handed pid) := if_pos rfl
      obtain ⟨about, created, notes⟩ := events_of_post noted skipped
      have steps : Counter.Steps ⟨x.value, x.pids⟩ (skipped.map .skipped ++ [.handed pid]) ⟨x.value, rest⟩ := by
        rw [queued]
        exact (Counter.Steps.skip x.value skipped (pid :: rest)).tail .handed
      rw [← notes, ← left] at steps
      exact Sems.Booked.write booked sound.sems found (f := fun x => { x with blockedPids, lock := 0 }) (fun _ =>
        rfl) _ about created
        steps
    | @raised h inVain grown =>
      have noted : Event.note x.id (.raised x.id s.procs.callerPid s.procs) = some .raised := if_pos rfl
      obtain ⟨about, created, notes⟩ := events_of_post noted x.pids
      have steps : Counter.Steps ⟨x.value, x.pids⟩ (x.pids.map .skipped ++ [.raised]) ⟨x.value + 1, []⟩ := by
        have all := Counter.Steps.skip x.value x.pids []
        rw [List.append_nil] at all
        exact all.tail .raised
      rw [← notes] at steps
      exact Sems.Booked.write booked sound.sems found
        (f := fun x => { x with blockedPids := [], value := x.value + 1, lock := 0 }) (fun _ =>
          rfl) _ about created steps

theorem Entered.booked (sound : Sound s) (found : s.sems.find sem = some x)
    (entered : Entered s c p x a s') (booked : s.Booked) :
    s'.Booked := by
  cases entered with
  | took positive grown =>
    have steps : Counter.Steps ⟨x.value, x.pids⟩ (notes x.id [.took x.id p.pid]) ⟨x.value - 1, x.pids⟩ := by
      have took : notes x.id [.took x.id p.pid] = [.took p.pid] := by simp [notes, Event.note]
      rw [took]
      exact .single (.took positive)
    exact Sems.Booked.write booked sound.sems found (f := fun x =>
      { x with value := x.value - 1, lock := 0 }) (fun _ => rfl)
      [_] (List.forall_mem_singleton.mpr rfl) rfl steps
  | @queued h blockedPids empty grown last =>
    have steps : Counter.Steps ⟨x.value, x.pids⟩ (notes x.id [.arrived x.id p.pid]) ⟨x.value, x.pids ++ [p.pid]⟩ := by
      have arrived : notes x.id [.arrived x.id p.pid] = [.arrived p.pid] := by simp [notes, Event.note]
      rw [arrived]
      exact .single (.arrived empty)
    exact Sems.Booked.write booked sound.sems found (f := fun x => { x with blockedPids, lock := 0 }) (fun _ => rfl)
      [_] (List.forall_mem_singleton.mpr rfl) rfl (by simpa only [Sem.pids, last] using steps)

/-- What happens is about no semaphore. -/
theorem State.Booked.calm {s s' : State} (booked : s.Booked) (sems : s'.sems = s.sems) (new : List Event)
    (history : s'.history = new ++ s.history) (others : ∀ event ∈ new, event.sem = none) : s'.Booked := by
  unfold State.Booked
  rw [sems, history]
  exact Sems.Booked.fewer booked rfl (fun _ => id) new others

theorem State.Booked.close {s s' : State} (booked : s.Booked) (id : Int) (sems : s'.sems = s.sems.close id)
    (new : List Event)
    (history : s'.history = new ++ s.history) (others : ∀ event ∈ new, event.sem = none) : s'.Booked := by
  unfold State.Booked
  rw [sems, history]
  have closed : ∀ x ∈ values (s.sems.close id).semQueue, x ∈ values s.sems.semQueue := by
    intro x member
    rw [values_close] at member
    exact List.mem_of_mem_eraseP member
  exact Sems.Booked.fewer booked (by exact rfl) closed new others

theorem Passed.booked (sound : Sound s) (passed : Passed s c sem s') (booked : s.Booked) : s'.Booked := by
  cases passed with
  | absent absent grown => exact booked
  | took found block entered => exact entered.booked sound found booked
  | woken block ready record => exact booked
  | forced found block dead entered grown =>
    have queued := entered.booked sound found booked
    exact queued

theorem Opened.booked (sound : Sound s) (opened : Opened s pipeId s') (booked : s.Booked) : s'.Booked := by
  cases opened with
  | found found grown => exact booked.calm rfl [_] rfl (List.forall_mem_singleton.mpr rfl)
  | created absent grown created =>
    obtain @⟨h', r, m, sems, sems', queue, grown', low, high, readSem, writeSem, listed⟩ := created
    have readProper := (sound.sems.grown (Nat.le_trans grown.requests (Nat.le_succ_of_le low))).add readSem
    have reads := Sems.Booked.added booked sound.sems readSem
    have next : s.sems.semId + 1 = sems.semId := by
      obtain ⟨-, -, -⟩ := readSem
      rfl
    have writes := reads.added readProper writeSem
    rw [← next] at writes
    exact writes.fewer rfl (fun _ => id) [.pipeOpened pipeId, .pipeMade pipeId] (by simp [Event.sem])

theorem Does.booked (working : Working s c) (does : Does s c deed s') (booked : s.Booked) : s'.Booked := by
  have sound := working.sound
  cases does with
  | looked grown => exact booked
  | cached pipeId grown => exact booked
  | awaited => exact booked.calm rfl [_] rfl (List.forall_mem_singleton.mpr rfl)
  | passed passed => exact passed.booked sound booked
  | slept found block ready notIdle entered grown =>
    have queued := entered.booked sound found booked
    exact queued
  | watched passed block => exact (passed.booked sound booked).calm rfl [_] rfl (List.forall_mem_singleton.mpr rfl)
  | posted posts => exact posts.booked sound booked
  | initiated grown added => exact Sems.Booked.added booked sound.sems added
  | moved grown target listed block notExited notTerminated alive => exact booked
  | exited listed exited =>
    obtain ⟨target, block, notExited, notTerminated, grown, posts, now⟩ := exited
    have looked : (s.withHeap _).Booked := booked
    have posted := posts.booked (working.withHeap grown).sound looked
    exact posted
  | terminated terminated =>
    obtain ⟨target, queued, block, notTerminated, grown, reparented, now⟩ := terminated
    exact booked.calm rfl [_] rfl (List.forall_mem_singleton.mpr rfl)
  | disowned block dead => exact booked
  | reniced grown queued block low high => exact booked
  | yielded => exact booked
  | allocated block grown low high pid ppid ready gentle unset => exact booked
  | filled grown added was => exact Sems.Booked.added booked sound.sems added
  | published block alive grown was listed parent => exact booked
  | opened opened => exact opened.booked sound booked
  | missed absent => exact booked.calm rfl [_] rfl (List.forall_mem_singleton.mpr rfl)
  | @closed r p pipeId _ here isOpen same closed =>
    have noted : State.Booked { s with history := .pipeClosed pipeId :: s.history } :=
      booked.calm rfl [_] rfl (List.forall_mem_singleton.mpr rfl)
    cases closed with
    | kept more => exact noted
    | last last grown =>
      have reads :
          State.Booked { s with sems := s.sems.close p.readSemId, history := .pipeClosed pipeId :: s.history } :=
        noted.close _ rfl [] rfl (List.forall_mem_nil _)
      exact reads.close _ rfl [] rfl (List.forall_mem_nil _)
  | @put r p s₁ ch _ here isOpen passed posts =>
    have working₁ := (working.passed passed).writePipe r (f := (·.put ch)) fun _ => ⟨rfl, rfl⟩
    have past := passed.booked sound booked
    exact posts.booked working₁.sound past
  | @took r p s₁ _ here isOpen passed posts =>
    have working₁ := (working.passed passed).writePipe r (f := Pipe.take) fun _ => ⟨rfl, rfl⟩
    have past := passed.booked sound booked
    exact posts.booked working₁.sound past
  | destroyed block dead grown => exact booked.close _ rfl [] rfl (List.forall_mem_nil _)

theorem Shift.booked (shift : Shift s s') (booked : s.Booked) : s'.Booked := by
  cases shift with
  | rotated grown same => exact booked
  | @reaped c p s₁ h queue currentProcessPCB working reaped grown others =>
    obtain @⟨s₂, block, dead, chain⟩ := reaped
    have before : s₂.Booked := chain.keeps working booked fun _ _ _ working₃ booked₃ _ does =>
      does.booked working₃ booked₃
    exact before.calm rfl [_] rfl (List.forall_mem_singleton.mpr rfl)

/-! ## Runs -/

theorem booked_boot (garbage : Option Ref × List Ref) : (bootState (fun _ => true) garbage).Booked := by
  refine ⟨fun event member sem about => ?_, fun x member => ?_⟩
  · have listed : event ∈ bootHistory := member
    simp only [bootHistory, List.mem_cons, List.not_mem_nil, or_false] at listed
    change sem < 6
    rcases listed with rfl | rfl | rfl | rfl | rfl | rfl | rfl | rfl | rfl | rfl <;> cases about <;> decide
  · have listed : x ∈ values bootSems.semQueue := member
    simp only [bootSems, values, bootSem, List.map_cons, List.map_nil, List.mem_cons,
      List.not_mem_nil, or_false] at listed
    rcases listed with rfl | rfl | rfl | rfl | rfl | rfl <;> exact ⟨_, rfl, .refl⟩

theorem booked_reachable (run : Run allowed (boot (fun _ => true) garbage) S) : S.state.Booked :=
  reachable_keeps (booked_boot garbage) (fun _ _ _ _ working booked _ does => does.booked working booked)
    (fun _ _ _ booked shift => shift.booked booked) run

/-- **Every semaphore is a counting semaphore that serves first come, first served.** In every
state that is reachable while memory is granted, the value of an open semaphore and the pids in
its queue are what its history makes of the value it was created with: what was taken and handed
out, and what is left, is what was there and what was posted; the pids that ever came are, in
this order, those that were handed a unit or passed over and those in the queue; where there are
units the queue is empty, and there are none below zero. -/
theorem semaphores_counted (run : Run allowed (boot (fun _ => true) garbage) S) :
    ∀ x ∈ values S.state.sems.semQueue, ∃ v, initials x.id S.state.history = [v] ∧
      Counter.Steps ⟨v, []⟩ (notes x.id S.state.history) ⟨x.value, x.pids⟩ ∧
      x.value + ((notes x.id S.state.history).filterMap Note.grant).length =
        v + ((notes x.id S.state.history).filter Note.isPost).length ∧
      (notes x.id S.state.history).filterMap Note.arrival =
      (notes x.id S.state.history).filterMap Note.departure ++ x.pids ∧
      min v 0 ≤ x.value ∧ (0 < x.value → x.pids = []) := by
  intro x open'
  obtain ⟨v, created, steps⟩ := (booked_reachable run).books x open'
  exact ⟨v, created, steps, steps.value_add_grants, steps.line_append_arrivals,
    steps.min_le_value, steps.line_eq_nil rfl⟩

/-- The shell waits and `init` posts twice: the shell is handed the first unit, and the second counts up. -/
theorem semaphores_counted_two : ∃ S, Run (fun _ _ => True) (boot (fun _ => true) (none, [])) S ∧
    notes 6 S.state.history = [.arrived 3, .handed 3, .raised] ∧
    ∀ x ∈ values S.state.sems.semQueue, ∃ v, initials x.id S.state.history = [v] ∧
      Counter.Steps ⟨v, []⟩ (notes x.id S.state.history) ⟨x.value, x.pids⟩ ∧
      x.value + ((notes x.id S.state.history).filterMap Note.grant).length =
        v + ((notes x.id S.state.history).filter Note.isPost).length ∧
      (notes x.id S.state.history).filterMap Note.arrival =
      (notes x.id S.state.history).filterMap Note.departure ++ x.pids ∧
      min v 0 ≤ x.value ∧ (0 < x.value → x.pids = []) := by
  have played :
    ((play (fun _ _ => true) [.schedule, .schedule, .schedule, .schedule, .call (.semInit 0), .call (.semWait 6),
      .schedule, .call (.semPost 6), .call (.semPost 6)] (boot (fun _ => true) (none, []))).map fun S =>
      notes 6 S.state.history) =
      some [.arrived 3, .handed 3, .raised] := by decide +kernel
  obtain ⟨S, played, observed⟩ := Option.map_eq_some_iff.mp played
  have run : Run (fun _ _ => True) (boot (fun _ => true) (none, [])) S := play_run (fun _ _ _ => trivial) played
  exact ⟨S, run, observed, semaphores_counted run⟩

end QuesOs.Kernel
