import QuesOs.NamedSemaphores

/-! Named semaphores over whole runs. A run of opens and closes is recorded
with the states it goes through, beside whatever else happens to semaphores.
As long as memory is granted and the 16 bits of `attachedProcesses` suffice,
what is attached is what was opened and not closed. -/
namespace QuesOs.Kernel
open Resumption

/-! ## Runs -/

inductive Act where
  | opened (name : String) (id : Int)
  | closed (id : Int)
  | other

/-- What was done and the state it led to, the latest first. -/
abbrev Trace := List (Act × State)

def Trace.Opened (trace : Trace) (id : Int) : Prop := ∃ name t, (.opened name id, t) ∈ trace

/-- Opens minus closes. An id is never used again, so these are those since the semaphore was created. -/
def Trace.outstanding (id : Int) : Trace → Int
  | [] => 0
  | (.opened _ id', _) :: rest => outstanding id rest + if id' = id then 1 else 0
  | (.closed id', _) :: rest => outstanding id rest - if id' = id then 1 else 0
  | (.other, _) :: rest => outstanding id rest

/-- What else happens: calls on semaphores without a name, waits and posts, and what leaves semaphores alone. -/
inductive Meanwhile (s s' : State) : Prop
  | inits (ran : (semInit initialValue).run s = .ok (a, s'))
  | closes {id : Int} (unnamed : ∀ sem, s.sems.find id = some sem → sem.name = "")
    (ran : (semClose id).run s = .ok (a, s'))
  | waits {id : Int} (ran : (semWaitEnter id).run s = .ok (a, s'))
  | posts {id : Int} (ran : (semPost id).run s = .ok (a, s'))
  | elsewhere (sems : s'.sems = s.sems) (requests : s.heap.requests ≤ s'.heap.requests)

/-- Successful opens with a name, and closes of what was opened and is still there. -/
inductive Session (opensWell : State → String → Prop) (closesWell : State → Prop) (start : State) : Trace → State → Prop
  | start : Session opensWell closesWell start [] start
  | opens {id : Int} (session : Session opensWell closesWell start trace s) (named : name ≠ "")
    (well : opensWell s name)
    (ran : (semOpen name initialValue).run s = .ok (id, s')) (successful : id ≠ -1) :
    Session opensWell closesWell start ((.opened name id, s') :: trace) s'
  | closes {id : Int} (session : Session opensWell closesWell start trace s) (opened : trace.Opened id)
    (there : s.sems.find id ≠ none) (well : closesWell s) (ran : (semClose id).run s = .ok (a, s')) :
    Session opensWell closesWell start ((.closed id, s') :: trace) s'
  | other (session : Session opensWell closesWell start trace s) (meanwhile : Meanwhile s s') :
    Session opensWell closesWell start ((.other, s') :: trace) s'

/-- The lifetime of named semaphores: an open returns the id of an earlier one exactly if the names are the same and
the semaphore was there all the while; the count is right; and a semaphore is gone exactly when its count is zero. -/
structure Trace.Lawful (trace : Trace) : Prop where
  same : ∀ later between earlier name name' id id' s s',
    trace = later ++ (.opened name' id', s') :: (between ++ (.opened name id, s) :: earlier) →
    (id = id' ↔ SameName name name' ∧ ∀ t ∈ between.map Prod.snd ++ [s], t.sems.find id ≠ none)
  counted : ∀ later act s earlier id sem, trace = later ++ (act, s) :: earlier → Trace.Opened ((act, s) :: earlier) id →
    s.sems.find id = some sem → sem.attachedProcesses = Trace.outstanding id ((act, s) :: earlier)
  leaves : ∀ later act s earlier id, trace = later ++ (act, s) :: earlier → Trace.Opened ((act, s) :: earlier) id →
    (s.sems.find id = none ↔ Trace.outstanding id ((act, s) :: earlier) = 0)

/-- There is memory for the iterator and for a new node, and one more process fits into the 16 bits. -/
def State.OpensWell (s : State) (name : String) : Prop :=
  s.heap.Grants 0 ∧ match (values s.sems.semQueue).find? (findSemNameCondition name) with
    | some sem => sem.attachedProcesses + 1 < 2 ^ 16
    | none => s.heap.Grants 4

/-- There is memory for the iterator. -/
def State.ClosesWell (s : State) : Prop := s.heap.Grants 0

/-! ## What tells semaphores apart -/

variable {s s' : State}

structure Badge where
  ref : Ref
  id : Int
  name : String
  attached : Nat

def Sem.badge (sem : Sem) : Badge := ⟨sem.ref, sem.id, sem.name, sem.attachedProcesses⟩

@[simp] theorem badge_ref (sem : Sem) : sem.badge.ref = sem.ref := rfl
@[simp] theorem badge_id (sem : Sem) : sem.badge.id = sem.id := rfl
@[simp] theorem badge_name (sem : Sem) : sem.badge.name = sem.name := rfl
@[simp] theorem badge_attached (sem : Sem) : sem.badge.attached = sem.attachedProcesses := rfl

def Sems.badges (sems : Sems) : List Badge := (values sems.semQueue).map Sem.badge

def Badge.attach (b : Badge) : Badge := { b with attached := (b.attached + 1) % 2 ^ 16 }
def Badge.detach (b : Badge) : Badge := { b with attached := (b.attached + 2 ^ 16 - 1) % 2 ^ 16 }

theorem badge_attach (sem : Sem) : sem.attach.badge = sem.badge.attach := rfl

theorem badge_detach (sem : Sem) : sem.detach.badge = sem.badge.detach := by
  unfold Sem.detach Sem.badge Badge.detach
  rfl

theorem detach_same (b : Badge) : b.detach.ref = b.ref ∧ b.detach.id = b.id ∧ b.detach.name = b.name := by
  unfold Badge.detach
  exact ⟨rfl, rfl, rfl⟩

theorem detach_attached (b : Badge) : b.detach.attached = (b.attached + 2 ^ 16 - 1) % 2 ^ 16 := by
  unfold Badge.detach
  rfl

theorem badges_modify {sems : Sems} {f : Sem → Sem} {g : Badge → Badge} (ref : Ref)
    (does : ∀ x, (f x).badge = g x.badge) :
    (sems.modify ref f).badges = sems.badges.map fun b => if b.ref = ref then g b else b := by
  unfold Sems.badges
  rw [values_modify, List.map_map, List.map_map]
  refine List.map_congr_left fun x _ => ?_
  by_cases here : x.ref = ref
  · simp [here, does]
  · simp [here]

theorem badges_kept {sems : Sems} {f : Sem → Sem} (ref : Ref) (kept : ∀ x, (f x).badge = x.badge) :
    (sems.modify ref f).badges = sems.badges := by
  rw [badges_modify (g := fun b => b) ref kept]
  simp

theorem badges_close (sems : Sems) (id : Int) : (sems.close id).badges = sems.badges.eraseP (·.id = id) := by
  unfold Sems.badges
  rw [values_close, List.eraseP_map]
  rfl

theorem mem_badges {sems : Sems} : sem ∈ values sems.semQueue → sem.badge ∈ sems.badges := List.mem_map_of_mem

theorem find_none_iff {sems : Sems} {id : Int} : sems.find id = none ↔ ∀ b ∈ sems.badges, b.id ≠ id := by
  simp [Sems.find, Sems.badges, Sem.badge]

/-- Semaphores are told apart by their pointers and by their ids. -/
structure State.Distinct (s : State) : Prop where
  refs : (s.sems.badges.map Badge.ref).Nodup
  ids : (s.sems.badges.map Badge.id).Nodup
  below : ∀ b ∈ s.sems.badges, b.ref < s.heap.requests ∧ b.id < s.sems.semId

/-- The semaphores with a name are spared. -/
structure State.Spares (s s' : State) : Prop where
  distinct : s'.Distinct
  semId : s.sems.semId ≤ s'.sems.semId
  old : ∀ b ∈ s'.sems.badges, b ∈ s.sems.badges ∨ b.name = "" ∧ s.sems.semId ≤ b.id
  kept : ∀ b ∈ s.sems.badges, b.name ≠ "" → b ∈ s'.sems.badges

/-- A new semaphore, which is not listed without memory for its node. -/
theorem badges_added (distinct : s.Distinct) (initialValue : Int) (name : String) :
    ((s.withNewSem initialValue name).modify s.heap.requests Sem.attach).badges =
      s.sems.badges ++ if s.heap.Grants 3 then [⟨s.heap.requests, s.sems.semId, name, 1⟩] else [] := by
  have others : ∀ b ∈ s.sems.badges, (if b.ref = s.heap.requests then b.attach else b) = b := by
    intro b listed
    have lower := (distinct.below b listed).1
    exact if_neg (Nat.ne_of_lt lower)
  rw [badges_modify (g := Badge.attach) _ fun _ => rfl]
  simp only [Sems.badges, State.withNewSem, values, List.map_append]
  have first := List.map_congr_left others
  rw [List.map_id'] at first
  refine congrArg₂ _ first ?_
  by_cases granted : s.heap.Grants 3
  · simp [granted, State.newSem, Sem.badge, Badge.attach]
  · simp [granted]

theorem State.Distinct.added (distinct : s.Distinct) (badges : s'.sems.badges = s.sems.badges ++ fresh)
    (new : fresh = [] ∨ ∃ attached, fresh = [⟨ref, s.sems.semId, name, attached⟩])
    (semId : s'.sems.semId = s.sems.semId + 1)
    (late : s.heap.requests ≤ ref) (requests : ref < s'.heap.requests) : s'.Distinct := by
  have older : ∀ b ∈ s.sems.badges, b.ref < s'.heap.requests ∧ b.id < s'.sems.semId := by
    intro b listed
    have lower := distinct.below b listed
    exact ⟨Nat.lt_trans (Nat.lt_of_lt_of_le lower.1 late) requests, by omega⟩
  have refs : ∀ b ∈ s.sems.badges, b.ref ≠ ref :=
    fun b listed => Nat.ne_of_lt (Nat.lt_of_lt_of_le (distinct.below b listed).1 late)
  have ids : ∀ b ∈ s.sems.badges, b.id ≠ s.sems.semId := fun b listed => Int.ne_of_lt (distinct.below b listed).2
  rcases new with rfl | ⟨attached, rfl⟩
  · rw [List.append_nil] at badges
    refine ⟨badges ▸ distinct.refs, badges ▸ distinct.ids, ?_⟩
    rw [badges]
    exact older
  · refine ⟨?_, ?_, ?_⟩
    · rw [badges, List.map_append, List.nodup_append]
      simpa [distinct.refs] using refs
    · rw [badges, List.map_append, List.nodup_append]
      simpa [distinct.ids] using ids
    · simp only [badges, List.forall_mem_append, List.forall_mem_singleton]
      exact ⟨older, requests, by omega⟩

theorem State.Distinct.erased (distinct : s.Distinct) (badges : s'.sems.badges = s.sems.badges.eraseP P)
    (semId : s'.sems.semId = s.sems.semId) (requests : s.heap.requests ≤ s'.heap.requests) : s'.Distinct := by
  have fewer : s'.sems.badges.Sublist s.sems.badges := badges ▸ List.eraseP_sublist
  refine ⟨(fewer.map _).nodup distinct.refs, (fewer.map _).nodup distinct.ids, fun b listed => ?_⟩
  have lower := distinct.below b (fewer.subset listed)
  exact ⟨Nat.lt_of_lt_of_le lower.1 requests, semId ▸ lower.2⟩

/-- A semaphore that is counted anew. -/
theorem State.Distinct.counted (distinct : s.Distinct) {g : Badge → Badge} (ref : Ref)
    (badges : s'.sems.badges = s.sems.badges.map fun b => if b.ref = ref then g b else b)
    (same : ∀ b, (g b).ref = b.ref ∧ (g b).id = b.id) (semId : s'.sems.semId = s.sems.semId)
    (requests : s.heap.requests ≤ s'.heap.requests) : s'.Distinct := by
  have kept : ∀ b, (if b.ref = ref then g b else b).ref = b.ref ∧ (if b.ref = ref then g b else b).id = b.id := by
    intro b
    split
    · exact same b
    · exact ⟨rfl, rfl⟩
  refine ⟨?_, ?_, ?_⟩
  · rw [badges, List.map_map]
    exact (List.map_congr_left fun b _ => (kept b).1) ▸ distinct.refs
  · rw [badges, List.map_map]
    exact (List.map_congr_left fun b _ => (kept b).2) ▸ distinct.ids
  · rw [badges, List.forall_mem_map]
    intro b listed
    have lower := distinct.below b listed
    rw [(kept b).1, (kept b).2, semId]
    exact ⟨Nat.lt_of_lt_of_le lower.1 requests, lower.2⟩

namespace State.Distinct

theorem spares_same (distinct : s.Distinct) (badges : s'.sems.badges = s.sems.badges)
    (semId : s'.sems.semId = s.sems.semId)
    (requests : s.heap.requests ≤ s'.heap.requests) : s.Spares s' where
  distinct := by
    refine ⟨badges ▸ distinct.refs, badges ▸ distinct.ids, ?_⟩
    rw [badges, semId]
    exact fun b listed => ⟨Nat.lt_of_lt_of_le (distinct.below b listed).1 requests, (distinct.below b listed).2⟩
  semId := semId ▸ Int.le_refl _
  old b listed := .inl (badges ▸ listed)
  kept b listed _ := badges ▸ listed

theorem spares_added (distinct : s.Distinct) (badges : s'.sems.badges = s.sems.badges ++ fresh)
    (new : fresh = [] ∨ ∃ attached, fresh = [⟨s.heap.requests, s.sems.semId, "", attached⟩])
    (semId : s'.sems.semId = s.sems.semId + 1)
    (requests : s.heap.requests < s'.heap.requests) : s.Spares s' where
  distinct := distinct.added badges new semId (Nat.le_refl _) requests
  semId := by omega
  old b listed := by
    rw [badges, List.mem_append] at listed
    refine listed.imp_right fun fresh => ?_
    rcases new with rfl | ⟨attached, rfl⟩
    · cases fresh
    · rw [List.mem_singleton.mp fresh]
      exact ⟨rfl, Int.le_refl _⟩
  kept b listed _ := badges ▸ List.mem_append_left _ listed

theorem spares_erased (distinct : s.Distinct) (badges : s'.sems.badges = s.sems.badges.eraseP P)
    (unnamed : ∀ b ∈ s.sems.badges, P b = true → b.name = "") (semId : s'.sems.semId = s.sems.semId)
    (requests : s.heap.requests ≤ s'.heap.requests) : s.Spares s' where
  distinct := distinct.erased badges semId requests
  semId := semId ▸ Int.le_refl _
  old b listed := by
    rw [badges] at listed
    exact .inl (List.mem_of_mem_eraseP listed)
  kept b listed named := by
    rw [badges]
    exact (List.mem_eraseP_of_neg fun holds => named (unnamed b listed holds)).mpr listed

end State.Distinct

/-- What has a badge is found. -/
theorem find_badge (distinct : s.Distinct) (listed : b ∈ s.sems.badges) :
    ∃ sem, s.sems.find b.id = some sem ∧ sem.badge = b := by
  obtain ⟨sem, member, rfl⟩ := List.mem_map.mp listed
  cases found : s.sems.find sem.badge.id with
  | none => exact (find_none_iff.mp found sem.badge listed rfl).elim
  | some other =>
    obtain ⟨member', same⟩ := find_some found
    exact ⟨other, rfl, List.inj_on_of_nodup_map distinct.ids (mem_badges member') listed same⟩

theorem Meanwhile.spares (distinct : s.Distinct) (meanwhile : Meanwhile s s') : s.Spares s' := by
  cases meanwhile with
  | inits ran =>
    obtain ⟨-, inits⟩ := (meets_of_run ran).mp (semInit_any _)
    cases inits with
    | refused short => exact distinct.spares_same rfl rfl (Nat.le_succ _)
    | unnamed granted short =>
      have requests : s.heap.requests < s.heap.requests + 1 + 1 + 1 := by omega
      exact distinct.spares_added (List.append_nil _).symm (.inl rfl) rfl requests
    | made granted named =>
      have requests : s.heap.requests < s.heap.requests + 1 + 1 + 1 + 1 := by omega
      refine distinct.spares_added (badges_added distinct _ "") ?_ rfl requests
      split
      · exact .inr ⟨1, rfl⟩
      · exact .inl rfl
  | @closes _ id unnamed ran =>
    obtain ⟨closes, -⟩ := (meets_of_run ran).mp (semClose_any _)
    have anonymous : ∀ b ∈ s.sems.badges, decide (b.id = id) = true → b.name = "" := by
      intro b listed here
      obtain ⟨sem, found, rfl⟩ := find_badge distinct listed
      rw [of_decide_eq_true here] at found
      exact unnamed sem found
    cases closes with
    | missed missing asked => exact distinct.spares_same rfl rfl asked.grown.requests
    | freed found last asked => exact distinct.spares_erased (badges_close _ _) anonymous rfl asked.grown.requests
    | detached found more asked =>
      have empty := unnamed _ (findable_some found).2
      exact (more (.inl (by rw [empty]; rfl))).elim
  | waits ran =>
    have tries := (meets_of_run ran).mp (semWaitEnter_any _)
    cases tries with
    | missed missing asked => exact distinct.spares_same rfl rfl asked.grown.requests
    | took found block unlocked positive asked =>
      exact distinct.spares_same (badges_kept _ fun _ => rfl) rfl asked.grown.requests
    | refused found block unlocked empty short asked =>
      exact distinct.spares_same (badges_kept _ fun _ => rfl) rfl asked.grown.requests
    | queued found block unlocked empty granted asked =>
      exact distinct.spares_same (badges_kept _ fun _ => rfl) rfl asked.grown.requests
  | posts ran =>
    have gives := (meets_of_run ran).mp (semPost_any _)
    cases gives with
    | missed missing asked => exact distinct.spares_same rfl rfl asked.grown.requests
    | handed found block unlocked waiters grown =>
      exact distinct.spares_same (badges_kept _ fun _ => rfl) rfl grown.requests
    | raised found block unlocked grown => exact distinct.spares_same (badges_kept _ fun _ => rfl) rfl grown.requests
  | elsewhere sems requests =>
    exact distinct.spares_same (congrArg Sems.badges sems) (congrArg Sems.semId sems) requests

/-! ## The tally -/

@[simp] theorem outstanding_opened (id id' : Int) (name : String) (t : State) (trace : Trace) :
    Trace.outstanding id ((.opened name id', t) :: trace) = Trace.outstanding id trace + if id' =
    id then 1 else 0 := rfl

@[simp] theorem outstanding_closed (id id' : Int) (t : State) (trace : Trace) :
    Trace.outstanding id ((.closed id', t) :: trace) = Trace.outstanding id trace - if id' = id then 1 else 0 := rfl

@[simp] theorem outstanding_other (id : Int) (t : State) (trace : Trace) :
    Trace.outstanding id ((.other, t) :: trace) = Trace.outstanding id trace := rfl

theorem SameName.symm (same : SameName name name') : SameName name' name := Eq.symm same

theorem SameName.nonempty (same : SameName name name') (named : name ≠ "") : name' ≠ "" := by
  rintro rfl
  refine named (String.toList_inj.mp ?_)
  simpa [SameName] using same

/-- Nothing comes back, and nothing is renamed. -/
structure State.Succeeds (s s' : State) : Prop where
  distinct : s'.Distinct
  semId : s.sems.semId ≤ s'.sems.semId
  back : ∀ b' ∈ s'.sems.badges, b'.id < s.sems.semId → ∃ b ∈ s.sems.badges, b.id = b'.id ∧ b.name = b'.name

/-- What holds at the end of a run whose steps all go well. -/
structure Tally (trace : Trace) (s : State) : Prop where
  distinct : s.Distinct
  names : ∀ b ∈ s.sems.badges, ∀ b' ∈ s.sems.badges, b.name ≠ "" → SameName b.name b'.name → b = b'
  attached : ∀ b ∈ s.sems.badges, b.name ≠ "" → trace.Opened b.id ∧ 0 < b.attached ∧ b.attached < 2 ^ 16 ∧
    b.attached = trace.outstanding b.id
  opened : ∀ name id t, (.opened name id, t) ∈ trace → name ≠ "" ∧ id < s.sems.semId ∧
    ∀ b ∈ s.sems.badges, b.id = id → SameName name b.name
  gone : ∀ id, trace.Opened id → (∀ b ∈ s.sems.badges, b.id ≠ id) → trace.outstanding id = 0
  ahead : ∀ id, s.sems.semId ≤ id → trace.outstanding id = 0
  last : ∀ act t rest, trace = (act, t) :: rest → t = s
  still : ∀ between act t earlier id, trace = between ++ (act, t) :: earlier → Trace.Opened ((act, t) :: earlier) id →
    (∃ b ∈ s.sems.badges, b.id = id) → ∀ u ∈ between.map Prod.snd ++ [t], ∃ b ∈ u.sems.badges, b.id = id

namespace Tally
variable {trace : Trace}

theorem opened_below (tally : Tally trace s) {id : Int} (opened : trace.Opened id) : id < s.sems.semId := by
  obtain ⟨name, t, done⟩ := opened
  exact (tally.opened name id t done).2.1

/-- The badge of what was opened has a name. -/
theorem named (tally : Tally trace s) (opened : trace.Opened b.id) (listed : b ∈ s.sems.badges) : b.name ≠ "" := by
  obtain ⟨name, t, done⟩ := opened
  obtain ⟨named, -, same⟩ := tally.opened name b.id t done
  exact (same b listed rfl).nonempty named

/-- What was opened before stays what it was. -/
theorem opened_next {id : Int} (tally : Tally trace s) (succeeds : s.Succeeds s')
    (done : (.opened name id, t) ∈ trace) :
    name ≠ "" ∧ id < s'.sems.semId ∧ ∀ b ∈ s'.sems.badges, b.id = id → SameName name b.name := by
  obtain ⟨named, below, same⟩ := tally.opened name id t done
  refine ⟨named, Int.lt_of_lt_of_le below succeeds.semId, fun b' listed here => ?_⟩
  obtain ⟨b, listed', ids, names⟩ := succeeds.back b' listed (here ▸ below)
  exact names ▸ same b listed' (ids.trans here)

theorem still_next (tally : Tally trace s) (succeeds : s.Succeeds s') (act : Act) :
    ∀ between act' t earlier id, (act, s') :: trace = between ++ (act', t) :: earlier →
    Trace.Opened ((act', t) :: earlier) id →
      (∃ b ∈ s'.sems.badges, b.id = id) → ∀ u ∈ between.map Prod.snd ++ [t], ∃ b ∈ u.sems.badges, b.id = id := by
  rintro between act' t earlier id split opened ⟨b', listed, rfl⟩ u inside
  cases between with
  | nil =>
    cases split
    rw [List.mem_singleton.mp inside]
    exact ⟨b', listed, rfl⟩
  | cons first between =>
    cases split
    rcases List.mem_cons.mp inside with rfl | inside
    · exact ⟨b', listed, rfl⟩
    · obtain ⟨name, t', done⟩ := opened
      have before := tally.opened_below ⟨name, t', List.mem_append_right _ done⟩
      obtain ⟨b, listed', ids, -⟩ := succeeds.back b' listed before
      exact tally.still between act' t earlier _ rfl ⟨name, t', done⟩ ⟨b, listed', ids⟩ u inside

theorem next (tally : Tally trace s) (succeeds : s.Succeeds s') (act : Act)
    (names : ∀ b ∈ s'.sems.badges, ∀ b' ∈ s'.sems.badges, b.name ≠ "" → SameName b.name b'.name → b = b')
    (attached : ∀ b ∈ s'.sems.badges, b.name ≠ "" → Trace.Opened ((act, s') :: trace) b.id ∧ 0 < b.attached ∧
      b.attached < 2 ^ 16 ∧ b.attached = Trace.outstanding b.id ((act, s') :: trace))
    (opens : ∀ name id, act = .opened name id → name ≠ "" ∧ id < s'.sems.semId ∧
      ∀ b ∈ s'.sems.badges, b.id = id → SameName name b.name)
    (gone : ∀ id, Trace.Opened ((act, s') :: trace) id → (∀ b ∈ s'.sems.badges, b.id ≠ id) →
      Trace.outstanding id ((act, s') :: trace) = 0)
    (ahead : ∀ id, s'.sems.semId ≤ id → Trace.outstanding id ((act, s') :: trace) = 0) :
    Tally ((act, s') :: trace) s' where
  distinct := succeeds.distinct
  names
  attached
  opened name id t done := by
    rcases List.mem_cons.mp done with here | before
    · cases here
      exact opens name id rfl
    · exact tally.opened_next succeeds before
  gone
  ahead
  last act' t rest split := by
    cases split
    rfl
  still := tally.still_next succeeds act

theorem opened_cons {id : Int} (opened : trace.Opened id) (x : Act × State) : Trace.Opened (x :: trace) id := by
  obtain ⟨name, t, done⟩ := opened
  exact ⟨name, t, List.mem_cons_of_mem _ done⟩

/-- An act that is no open adds no opened id. -/
theorem opened_of_cons {id : Int} (opened : Trace.Opened ((act, t) :: trace) id)
    (noOpen : ∀ name id, act ≠ .opened name id) :
    trace.Opened id := by
  obtain ⟨name, t', done⟩ := opened
  rcases List.mem_cons.mp done with here | before
  · cases here
    exact (noOpen name id rfl).elim
  · exact ⟨name, t', before⟩

theorem other (tally : Tally trace s) (spares : s.Spares s') : Tally ((.other, s') :: trace) s' := by
  have old : ∀ b ∈ s'.sems.badges, b.name ≠ "" → b ∈ s.sems.badges := by
    intro b listed named
    rcases spares.old b listed with before | ⟨unnamed, -⟩
    · exact before
    · exact (named unnamed).elim
  have succeeds : s.Succeeds s' := by
    refine ⟨spares.distinct, spares.semId, fun b listed below => ?_⟩
    rcases spares.old b listed with before | ⟨-, late⟩
    · exact ⟨b, before, rfl, rfl⟩
    · omega
  refine tally.next succeeds .other ?_ ?_ (by nofun) ?_ ?_
  · intro b listed b' listed' named same
    exact tally.names b (old b listed named) b' (old b' listed' (same.nonempty named)) named same
  · intro b listed named
    obtain ⟨opened, positive, small, count⟩ := tally.attached b (old b listed named) named
    exact ⟨opened_cons opened _, positive, small, count⟩
  · intro id opened none
    have before := opened_of_cons opened (by nofun)
    refine tally.gone id before ?_
    rintro b listed rfl
    exact none b (spares.kept b listed (tally.named before listed)) rfl
  · intro id late
    have semId := spares.semId
    exact tally.ahead id (by omega)

/-- A semaphore is counted anew, as the act says. -/
theorem recount (tally : Tally trace s) (member : b₀ ∈ s.sems.badges) (named₀ : b₀.name ≠ "") {g : Badge → Badge}
    (badges : s'.sems.badges = s.sems.badges.map fun b => if b.ref = b₀.ref then g b else b)
    (same : ∀ b, (g b).ref = b.ref ∧ (g b).id = b.id ∧ (g b).name = b.name) (semId : s'.sems.semId = s.sems.semId)
    (requests : s.heap.requests ≤ s'.heap.requests) (act : Act)
    (opens : ∀ name id, act = .opened name id → name ≠ "" ∧ id = b₀.id ∧ SameName name b₀.name)
    (count : 0 < (g b₀).attached ∧ (g b₀).attached < 2 ^ 16 ∧
      (g b₀).attached = Trace.outstanding b₀.id ((act, s') :: trace))
    (others : ∀ id, id ≠ b₀.id → Trace.outstanding id ((act, s') :: trace) = Trace.outstanding id trace) :
    Tally ((act, s') :: trace) s' := by
  have ofListed : ∀ b' ∈ s'.sems.badges, (b' = g b₀) ∨ (b' ∈ s.sems.badges ∧ b'.id ≠ b₀.id) := by
    intro b' listed
    rw [badges, List.mem_map] at listed
    obtain ⟨b, listed, rfl⟩ := listed
    by_cases here : b.ref = b₀.ref
    · rw [List.inj_on_of_nodup_map tally.distinct.refs listed member here, if_pos rfl]
      exact .inl rfl
    · rw [if_neg here]
      refine .inr ⟨listed, fun ids => here ?_⟩
      rw [List.inj_on_of_nodup_map tally.distinct.ids listed member ids]
  have listed₀ : g b₀ ∈ s'.sems.badges := by
    rw [badges]
    exact List.mem_map.mpr ⟨b₀, member, if_pos rfl⟩
  have stays : ∀ b ∈ s.sems.badges, ∃ b' ∈ s'.sems.badges, b'.id = b.id := by
    intro b listed
    rw [badges]
    refine ⟨_, List.mem_map_of_mem listed, ?_⟩
    split
    · exact (same b).2.1
    · rfl
  have succeeds : s.Succeeds s' := by
    refine ⟨tally.distinct.counted b₀.ref badges (fun b => ⟨(same b).1, (same b).2.1⟩) semId requests,
      Int.le_of_eq semId.symm, ?_⟩
    intro b' listed below
    rcases ofListed b' listed with rfl | ⟨before, -⟩
    · exact ⟨b₀, member, (same b₀).2.1.symm, (same b₀).2.2.symm⟩
    · exact ⟨b', before, rfl, rfl⟩
  have opened₀ := (tally.attached b₀ member named₀).1
  refine tally.next succeeds act ?_ ?_ ?_ ?_ ?_
  · intro b listed b' listed' named alike
    rcases ofListed b listed with rfl | ⟨before, apart⟩ <;> rcases ofListed b' listed' with rfl | ⟨before', apart'⟩
    · rfl
    · rw [(same b₀).2.2] at named alike
      exact (apart' (congrArg Badge.id (tally.names b₀ member b' before' named alike)).symm).elim
    · rw [(same b₀).2.2] at alike
      exact (apart (congrArg Badge.id (tally.names b before b₀ member named alike))).elim
    · exact tally.names b before b' before' named alike
  · intro b listed named
    rcases ofListed b listed with rfl | ⟨before, apart⟩
    · rw [(same b₀).2.1]
      exact ⟨opened_cons opened₀ _, count⟩
    · obtain ⟨opened, positive, small, counted⟩ := tally.attached b before named
      exact ⟨opened_cons opened _, positive, small, (others b.id apart).symm ▸ counted⟩
  · intro name id isOpen
    obtain ⟨named, rfl, alike⟩ := opens name id isOpen
    refine ⟨named, semId ▸ (tally.distinct.below b₀ member).2, fun b listed here => ?_⟩
    rcases ofListed b listed with rfl | ⟨before, apart⟩
    · rw [(same b₀).2.2]
      exact alike
    · exact (apart here).elim
  · intro id opened none
    have apart : id ≠ b₀.id := by
      rintro rfl
      exact none _ listed₀ (same b₀).2.1
    rw [others id apart]
    refine tally.gone id ?_ fun b listed here => ?_
    · obtain ⟨name, t, done⟩ := opened
      rcases List.mem_cons.mp done with here | before
      · cases here
        exact (apart (opens name id rfl).2.1).elim
      · exact ⟨name, t, before⟩
    · obtain ⟨b', listed', ids⟩ := stays b listed
      exact none b' listed' (ids.trans here)
  · intro id late
    have below := (tally.distinct.below b₀ member).2
    rw [others id (by omega)]
    exact tally.ahead id (by omega)

/-- A semaphore of a new name. -/
theorem made (tally : Tally trace s) (named : name ≠ "") (free : ∀ b ∈ s.sems.badges, ¬SameName b.name name)
    (badges : s'.sems.badges = s.sems.badges ++ [⟨ref, s.sems.semId, name, 1⟩])
    (semId : s'.sems.semId = s.sems.semId + 1) (late : s.heap.requests ≤ ref) (requests : ref < s'.heap.requests) :
    Tally ((.opened name s.sems.semId, s') :: trace) s' := by
  have ofListed : ∀ b ∈ s'.sems.badges, b ∈ s.sems.badges ∨ b = ⟨ref, s.sems.semId, name, 1⟩ := by
    intro b listed
    rw [badges, List.mem_append, List.mem_singleton] at listed
    exact listed
  have older : ∀ b ∈ s.sems.badges, b.id ≠ s.sems.semId :=
    fun b listed => Int.ne_of_lt (tally.distinct.below b listed).2
  have succeeds : s.Succeeds s' := by
    refine ⟨tally.distinct.added badges (.inr ⟨1, rfl⟩) semId late requests, by omega, fun b listed below => ?_⟩
    rcases ofListed b listed with before | rfl
    · exact ⟨b, before, rfl, rfl⟩
    · exact (Int.lt_irrefl _ below).elim
  refine tally.next succeeds _ ?_ ?_ ?_ ?_ ?_
  · intro b listed b' listed' nonempty alike
    rcases ofListed b listed with before | rfl <;> rcases ofListed b' listed' with before' | rfl
    · exact tally.names b before b' before' nonempty alike
    · exact (free b before alike).elim
    · exact (free b' before' alike.symm).elim
    · rfl
  · intro b listed nonempty
    rcases ofListed b listed with before | rfl
    · obtain ⟨opened, positive, small, count⟩ := tally.attached b before nonempty
      refine ⟨opened_cons opened _, positive, small, ?_⟩
      rw [outstanding_opened, if_neg (older b before).symm]
      omega
    · refine ⟨⟨name, s', List.mem_cons_self ..⟩, Nat.one_pos, Nat.one_lt_two_pow (by decide), ?_⟩
      rw [outstanding_opened, if_pos rfl, tally.ahead _ (Int.le_refl _)]
      rfl
  · rintro name' id ⟨⟩
    refine ⟨named, by omega, fun b listed here => ?_⟩
    rcases ofListed b listed with before | rfl
    · exact (older b before here).elim
    · rfl
  · intro id opened none
    have apart : s.sems.semId ≠ id := by
      rintro rfl
      refine none ⟨ref, s.sems.semId, name, 1⟩ ?_ rfl
      rw [badges]
      exact List.mem_append_right _ (List.mem_singleton_self _)
    rw [outstanding_opened, if_neg apart, Int.add_zero]
    refine tally.gone id ?_ fun b listed => none b (badges ▸ List.mem_append_left _ listed)
    obtain ⟨name', t, done⟩ := opened
    rcases List.mem_cons.mp done with here | before
    · cases here
      exact (apart rfl).elim
    · exact ⟨name', t, before⟩
  · intro id late
    rw [outstanding_opened, if_neg (by omega), tally.ahead id (by omega)]
    rfl

/-- The last process leaves. -/
theorem freed (tally : Tally trace s) (member : b₀ ∈ s.sems.badges) (named₀ : b₀.name ≠ "") (last : b₀.attached = 1)
    (badges : s'.sems.badges = s.sems.badges.eraseP (·.id = b₀.id)) (semId : s'.sems.semId = s.sems.semId)
    (requests : s.heap.requests ≤ s'.heap.requests) : Tally ((.closed b₀.id, s') :: trace) s' := by
  have ofListed : ∀ b ∈ s'.sems.badges, b ∈ s.sems.badges := by
    intro b listed
    rw [badges] at listed
    exact List.mem_of_mem_eraseP listed
  have distinct := tally.distinct.erased badges semId requests
  have apart : ∀ b ∈ s'.sems.badges, b₀.id ≠ b.id := by
    intro b listed same
    rw [badges] at listed
    have ids : (s.sems.badges.eraseP (·.id = b₀.id)).map Badge.id = (s.sems.badges.map Badge.id).erase b₀.id := by
      rw [List.erase_eq_eraseP', List.eraseP_map]
      rfl
    have inside : b.id ∈ (s.sems.badges.map Badge.id).erase b₀.id := ids ▸ List.mem_map_of_mem listed
    exact ((tally.distinct.ids.mem_erase_iff).mp inside).1 same.symm
  have stays : ∀ b ∈ s.sems.badges, b.id ≠ b₀.id → b ∈ s'.sems.badges := by
    intro b listed other
    rw [badges]
    exact (List.mem_eraseP_of_neg (by simpa using other)).mpr listed
  obtain ⟨opened₀, -, -, count₀⟩ := tally.attached b₀ member named₀
  have succeeds : s.Succeeds s' :=
    ⟨distinct, Int.le_of_eq semId.symm, fun b listed _ => ⟨b, ofListed b listed, rfl, rfl⟩⟩
  refine tally.next succeeds _ ?_ ?_ (by nofun) ?_ ?_
  · exact fun b listed b' listed' => tally.names b (ofListed b listed) b' (ofListed b' listed')
  · intro b listed named
    obtain ⟨opened, positive, small, count⟩ := tally.attached b (ofListed b listed) named
    refine ⟨opened_cons opened _, positive, small, ?_⟩
    rw [outstanding_closed, if_neg (apart b listed), Int.sub_zero]
    exact count
  · intro id opened none
    rw [outstanding_closed]
    by_cases here : b₀.id = id
    · rw [if_pos here, ← here, ← count₀, last]
      rfl
    · rw [if_neg here, Int.sub_zero]
      refine tally.gone id (opened_of_cons opened (by nofun)) ?_
      rintro b listed rfl
      exact none b (stays b listed (Ne.symm here)) rfl
  · intro id late
    have below := (tally.distinct.below b₀ member).2
    rw [outstanding_closed, if_neg (by omega), tally.ahead id (by omega)]
    rfl

/-- An open for which there are memory and bits enough. -/
theorem opens {id : Int} (tally : Tally trace s) (named : name ≠ "") (well : s.OpensWell name)
    (opens : Opens s name initialValue id s') (successful : id ≠ -1) : Tally ((.opened name id, s') :: trace) s' := by
  obtain ⟨iterator, rest⟩ := well
  have finds : s.findableName name = (values s.sems.semQueue).find? (findSemNameCondition name) := if_pos iterator
  cases opens with
  | @attached sem h found asked =>
    rw [finds] at found
    simp only [found] at rest
    have member := List.mem_of_find?_eq_some found
    have alike : SameName sem.name name := (findSemNameCondition_iff name sem).mp (List.find?_some found)
    obtain ⟨opened, positive, small, count⟩ := tally.attached sem.badge (mem_badges member) (alike.symm.nonempty named)
    have badges : (s.sems.modify sem.ref Sem.attach).badges =
        s.sems.badges.map fun b => if b.ref = sem.badge.ref then b.attach else b := badges_modify _ badge_attach
    refine tally.recount (g := Badge.attach) (mem_badges member) (alike.symm.nonempty named) (by exact badges)
      (fun _ => ⟨rfl, rfl, rfl⟩) (by rfl)      (by exact asked.grown.requests) _ ?_ ?_ ?_
    · rintro name' id ⟨⟩
      exact ⟨named, rfl, alike.symm⟩
    · have wraps : sem.badge.attach.attached = sem.attachedProcesses + 1 := Nat.mod_eq_of_lt rest
      rw [wraps, outstanding_opened, if_pos (by rfl), ← count]
      exact ⟨Nat.succ_pos _, rest, rfl⟩
    · intro id other
      rw [outstanding_opened, if_neg (by exact Ne.symm other), Int.add_zero]
  | failed => exact (successful rfl).elim
  | @made h missing asked granted namedNode =>
    rw [finds] at missing
    simp only [missing] at rest
    have node : h.Grants 3 := (asked.later 3).mpr rest
    have distinct : (s.withHeap h).Distinct := ⟨tally.distinct.refs, tally.distinct.ids, fun b listed =>
      ⟨Nat.lt_of_lt_of_le (tally.distinct.below b listed).1 asked.grown.requests, (tally.distinct.below b listed).2⟩⟩
    have added := badges_added distinct initialValue name
    rw [if_pos (by exact node)] at added
    have free : ∀ b ∈ s.sems.badges, ¬SameName b.name name := by
      intro b listed alike
      obtain ⟨sem, member, rfl⟩ := List.mem_map.mp listed
      exact List.find?_eq_none.mp missing sem member ((findSemNameCondition_iff name sem).mpr alike)
    have requests : h.requests < h.requests + 1 + 1 + 1 + 1 := by omega
    exact tally.made named free added rfl asked.grown.requests requests

/-- A close for which there is memory. -/
theorem closes {id : Int} (tally : Tally trace s) (opened : trace.Opened id)
    (there : s.sems.find id ≠ none) (well : s.ClosesWell)
    (closes : Closes s id a s') : Tally ((.closed id, s') :: trace) s' := by
  obtain ⟨sem, found⟩ := Option.ne_none_iff_exists'.mp there
  obtain ⟨member, rfl⟩ := find_some found
  have finds : s.findable sem.id = some sem := (if_pos well).trans found
  have named : sem.name ≠ "" := tally.named (b := sem.badge) opened (mem_badges member)
  obtain ⟨-, positive, small, count⟩ := tally.attached sem.badge (mem_badges member) named
  cases closes with
  | missed missing asked => cases missing.symm.trans finds
  | @freed sem' h found' last asked =>
    obtain rfl : sem = sem' := Option.some.inj (finds.symm.trans found')
    have one : sem.attachedProcesses = 1 := last.resolve_left fun empty => named (String.length_eq_zero_iff.mp empty)
    exact tally.freed (mem_badges member) named one (badges_close _ _) rfl asked.grown.requests
  | @detached sem' h found' more asked =>
    obtain rfl : sem = sem' := Option.some.inj (finds.symm.trans found')
    have notOne : sem.attachedProcesses ≠ 1 := fun one => more (.inr one)
    have badges : (s.sems.modify sem.ref Sem.detach).badges =
        s.sems.badges.map fun b => if b.ref = sem.badge.ref then b.detach else b := badges_modify _ badge_detach
    refine tally.recount (mem_badges member) named (by exact badges) detach_same (by rfl)
      (by exact asked.grown.requests) _
      (by rintro name id ⟨⟩) ?_ ?_
    · simp only [badge_attached, badge_id] at positive small count
      rw [detach_attached, outstanding_closed, badge_id, if_pos rfl, ← count, badge_attached]
      refine ⟨?_, ?_, ?_⟩
      · omega
      · omega
      · omega
    · intro id other
      rw [outstanding_closed, if_neg (by exact Ne.symm other), Int.sub_zero]

/-- The whole run. -/
theorem of_session
    (session : Session State.OpensWell (fun s => s.ClosesWell) (bootState grants garbage) trace s) : Tally trace s := by
  induction session with
  | start =>
    have unnamed : ∀ b ∈ bootSems.badges, b.name = "" := by simp [bootSems, Sems.badges, values, bootSem, Sem.badge]
    have refs : (bootSems.badges.map Badge.ref).Nodup := by decide
    have ids : (bootSems.badges.map Badge.id).Nodup := by decide
    have below : ∀ b ∈ bootSems.badges, b.ref < 40 ∧ b.id < 6 :=
      by simp [bootSems, Sems.badges, values, bootSem, Sem.badge]
    exact {
      distinct := ⟨refs, ids, below⟩
      names := fun b listed _ _ named => (named (unnamed b listed)).elim
      attached := fun b listed named => (named (unnamed b listed)).elim
      opened := by simp
      gone := by simp [Trace.Opened]
      ahead := fun _ _ => rfl
      last := by simp
      still := by simp }
  | opens session named well ran successful ih =>
    exact ih.opens named well ((meets_of_run ran).mp (semOpen_any _ _)).2 successful
  | closes session opened there well ran ih =>
    exact ih.closes opened there well ((meets_of_run ran).mp (semClose_any _)).1
  | other session meanwhile ih => exact ih.other (meanwhile.spares ih.distinct)

end Tally

/-! ## Every run -/

/-- What is there is counted as opened and not closed. -/
theorem Tally.counts {trace : Trace} (tally : Tally trace s) {id : Int} (opened : trace.Opened id)
    (found : s.sems.find id = some sem) :
    sem.attachedProcesses = trace.outstanding id := by
  obtain ⟨member, rfl⟩ := find_some found
  exact (tally.attached sem.badge (mem_badges member) (tally.named (b := sem.badge) opened (mem_badges member))).2.2.2

theorem Tally.leaves {trace : Trace} (tally : Tally trace s) {id : Int} (opened : trace.Opened id) :
    s.sems.find id = none ↔ trace.outstanding id = 0 := by
  constructor
  · exact fun none => tally.gone id opened (find_none_iff.mp none)
  · intro zero
    cases found : s.sems.find id with
    | none => rfl
    | some sem =>
      have count := tally.counts opened found
      obtain ⟨member, rfl⟩ := find_some found
      have positive :=
        (tally.attached sem.badge (mem_badges member) (tally.named (b := sem.badge) opened (mem_badges member))).2.1
      rw [badge_attached] at positive
      omega

theorem find_some_iff {sems : Sems} {id : Int} : sems.find id ≠ none ↔ ∃ b ∈ sems.badges, b.id = id := by
  rw [ne_eq, find_none_iff]
  push Not
  rfl

/-- An open returns an earlier id exactly if that was opened with the name, and is still there. -/
theorem Tally.same {trace : Trace} (tally : Tally trace s) (well : s.OpensWell name') {id id' : Int}
    (opens : Opens s name' initialValue id' s') (successful : id' ≠ -1)
    (split : trace = between ++ (.opened name id, s₀) :: earlier) :
    id = id' ↔ SameName name name' ∧ ∀ t ∈ between.map Prod.snd ++ [s₀], t.sems.find id ≠ none := by
  have done : (.opened name id, s₀) ∈ trace := split ▸ List.mem_append_right _ (List.mem_cons_self ..)
  obtain ⟨named, below, named'⟩ := tally.opened name id s₀ done
  have here : s ∈ between.map Prod.snd ++ [s₀] := by
    cases between with
    | nil => exact List.mem_singleton.mpr (tally.last _ _ _ split).symm
    | cons first between => exact List.mem_cons.mpr (.inl (tally.last _ _ _ split).symm)
  have still : s.sems.find id ≠ none → ∀ t ∈ between.map Prod.snd ++ [s₀], t.sems.find id ≠ none := by
    intro there t inside
    have opened : Trace.Opened ((.opened name id, s₀) :: earlier) id := ⟨name, s₀, List.mem_cons_self ..⟩
    exact find_some_iff.mpr (tally.still between _ s₀ earlier id split opened (find_some_iff.mp there) t inside)
  obtain ⟨iterator, -⟩ := well
  have finds : s.findableName name' = (values s.sems.semQueue).find? (findSemNameCondition name') := if_pos iterator
  cases opens with
  | @attached sem h found asked =>
    rw [finds] at found
    have listed := mem_badges (List.mem_of_find?_eq_some found)
    have alike : SameName sem.name name' := (findSemNameCondition_iff name' sem).mp (List.find?_some found)
    constructor
    · rintro rfl
      exact ⟨(named' sem.badge listed rfl).trans alike, still (find_some_iff.mpr ⟨sem.badge, listed, rfl⟩)⟩
    · rintro ⟨same, there⟩
      obtain ⟨b, listed', rfl⟩ := find_some_iff.mp (there s here)
      have nameOf := named' b listed' rfl
      have one := tally.names b listed' sem.badge listed (nameOf.nonempty named)
        (nameOf.symm.trans (same.trans alike.symm))
      exact congrArg Badge.id one
  | failed => exact (successful rfl).elim
  | made missing asked granted namedNode =>
    rw [finds] at missing
    constructor
    · rintro rfl
      exact (Int.lt_irrefl _ below).elim
    · rintro ⟨same, there⟩
      obtain ⟨b, listed, rfl⟩ := find_some_iff.mp (there s here)
      obtain ⟨sem, member, rfl⟩ := List.mem_map.mp listed
      have alike : SameName sem.name name' := (named' sem.badge listed rfl).symm.trans same
      exact (List.find?_eq_none.mp missing sem member ((findSemNameCondition_iff name' sem).mpr alike)).elim

theorem Tally.lawful {trace : Trace} (lawful : trace.Lawful) (tally : Tally ((act, s') :: trace) s')
    (opens : ∀ between earlier name name' id id' s₀, act = .opened name' id' →
      trace = between ++ (.opened name id, s₀) :: earlier →
      (id = id' ↔ SameName name name' ∧ ∀ t ∈ between.map Prod.snd ++ [s₀], t.sems.find id ≠ none)) :
    Trace.Lawful ((act, s') :: trace) where
  same later between earlier name name' id id' s s'' split := by
    cases later with
    | nil =>
      cases split
      exact opens between earlier name name' id id' s rfl rfl
    | cons first later =>
      cases split
      exact lawful.same later between earlier name name' id id' s s'' rfl
  counted later act' s earlier id sem split opened found := by
    cases later with
    | nil =>
      cases split
      exact tally.counts opened found
    | cons first later =>
      cases split
      exact lawful.counted later act' s earlier id sem rfl opened found
  leaves later act' s earlier id split opened := by
    cases later with
    | nil =>
      cases split
      exact tally.leaves opened
    | cons first later =>
      cases split
      exact lawful.leaves later act' s earlier id rfl opened

/-- **The lifetime of named semaphores**, in every run whose opens and closes find memory and whose counts fit
into 16 bits. -/
theorem attachments_lawful
    (session : Session State.OpensWell (fun s => s.ClosesWell) (bootState grants garbage) trace s) :
    trace.Lawful := by
  induction session with
  | start => exact ⟨by simp, by simp, by simp⟩
  | opens session named well ran successful ih =>
    have tally := Tally.of_session session
    have opens := ((meets_of_run ran).mp (semOpen_any _ _)).2
    refine (tally.opens named well opens successful).lawful ih ?_
    rintro between earlier name name' id id' s₀ ⟨⟩ split
    exact tally.same well opens successful split
  | closes session opened there well ran ih =>
    have closes := ((meets_of_run ran).mp (semClose_any _)).1
    exact ((Tally.of_session session).closes opened there well closes).lawful ih fun _ _ _ _ _ _ _ none =>
      (by cases none)
  | other session meanwhile ih =>
    have tally := Tally.of_session session
    exact (tally.other (meanwhile.spares tally.distinct)).lawful ih fun _ _ _ _ _ _ _ none => (by cases none)

/-! ## Opening again and again -/

/-- So often the semaphore of the name was opened, and memory is granted. -/
structure Held (name : String) (count : Nat) (s : State) : Prop where
  grants : s.Grants
  lock : s.sems.allSemsLock = 0
  there : ∃ sem, (values s.sems.semQueue).find? (findSemNameCondition name) = some sem ∧ sem.id = 6 ∧
    sem.attachedProcesses = count % 2 ^ 16
  fits : ∀ sem ∈ values s.sems.semQueue, sem.attachedProcesses < 2 ^ 16

/-- The semaphore that the first open makes. -/
def sharedSem : Sem where
  ref := 41
  queueRef := some 42
  blockedPids := []
  attachedProcesses := 1
  id := 6
  value := 1
  lock := 0
  name := "test_sync_sem"
  nameRef := 43

theorem held_first (garbage : Option Ref × List Ref) : ∃ s,
    (semOpen "test_sync_sem" 1).run (bootState (fun _ => true) garbage) = .ok (6, s) ∧ Held "test_sync_sem" 1 s := by
  refine ⟨_, rfl, fun _ => rfl, rfl, ⟨sharedSem, ?_, rfl, rfl⟩, ?_⟩
  · change (values (bootSems.semQueue ++ [⟨44, sharedSem⟩])).find? (findSemNameCondition "test_sync_sem") =
      some sharedSem
    decide
  · change ∀ sem ∈ values (bootSems.semQueue ++ [⟨44, sharedSem⟩]), sem.attachedProcesses < 2 ^ 16
    simp [bootSems, values, bootSem, sharedSem]

theorem Held.again (held : Held name count s) (initialValue : Int) :
    Meets (fun _ => False) (semOpen name initialValue) (fun id s' => id = 6 ∧ Held name (count + 1) s') s := by
  obtain ⟨sem, found, isSix, attached⟩ := held.there
  simp only [semOpen, meets_bind]
  refine (findSemName_asks name).mono ?_
  rintro found' s' ⟨rfl, h, asked, rfl⟩
  have finds : s.findableName name = some sem := (if_pos (held.grants _)).trans found
  simp only [finds, acquireAllSems, meets_bind, meets_get, acquire, withHeap_sems, held.lock,
    if_true, meets_pure, meets_modifySems,
    meets_modifySem, releaseAllSems]
  have now : (values (s.sems.modify sem.ref Sem.attach).semQueue).find?
    (findSemNameCondition name) = some sem.attach := by
    have kept : findSemNameCondition name ∘ (fun x => if x.ref = sem.ref then x.attach else x) =
      findSemNameCondition name := by
      funext x
      by_cases here : x.ref = sem.ref <;> simp [here, findSemNameCondition]
    rw [values_modify, List.find?_map, kept, found]
    simp
  refine ⟨isSix, held.grants.grown asked.grown, rfl, ⟨sem.attach, now, isSix, ?_⟩, ?_⟩
  · change (sem.attachedProcesses + 1) % 2 ^ 16 = _
    rw [attached]
    omega
  · rw [values_modify, List.forall_mem_map]
    intro x listed
    split
    · exact Nat.mod_lt _ (Nat.two_pow_pos 16)
    · exact held.fits x listed

theorem opens_again (opensWell : State → String → Prop) (closesWell : State → Prop)
    (garbage : Option Ref × List Ref) (count : Nat)
    (first : opensWell (bootState (fun _ => true) garbage) "test_sync_sem")
    (more : ∀ k s, k ≤ count → 0 < k → Held "test_sync_sem" k s → opensWell s "test_sync_sem") :
    ∃ trace s, Session opensWell closesWell (bootState (fun _ => true) garbage)
    ((.opened "test_sync_sem" 6, s) :: trace) s ∧
      Held "test_sync_sem" (count + 1) s ∧
      Trace.outstanding 6 ((.opened "test_sync_sem" 6, s) :: trace) = count + 1 := by
  induction count with
  | zero =>
    obtain ⟨s, ran, held⟩ := held_first garbage
    exact ⟨[], s, .opens .start (by decide) first ran (by decide), held, rfl⟩
  | succ count ih =>
    obtain ⟨trace, s, session, held, count'⟩ := ih fun k s few => more k s (Nat.le_succ_of_le few)
    obtain ⟨id, s', ran, rfl, held'⟩ := (held.again 1).returns
    refine ⟨_, s', .opens session (by decide) (more _ s (Nat.le_refl _) (Nat.succ_pos _) held) ran (by decide),
      held', ?_⟩
    rw [outstanding_opened, count', if_pos rfl]
    omega

/-- Two opens of one name. -/
theorem attachments_lawful_two : ∃ trace s, trace.outstanding 6 = 2 ∧
    Session State.OpensWell (fun s => s.ClosesWell) (bootState (fun _ => true) (none, [])) trace s ∧ trace.Lawful := by
  have first : (bootState (fun _ => true) (none, [])).OpensWell "test_sync_sem" := ⟨rfl, rfl⟩
  have more : ∀ k s, k ≤ 1 → 0 < k → Held "test_sync_sem" k s → s.OpensWell "test_sync_sem" := by
    rintro k s few positive ⟨grants, -, ⟨sem, found, -, attached⟩, -⟩
    refine ⟨grants _, ?_⟩
    rw [found]
    have small : k % 2 ^ 16 = k := Nat.mod_eq_of_lt (by omega)
    simp only [attached, small]
    omega
  obtain ⟨trace, s, session, held, count⟩ := opens_again State.OpensWell (fun s => s.ClosesWell) (none, []) 1 first more
  exact ⟨_, s, count, session, attachments_lawful session⟩

/-- After 65536 opens of one name nobody is attached. -/
theorem attachments_lawful_fails :
    ¬∀ trace s, Session (fun _ _ => True) (fun _ => True) (bootState (fun _ => true) (none, [])) trace s →
    trace.Lawful := by
  intro claim
  obtain ⟨trace, s, session, held, count⟩ :=
    opens_again (fun _ _ => True) (fun _ => True) (none, []) (2 ^ 16 - 1) trivial fun _ _ _ _ _ => trivial
  have lawful := claim _ s session
  have opened : Trace.Opened ((.opened "test_sync_sem" 6, s) :: trace) 6 := ⟨_, s, List.mem_cons_self ..⟩
  cases found : s.sems.find 6 with
  | none =>
    have zero := (lawful.leaves [] _ s trace 6 rfl opened).mp found
    omega
  | some sem =>
    have counted := lawful.counted [] _ s trace 6 sem rfl opened found
    have fits := held.fits sem (find_some found).1
    omega

end QuesOs.Kernel
