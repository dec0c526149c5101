import QuesOs.BuddyMallocLists

/-! The lists of `buddyBTree.c` over a sequence of calls. Any number of
sentinels share one memory, each with its own entries, and every pushed entry
comes from outside all of them. The lists then behave as stacks from which an
entry can also be taken out of the middle. -/
namespace QuesOs.BuddyMalloc
open LinkedRing Memory

/-- A circular list: from the sentinel, `next` passes the entries in order
and comes back, and `next` and `prev` undo each other on every node. -/
structure Circular (m : Memory) (list : Ptr) (entries : List Ptr) : Prop where
  distinct : (list :: entries).Nodup
  walk : Threaded (fun p => (m p).next) (list :: entries)
  prev_next : ∀ p ∈ list :: entries, (m (m p).next).prev = p
  next_prev : ∀ p ∈ list :: entries, (m (m p).prev).next = p

theorem circular_iff : Circular m list entries ↔ Listed m list entries := by
  constructor
  · intro circular
    exact .of_inverse circular.walk circular.distinct circular.prev_next
  · intro listed
    exact ⟨listed.nodup, listed.forward, fun _ member => listed.prev_next member,
      fun _ member => listed.next_prev member⟩

/-! ## What the lists are for -/

/-- The entries of every list, last pushed last. -/
abbrev Stacks := Ptr → List Ptr

/-- A call on the list of a sentinel. `removeFromList` is given the entry
only; `list` says where it is. -/
inductive ListCall where
  | push (list entry : Ptr)
  | pop (list : Ptr)
  | remove (list entry : Ptr)
  deriving DecidableEq

namespace ListCall

def list : ListCall → Ptr
  | push list _ | pop list | remove list _ => list

/-- The call on the memory, with the pointer it returns if it returns one. -/
def perform (m : Memory) : ListCall → Memory × Option Ptr
  | push list entry => (pushToList m list entry, none)
  | pop list => ((popFromList m list).1, some (popFromList m list).2)
  | remove _ entry => (removeFromList m entry, none)

/-- The entries of the call's list afterwards. -/
def entries (stack : List Ptr) : ListCall → List Ptr
  | push _ entry => stack ++ [entry]
  | pop _ => stack.dropLast
  | remove _ entry => stack.erase entry

/-- What a stack answers: a pop gives the last entry, or NULL when there is none. -/
def answer (stack : List Ptr) : ListCall → Option Ptr
  | pop _ => some (stack.getLast?.getD .null)
  | push .. | remove .. => none

/-- The call on the stacks. -/
def apply (contents : Stacks) (call : ListCall) : Stacks × Option Ptr :=
  (Function.update contents call.list (call.entries (contents call.list)), call.answer (contents call.list))

/-- A push brings an entry that is in no list, a removal names one of its list. -/
def Allowed (sentinels : Set Ptr) (contents : Stacks) (call : ListCall) : Prop :=
  call.list ∈ sentinels ∧
    match call with
    | push _ entry => ∀ list ∈ sentinels, entry ∉ list :: contents list
    | pop _ => True
    | remove list entry => entry ∈ contents list

end ListCall

/-- The calls in turn, with all they return. -/
def performAll (m : Memory) : List ListCall → Memory × List (Option Ptr)
  | [] => (m, [])
  | call :: calls =>
    let (m', returned) := call.perform m
    let (m'', rest) := performAll m' calls
    (m'', returned :: rest)

def applyAll (contents : Stacks) : List ListCall → Stacks × List (Option Ptr)
  | [] => (contents, [])
  | call :: calls =>
    let (contents', returned) := call.apply contents
    let (contents'', rest) := applyAll contents' calls
    (contents'', returned :: rest)

def AllAllowed (sentinels : Set Ptr) (contents : Stacks) : List ListCall → Prop
  | [] => True
  | call :: calls => call.Allowed sentinels contents ∧ AllAllowed sentinels (call.apply contents).1 calls

/-- Every sentinel has its circular list, and no node is on two of them. -/
structure Holds (sentinels : Set Ptr) (m : Memory) (contents : Stacks) : Prop where
  circular : ∀ list ∈ sentinels, Circular m list (contents list)
  apart : ∀ list ∈ sentinels, ∀ other ∈ sentinels, list ≠ other →
    (list :: contents list).Disjoint (other :: contents other)

/-! ## One call -/

/-- A pop returns what a stack would, and leaves the list without it. -/
theorem popFromList_listed (listed : Listed m list stack) :
    (popFromList m list).2 = stack.getLast?.getD .null ∧ Listed (popFromList m list).1 list stack.dropLast := by
  rcases List.eq_nil_or_concat stack with rfl | ⟨before, entry, rfl⟩
  · simp [popFromList, listed_prev listed, listed]
  · rw [List.concat_eq_append] at listed ⊢
    have gone : Listed (removeFromList m entry) list (before ++ []) := removeFromList_listed listed
    rw [popFromList_eq listed]
    simpa using gone

theorem popFromList_elsewhere (listed : Listed m list stack) (outside : p ∉ list :: stack) :
    (popFromList m list).1 p = m p := by
  rcases List.eq_nil_or_concat stack with rfl | ⟨before, entry, rfl⟩
  · simp [popFromList, listed_prev listed]
  · rw [List.concat_eq_append] at listed outside
    rw [popFromList_eq listed]
    exact removeFromList_elsewhere listed (by simp) outside

namespace ListCall

/-- The call does to its own list what it does to a stack. -/
theorem perform_listed (call : ListCall) (holds : Holds sentinels m contents)
    (allowed : call.Allowed sentinels contents) :
    Listed (call.perform m).1 call.list (call.entries (contents call.list)) ∧
      (call.perform m).2 = call.answer (contents call.list) := by
  have listed := circular_iff.mp (holds.circular call.list allowed.1)
  cases call with
  | push list entry => exact ⟨pushToList_listed listed (allowed.2 list allowed.1), rfl⟩
  | pop list =>
    have popped := popFromList_listed listed
    exact ⟨popped.2, congrArg some popped.1⟩
  | remove list entry =>
    obtain ⟨before, after, first, split, erased⟩ := List.exists_erase_eq allowed.2
    refine ⟨?_, rfl⟩
    simp only [entries, ListCall.list] at listed ⊢
    rw [erased]
    rw [split] at listed
    exact removeFromList_listed listed

/-- No node of another list is written. -/
theorem perform_elsewhere (call : ListCall) (holds : Holds sentinels m contents)
    (allowed : call.Allowed sentinels contents) (known : other ∈ sentinels) (different : call.list ≠ other)
    (member : p ∈ other :: contents other) : (call.perform m).1 p = m p := by
  have listed := circular_iff.mp (holds.circular call.list allowed.1)
  have outside : p ∉ call.list :: contents call.list := fun inside =>
    holds.apart call.list allowed.1 other known different inside member
  cases call with
  | push list entry =>
    have fresh : p ≠ entry := by
      rintro rfl
      exact allowed.2 other known member
    exact pushToList_elsewhere listed outside fresh
  | pop list => exact popFromList_elsewhere listed outside
  | remove list entry => exact removeFromList_elsewhere listed allowed.2 outside

/-- Only a pushed entry is new on the call's list. -/
theorem mem_entries (call : ListCall) (member : p ∈ call.entries stack) :
    p ∈ stack ∨ ∃ list, call = push list p := by
  cases call with
  | push list entry =>
    rcases List.mem_append.mp member with old | new
    · exact .inl old
    · exact .inr ⟨list, by rw [List.mem_singleton.mp new]⟩
  | pop list => exact .inl (List.mem_of_mem_dropLast member)
  | remove list entry => exact .inl (List.mem_of_mem_erase member)

theorem entries_apart (call : ListCall) (holds : Holds sentinels m contents)
    (allowed : call.Allowed sentinels contents) (known : other ∈ sentinels) (different : call.list ≠ other) :
    (call.list :: call.entries (contents call.list)).Disjoint (other :: contents other) := by
  have before := holds.apart call.list allowed.1 other known different
  intro p inside member
  rcases List.mem_cons.mp inside with rfl | later
  · exact before List.mem_cons_self member
  · rcases call.mem_entries later with old | ⟨list, rfl⟩
    · exact before (List.mem_cons_of_mem _ old) member
    · exact allowed.2 other known member

/-- A call keeps the lists circular and apart. -/
theorem perform_holds (call : ListCall) (holds : Holds sentinels m contents)
    (allowed : call.Allowed sentinels contents) : Holds sentinels (call.perform m).1 (call.apply contents).1 := by
  constructor
  · intro list known
    rw [circular_iff]
    by_cases same : list = call.list
    · subst same
      simpa [apply] using (call.perform_listed holds allowed).1
    · have kept : Listed (call.perform m).1 list (contents list) := by
        apply listed_agree (circular_iff.mp (holds.circular list known))
        intro p member
        rw [call.perform_elsewhere holds allowed known (Ne.symm same) member]
        exact ⟨rfl, rfl⟩
      simpa [apply, same] using kept
  · intro list known other known' different
    by_cases same : list = call.list
    · subst same
      simpa [apply, Ne.symm different] using call.entries_apart holds allowed known' different
    · by_cases same' : other = call.list
      · subst same'
        simpa [apply, different] using (call.entries_apart holds allowed known (Ne.symm different)).symm
      · simpa [apply, same, same'] using holds.apart list known other known' different

end ListCall

/-! ## A sequence of calls -/

/-- The lists stay circular, answer what stacks with removal answer, and end
with what these hold; a list none of the calls is on is not written. -/
theorem performAll_stacks (holds : Holds sentinels m contents) (allowed : AllAllowed sentinels contents calls) :
    Holds sentinels (performAll m calls).1 (applyAll contents calls).1 ∧
      (performAll m calls).2 = (applyAll contents calls).2 ∧
      ∀ list ∈ sentinels, (∀ call ∈ calls, call.list ≠ list) →
        (applyAll contents calls).1 list = contents list ∧
          ∀ p ∈ list :: contents list, (performAll m calls).1 p = m p := by
  induction calls generalizing m contents with
  | nil => exact ⟨holds, rfl, fun _ _ _ => ⟨rfl, fun _ _ => rfl⟩⟩
  | cons call calls ih =>
    obtain ⟨now, later⟩ := allowed
    have step := call.perform_holds holds now
    obtain ⟨held, answers, untouched⟩ := ih step later
    have answer : (call.perform m).2 = (call.apply contents).2 := (call.perform_listed holds now).2
    refine ⟨held, by simp only [performAll, applyAll, answer, answers], ?_⟩
    intro list known away
    have different : call.list ≠ list := away call List.mem_cons_self
    obtain ⟨entries, nodes⟩ := untouched list known fun c member => away c (List.mem_cons_of_mem _ member)
    have same : (call.apply contents).1 list = contents list := by simp [ListCall.apply, Ne.symm different]
    rw [same] at entries nodes
    refine ⟨entries, ?_⟩
    intro p member
    calc (performAll (call.perform m).1 calls).1 p = (call.perform m).1 p := nodes p member
      _ = m p := call.perform_elsewhere holds now known different member

/-- Three entries pushed, the middle one removed, and pops until the list is empty. -/
theorem performAll_stacks_middle :
    (performAll (initializeList (initializeList (fun _ => ⟨.null, .null, 0, 0⟩) (.orders 0)) (.orders 1))
      [.push (.orders 0) (.heap 0), .push (.orders 0) (.heap 16), .push (.orders 1) (.heap 64),
        .push (.orders 0) (.heap 32), .remove (.orders 0) (.heap 16), .pop (.orders 0), .pop (.orders 0),
        .pop (.orders 0)]).2 =
      [none, none, none, none, none, some (.heap 32), some (.heap 0), some .null] := by
  have empty : Holds {.orders 0, .orders 1}
      (initializeList (initializeList (fun _ => ⟨.null, .null, 0, 0⟩) (.orders 0)) (.orders 1)) (fun _ => []) := by
    constructor
    · rintro list (rfl | rfl)
      · apply circular_iff.mpr
        apply listed_agree (m := initializeList (fun _ => ⟨.null, .null, 0, 0⟩) (.orders 0)) initializeList_listed
        simp [initializeList]
      · exact circular_iff.mpr initializeList_listed
    · rintro list (rfl | rfl) other (rfl | rfl) different <;> simp at different ⊢
  exact (performAll_stacks empty (by
    simp [AllAllowed, ListCall.Allowed, ListCall.apply, ListCall.entries, ListCall.list])).2.1

end QuesOs.BuddyMalloc
