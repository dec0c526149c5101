import QuesOs.BuddyMalloc
import QuesOs.LinkedRing

/-! The order lists of the BUDDY allocator as rings that can be walked both
ways, beginning at their sentinel. A push appends, a removal takes out any
member, and neither touches a node outside the list and the entry, nor any
`order` or `free` field. -/
namespace QuesOs.BuddyMalloc
open LinkedRing Memory

/-- The nodes on the list of the sentinel `list`, first to last. -/
def Listed (m : Memory) (list : Ptr) (nodes : List Ptr) : Prop :=
  Doubly (fun p => (m p).next) (fun p => (m p).prev) (list :: nodes)

@[simp] theorem next_setPrev : (setPrev m p value q).next = (m q).next := by
  by_cases same : q = p <;> simp [setPrev, same]

@[simp] theorem prev_setPrev : (setPrev m p value q).prev = if q = p then value else (m q).prev := by
  by_cases same : q = p <;> simp [setPrev, same]

@[simp] theorem next_setNext : (setNext m p value q).next = if q = p then value else (m q).next := by
  by_cases same : q = p <;> simp [setNext, same]

@[simp] theorem prev_setNext : (setNext m p value q).prev = (m q).prev := by
  by_cases same : q = p <;> simp [setNext, same]

@[simp] theorem next_setOrder : (setOrder m p value q).next = (m q).next := by
  by_cases same : q = p <;> simp [setOrder, same]

@[simp] theorem prev_setOrder : (setOrder m p value q).prev = (m q).prev := by
  by_cases same : q = p <;> simp [setOrder, same]

@[simp] theorem next_setFree : (setFree m p value q).next = (m q).next := by
  by_cases same : q = p <;> simp [setFree, same]

@[simp] theorem prev_setFree : (setFree m p value q).prev = (m q).prev := by
  by_cases same : q = p <;> simp [setFree, same]

@[simp] theorem order_setPrev : (setPrev m p value q).order = (m q).order := by
  by_cases same : q = p <;> simp [setPrev, same]

@[simp] theorem order_setNext : (setNext m p value q).order = (m q).order := by
  by_cases same : q = p <;> simp [setNext, same]

@[simp] theorem order_setFree : (setFree m p value q).order = (m q).order := by
  by_cases same : q = p <;> simp [setFree, same]

@[simp] theorem free_setPrev : (setPrev m p value q).free = (m q).free := by
  by_cases same : q = p <;> simp [setPrev, same]

@[simp] theorem free_setNext : (setNext m p value q).free = (m q).free := by
  by_cases same : q = p <;> simp [setNext, same]

@[simp] theorem free_setOrder : (setOrder m p value q).free = (m q).free := by
  by_cases same : q = p <;> simp [setOrder, same]

@[simp] theorem order_setOrder :
    (setOrder m p value q).order = if q = p then value % 2 ^ 8 else (m q).order := by
  by_cases same : q = p <;> simp [setOrder, same]

@[simp] theorem free_setFree : (setFree m p value q).free = if q = p then value else (m q).free := by
  by_cases same : q = p <;> simp [setFree, same]

/-- A memory that agrees on the links of the members holds the same list. -/
theorem listed_agree (listed : Listed m list nodes)
    (same : ∀ p ∈ list :: nodes, (m' p).next = (m p).next ∧ (m' p).prev = (m p).prev) : Listed m' list nodes :=
  listed.agree (fun p member => (same p member).1) (fun p member => (same p member).2)

theorem listed_setOrder (listed : Listed m list nodes) : Listed (setOrder m p value) list nodes :=
  listed_agree listed fun _ _ => ⟨next_setOrder, prev_setOrder⟩

theorem listed_setFree (listed : Listed m list nodes) : Listed (setFree m p value) list nodes :=
  listed_agree listed fun _ _ => ⟨next_setFree, prev_setFree⟩

theorem initializeList_listed : Listed (initializeList m list) list [] :=
  .single (by simp [initializeList]) (by simp [initializeList])

/-- What the list's sentinel points back to: its last node, or itself. -/
theorem listed_prev (listed : Listed m list nodes) : (m list).prev = (list :: nodes).getLast (by simp) := by
  rcases List.eq_nil_or_concat nodes with rfl | ⟨before, entry, rfl⟩
  · exact listed.alone
  · rw [List.concat_eq_append] at listed ⊢
    simpa using listed.last

theorem listed_prev_mem (listed : Listed m list nodes) : (m list).prev ∈ list :: nodes := by
  rw [listed_prev listed]
  exact List.getLast_mem _

theorem listIsEmpty_iff (listed : Listed m list nodes) : listIsEmpty m list = true ↔ nodes = [] := by
  have back := listed_prev listed
  have outside := (List.nodup_cons.mp listed.nodup).1
  rw [listIsEmpty, decide_eq_true_iff, back]
  rcases List.eq_nil_or_concat nodes with rfl | ⟨before, entry, rfl⟩
  · simp
  · rw [List.concat_eq_append] at outside ⊢
    simp only [List.mem_append, List.mem_singleton, not_or] at outside
    simpa using Ne.symm outside.2

/-! ## `pushToList` -/

theorem pushToList_listed (listed : Listed m list nodes) (fresh : entry ∉ list :: nodes) :
    Listed (pushToList m list entry) list (nodes ++ [entry]) := by
  have back := listed_prev_mem listed
  have other : entry ≠ list := fun same => fresh (same ▸ List.mem_cons_self)
  have other' : entry ≠ (m list).prev := fun same => fresh (same ▸ back)
  apply Doubly.insert listed fresh
  · simp [pushToList]
  · simp [pushToList, other']
  · simp [pushToList, other]
  · simp [pushToList]
  · intro p member away
    have : p ≠ entry := fun same => fresh (same ▸ member)
    by_cases first : p = list <;> simp_all [pushToList]
  · intro p member
    have : p ≠ entry := fun same => fresh (same ▸ List.mem_cons_of_mem _ member)
    have : p ≠ list := fun same => (List.nodup_cons.mp listed.nodup).1 (same ▸ member)
    by_cases last : p = (m list).prev <;> simp_all [pushToList]

/-- A push writes the entry, the sentinel and the node it points back to. -/
theorem pushToList_elsewhere (listed : Listed m list nodes) (outside : p ∉ list :: nodes) (other : p ≠ entry) :
    pushToList m list entry p = m p := by
  have back := listed_prev_mem listed
  have first : p ≠ list := fun same => outside (same ▸ List.mem_cons_self)
  have last : p ≠ (m list).prev := fun same => outside (same ▸ back)
  simp [pushToList, setPrev, setNext, first, last, other]

@[simp] theorem pushToList_order : (pushToList m list entry p).order = (m p).order := by
  simp [pushToList]

@[simp] theorem pushToList_free : (pushToList m list entry p).free = (m p).free := by
  simp [pushToList]

/-! ## `removeFromList` -/

/-- The nodes next to a member are members. -/
theorem listed_near (listed : Listed m list nodes) (member : entry ∈ nodes) :
    (m entry).prev ∈ list :: nodes ∧ (m entry).next ∈ list :: nodes := by
  have inside : entry ∈ list :: nodes := List.mem_cons_of_mem _ member
  refine ⟨List.mem_reverse.mp ?_, threaded_closed listed.forward inside⟩
  exact threaded_closed listed.backward (List.mem_reverse.mpr inside)

theorem removeFromList_listed (listed : Listed m list (before ++ entry :: after)) :
    Listed (removeFromList m entry) list (before ++ after) := by
  obtain ⟨rest, p, split⟩ : ∃ rest p, list :: before = rest ++ [p] :=
    ⟨(list :: before).dropLast, (list :: before).getLast (by simp),
      (List.dropLast_append_getLast (by simp)).symm⟩
  have shape : list :: (before ++ entry :: after) = rest ++ p :: entry :: after := by
    rw [← List.cons_append, split, List.append_assoc]
    rfl
  have ring : Doubly (fun q => (m q).next) (fun q => (m q).prev) (p :: entry :: (after ++ rest)) := by
    have := listed
    rw [Listed, shape] at this
    exact this.swap
  have done : Doubly (fun q => (removeFromList m entry q).next) (fun q => (removeFromList m entry q).prev)
      (p :: (after ++ rest)) := by
    have distinct := ring.nodup
    have before : (m entry).prev = p := ring.first
    simp only [List.nodup_cons, List.mem_cons, not_or] at distinct
    apply ring.unlink
    · by_cases single : p = (m entry).next <;> simp [removeFromList, before, single]
    · simp [removeFromList, before]
    · intro a member
      have away : a ≠ p := fun same => distinct.1.2 (same ▸ member)
      by_cases next : a = (m entry).next <;> simp_all [removeFromList]
    · intro a member away
      by_cases same : a = p <;> simp_all [removeFromList]
  rw [Listed, ← List.cons_append, split, List.append_assoc]
  exact @Doubly.swap _ _ (p :: after) rest _ done

/-- A removal writes the two neighbours. -/
theorem removeFromList_elsewhere (listed : Listed m list nodes) (member : entry ∈ nodes)
    (outside : p ∉ list :: nodes) : removeFromList m entry p = m p := by
  have near := listed_near listed member
  have before : p ≠ (m entry).prev := fun same => outside (same ▸ near.1)
  have after : p ≠ (m entry).next := fun same => outside (same ▸ near.2)
  simp [removeFromList, setPrev, setNext, before, after]

@[simp] theorem removeFromList_order : (removeFromList m entry p).order = (m p).order := by
  simp [removeFromList]

@[simp] theorem removeFromList_free : (removeFromList m entry p).free = (m p).free := by
  simp [removeFromList]

/-! ## `popFromList` -/

/-- A pop takes the node that was pushed last. -/
theorem popFromList_eq (listed : Listed m list (nodes ++ [entry])) :
    popFromList m list = (removeFromList m entry, entry) := by
  have back : (m list).prev = entry := by simpa using listed_prev listed
  have outside := (List.nodup_cons.mp listed.nodup).1
  have other : entry ≠ list := by
    rintro rfl
    exact outside (by simp)
  simp [popFromList, back, other]

end QuesOs.BuddyMalloc
