import QuesOs.Shortage
import QuesOs.Elementary

/-! Semaphores with a name. `semOpen` attaches its caller to the semaphore of
that name, in any case of its letters, and creates it if there is none;
`semClose` detaches, and the last one destroys. -/
namespace QuesOs.Kernel
open Resumption

variable {s : State}

/-! ## `string.c` -/

def toLower (chr : Int) : Int := if 65 ≤ chr ∧ chr ≤ 90 then chr + 32 else chr

/-- The characters of the strings up to the terminating zero. -/
def strcasecmp : List Char → List Char → Int
  | [], [] => 0
  | [], _ :: _ => -1
  | _ :: _, [] => 1
  | c :: str1, d :: str2 =>
    if toLower c.toNat = toLower d.toNat then strcasecmp str1 str2 else toLower c.toNat - toLower d.toNat

/-- The names differ at most in the case of their letters. -/
def SameName (name name' : String) : Prop := name.toList.map Char.toLower = name'.toList.map Char.toLower

theorem toNat_toLower (c : Char) : (c.toLower.toNat : Int) = toLower c.toNat := by
  unfold Char.toLower toLower
  have lower : c.val ≥ 'A'.val ↔ (65 : Int) ≤ c.toNat := by
    rw [ge_iff_le, UInt32.le_iff_toNat_le]
    change 65 ≤ c.toNat ↔ _
    omega
  have upper : c.val ≤ 'Z'.val ↔ (c.toNat : Int) ≤ 90 := by
    rw [UInt32.le_iff_toNat_le]
    change c.toNat ≤ 90 ↔ _
    omega
  by_cases letter : c.val ≥ 'A'.val ∧ c.val ≤ 'Z'.val
  · rw [dif_pos letter, if_pos ⟨lower.mp letter.1, upper.mp letter.2⟩]
    have small := upper.mp letter.2
    change ((c.val + 32).toNat : Int) = _
    rw [UInt32.toNat_add]
    change (((c.toNat + 32) % 2 ^ 32 : Nat) : Int) = _
    omega
  · rw [dif_neg letter, if_neg (by rw [← lower, ← upper]; exact letter)]

theorem toLower_eq_iff (c d : Char) : toLower c.toNat = toLower d.toNat ↔ c.toLower = d.toLower := by
  rw [← toNat_toLower, ← toNat_toLower]
  constructor
  · intro same
    exact Char.ext (UInt32.toNat_inj.mp (Int.ofNat_inj.mp same))
  · intro same
    rw [same]

theorem strcasecmp_eq_zero (str1 str2 : List Char) :
    strcasecmp str1 str2 = 0 ↔ str1.map Char.toLower = str2.map Char.toLower := by
  induction str1 generalizing str2 with
  | nil => cases str2 <;> simp [strcasecmp]
  | cons c str1 ih =>
    cases str2 with
    | nil => simp [strcasecmp]
    | cons d str2 =>
      simp only [strcasecmp, List.map_cons, List.cons.injEq, ← toLower_eq_iff]
      by_cases same : toLower c.toNat = toLower d.toNat
      · rw [if_pos same, ih]
        exact (and_iff_right same).symm
      · rw [if_neg same]
        constructor
        · intro zero
          exact (same (Int.sub_eq_zero.mp zero)).elim
        · exact fun both => (same both.1).elim

/-! ## `sem.c` -/

def findSemNameCondition (name : String) (sem : Sem) : Bool := strcasecmp sem.name.toList name.toList = 0

theorem findSemNameCondition_iff (name : String) (sem : Sem) : findSemNameCondition name sem = true ↔
    SameName sem.name name := by
  simp only [findSemNameCondition, decide_eq_true_eq, strcasecmp_eq_zero, SameName]

def findSemName (name : String) : K (Option Sem) := do
  find (← get).sems.semQueue (findSemNameCondition name)

def semOpen (semaphoreName : String) (initialValue : Int) : K Int := do
  let found ← findSemName semaphoreName
  acquireAllSems
  let sem ← do
    match found with
    | some sem => pure (some sem)
    | none => createSem initialValue semaphoreName
  match sem with
  | none =>
    releaseAllSems
    return -1
  | some sem =>
    modifySem sem.ref fun s => { s with attachedProcesses := (s.attachedProcesses + 1) % 2 ^ 16 }
    releaseAllSems
    return sem.id

theorem Detached.semOpen {P : ∀ {α : Type}, K α → Prop} (holds : Detached P)
    (semaphoreName : String) (initialValue : Int) :
    P (Kernel.semOpen semaphoreName initialValue) := by
  refine holds.follows (holds.follows holds.reads fun _ => built_find holds.toPrimitive _ _) fun found =>
    holds.follows holds.acquireAllSems fun _ => ?_
  have attaches : ∀ created : Option Sem, P (do
      match created with
      | none =>
        releaseAllSems
        return (-1 : Int)
      | some sem =>
        Kernel.modifySem sem.ref fun s => { s with attachedProcesses := (s.attachedProcesses + 1) % 2 ^ 16 }
        releaseAllSems
        return sem.id) := by
    intro created
    cases created with
    | none => exact holds.follows (holds.semsWritten _) fun _ => holds.ends _
    | some sem =>
      exact holds.follows (holds.modifySem _ _) fun _ => holds.follows (holds.semsWritten _) fun _ => holds.ends _
  cases found with
  | some sem => exact attaches (some sem)
  | none => exact holds.follows (holds.createSem _ _) attaches

/-- The semaphore that `findSemName` finds, if the iterator is granted. -/
def State.findableName (s : State) (name : String) : Option Sem :=
  if s.heap.Grants 0 then (values s.sems.semQueue).find? (findSemNameCondition name) else none

theorem findSemName_asks (name : String) : Meets bad (findSemName name) (fun found s' => found = s.findableName name ∧
    ∃ h, s.heap.Asked 1 h ∧ s' = s.withHeap h) s := by
  simp only [findSemName, meets_bind, meets_get]
  exact find_asks _

/-- What `semOpen` does and returns: it attaches to the semaphore of the name, fails to make one, or makes it. -/
inductive Opens (s : State) (name : String) (initialValue : Int) : Int → State → Prop
  | attached (found : s.findableName name = some sem) (asked : s.heap.Asked 1 h) :
    Opens s name initialValue sem.id { s with heap := h, sems := s.sems.modify sem.ref Sem.attach }
  | failed (missing : s.findableName name = none) (asked : s.heap.Asked 1 h)
    (creates : Creates (s.withHeap h) initialValue name none s') : Opens s name initialValue (-1) s'
  | made (missing : s.findableName name = none) (asked : s.heap.Asked 1 h) (granted : h.Grants 0) (named : h.Grants 2) :
    Opens s name initialValue s.sems.semId { s with
      heap := h.ask.ask.ask.ask
      sems := ((s.withHeap h).withNewSem initialValue name).modify h.requests Sem.attach
      history := .created s.sems.semId initialValue :: s.history }

theorem semOpen_any (name : String) (initialValue : Int) : Meets (fun _ => True) (semOpen name initialValue)
    (fun a s' => s.sems.allSemsLock = 0 ∧ Opens s name initialValue a s') s := by
  unfold semOpen
  rw [meets_bind]
  refine (findSemName_asks name).mono ?_
  rintro found s' ⟨rfl, h, asked, rfl⟩
  rw [meets_bind]
  refine acquireAllSems_any.mono ?_
  rintro _ s' ⟨isOpen, rfl⟩
  obtain ⟨heap, ⟨semId, semQueue, allSemsLock⟩, pipes, procs, history⟩ := s
  obtain rfl : allSemsLock = 0 := isOpen
  cases found : State.findableName ⟨heap, ⟨semId, semQueue, 0⟩, pipes, procs, history⟩ name with
  | some sem => exact ⟨rfl, .attached found asked⟩
  | none =>
    simp only [meets_bind]
    refine (createSem_any initialValue name).mono ?_
    intro created s' creates
    cases creates with
    | refused short => exact ⟨trivial, .failed found asked (.refused short)⟩
    | unnamed granted short => exact ⟨trivial, .failed found asked (.unnamed granted short)⟩
    | made granted named => exact ⟨trivial, .made found asked granted named⟩

end QuesOs.Kernel
