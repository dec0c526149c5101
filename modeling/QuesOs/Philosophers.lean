import Mathlib.Logic.Function.Basic
import Mathlib.Logic.Relation

/-! The dining philosophers of `phylo.c`. Whatever is about the table is done between
`semWait(gateMutex)` and `semPost(gateMutex)`, one statement at a time, and everybody
may run between any two statements. Semaphores are counters that are waited for
while they are 0. -/
namespace QuesOs.Philosophers

/-- `philo_state`. -/
inductive PhiloState where
  | waiting
  | deciding
  | eating
  deriving DecidableEq

def MAX_PHILO : Nat := 15
def INITIAL_PHILO : Nat := 5

/-- What `testEat` does next. -/
inductive Testing where
  | own
  | left
  | right
  | marks
  | posts
  deriving DecidableEq

/-- Which of the three calls of `testEat`: that of `philoWait`, or one of `philoRest`. -/
inductive TestCall where
  | own
  | left
  | right
  deriving DecidableEq

/-- What a philosopher does next. -/
inductive Pc where
  /-- `semWait(gateMutex)` of `philoWait`. -/
  | waitsGate
  /-- `state = WAITING`. -/
  | asks
  | tests (call : TestCall) (index : Nat) (testing : Testing)
  /-- `semPost(gateMutex)` of `philoWait`. -/
  | leavesGate
  /-- `semWait(philosopher[index].semId)`. -/
  | waitsOwn
  /-- `philoWait` has returned, and `philoRest` is not called yet. -/
  | eats
  /-- `semWait(gateMutex)` of `philoRest`. -/
  | restsGate
  /-- `state = DECIDING`. -/
  | decides
  /-- `semPost(gateMutex)` of `philoRest`. -/
  | freesGate
  deriving DecidableEq

/-- What the process at the keyboard does next: wait for a key, or go on in
`addPhilosofer` or `removePhilosofer`. -/
inductive Main where
  | ready
  | addWaits
  | addSeats
  | addStarts
  | addCounts
  | addPosts
  | removeWaits
  | removeKills
  | removeCounts
  | removePosts
  deriving DecidableEq

/-- `units` are the values of the philosophers' semaphores; a philosopher without a
`pc` has no process. -/
structure Table where
  currentPhilosofers : Nat
  state : Nat → PhiloState
  units : Nat → Nat
  gateMutex : Nat
  pc : Nat → Option Pc
  main : Main
  printing : Bool

/-- `LEFT`. -/
def LEFT (currentPhilosofers i : Nat) : Nat := (i + currentPhilosofers - 1) % currentPhilosofers

/-- `RIGHT`. -/
def RIGHT (currentPhilosofers i : Nat) : Nat := (i + 1) % currentPhilosofers

namespace Table

/-- One statement of `testEat`, and the next one. -/
def testEat (s : Table) (index : Nat) : Testing → Table × Option Testing
  | .own => (s, if s.state index = .waiting then some .left else none)
  | .left => (s, if s.state (LEFT s.currentPhilosofers index) ≠ .eating then some .right else none)
  | .right => (s, if s.state (RIGHT s.currentPhilosofers index) ≠ .eating then some .marks else none)
  | .marks => ({ s with state := Function.update s.state index .eating }, some .posts)
  | .posts => ({ s with units := Function.update s.units index (s.units index + 1) }, none)

def goTo (s : Table) (i : Nat) (pc : Pc) : Table := { s with pc := Function.update s.pc i (some pc) }

/-- `semWait(gateMutex)`. -/
def enterGate (s : Table) : Option Table :=
  if 0 < s.gateMutex then some { s with gateMutex := s.gateMutex - 1 } else none

/-- `semPost(gateMutex)`. -/
def exitGate (s : Table) : Table := { s with gateMutex := s.gateMutex + 1 }

/-- What follows a call of `testEat`. -/
def afterTest (s : Table) (i : Nat) : TestCall → Pc
  | .own => .leavesGate
  | .left => .tests .right (RIGHT s.currentPhilosofers i) .own
  | .right => .freesGate

/-- A step of `philoMain` of philosopher `i`. -/
def philosopher (s : Table) (i : Nat) : Option Table := do
  match ← s.pc i with
  | .waitsGate => return (← s.enterGate).goTo i .asks
  | .asks => return { s with state := Function.update s.state i .waiting }.goTo i (.tests .own i .own)
  | .tests call index testing =>
    match s.testEat index testing with
    | (s', some testing') => return s'.goTo i (.tests call index testing')
    | (s', none) => return s'.goTo i (s.afterTest i call)
  | .leavesGate => return s.exitGate.goTo i .waitsOwn
  | .waitsOwn =>
    if 0 < s.units i then
      return { s with units := Function.update s.units i (s.units i - 1) }.goTo i .eats
    else none
  | .eats => return s.goTo i .restsGate
  | .restsGate => return (← s.enterGate).goTo i .decides
  | .decides =>
    return { s with state := Function.update s.state i .deciding }.goTo i
      (.tests .left (LEFT s.currentPhilosofers i) .own)
  | .freesGate => return s.exitGate.goTo i .waitsGate

/-- A step of `printTable`. -/
def printTable (s : Table) : Option Table :=
  if s.printing then some { s.exitGate with printing := false } else do
    return { (← s.enterGate) with printing := true }

/-- `addPhilosofer` is called; `created` is whether `semInit` succeeds. -/
def addPhilosofer (s : Table) (created : Bool) : Option Table :=
  if s.main ≠ .ready then none
  else if s.currentPhilosofers = MAX_PHILO ∨ created = false then some s
  else some { s with units := Function.update s.units s.currentPhilosofers 1, main := .addWaits }

/-- `removePhilosofer` is called. -/
def removePhilosofer (s : Table) : Option Table :=
  if s.main ≠ .ready then none
  else if s.currentPhilosofers = INITIAL_PHILO then some s
  else some { s with main := .removeWaits }

/-- The next step of `addPhilosofer` or `removePhilosofer`; `started` is whether
`startTask` succeeds. -/
def goOn (s : Table) (started : Bool) : Option Table := do
  match s.main with
  | .ready => none
  | .addWaits => return { (← s.enterGate) with main := .addSeats }
  | .addSeats =>
    return { s with state := Function.update s.state s.currentPhilosofers .deciding, main := .addStarts }
  | .addStarts =>
    if started then return { s.goTo s.currentPhilosofers .waitsGate with main := .addCounts }
    else return { s with main := .addPosts }
  | .addCounts => return { s with currentPhilosofers := s.currentPhilosofers + 1, main := .addPosts }
  | .addPosts => return { s.exitGate with main := .ready }
  | .removeWaits => return { (← s.enterGate) with main := .removeKills }
  | .removeKills =>
    return { s with pc := Function.update s.pc (s.currentPhilosofers - 1) none, main := .removeCounts }
  | .removeCounts => return { s with currentPhilosofers := s.currentPhilosofers - 1, main := .removePosts }
  | .removePosts => return { s.exitGate with main := .ready }

end Table

inductive Act where
  | philosopher (i : Nat)
  | printTable
  | addPhilosofer (created : Bool)
  | removePhilosofer
  | goOn (started : Bool)

def Table.step (s : Table) : Act → Option Table
  | .philosopher i => s.philosopher i
  | .printTable => s.printTable
  | .addPhilosofer created => s.addPhilosofer created
  | .removePhilosofer => s.removePhilosofer
  | .goOn started => s.goOn started

/-- The table when `phylo` first waits for a key: five philosophers, each with a
semaphore of value 1, and the gate open. -/
def Table.start (old : Nat → PhiloState) : Table where
  currentPhilosofers := INITIAL_PHILO
  state i := if i < INITIAL_PHILO then .deciding else old i
  units _ := 1
  gateMutex := 1
  pc i := if i < INITIAL_PHILO then some .waitsGate else none
  main := .ready
  printing := false

/-- A step among those that are allowed. -/
def Step (allowed : Table → Act → Prop) (s s' : Table) : Prop := ∃ act, allowed s act ∧ s.step act = some s'

/-- The acts one after the other, while they are allowed. -/
def Table.play (allowed : Table → Act → Prop) [∀ s act, Decidable (allowed s act)] : List Act → Table → Option Table
  | [], s => some s
  | act :: rest, s => if allowed s act then (s.step act).bind (play allowed rest) else none

theorem play_run {allowed : Table → Act → Prop} [∀ s act, Decidable (allowed s act)]
    (played : Table.play allowed acts s = some s') : Relation.ReflTransGen (Step allowed) s s' := by
  induction acts generalizing s with
  | nil =>
    cases played
    exact .refl
  | cons act rest ih =>
    unfold Table.play at played
    split at played
    · rename_i may
      obtain ⟨middle, stepped, later⟩ := Option.bind_eq_some_iff.mp played
      exact .head ⟨act, may, stepped⟩ (ih later)
    · cases played

/-- Nobody eats next to one who eats. -/
def Table.Polite (s : Table) : Prop :=
  ∀ i j, i < s.currentPhilosofers → j < s.currentPhilosofers →
    j = LEFT s.currentPhilosofers i ∨ j = RIGHT s.currentPhilosofers i → ¬(s.pc i = some .eats ∧ s.pc j = some .eats)

/-- A philosopher who is granted a meal, and has not called `philoRest`. -/
def Table.Dines (s : Table) (i : Nat) : Prop :=
  s.state i = .eating ∧ ∃ pc, s.pc i = some pc ∧ pc ≠ .restsGate ∧ pc ≠ .decides

instance (s : Table) (i : Nat) : Decidable (s.Dines i) :=
  decidable_of_iff (s.state i = .eating ∧ (s.pc i).any (fun pc => pc ≠ .restsGate ∧ pc ≠ .decides)) <| by
    simp [Table.Dines, Option.any_eq_true]

/-- A philosopher gets past its own semaphore only once its meal is granted, and a
chair is not taken away from between two who dine. -/
def Table.Careful (s : Table) : Act → Prop
  | .philosopher i => s.pc i = some .waitsOwn → s.state i = .eating
  | .goOn _ => s.main = .removeCounts → ¬(s.Dines (s.currentPhilosofers - 2) ∧ s.Dines 0)
  | _ => True

instance (s : Table) : (act : Act) → Decidable (s.Careful act)
  | .philosopher i => inferInstanceAs (Decidable (s.pc i = some .waitsOwn → s.state i = .eating))
  | .goOn _ =>
    inferInstanceAs (Decidable (s.main = .removeCounts → ¬(s.Dines (s.currentPhilosofers - 2) ∧ s.Dines 0)))
  | .printTable | .addPhilosofer _ | .removePhilosofer => .isTrue trivial

/-! ## The gate -/

def Pc.inside : Pc → Bool
  | .asks | .tests .. | .leavesGate | .decides | .freesGate => true
  | _ => false

def Main.inside : Main → Bool
  | .addSeats | .addStarts | .addCounts | .addPosts | .removeKills | .removeCounts | .removePosts => true
  | _ => false

inductive Party where
  | philosopher (i : Nat)
  | main
  | printTable
  deriving DecidableEq

/-- The party is between `semWait(gateMutex)` and `semPost(gateMutex)`. -/
def Table.inside (s : Table) : Party → Bool
  | .philosopher i => (s.pc i).any Pc.inside
  | .main => s.main.inside
  | .printTable => s.printing

/-- At most one party is inside, and the gate is open when nobody is. -/
def Table.Exclusive (s : Table) : Prop :=
  ∃ holder : Option Party, (∀ a, s.inside a = true ↔ holder = some a) ∧ s.gateMutex = if holder = none then 1 else 0

/-! ## A table in order -/

/-- What `testEat` has found out by now. -/
def Table.Knows (s : Table) (index : Nat) : Testing → Prop
  | .right => s.state (LEFT s.currentPhilosofers index) ≠ .eating
  | .marks => s.state (LEFT s.currentPhilosofers index) ≠ .eating ∧ s.state (RIGHT s.currentPhilosofers index) ≠ .eating
  | _ => True

structure Table.Ordered (s : Table) : Prop where
  exclusive : s.Exclusive
  size : INITIAL_PHILO ≤ s.currentPhilosofers
  shrinks : s.main = .removeWaits ∨ s.main = .removeKills ∨ s.main = .removeCounts →
  INITIAL_PHILO < s.currentPhilosofers
  seated : ∀ i pc, s.pc i = some pc → i < s.currentPhilosofers ∨ (s.main = .addCounts ∧ i = s.currentPhilosofers)
  dead : s.main = .removeCounts → s.pc (s.currentPhilosofers - 1) = none
  fresh : s.main = .addStarts ∨ s.main = .addCounts → s.state s.currentPhilosofers = .deciding
  meal : ∀ i, s.pc i = some .eats → s.state i = .eating
  tests : ∀ i call index testing, s.pc i = some (.tests call index testing) →
    index < s.currentPhilosofers ∧ s.Knows index testing
  apart : ∀ i < s.currentPhilosofers, ¬(s.Dines i ∧ s.Dines (RIGHT s.currentPhilosofers i))

/-- The philosopher has rested, and has not asked for a meal since. -/
def Pc.rests : Pc → Bool
  | .waitsGate | .asks | .tests .left .. | .tests .right .. | .freesGate => true
  | _ => false

/-- What `testEat` has found out by now, about the philosopher itself and its neighbours. -/
def Table.Finds (s : Table) (index : Nat) (testing : Testing) : Prop :=
  (testing ≠ .own → testing ≠ .posts → s.state index = .waiting) ∧ s.Knows index testing

/-- A table in order, whatever has happened to it. -/
structure Table.Kept (s : Table) : Prop where
  exclusive : s.Exclusive
  size : INITIAL_PHILO ≤ s.currentPhilosofers
  shrinks : s.main = .removeWaits ∨ s.main = .removeKills ∨ s.main = .removeCounts →
  INITIAL_PHILO < s.currentPhilosofers
  seated : ∀ i pc, s.pc i = some pc → i < s.currentPhilosofers ∨ (s.main = .addCounts ∧ i = s.currentPhilosofers)
  dead : s.main = .removeCounts → s.pc (s.currentPhilosofers - 1) = none
  fresh : s.main = .addStarts ∨ s.main = .addCounts → s.state s.currentPhilosofers = .deciding
  tests : ∀ i call index testing, s.pc i = some (.tests call index testing) →
    index < s.currentPhilosofers ∧ s.Finds index testing
  resting : ∀ i pc, s.pc i = some pc → pc.rests = true → s.state i = .deciding

/-- What a step of philosopher `i` can do: where it goes, and the states and the gate it leaves. -/
inductive Stride (s : Table) (i : Nat) : Pc → Pc → (Nat → PhiloState) → Nat → Prop
  | enters {pc pc' : Pc} (ways : pc = .waitsGate ∧ pc' = .asks ∨ pc = .restsGate ∧
    pc' = .decides) (isOpen : 0 < s.gateMutex) :
    Stride s i pc pc' s.state (s.gateMutex - 1)
  | leaves {pc pc' : Pc} (ways : pc = .leavesGate ∧ pc' = .waitsOwn ∨ pc = .freesGate ∧ pc' = .waitsGate) :
    Stride s i pc pc' s.state (s.gateMutex + 1)
  | strolls {pc pc' : Pc} (ways : pc = .waitsOwn ∧ pc' = .eats ∨ pc = .eats ∧ pc' = .restsGate) :
    Stride s i pc pc' s.state s.gateMutex
  | asks : Stride s i .asks (.tests .own i .own) (Function.update s.state i .waiting) s.gateMutex
  | decides : Stride s i .decides (.tests .left (LEFT s.currentPhilosofers i) .own)
      (Function.update s.state i .deciding) s.gateMutex
  | looks (testing' : Testing) (found : s.Finds index testing → s.Finds index testing') (more : testing' ≠ .posts) :
    Stride s i (.tests call index testing) (.tests call index testing') s.state s.gateMutex
  | refused (found : s.state index = .waiting →
      s.state (LEFT s.currentPhilosofers index) = .eating ∨ s.state (RIGHT s.currentPhilosofers index) = .eating) :
    Stride s i (.tests call index testing) (s.afterTest i call) s.state s.gateMutex
  | marks : Stride s i (.tests call index .marks) (.tests call index .posts)
      (Function.update s.state index .eating) s.gateMutex
  | posts : Stride s i (.tests call index .posts) (s.afterTest i call) s.state s.gateMutex

section
variable {s s' : Table} {pc pc' : Pc} {states : Nat → PhiloState}

theorem Table.Exclusive.only (exclusive : s.Exclusive) (here : s.inside a = true)
    (there : s.inside b = true) : a = b := by
  obtain ⟨holder, only, -⟩ := exclusive
  exact Option.some.inj (((only a).mp here).symm.trans ((only b).mp there))

theorem Table.Exclusive.stays (exclusive : s.Exclusive) (same : ∀ a, s'.inside a = s.inside a)
    (gate : s'.gateMutex = s.gateMutex) : s'.Exclusive := by
  obtain ⟨holder, only, free⟩ := exclusive
  exact ⟨holder, fun a => by rw [same, only], gate.trans free⟩

theorem Table.Exclusive.enters (exclusive : s.Exclusive) (a : Party) (isOpen : 0 < s.gateMutex)
    (more : ∀ b, s'.inside b = (s.inside b || decide (b = a))) (gate : s'.gateMutex = s.gateMutex - 1) :
    s'.Exclusive := by
  obtain ⟨holder, only, free⟩ := exclusive
  have nobody : holder = none := by
    by_contra taken
    rw [if_neg taken] at free
    omega
  subst nobody
  refine ⟨some a, fun b => ?_, by rw [gate, free]; rfl⟩
  have out : s.inside b = false := by
    refine Bool.eq_false_iff.mpr fun there => ?_
    cases (only b).mp there
  rw [more, out, Bool.false_or, decide_eq_true_iff, Option.some.injEq, eq_comm]

theorem Table.Exclusive.leaves (exclusive : s.Exclusive) (a : Party) (here : s.inside a = true)
    (fewer : ∀ b, s'.inside b = (s.inside b && !decide (b = a))) (gate : s'.gateMutex = s.gateMutex + 1) :
    s'.Exclusive := by
  obtain ⟨holder, only, free⟩ := exclusive
  obtain rfl := (only a).mp here
  refine ⟨none, fun b => ?_, by rw [gate, free]; rfl⟩
  rw [fewer, Bool.and_eq_true, only, Option.some.injEq]
  constructor
  · rintro ⟨rfl, other⟩
    simp at other
  · rintro ⟨⟩

theorem right_of_lt (small : i < n) : RIGHT n i = if i + 1 = n then 0 else i + 1 := by
  unfold RIGHT
  split
  · rename_i last
    rw [last, Nat.mod_self]
  · exact Nat.mod_eq_of_lt (by omega)

theorem left_of_lt (small : i < n) : LEFT n i = if i = 0 then n - 1 else i - 1 := by
  unfold LEFT
  split
  · rename_i first
    rw [first, Nat.zero_add]
    exact Nat.mod_eq_of_lt (by omega)
  · rw [show i + n - 1 = i - 1 + n by omega, Nat.add_mod_right]
    exact Nat.mod_eq_of_lt (by omega)

theorem right_left (small : i < n) : RIGHT n (LEFT n i) = i := by
  rw [left_of_lt small]
  split
  · rw [right_of_lt (by omega), if_pos (by omega)]
    omega
  · rw [right_of_lt (by omega), if_neg (by omega)]
    omega

theorem left_lt (small : i < n) : LEFT n i < n := Nat.mod_lt _ (Nat.lt_of_le_of_lt (Nat.zero_le _) small)

theorem right_lt (small : i < n) : RIGHT n i < n := Nat.mod_lt _ (Nat.lt_of_le_of_lt (Nat.zero_le _) small)

theorem left_right (small : i < n) : LEFT n (RIGHT n i) = i := by
  rw [right_of_lt small]
  split
  · rw [left_of_lt (by omega), if_pos rfl]
    omega
  · rw [left_of_lt (by omega), if_neg (by omega)]
    omega

theorem inside_goTo (s : Table) (i : Nat) (pc : Pc) (a : Party) :
    (s.goTo i pc).inside a = if a = .philosopher i then pc.inside else s.inside a := by
  cases a with
  | philosopher j =>
    by_cases here : j = i
    · simp [Table.inside, Table.goTo, here]
    · simp [Table.inside, Table.goTo, here]
  | main => rfl
  | printTable => rfl

theorem inside_philosopher (here : s.pc i = some pc) : s.inside (.philosopher i) = pc.inside := by
  simp [Table.inside, here]

/-- One who is at the gate goes in. -/
theorem Table.Exclusive.goesIn (exclusive : s.Exclusive) (within : pc'.inside = true)
    (entered : s.enterGate = some s') :
    (s'.goTo i pc').Exclusive := by
  unfold Table.enterGate at entered
  split at entered
  · rename_i isOpen
    cases entered
    refine exclusive.enters (.philosopher i) isOpen (fun b => ?_) rfl
    rw [inside_goTo]
    by_cases same : b = .philosopher i
    · simp [same, within]
    · simp only [same, if_false, decide_false, Bool.or_false]
      rfl
  · cases entered

theorem Table.Exclusive.goesOut (exclusive : s.Exclusive) (here : s.pc i = some pc) (within : pc.inside = true)
    (outside : pc'.inside = false) : (s.exitGate.goTo i pc').Exclusive := by
  refine exclusive.leaves (.philosopher i) (by rw [inside_philosopher here, within]) (fun b => ?_) rfl
  rw [inside_goTo]
  by_cases same : b = .philosopher i
  · simp [same, outside]
  · simp only [same, if_false, decide_false, Bool.not_false, Bool.and_true]
    rfl

theorem Table.Exclusive.goesOn (exclusive : s.Exclusive) (here : s.pc i = some pc) (same : pc'.inside = pc.inside) :
    (s.goTo i pc').Exclusive := by
  refine exclusive.stays (fun b => ?_) rfl
  rw [inside_goTo]
  split
  · rename_i own
    rw [own, inside_philosopher here, same]
  · rfl
/-! ## Steps of a philosopher -/

theorem enterGate_some (entered : s.enterGate = some s') : 0 < s.gateMutex ∧
    s' = { s with gateMutex := s.gateMutex - 1 } := by
  unfold Table.enterGate at entered
  split at entered
  · rename_i isOpen
    cases entered
    exact ⟨isOpen, rfl⟩
  · cases entered

/-- The pieces of the table that a philosopher's step leaves alone. -/
def Table.SameHouse (s s' : Table) : Prop :=
  s'.currentPhilosofers = s.currentPhilosofers ∧ s'.main = s.main ∧ s'.printing = s.printing

theorem stride_of_tests (here : s.pc i = some (.tests call index testing)) (went : s.philosopher i = some s') :
    ∃ pc', Stride s i (.tests call index testing) pc' s'.state s'.gateMutex ∧
      s'.pc = Function.update s.pc i (some pc') ∧ s.SameHouse s' := by
  unfold Table.philosopher at went
  rw [here] at went
  dsimp only [Option.bind_eq_bind, Option.bind_some] at went
  cases testing with
  | own =>
    by_cases waits : s.state index = .waiting
    · simp only [Table.testEat, if_pos waits] at went
      cases went
      exact ⟨_, .looks .left (fun _ => ⟨fun _ _ => waits, trivial⟩) nofun, rfl, rfl, rfl, rfl⟩
    · simp only [Table.testEat, if_neg waits] at went
      cases went
      exact ⟨_, .refused fun waiting => (waits waiting).elim, rfl, rfl, rfl, rfl⟩
  | left =>
    by_cases free : s.state (LEFT s.currentPhilosofers index) ≠ .eating
    · simp only [Table.testEat, if_pos free] at went
      cases went
      exact ⟨_, .looks .right (fun finds => ⟨fun _ _ => finds.1 nofun nofun, free⟩) nofun, rfl, rfl, rfl, rfl⟩
    · simp only [Table.testEat, if_neg free] at went
      cases went
      exact ⟨_, .refused fun _ => .inl (Decidable.not_not.mp free), rfl, rfl, rfl, rfl⟩
  | right =>
    by_cases free : s.state (RIGHT s.currentPhilosofers index) ≠ .eating
    · simp only [Table.testEat, if_pos free] at went
      cases went
      exact ⟨_, .looks .marks (fun finds => ⟨fun _ _ => finds.1 nofun nofun, finds.2, free⟩) nofun, rfl, rfl, rfl, rfl⟩
    · simp only [Table.testEat, if_neg free] at went
      cases went
      exact ⟨_, .refused fun _ => .inr (Decidable.not_not.mp free), rfl, rfl, rfl, rfl⟩
  | marks =>
    cases went
    exact ⟨_, .marks, rfl, rfl, rfl, rfl⟩
  | posts =>
    cases went
    exact ⟨_, .posts, rfl, rfl, rfl, rfl⟩

theorem stride_of_philosopher (went : s.philosopher i = some s') :
    ∃ pc pc', s.pc i = some pc ∧ Stride s i pc pc' s'.state s'.gateMutex ∧
      s'.pc = Function.update s.pc i (some pc') ∧ s.SameHouse s' := by
  have way := went
  unfold Table.philosopher at went
  obtain ⟨pc, here, went⟩ := Option.bind_eq_some_iff.mp went
  refine ⟨pc, ?_⟩
  cases pc with
  | waitsGate =>
    obtain ⟨s₁, entered, same⟩ := Option.bind_eq_some_iff.mp went
    obtain ⟨isOpen, rfl⟩ := enterGate_some entered
    cases same
    exact ⟨_, here, .enters (.inl ⟨rfl, rfl⟩) isOpen, rfl, rfl, rfl, rfl⟩
  | asks =>
    cases went
    exact ⟨_, here, .asks, rfl, rfl, rfl, rfl⟩
  | tests call index testing =>
    obtain ⟨pc', stride, rest⟩ := stride_of_tests here way
    exact ⟨pc', here, stride, rest⟩
  | leavesGate =>
    cases went
    exact ⟨_, here, .leaves (.inl ⟨rfl, rfl⟩), rfl, rfl, rfl, rfl⟩
  | waitsOwn =>
    dsimp only at went
    split at went
    · cases went
      exact ⟨_, here, .strolls (.inl ⟨rfl, rfl⟩), rfl, rfl, rfl, rfl⟩
    · cases went
  | eats =>
    cases went
    exact ⟨_, here, .strolls (.inr ⟨rfl, rfl⟩), rfl, rfl, rfl, rfl⟩
  | restsGate =>
    obtain ⟨s₁, entered, same⟩ := Option.bind_eq_some_iff.mp went
    obtain ⟨isOpen, rfl⟩ := enterGate_some entered
    cases same
    exact ⟨_, here, .enters (.inr ⟨rfl, rfl⟩) isOpen, rfl, rfl, rfl, rfl⟩
  | decides =>
    cases went
    exact ⟨_, here, .decides, rfl, rfl, rfl, rfl⟩
  | freesGate =>
    cases went
    exact ⟨_, here, .leaves (.inr ⟨rfl, rfl⟩), rfl, rfl, rfl, rfl⟩

/-- A philosopher's step keeps the gate for one at a time. -/
theorem Stride.exclusive (stride : Stride s i pc pc' s'.state s'.gateMutex) (exclusive : s.Exclusive)
    (here : s.pc i = some pc) (pcs : s'.pc = Function.update s.pc i (some pc'))
    (house : s.SameHouse s') : s'.Exclusive := by
  obtain ⟨-, main, printing⟩ := house
  have goes : ∀ gate, Table.Exclusive { s.goTo i pc' with gateMutex := gate } → s'.gateMutex = gate → s'.Exclusive := by
    intro gate moved same
    refine moved.stays (fun a => ?_) same
    cases a <;> simp [Table.inside, Table.goTo, pcs, main, printing]
  generalize after : s'.gateMutex = gate at stride
  generalize s'.state = states at stride
  refine goes gate ?_ after
  cases stride with
  | enters ways isOpen =>
    have entered : s.enterGate = some { s with gateMutex := s.gateMutex - 1 } := if_pos isOpen
    refine exclusive.goesIn ?_ entered
    rcases ways with ⟨-, rfl⟩ | ⟨-, rfl⟩ <;> rfl
  | leaves ways =>
    apply exclusive.goesOut here
    · rcases ways with ⟨rfl, -⟩ | ⟨rfl, -⟩ <;> rfl
    · rcases ways with ⟨-, rfl⟩ | ⟨-, rfl⟩ <;> rfl
  | strolls ways =>
    apply exclusive.goesOn here
    rcases ways with ⟨rfl, rfl⟩ | ⟨rfl, rfl⟩ <;> rfl
  | asks | decides | looks | marks => exact exclusive.goesOn here rfl
  | @refused _ call | @posts call =>
    apply exclusive.goesOn here
    cases call <;> rfl

/-- While one philosopher is inside, the others and the process at the keyboard are not. -/
theorem Table.Kept.alone (kept : s.Kept) (here : s.pc i = some pc) (within : pc.inside = true)
    (there : s.pc j = some pc')
    (also : pc'.inside = true) : j = i := by
  have same := kept.exclusive.only (a := .philosopher j) (b := .philosopher i)
    (by rw [inside_philosopher there, also]) (by rw [inside_philosopher here, within])
  exact Party.philosopher.inj same

theorem Table.Kept.outside (kept : s.Kept) (here : s.pc i = some pc) (within : pc.inside = true) :
    s.main.inside = false := by
  refine Bool.eq_false_iff.mpr fun there => ?_
  have same := kept.exclusive.only (a := .main) (b := .philosopher i) there (by rw [inside_philosopher here, within])
  cases same

theorem Table.Kept.small (kept : s.Kept) (here : s.pc i = some pc) (within : pc.inside = true) :
    i < s.currentPhilosofers := by
  refine (kept.seated i pc here).resolve_right fun ⟨adding, _⟩ => ?_
  have outside := kept.outside here within
  rw [adding] at outside
  cases outside

/-- A philosopher goes on; if it writes a state, it is inside, and the state is its own or one that waits. -/
theorem Table.Kept.goes (kept : s.Kept) (here : s.pc i = some pc) (exclusive : s'.Exclusive)
    (pcs : s'.pc = Function.update s.pc i (some pc')) (house : s.SameHouse s')
    (states : s'.state = s.state ∨ pc.inside = true ∧ ∀ j, j ≠ i → s'.state j = s.state j ∨ s.state j = .waiting)
    (tests : ∀ call index testing, pc' = .tests call index testing →
      index < s.currentPhilosofers ∧ s'.Finds index testing)
    (resting : pc'.rests = true → s'.state i = .deciding) : s'.Kept := by
  obtain ⟨current, main, -⟩ := house
  have each : ∀ j q, s'.pc j = some q → (j = i ∧ q = pc') ∨ (j ≠ i ∧ s.pc j = some q) := by
    intro j q there
    rw [pcs] at there
    by_cases own : j = i
    · subst own
      rw [Function.update_self, Option.some.injEq] at there
      exact .inl ⟨rfl, there.symm⟩
    · rw [Function.update_of_ne own] at there
      exact .inr ⟨own, there⟩
  constructor
  case exclusive => exact exclusive
  case size => exact current ▸ kept.size
  case shrinks =>
    rw [main, current]
    exact kept.shrinks
  case seated =>
    intro j q there
    rw [main, current]
    rcases each j q there with ⟨rfl, -⟩ | ⟨-, was⟩
    · exact kept.seated j pc here
    · exact kept.seated j q was
  case dead =>
    intro removing
    rw [main] at removing
    have empty := kept.dead removing
    rw [current, pcs, Function.update_of_ne, empty]
    rintro rfl
    cases empty.symm.trans here
  case fresh =>
    intro adding
    rw [main] at adding
    rcases states with same | ⟨within, -⟩
    · rw [current, same]
      exact kept.fresh adding
    · have outside := kept.outside here within
      rcases adding with adding | adding <;> rw [adding] at outside <;> cases outside
  case tests =>
    intro j call index testing there
    rw [current]
    rcases each j _ there with ⟨-, same⟩ | ⟨other, was⟩
    · exact tests call index testing same.symm
    · rcases states with same | ⟨within, -⟩
      · have knows : s'.Knows index testing = s.Knows index testing := by
          cases testing <;> simp [Table.Knows, current, same]
        rw [Table.Finds, knows, same]
        exact kept.tests j call index testing was
      · exact (other (kept.alone here within was rfl)).elim
  case resting =>
    intro j q there rests
    rcases each j q there with ⟨rfl, rfl⟩ | ⟨other, was⟩
    · exact resting rests
    · have before := kept.resting j q was rests
      rcases states with same | ⟨-, others⟩
      · rw [same, before]
      · rcases others j other with same | waits
        · rw [same, before]
        · cases waits.symm.trans before

theorem kept_philosopher (kept : s.Kept) (went : s.philosopher i = some s') : s'.Kept := by
  obtain ⟨pc, pc', here, stride, pcs, house⟩ := stride_of_philosopher went
  have exclusive := stride.exclusive kept.exclusive here pcs house
  have after : ∀ call index testing, pc = .tests call index testing → s'.state = s.state → pc' = s.afterTest i call →
      s'.Kept := by
    rintro call index testing rfl same rfl
    refine kept.goes here exclusive pcs house (.inl same) (fun call' index' testing' next => ?_) fun rests => ?_
    · cases call <;> cases next
      refine ⟨right_lt (kept.small here rfl), ?_⟩
      exact ⟨nofun, trivial⟩
    · rw [same]
      cases call
      · cases rests
      · exact kept.resting i _ here rfl
      · exact kept.resting i _ here rfl
  generalize before : s'.state = states at stride
  generalize s'.gateMutex = gate at stride
  cases stride with
  | enters ways isOpen =>
    apply kept.goes here exclusive pcs house (.inl before)
    · rcases ways with ⟨-, rfl⟩ | ⟨-, rfl⟩ <;> nofun
    · rw [before]
      rcases ways with ⟨rfl, rfl⟩ | ⟨-, rfl⟩
      · exact fun _ => kept.resting i _ here rfl
      · nofun
  | leaves ways =>
    apply kept.goes here exclusive pcs house (.inl before)
    · rcases ways with ⟨-, rfl⟩ | ⟨-, rfl⟩ <;> nofun
    · rw [before]
      rcases ways with ⟨-, rfl⟩ | ⟨rfl, rfl⟩
      · nofun
      · exact fun _ => kept.resting i _ here rfl
  | strolls ways =>
    apply kept.goes here exclusive pcs house (.inl before)
    · rcases ways with ⟨-, rfl⟩ | ⟨-, rfl⟩ <;> nofun
    · rcases ways with ⟨-, rfl⟩ | ⟨-, rfl⟩ <;> nofun
  | asks =>
    refine kept.goes here exclusive pcs house (.inr ⟨rfl, fun j other => .inl ?_⟩)
      (fun call' index' testing' next => ?_) nofun
    · rw [before, Function.update_of_ne other]
    · cases next
      exact ⟨kept.small here rfl, nofun, trivial⟩
  | decides =>
    refine kept.goes here exclusive pcs house (.inr ⟨rfl, fun j other => .inl ?_⟩)
      (fun call' index' testing' next => ?_)
      fun _ => ?_
    · rw [before, Function.update_of_ne other]
    · cases next
      exact ⟨left_lt (kept.small here rfl), nofun, trivial⟩
    · rw [before, Function.update_self]
  | @looks index testing call testing' found more =>
    obtain ⟨small, finds⟩ := kept.tests i call index testing here
    refine kept.goes here exclusive pcs house (.inl before) (fun call' index' testing'' next => ?_) fun rests => ?_
    · cases next
      have knows : s'.Knows index testing' = s.Knows index testing' := by
        cases testing' <;> simp [Table.Knows, house.1, before]
      rw [Table.Finds, knows, before]
      exact ⟨small, found finds⟩
    · rw [before]
      cases call
      · cases rests
      · exact kept.resting i _ here rfl
      · exact kept.resting i _ here rfl
  | refused => exact after _ _ _ rfl before rfl
  | @marks call index =>
    obtain ⟨small, finds⟩ := kept.tests i call index .marks here
    have waits : s.state index = .waiting := finds.1 nofun nofun
    refine kept.goes here exclusive pcs house (.inr ⟨rfl, fun j _ => ?_⟩)
      (fun call' index' testing' next => ?_) fun rests => ?_
    · by_cases granted : j = index
      · exact .inr (granted ▸ waits)
      · exact .inl (by rw [before, Function.update_of_ne granted])
    · cases next
      exact ⟨small, nofun, trivial⟩
    · -- The philosopher itself has rested, so it is not the one that waits.
      have rested : s.state i = .deciding := by
        cases call
        · cases rests
        · exact kept.resting i _ here rfl
        · exact kept.resting i _ here rfl
      rw [before, Function.update_of_ne, rested]
      rintro rfl
      cases waits.symm.trans rested
  | posts => exact after _ _ _ rfl before rfl

/-! ## Steps of the others -/

/-- Somebody else goes in or out, or takes another step that is not about the table. -/
theorem Table.Kept.beside (kept : s.Kept) (exclusive : s'.Exclusive)
    (current : s'.currentPhilosofers = s.currentPhilosofers) (states : s'.state = s.state) (pcs : s'.pc = s.pc)
    (shrinks : s'.main = .removeWaits ∨ s'.main = .removeKills ∨ s'.main = .removeCounts →
      INITIAL_PHILO < s.currentPhilosofers)
    (seats : s.main = .addCounts → s'.main = .addCounts) (dead : s'.main = .removeCounts → s.main = .removeCounts)
    (fresh : s'.main = .addStarts ∨ s'.main = .addCounts → s.main = .addStarts ∨ s.main = .addCounts) : s'.Kept := by
  have finds : ∀ index testing, s'.Finds index testing = s.Finds index testing := by
    intro index testing
    cases testing <;> simp [Table.Finds, Table.Knows, current, states]
  constructor
  case exclusive => exact exclusive
  case size => exact current ▸ kept.size
  case shrinks => exact current ▸ shrinks
  case seated =>
    intro i pc here
    rw [pcs] at here
    rw [current]
    exact (kept.seated i pc here).imp_right (And.imp_left seats)
  case dead =>
    intro removing
    rw [pcs, current]
    exact kept.dead (dead removing)
  case fresh =>
    intro adding
    rw [current, states]
    exact kept.fresh (fresh adding)
  case tests =>
    intro i call index testing here
    rw [pcs] at here
    rw [current, finds]
    exact kept.tests i call index testing here
  case resting =>
    intro i pc here rests
    rw [pcs] at here
    rw [states]
    exact kept.resting i pc here rests

theorem kept_printTable (kept : s.Kept) (went : s.printTable = some s') : s'.Kept := by
  have keeps : s'.Exclusive → s'.currentPhilosofers = s.currentPhilosofers → s'.state = s.state → s'.pc = s.pc →
      s'.main = s.main → s'.Kept := fun exclusive current states pcs main =>
    kept.beside exclusive current states pcs (main ▸ kept.shrinks) (by rw [main]; exact id) (by rw [main]; exact id)
      (by rw [main]; exact id)
  unfold Table.printTable at went
  split at went
  · rename_i printing
    cases went
    refine keeps (kept.exclusive.leaves .printTable printing (fun b => ?_) rfl) rfl rfl rfl rfl
    cases b <;> simp [Table.inside, Table.exitGate, printing]
  · rename_i resting
    obtain ⟨s₁, entered, same⟩ := Option.bind_eq_some_iff.mp went
    obtain ⟨isOpen, rfl⟩ := enterGate_some entered
    cases same
    refine keeps (kept.exclusive.enters .printTable isOpen (fun b => ?_) rfl) rfl rfl rfl rfl
    cases b <;> simp [Table.inside, resting]

theorem kept_addPhilosofer (kept : s.Kept) (went : s.addPhilosofer created = some s') : s'.Kept := by
  unfold Table.addPhilosofer at went
  split at went
  · cases went
  · rename_i notBusy
    have ready := Decidable.not_not.mp notBusy
    split at went
    · cases went
      exact kept
    · cases went
      refine kept.beside (kept.exclusive.stays (fun b => ?_) rfl) rfl rfl rfl ?_ ?_ ?_ ?_
      · cases b <;> simp [Table.inside, ready, Main.inside]
      · simp
      · simp [ready]
      · simp
      · simp

theorem kept_removePhilosofer (kept : s.Kept) (went : s.removePhilosofer = some s') : s'.Kept := by
  unfold Table.removePhilosofer at went
  split at went
  · cases went
  · rename_i notBusy
    have ready := Decidable.not_not.mp notBusy
    split at went
    · cases went
      exact kept
    · rename_i more
      cases went
      have size := kept.size
      refine kept.beside (kept.exclusive.stays (fun b => ?_) rfl) rfl rfl rfl (fun _ => ?_) ?_ ?_ ?_
      · cases b <;> simp [Table.inside, ready, Main.inside]
      · omega
      · simp [ready]
      · simp
      · simp

/-- While the process at the keyboard is inside, nobody tests. -/
theorem Table.Kept.nobody (kept : s.Kept) (within : s.main.inside = true) :
    s.pc i ≠ some (.tests call index testing) := by
  intro here
  have outside := kept.outside here rfl
  rw [within] at outside
  cases outside

theorem Table.Kept.at_table (kept : s.Kept) (notCounts : s.main ≠ .addCounts) (here : s.pc i = some pc) :
    i < s.currentPhilosofers :=
  (kept.seated i pc here).resolve_right fun adding => notCounts adding.1

theorem kept_seats (kept : s.Kept) (here : s.main = .addSeats) :
    Table.Kept { s with state := Function.update s.state s.currentPhilosofers .deciding, main := .addStarts } := by
  have within : s.main.inside = true := by rw [here]; rfl
  have seated : ∀ i pc, s.pc i = some pc → i < s.currentPhilosofers := fun i pc => kept.at_table (by rw [here]; nofun)
  constructor
  case exclusive =>
    refine kept.exclusive.stays (fun b => ?_) rfl
    cases b <;> simp [Table.inside, here, Main.inside]
  case size => exact kept.size
  case shrinks => simp
  case seated => exact fun i pc taken => .inl (seated i pc taken)
  case dead => simp
  case fresh => simp
  case tests => exact fun i call index testing there => (kept.nobody within there).elim
  case resting =>
    intro i pc taken rests
    have same := Function.update_of_ne (Nat.ne_of_lt (seated i pc taken)) PhiloState.deciding s.state
    exact same.trans (kept.resting i pc taken rests)

theorem kept_starts (kept : s.Kept) (here : s.main = .addStarts) :
    Table.Kept { s.goTo s.currentPhilosofers .waitsGate with main := .addCounts } := by
  have within : s.main.inside = true := by rw [here]; rfl
  have seated : ∀ i pc, s.pc i = some pc → i < s.currentPhilosofers := fun i pc => kept.at_table (by rw [here]; nofun)
  have empty : s.pc s.currentPhilosofers = none := by
    refine Option.eq_none_iff_forall_not_mem.mpr fun pc taken => ?_
    exact Nat.lt_irrefl _ (seated _ pc taken)
  have each : ∀ i pc, (s.goTo s.currentPhilosofers .waitsGate).pc i = some pc →
      (i = s.currentPhilosofers ∧ pc = .waitsGate) ∨ s.pc i = some pc := by
    intro i pc there
    by_cases new : i = s.currentPhilosofers
    · subst new
      simp only [Table.goTo, Function.update_self, Option.some.injEq] at there
      exact .inl ⟨rfl, there.symm⟩
    · exact .inr (by simpa [Table.goTo, new] using there)
  constructor
  case exclusive =>
    have stays : (s.goTo s.currentPhilosofers .waitsGate).Exclusive := by
      refine kept.exclusive.stays (fun b => ?_) rfl
      rw [inside_goTo]
      split
      · rename_i new
        rw [new, Table.inside, empty]
        rfl
      · rfl
    refine stays.stays (fun b => ?_) rfl
    cases b <;> simp [Table.inside, Table.goTo, here, Main.inside]
  case size => exact kept.size
  case shrinks => simp
  case seated =>
    intro i pc taken
    rcases each i pc taken with ⟨new, -⟩ | was
    · exact .inr ⟨rfl, new⟩
    · exact .inl (seated i pc was)
  case dead => simp
  case fresh => exact fun _ => kept.fresh (.inl here)
  case tests =>
    intro i call index testing there
    rcases each i _ there with ⟨-, new⟩ | was
    · cases new
    · exact (kept.nobody within was).elim
  case resting =>
    intro i pc taken rests
    rcases each i pc taken with ⟨rfl, -⟩ | was
    · exact kept.fresh (.inl here)
    · exact kept.resting i pc was rests

theorem kept_counts (kept : s.Kept) (here : s.main = .addCounts) :
    Table.Kept { s with currentPhilosofers := s.currentPhilosofers + 1, main := .addPosts } := by
  have within : s.main.inside = true := by rw [here]; rfl
  constructor
  case exclusive =>
    refine kept.exclusive.stays (fun b => ?_) rfl
    cases b <;> simp [Table.inside, here, Main.inside]
  case size => exact Nat.le_succ_of_le kept.size
  case shrinks => simp
  case seated =>
    intro i pc taken
    rcases kept.seated i pc taken with small | ⟨-, new⟩
    · exact .inl (Nat.lt_succ_of_lt small)
    · exact .inl (new ▸ Nat.lt_succ_self _)
  case dead => simp
  case fresh => simp
  case tests => exact fun i call index testing there => (kept.nobody within there).elim
  case resting => exact kept.resting

/-- `kill` takes away one that is not inside. -/
theorem kept_kills (kept : s.Kept) (here : s.main = .removeKills) :
    Table.Kept { s with pc := Function.update s.pc (s.currentPhilosofers - 1) none, main := .removeCounts } := by
  have within : s.main.inside = true := by rw [here]; rfl
  have each : ∀ i pc, Function.update s.pc (s.currentPhilosofers - 1) none i = some pc → s.pc i = some pc := by
    intro i pc there
    by_cases last : i = s.currentPhilosofers - 1
    · rw [last, Function.update_self] at there
      cases there
    · rwa [Function.update_of_ne last] at there
  have idle : ∀ i, (s.pc i).any Pc.inside = false := by
    intro i
    cases there : s.pc i with
    | none => rfl
    | some pc =>
      refine Bool.eq_false_iff.mpr fun inside => ?_
      have outside := kept.outside there inside
      rw [within] at outside
      cases outside
  constructor
  case exclusive =>
    refine kept.exclusive.stays (fun b => ?_) rfl
    cases b with
    | philosopher i =>
      by_cases last : i = s.currentPhilosofers - 1
      · simp only [Table.inside, idle i]
        simp [last]
      · simp [Table.inside, last]
    | main => simp [Table.inside, here, Main.inside]
    | printTable => rfl
  case size => exact kept.size
  case shrinks => exact fun _ => kept.shrinks (.inr (.inl here))
  case seated => exact fun i pc taken => .inl (kept.at_table (by rw [here]; nofun) (each i pc taken))
  case dead => exact fun _ => Function.update_self _ _ _
  case fresh => simp
  case tests => exact fun i call index testing there => (kept.nobody within (each i _ there)).elim
  case resting => exact fun i pc taken => kept.resting i pc (each i pc taken)

theorem kept_uncounts (kept : s.Kept) (here : s.main = .removeCounts) :
    Table.Kept { s with currentPhilosofers := s.currentPhilosofers - 1, main := .removePosts } := by
  have within : s.main.inside = true := by rw [here]; rfl
  constructor
  case exclusive =>
    refine kept.exclusive.stays (fun b => ?_) rfl
    cases b <;> simp [Table.inside, here, Main.inside]
  case size => exact Nat.le_sub_one_of_lt (kept.shrinks (.inr (.inr here)))
  case shrinks => simp
  case seated =>
    intro i pc taken
    have notLast : i ≠ s.currentPhilosofers - 1 := by
      rintro rfl
      cases (kept.dead here).symm.trans taken
    have small := kept.at_table (by rw [here]; nofun) taken
    exact .inl (by dsimp only; omega)
  case dead => simp
  case fresh => simp
  case tests => exact fun i call index testing there => (kept.nobody within there).elim
  case resting => exact kept.resting

/-- What a step of `addPhilosofer` or `removePhilosofer` can do. -/
theorem goOn_cases (went : s.goOn started = some s') :
    (∃ main', 0 < s.gateMutex ∧ (s.main = .addWaits ∧ main' = .addSeats ∨ s.main = .removeWaits ∧
      main' = .removeKills) ∧
      s' = { s with gateMutex := s.gateMutex - 1, main := main' }) ∨
    (s.main = .addPosts ∨ s.main = .removePosts) ∧ s' = { s.exitGate with main := .ready } ∨
    s.main = .addStarts ∧ s' = { s with main := .addPosts } ∨
    s.main = .addSeats ∧
      s' = { s with state := Function.update s.state s.currentPhilosofers .deciding, main := .addStarts } ∨
    s.main = .addStarts ∧ s' = { s.goTo s.currentPhilosofers .waitsGate with main := .addCounts } ∨
    s.main = .addCounts ∧ s' = { s with currentPhilosofers := s.currentPhilosofers + 1, main := .addPosts } ∨
    s.main = .removeKills ∧
      s' = { s with pc := Function.update s.pc (s.currentPhilosofers - 1) none, main := .removeCounts } ∨
    s.main = .removeCounts ∧ s' = { s with currentPhilosofers := s.currentPhilosofers - 1, main := .removePosts } := by
  unfold Table.goOn at went
  cases here : s.main with
  | ready =>
    rw [here] at went
    cases went
  | addWaits =>
    rw [here] at went
    obtain ⟨s₁, entered, same⟩ := Option.bind_eq_some_iff.mp went
    obtain ⟨isOpen, rfl⟩ := enterGate_some entered
    cases same
    exact .inl ⟨_, isOpen, .inl ⟨rfl, rfl⟩, rfl⟩
  | addSeats =>
    rw [here] at went
    cases went
    simp
  | addStarts =>
    rw [here] at went
    dsimp only at went
    split at went
    · cases went
      simp
    · cases went
      simp
  | addCounts =>
    rw [here] at went
    cases went
    simp
  | addPosts =>
    rw [here] at went
    cases went
    simp
  | removeWaits =>
    rw [here] at went
    obtain ⟨s₁, entered, same⟩ := Option.bind_eq_some_iff.mp went
    obtain ⟨isOpen, rfl⟩ := enterGate_some entered
    cases same
    exact .inl ⟨_, isOpen, .inr ⟨rfl, rfl⟩, rfl⟩
  | removeKills =>
    rw [here] at went
    cases went
    simp
  | removeCounts =>
    rw [here] at went
    cases went
    simp
  | removePosts =>
    rw [here] at went
    cases went
    simp

theorem kept_goOn (kept : s.Kept) (went : s.goOn started = some s') : s'.Kept := by
  rcases goOn_cases went with ⟨main', isOpen, ways, rfl⟩ | ⟨ways, rfl⟩ | ⟨here, rfl⟩ | ⟨here,
    rfl⟩ | ⟨here, rfl⟩ | ⟨here, rfl⟩ |
    ⟨here, rfl⟩ | ⟨here, rfl⟩
  · refine kept.beside (kept.exclusive.enters .main isOpen (fun b => ?_) rfl) rfl rfl rfl ?_ ?_ ?_ ?_
    · rcases ways with ⟨here, rfl⟩ | ⟨here, rfl⟩ <;> cases b <;> simp [Table.inside, Main.inside, here]
    · rcases ways with ⟨here, rfl⟩ | ⟨here, rfl⟩
      · simp
      · exact fun _ => kept.shrinks (.inl here)
    · rcases ways with ⟨here, -⟩ | ⟨here, -⟩ <;> simp [here]
    · rcases ways with ⟨-, rfl⟩ | ⟨-, rfl⟩ <;> simp
    · rcases ways with ⟨-, rfl⟩ | ⟨-, rfl⟩ <;> simp
  · have within : s.main.inside = true := by rcases ways with here | here <;> rw [here] <;> rfl
    refine kept.beside (kept.exclusive.leaves .main within (fun b => ?_) rfl) rfl rfl rfl ?_ ?_ ?_ ?_
    · cases b <;> simp [Table.inside, Table.exitGate, Main.inside]
    · simp
    · rcases ways with here | here <;> simp [here]
    · simp
    · simp
  · refine kept.beside (kept.exclusive.stays (fun b => ?_) rfl) rfl rfl rfl ?_ ?_ ?_ ?_
    · cases b <;> simp [Table.inside, here, Main.inside]
    · simp
    · simp [here]
    · simp
    · simp
  · exact kept_seats kept here
  · exact kept_starts kept here
  · exact kept_counts kept here
  · exact kept_kills kept here
  · exact kept_uncounts kept here

theorem kept_step (kept : s.Kept) (stepped : s.step act = some s') : s'.Kept := by
  cases act with
  | philosopher i => exact kept_philosopher kept stepped
  | printTable => exact kept_printTable kept stepped
  | addPhilosofer created => exact kept_addPhilosofer kept stepped
  | removePhilosofer => exact kept_removePhilosofer kept stepped
  | goOn started => exact kept_goOn kept stepped

theorem kept_start (old : Nat → PhiloState) : (Table.start old).Kept := by
  have waits : ∀ i pc, (Table.start old).pc i = some pc → i < INITIAL_PHILO ∧ pc = .waitsGate := by
    intro i pc here
    simp only [Table.start] at here
    split at here
    · cases here
      exact ⟨by assumption, rfl⟩
    · cases here
  constructor
  case exclusive =>
    refine ⟨none, fun a => ?_, rfl⟩
    cases a with
    | philosopher i =>
      cases here : (Table.start old).pc i with
      | none => simp [Table.inside, here]
      | some pc =>
        obtain ⟨-, rfl⟩ := waits i pc here
        simp [Table.inside, here, Pc.inside]
    | main => simp [Table.inside, Table.start, Main.inside]
    | printTable => simp [Table.inside, Table.start]
  case size => exact Nat.le_refl _
  case shrinks => simp [Table.start]
  case seated => exact fun i pc here => .inl (waits i pc here).1
  case dead => simp [Table.start]
  case fresh => simp [Table.start]
  case tests => exact fun i _ _ _ here => nomatch (waits i _ here).2
  case resting => exact fun i pc here _ => if_pos (waits i pc here).1

theorem kept_of_run {allowed : Table → Act → Prop} (run : Relation.ReflTransGen (Step allowed) (Table.start old) s) :
    s.Kept := by
  induction run with
  | refl => exact kept_start old
  | tail _ last ih =>
    obtain ⟨act, -, stepped⟩ := last
    exact kept_step ih stepped

/-- The gate is free: nobody is inside. -/
theorem Table.Kept.empty (kept : s.Kept) (free : 0 < s.gateMutex) (here : s.pc i = some pc) : pc.inside = false := by
  obtain ⟨holder, only, gate⟩ := kept.exclusive
  refine Bool.eq_false_iff.mpr fun within => ?_
  have held := (only (.philosopher i)).mp (by rw [inside_philosopher here, within])
  rw [if_neg (by rw [held]; nofun)] at gate
  omega

/-- The table looks the same, and those who are somewhere are still there. -/
structure Table.Stays (s s' : Table) : Prop where
  current : s'.currentPhilosofers = s.currentPhilosofers
  states : s'.state = s.state
  pcs : s'.pc = s.pc

theorem stays_printTable (went : s.printTable = some s') : s.Stays s' := by
  unfold Table.printTable at went
  split at went
  · cases went
    exact ⟨rfl, rfl, rfl⟩
  · obtain ⟨s₁, entered, same⟩ := Option.bind_eq_some_iff.mp went
    obtain ⟨isOpen, rfl⟩ := enterGate_some entered
    cases same
    exact ⟨rfl, rfl, rfl⟩

theorem stays_addPhilosofer (went : s.addPhilosofer created = some s') : s.Stays s' := by
  unfold Table.addPhilosofer at went
  split at went
  · cases went
  · split at went <;> cases went <;> exact ⟨rfl, rfl, rfl⟩

theorem stays_removePhilosofer (went : s.removePhilosofer = some s') : s.Stays s' := by
  unfold Table.removePhilosofer at went
  split at went
  · cases went
  · split at went <;> cases went <;> exact ⟨rfl, rfl, rfl⟩

/-! ## Meals -/

theorem Table.Kept.ordered (kept : s.Kept) (meal : ∀ i, s.pc i = some .eats → s.state i = .eating)
    (apart : ∀ i < s.currentPhilosofers, ¬(s.Dines i ∧ s.Dines (RIGHT s.currentPhilosofers i))) : s.Ordered :=
  ⟨kept.exclusive, kept.size, kept.shrinks, kept.seated, kept.dead, kept.fresh, meal,
    fun i call index testing here => (kept.tests i call index testing here).imp_right And.right, apart⟩

theorem right_ne (kept : s.Kept) (small : i < s.currentPhilosofers) : RIGHT s.currentPhilosofers i ≠ i := by
  have size := kept.size
  unfold INITIAL_PHILO at size
  rw [right_of_lt small]
  split <;> omega


/-- Dining goes by the philosopher's state and by where it is. -/
theorem dines_of {s s' : Table} (dines : s'.Dines j) (state : s'.state j = s.state j)
    (pc : s'.pc j = s.pc j) : s.Dines j := by
  obtain ⟨eating, here⟩ := dines
  exact ⟨state ▸ eating, pc ▸ here⟩

/-- Whoever is somewhere else than before does not dine because of that. -/
theorem Table.Ordered.fewer (ordered : s.Ordered) (kept : s'.Kept)
    (current : s'.currentPhilosofers = s.currentPhilosofers)
    (meal : ∀ i, s'.pc i = some .eats → s'.state i = .eating)
    (dines : ∀ j < s.currentPhilosofers, s'.Dines j → s.Dines j) :
    s'.Ordered := by
  refine kept.ordered meal fun i small both => ?_
  rw [current] at small both
  exact ordered.apart i small ⟨dines i small both.1, dines _ (right_lt small) both.2⟩

/-- A philosopher that goes on dines only if it did so before, unless it marks a meal. -/
theorem Stride.dines (stride : Stride s i pc pc' s'.state s'.gateMutex) (here : s.pc i = some pc)
    (pcs : s'.pc = Function.update s.pc i (some pc')) (dines : s'.Dines j) :
    s.Dines j ∨ ∃ call, pc = .tests call j .marks := by
  obtain ⟨eating, q, there, notRests, notDecides⟩ := dines
  have elsewhere : j ≠ i → s'.state j = s.state j → s.Dines j := fun other same =>
    ⟨same ▸ eating, q, by rwa [pcs, Function.update_of_ne other] at there, notRests, notDecides⟩
  have itself : j = i → q = pc' := by
    rintro rfl
    rw [pcs, Function.update_self, Option.some.injEq] at there
    exact there.symm
  have onward : s'.state = s.state → (pc' ≠ .restsGate → pc' ≠ .decides → pc ≠ .restsGate ∧ pc ≠ .decides) →
      s.Dines j := by
    intro same ways
    by_cases own : j = i
    · have whence := ways (itself own ▸ notRests) (itself own ▸ notDecides)
      exact ⟨same ▸ eating, pc, own ▸ here, whence⟩
    · exact elsewhere own (by rw [same])
  have rewrites : ∀ st, st ≠ .eating → s'.state = Function.update s.state i st → s.Dines j := by
    intro st notEating written
    by_cases own : j = i
    · rw [written, own, Function.update_self] at eating
      exact (notEating eating).elim
    · exact elsewhere own (by rw [written, Function.update_of_ne own])
  generalize before : s'.state = states at stride
  generalize s'.gateMutex = gate at stride
  cases stride with
  | enters ways =>
    refine .inl (onward before fun _ notDecides => ?_)
    rcases ways with ⟨rfl, -⟩ | ⟨-, rfl⟩
    · exact ⟨nofun, nofun⟩
    · exact (notDecides rfl).elim
  | leaves ways =>
    refine .inl (onward before fun _ _ => ?_)
    rcases ways with ⟨rfl, -⟩ | ⟨rfl, -⟩ <;> exact ⟨nofun, nofun⟩
  | strolls ways =>
    refine .inl (onward before fun _ _ => ?_)
    rcases ways with ⟨rfl, -⟩ | ⟨rfl, -⟩ <;> exact ⟨nofun, nofun⟩
  | asks => exact .inl (rewrites .waiting nofun before)
  | decides => exact .inl (rewrites .deciding nofun before)
  | looks | refused | posts => exact .inl (onward before fun _ _ => ⟨nofun, nofun⟩)
  | @marks call index =>
    by_cases granted : j = index
    · exact .inr ⟨call, by rw [granted]⟩
    · by_cases own : j = i
      · rw [before, Function.update_of_ne granted] at eating
        have there : s.pc j = some (.tests call index .marks) := own ▸ here
        exact .inl ⟨eating, _, there, nofun, nofun⟩
      · exact .inl (elsewhere own (by rw [before, Function.update_of_ne granted]))

/-- Whoever eats was granted the meal, if the one that gets past its own semaphore was. -/
theorem Stride.meal (stride : Stride s i pc pc' s'.state s'.gateMutex) (ordered : s.Ordered)
    (careful : pc = .waitsOwn → s.state i = .eating) (pcs : s'.pc = Function.update s.pc i (some pc'))
    (eats : s'.pc j = some .eats) : s'.state j = .eating := by
  have elsewhere : j ≠ i → s.state j = .eating := by
    intro other
    rw [pcs, Function.update_of_ne other] at eats
    exact ordered.meal j eats
  have itself : j = i → pc' = .eats := by
    rintro rfl
    rwa [pcs, Function.update_self, Option.some.injEq] at eats
  generalize s'.state = states at stride ⊢
  generalize s'.gateMutex = gate at stride
  cases stride with
  | enters ways | leaves ways =>
    refine elsewhere fun own => ?_
    rcases ways with ⟨-, rfl⟩ | ⟨-, rfl⟩ <;> cases itself own
  | strolls ways =>
    by_cases own : j = i
    · rcases ways with ⟨rfl, -⟩ | ⟨-, rfl⟩
      · exact own ▸ careful rfl
      · cases itself own
    · exact elsewhere own
  | asks | decides =>
    have other : j ≠ i := fun own => nomatch itself own
    rw [Function.update_of_ne other]
    exact elsewhere other
  | looks =>
    exact elsewhere fun own => nomatch itself own
  | @refused _ call | @posts call =>
    refine elsewhere fun own => ?_
    have after := itself own
    cases call <;> cases after
  | @marks call index =>
    have other : j ≠ i := fun own => nomatch itself own
    by_cases granted : j = index
    · rw [granted, Function.update_self]
    · rw [Function.update_of_ne granted]
      exact elsewhere other

theorem ordered_philosopher (kept : s.Kept) (ordered : s.Ordered) (careful : s.Careful (.philosopher i))
    (went : s.philosopher i = some s') : s'.Ordered := by
  have after := kept_philosopher kept went
  obtain ⟨pc, pc', here, stride, pcs, current, -⟩ := stride_of_philosopher went
  refine after.ordered (fun j eats => ?_) fun j small both => ?_
  · exact stride.meal ordered (fun own => careful (own ▸ here)) pcs eats
  · rw [current] at small both
    -- Whoever dines now did so before, or is the one that was granted a meal.
    rcases stride.dines here pcs both.1 with first | ⟨call, rfl⟩
    · rcases stride.dines here pcs both.2 with second | ⟨call, rfl⟩
      · exact ordered.apart j small ⟨first, second⟩
      · obtain ⟨-, -, left, -⟩ := kept.tests i call _ .marks here
        rw [left_right small] at left
        exact left first.1
    · obtain ⟨-, -, -, right⟩ := kept.tests i call _ .marks here
      rcases stride.dines here pcs both.2 with second | ⟨call', same⟩
      · exact right second.1
      · simp only [Pc.tests.injEq] at same
        exact right_ne kept small same.2.1.symm

theorem Table.Stays.dines (stays : s.Stays s') (dines : s'.Dines j) : s.Dines j :=
  dines_of dines (by rw [stays.states]) (by rw [stays.pcs])

theorem Table.Ordered.stays (ordered : s.Ordered) (kept : s'.Kept) (stays : s.Stays s') : s'.Ordered := by
  refine ordered.fewer kept stays.current (fun i eats => ?_) fun j _ => stays.dines
  rw [stays.pcs] at eats
  rw [stays.states]
  exact ordered.meal i eats

/-- A new chair does not bring two who dine together: who sits on it decides. -/
theorem ordered_counts (kept : s.Kept) (ordered : s.Ordered) (here : s.main = .addCounts) :
    Table.Ordered { s with currentPhilosofers := s.currentPhilosofers + 1, main := .addPosts } := by
  have size := kept.size
  refine (kept_counts kept here).ordered ordered.meal ?_
  rintro i small ⟨left, right⟩
  dsimp only at small right
  have fresh := kept.fresh (.inr here)
  have notNew : ∀ j, s.Dines j → j ≠ s.currentPhilosofers := by
    rintro j ⟨eating, -⟩ rfl
    rw [fresh] at eating
    cases eating
  have inRange : i < s.currentPhilosofers := Nat.lt_of_le_of_ne (Nat.le_of_lt_succ small) (notNew i left)
  rw [right_of_lt small, if_neg (by omega)] at right
  refine ordered.apart i inRange ⟨left, ?_⟩
  rw [right_of_lt inRange, if_neg (notNew _ right)]
  exact right

theorem ordered_uncounts (kept : s.Kept) (ordered : s.Ordered) (here : s.main = .removeCounts)
    (careful : ¬(s.Dines (s.currentPhilosofers - 2) ∧ s.Dines 0)) :
    Table.Ordered { s with currentPhilosofers := s.currentPhilosofers - 1, main := .removePosts } := by
  have more := kept.shrinks (.inr (.inr here))
  refine (kept_uncounts kept here).ordered ordered.meal ?_
  rintro i small ⟨left, right⟩
  dsimp only at small right
  rw [right_of_lt small] at right
  split at right
  · rename_i last
    have second : i = s.currentPhilosofers - 2 := by omega
    exact careful ⟨second ▸ left, right⟩
  · have inRange : i < s.currentPhilosofers := by omega
    refine ordered.apart i inRange ⟨left, ?_⟩
    rw [right_of_lt inRange, if_neg (by omega)]
    exact right

theorem ordered_goOn (kept : s.Kept) (ordered : s.Ordered) (careful : s.Careful (.goOn started))
    (went : s.goOn started = some s') : s'.Ordered := by
  have after := kept_goOn kept went
  rcases goOn_cases went with ⟨main', -, -, rfl⟩ | ⟨-, rfl⟩ | ⟨-, rfl⟩ | ⟨here, rfl⟩ | ⟨here,
    rfl⟩ | ⟨here, rfl⟩ | ⟨here, rfl⟩ |
    ⟨here, rfl⟩
  · exact ordered.stays after ⟨rfl, rfl, rfl⟩
  · exact ordered.stays after ⟨rfl, rfl, rfl⟩
  · exact ordered.stays after ⟨rfl, rfl, rfl⟩
  · have others : ∀ i < s.currentPhilosofers, Function.update s.state s.currentPhilosofers .deciding i = s.state i :=
      fun i small => Function.update_of_ne (Nat.ne_of_lt small) _ _
    refine ordered.fewer after rfl (fun i eats => ?_) fun j small dines => dines_of dines (others j small) rfl
    have small := kept.at_table (by rw [here]; nofun) eats
    exact (others i small).trans (ordered.meal i eats)
  · have others : ∀ i ≠ s.currentPhilosofers, (s.goTo s.currentPhilosofers .waitsGate).pc i = s.pc i :=
      fun i other => Function.update_of_ne other _ _
    refine ordered.fewer after rfl (fun i eats => ?_) fun j small dines =>
      dines_of dines rfl (others j (Nat.ne_of_lt small))
    have other : i ≠ s.currentPhilosofers := by
      rintro rfl
      simp [Table.goTo] at eats
    exact ordered.meal i ((others i other).symm.trans eats)
  · exact ordered_counts kept ordered here
  · have each : ∀ i pc, Function.update s.pc (s.currentPhilosofers - 1) none i = some pc → s.pc i = some pc := by
      intro i pc there
      by_cases last : i = s.currentPhilosofers - 1
      · rw [last, Function.update_self] at there
        cases there
      · rwa [Function.update_of_ne last] at there
    refine ordered.fewer after rfl (fun i eats => ordered.meal i (each i _ eats)) fun j _ dines => ?_
    obtain ⟨eating, pc, there, elsewhere⟩ := dines
    exact ⟨eating, pc, each j pc there, elsewhere⟩
  · exact ordered_uncounts kept ordered here (careful here)

/-! ## Runs -/

theorem ordered_start (old : Nat → PhiloState) : (Table.start old).Ordered := by
  refine (kept_start old).ordered (fun i eats => ?_) fun i small both => ?_
  · simp only [Table.start] at eats
    split at eats <;> cases eats
  · have decides : (Table.start old).state i = .deciding := if_pos small
    cases decides.symm.trans both.1.1

theorem ordered_step (kept : s.Kept) (ordered : s.Ordered) (careful : s.Careful act) (stepped : s.step act = some s') :
    s'.Ordered := by
  have after := kept_step kept stepped
  cases act with
  | philosopher i => exact ordered_philosopher kept ordered careful stepped
  | printTable => exact ordered.stays after (stays_printTable stepped)
  | addPhilosofer created => exact ordered.stays after (stays_addPhilosofer stepped)
  | removePhilosofer => exact ordered.stays after (stays_removePhilosofer stepped)
  | goOn started => exact ordered_goOn kept ordered careful stepped

theorem Table.Ordered.polite (ordered : s.Ordered) : s.Polite := by
  rintro i j first second beside ⟨here, there⟩
  have dines : ∀ k, s.pc k = some .eats → s.Dines k := fun k eats => ⟨ordered.meal k eats, _, eats, nofun, nofun⟩
  rcases beside with rfl | rfl
  · apply ordered.apart _ second
    rw [right_left first]
    exact ⟨dines _ there, dines _ here⟩
  · exact ordered.apart _ first ⟨dines _ here, dines _ there⟩

theorem polite_of_careful (run : Relation.ReflTransGen (Step Table.Careful) (Table.start old) s) : s.Polite := by
  have ordered : s.Ordered := by
    induction run with
    | refl => exact ordered_start old
    | tail run last ih =>
      obtain ⟨act, careful, stepped⟩ := last
      exact ordered_step (kept_of_run run) ih careful stepped
  exact ordered.polite

/-- The first philosopher sits down to eat, and a sixth one comes to the table. -/
theorem polite_of_careful_sixth : ∃ s, Relation.ReflTransGen (Step Table.Careful) (Table.start fun _ => .deciding) s ∧
    s.pc 0 = some .eats ∧ s.currentPhilosofers = 6 ∧ s.Polite := by
  have played : ((Table.start fun _ => .deciding).play Table.Careful
      (List.replicate 9 (.philosopher 0) ++ .addPhilosofer true :: List.replicate 5 (.goOn true))).map
      (fun s => (s.pc 0, s.currentPhilosofers)) = some (some .eats, 6) := by
    decide
  obtain ⟨s, result, view⟩ := Option.map_eq_some_iff.mp played
  have run := play_run result
  exact ⟨s, run, congrArg Prod.fst view, congrArg Prod.snd view, polite_of_careful run⟩

/-- The second philosopher is refused a meal beside the first one, and its own
semaphore, created with 1, lets it eat all the same. -/
theorem polite_fails : ¬∀ old s, Relation.ReflTransGen (Step fun _ _ => True) (Table.start old) s → s.Polite := by
  intro always
  have played : ((Table.start fun _ => .deciding).play (fun _ _ => True)
      (List.replicate 9 (.philosopher 0) ++ List.replicate 6 (.philosopher 1))).map
      (fun s => (s.pc 0, s.pc 1, s.currentPhilosofers)) = some (some .eats, some .eats, 5) := by
    decide
  obtain ⟨s, result, view⟩ := Option.map_eq_some_iff.mp played
  obtain ⟨first, second, current⟩ : s.pc 0 = some .eats ∧ s.pc 1 = some .eats ∧ s.currentPhilosofers = 5 := by
    simpa using view
  refine always _ s (play_run result) 0 1 ?_ ?_ (.inr ?_) ⟨first, second⟩
  · omega
  · omega
  · rw [current]
    rfl

end

end QuesOs.Philosophers
