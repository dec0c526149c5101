import QuesOs.Philosophers

/-! The states of the philosophers at the table of `phylo.c`, in every run: who is shown to eat,
and who waits although neither neighbour eats. -/
namespace QuesOs.Philosophers

section
variable {s s' : Table} {pc pc' : Pc} {states : Nat → PhiloState}

/-! ## Neighbours that eat -/

/-- No two neighbours are shown to eat. -/
def Table.Apart (s : Table) : Prop :=
  ∀ i < s.currentPhilosofers, ¬(s.state i = .eating ∧ s.state (RIGHT s.currentPhilosofers i) = .eating)

/-- Whenever the gate is free, no two neighbours are both `EATING`. -/
def Table.Mannered (s : Table) : Prop :=
  0 < s.gateMutex → ∀ i j, i < s.currentPhilosofers → j < s.currentPhilosofers →
    j = LEFT s.currentPhilosofers i ∨ j = RIGHT s.currentPhilosofers i → ¬(s.state i = .eating ∧ s.state j = .eating)

/-- No chair is taken away from between two that are `EATING`. -/
def Table.KeepsApart (s : Table) : Act → Prop
  | .goOn _ => s.main = .removeCounts → ¬(s.state (s.currentPhilosofers - 2) = .eating ∧ s.state 0 = .eating)
  | _ => True

instance (s : Table) : (act : Act) → Decidable (s.KeepsApart act)
  | .goOn _ => inferInstanceAs
      (Decidable (s.main = .removeCounts → ¬(s.state (s.currentPhilosofers - 2) = .eating ∧ s.state 0 = .eating)))
  | .philosopher _ | .printTable | .addPhilosofer _ | .removePhilosofer => .isTrue trivial

theorem Table.Apart.fewer (apart : s.Apart) (current : s'.currentPhilosofers = s.currentPhilosofers)
    (fewer : ∀ j < s.currentPhilosofers, s'.state j = .eating → s.state j = .eating) : s'.Apart := by
  intro i small both
  rw [current] at small both
  exact apart i small ⟨fewer i small both.1, fewer _ (right_lt small) both.2⟩

theorem apart_philosopher (kept : s.Kept) (apart : s.Apart) (went : s.philosopher i = some s') : s'.Apart := by
  obtain ⟨pc, pc', here, stride, -, current, -⟩ := stride_of_philosopher went
  generalize before : s'.state = states at stride
  generalize s'.gateMutex = gate at stride
  have writes : ∀ st, st ≠ .eating → s'.state = Function.update s.state i st → s'.Apart := by
    intro st notEating written
    refine apart.fewer current fun j _ eating => ?_
    rw [written] at eating
    by_cases own : j = i
    · rw [own, Function.update_self] at eating
      exact (notEating eating).elim
    · rwa [Function.update_of_ne own] at eating
  cases stride with
  | enters | leaves | strolls | looks | refused | posts => exact apart.fewer current fun j _ eating => before ▸ eating
  | asks => exact writes .waiting nofun before
  | decides => exact writes .deciding nofun before
  | @marks call index =>
    obtain ⟨-, -, left, right⟩ := kept.tests i call index .marks here
    intro j small both
    rw [current] at small both
    rw [before] at both
    by_cases first : j = index
    · rw [first, Function.update_of_ne (right_ne kept (first ▸ small))] at both
      exact right both.2
    · rw [Function.update_of_ne first] at both
      by_cases second : RIGHT s.currentPhilosofers j = index
      · rw [← second, left_right small] at left
        exact left both.1
      · rw [Function.update_of_ne second] at both
        exact apart j small both

theorem apart_goOn (kept : s.Kept) (apart : s.Apart) (keeps : s.KeepsApart (.goOn started))
    (went : s.goOn started = some s') : s'.Apart := by
  have size := kept.size
  unfold INITIAL_PHILO at size
  rcases goOn_cases went with ⟨main', -, -, rfl⟩ | ⟨-, rfl⟩ | ⟨-, rfl⟩ | ⟨-, rfl⟩ | ⟨-,
    rfl⟩ | ⟨here, rfl⟩ | ⟨-, rfl⟩ | ⟨here, rfl⟩
  · exact apart
  · exact apart
  · exact apart
  · refine apart.fewer rfl fun j small eating => ?_
    exact (Function.update_of_ne (Nat.ne_of_lt small) _ _).symm.trans eating
  · exact apart
  · -- Who sits on the new chair decides.
    have fresh := kept.fresh (.inr here)
    have notNew : ∀ j, s.state j = .eating → j ≠ s.currentPhilosofers := by
      rintro j eating rfl
      cases fresh.symm.trans eating
    rintro i small ⟨left, right⟩
    dsimp only at small left right
    have inRange : i < s.currentPhilosofers := Nat.lt_of_le_of_ne (Nat.le_of_lt_succ small) (notNew i left)
    rw [right_of_lt small, if_neg (by omega)] at right
    refine apart i inRange ⟨left, ?_⟩
    rw [right_of_lt inRange, if_neg (notNew _ right)]
    exact right
  · exact apart
  · rintro i small ⟨left, right⟩
    dsimp only at small left right
    rw [right_of_lt small] at right
    split at right
    · rename_i last
      have second : i = s.currentPhilosofers - 2 := by omega
      exact keeps here ⟨second ▸ left, right⟩
    · have inRange : i < s.currentPhilosofers := by omega
      refine apart i inRange ⟨left, ?_⟩
      rw [right_of_lt inRange, if_neg (by omega)]
      exact right

theorem apart_step (kept : s.Kept) (apart : s.Apart) (keeps : s.KeepsApart act) (stepped : s.step act = some s') :
    s'.Apart := by
  have same : s.Stays s' → s'.Apart := fun stays => apart.fewer stays.current fun j _ eating => stays.states ▸ eating
  cases act with
  | philosopher i => exact apart_philosopher kept apart stepped
  | printTable => exact same (stays_printTable stepped)
  | addPhilosofer created => exact same (stays_addPhilosofer stepped)
  | removePhilosofer => exact same (stays_removePhilosofer stepped)
  | goOn started => exact apart_goOn kept apart keeps stepped

theorem apart_start (old : Nat → PhiloState) : (Table.start old).Apart := by
  rintro i small ⟨eating, -⟩
  have decides : (Table.start old).state i = .deciding := if_pos small
  cases decides.symm.trans eating

theorem Table.Apart.mannered (apart : s.Apart) : s.Mannered := by
  rintro - i j first second beside ⟨here, there⟩
  rcases beside with rfl | rfl
  · apply apart _ second
    rw [right_left first]
    exact ⟨there, here⟩
  · exact apart i first ⟨here, there⟩

theorem mannered_of_keepsApart (run : Relation.ReflTransGen (Step Table.KeepsApart) (Table.start old) s) :
    s.Mannered := by
  have apart : s.Apart := by
    induction run with
    | refl => exact apart_start old
    | tail run last ih =>
      obtain ⟨act, keeps, stepped⟩ := last
      exact apart_step (kept_of_run run) ih keeps stepped
  exact apart.mannered

/-- The first philosopher and the third one eat at a table for six, from which the sixth one goes. -/
theorem mannered_of_keepsApart_six : ∃ s,
    Relation.ReflTransGen (Step Table.KeepsApart) (Table.start fun _ => .deciding) s ∧
    0 < s.gateMutex ∧ s.currentPhilosofers = 5 ∧ s.state 0 = .eating ∧ s.state 2 = .eating ∧ s.Mannered := by
  have played : ((Table.start fun _ => .deciding).play Table.KeepsApart
      (.addPhilosofer true :: List.replicate 5 (.goOn true) ++ List.replicate 9 (.philosopher 0) ++
        List.replicate 9 (.philosopher 2) ++ .removePhilosofer :: List.replicate 4 (.goOn true))).map
      (fun s => (s.gateMutex, s.currentPhilosofers, s.state 0, s.state 2)) = some (1, 5, .eating, .eating) := by
    decide
  obtain ⟨s, result, view⟩ := Option.map_eq_some_iff.mp played
  obtain ⟨free, current, first, third⟩ : s.gateMutex = 1 ∧ s.currentPhilosofers = 5 ∧ s.state 0 = .eating ∧
      s.state 2 = .eating := by
    simpa using view
  have run := play_run result
  exact ⟨s, run, by omega, current, first, third, mannered_of_keepsApart run⟩

/-- The first philosopher and the fifth one eat at a table for six; then the one between them goes. -/
theorem mannered_fails : ¬∀ old s, Relation.ReflTransGen (Step fun _ _ => True) (Table.start old) s → s.Mannered := by
  intro always
  have played : ((Table.start fun _ => .deciding).play (fun _ _ => True)
      (.addPhilosofer true :: List.replicate 5 (.goOn true) ++ List.replicate 9 (.philosopher 0) ++
        List.replicate 9 (.philosopher 4) ++ .removePhilosofer :: List.replicate 4 (.goOn true))).map
      (fun s => (s.gateMutex, s.currentPhilosofers, s.state 0, s.state 4)) = some (1, 5, .eating, .eating) := by
    decide
  obtain ⟨s, result, view⟩ := Option.map_eq_some_iff.mp played
  obtain ⟨free, current, first, fifth⟩ : s.gateMutex = 1 ∧ s.currentPhilosofers = 5 ∧ s.state 0 = .eating ∧
      s.state 4 = .eating := by
    simpa using view
  refine always _ s (play_run result) (by omega) 0 4 ?_ ?_ (.inl ?_) ⟨first, fifth⟩
  · omega
  · omega
  · rw [current]
    rfl

/-! ## Those who wait -/

/-- The philosopher waits, and no neighbour eats. -/
def Table.Starves (s : Table) (i : Nat) : Prop :=
  s.state i = .waiting ∧ s.state (LEFT s.currentPhilosofers i) ≠ .eating ∧
    s.state (RIGHT s.currentPhilosofers i) ≠ .eating

/-- Whenever the gate is free, nobody at the table is `WAITING` between two that do not eat. -/
def Table.Wakes (s : Table) : Prop := 0 < s.gateMutex → ∀ i < s.currentPhilosofers, ¬s.Starves i

/-- Somebody who is inside has the philosopher still to test. -/
def Table.Awaits (s : Table) (i : Nat) : Prop :=
  ∃ p call index testing, s.pc p = some (.tests call index testing) ∧
    (i = index ∧ testing ≠ .posts ∨ call = .left ∧ i = RIGHT s.currentPhilosofers p)

def Table.Fed (s : Table) : Prop := ∀ i < s.currentPhilosofers, s.Starves i → s.Awaits i

/-- Nobody loses the only neighbour that eats to a chair that is put in or taken away. -/
def Table.KeepsFed (s : Table) : Act → Prop
  | .goOn _ =>
    (s.main = .addCounts →
      (s.state 0 = .waiting → s.state (s.currentPhilosofers - 1) = .eating → s.state 1 = .eating) ∧
      (s.state (s.currentPhilosofers - 1) = .waiting → s.state 0 = .eating →
        s.state (s.currentPhilosofers - 2) = .eating)) ∧
    (s.main = .removeCounts → s.state (s.currentPhilosofers - 1) = .eating →
      (s.state 0 = .waiting → s.state 1 = .eating ∨ s.state (s.currentPhilosofers - 2) = .eating) ∧
      (s.state (s.currentPhilosofers - 2) = .waiting →
        s.state (s.currentPhilosofers - 3) = .eating ∨ s.state 0 = .eating))
  | _ => True

instance (s : Table) (act : Act) : Decidable (s.KeepsFed act) := by
  cases act <;> unfold Table.KeepsFed <;> infer_instance

theorem starves_of (current : s'.currentPhilosofers = s.currentPhilosofers)
    (states : ∀ j < s.currentPhilosofers, s'.state j = s.state j) (small : i < s.currentPhilosofers)
    (starves : s'.Starves i) : s.Starves i := by
  obtain ⟨waits, left, right⟩ := starves
  rw [current] at left right
  rw [states _ (left_lt small)] at left
  rw [states _ (right_lt small)] at right
  exact ⟨states i small ▸ waits, left, right⟩

/-- A philosopher that is inside and has not tested yet leaves nobody starving. -/
theorem Table.Fed.nobody (fed : s.Fed) (quiet : ∀ p call index testing, s.pc p ≠ some (.tests call index testing))
    (small : i < s.currentPhilosofers) : ¬s.Starves i := by
  intro starves
  obtain ⟨p, call, index, testing, there, -⟩ := fed i small starves
  exact quiet p call index testing there

/-- The states stay, and whoever has somebody to test still has. -/
theorem Table.Fed.stays (fed : s.Fed) (current : s'.currentPhilosofers = s.currentPhilosofers)
    (states : ∀ j < s.currentPhilosofers, s'.state j = s.state j)
    (pcs : ∀ p call index testing, s.pc p = some (.tests call index testing) → s'.pc p = s.pc p) : s'.Fed := by
  intro i small starves
  rw [current] at small
  obtain ⟨p, call, index, testing, there, what⟩ := fed i small (starves_of current states small starves)
  refine ⟨p, call, index, testing, (pcs p call index testing there).trans there, ?_⟩
  rw [current]
  exact what

/-- The tester is the only one inside. -/
theorem Table.Awaits.tester (awaits : s.Awaits j) (kept : s.Kept) (here : s.pc i = some (.tests call index testing)) :
    j = index ∧ testing ≠ .posts ∨ call = .left ∧ j = RIGHT s.currentPhilosofers i := by
  obtain ⟨p, call', index', testing', there, what⟩ := awaits
  obtain rfl := kept.alone here rfl there rfl
  cases here.symm.trans there
  exact what

theorem fed_asks (kept : s.Kept) (fed : s.Fed) (here : s.pc i = some .asks)
    (pcs : s'.pc = Function.update s.pc i (some (.tests .own i .own)))
    (current : s'.currentPhilosofers = s.currentPhilosofers)
    (states : s'.state = Function.update s.state i .waiting) : s'.Fed := by
  intro j small starves
  by_cases own : j = i
  · exact ⟨i, .own, i, .own, by rw [pcs, Function.update_self], .inl ⟨own, nofun⟩⟩
  · have rested := kept.resting i _ here rfl
    have before : ∀ k, s'.state k ≠ .eating → s.state k ≠ .eating := by
      intro k notEating
      by_cases same : k = i
      · rw [same, rested]
        nofun
      · rwa [states, Function.update_of_ne same] at notEating
    obtain ⟨waits, left, right⟩ := starves
    rw [current] at small left right
    rw [states, Function.update_of_ne own] at waits
    refine (fed.nobody (fun p call index testing there => ?_) small ⟨waits, before _ left, before _ right⟩).elim
    obtain rfl := kept.alone here rfl there rfl
    cases here.symm.trans there

theorem fed_decides (kept : s.Kept) (fed : s.Fed) (here : s.pc i = some .decides)
    (pcs : s'.pc = Function.update s.pc i (some (.tests .left (LEFT s.currentPhilosofers i) .own)))
    (current : s'.currentPhilosofers = s.currentPhilosofers) (states : s'.state = Function.update s.state i .deciding) :
    s'.Fed := by
  intro j small starves
  obtain ⟨waits, left, right⟩ := starves
  rw [current] at small left right
  have testing : s'.pc i = some (.tests .left (LEFT s.currentPhilosofers i) .own) := by rw [pcs, Function.update_self]
  by_cases own : j = i
  · rw [states, own, Function.update_self] at waits
    cases waits
  rw [states, Function.update_of_ne own] at waits
  by_cases onLeft : RIGHT s.currentPhilosofers j = i
  · have isLeft : j = LEFT s.currentPhilosofers i := by rw [← onLeft, left_right small]
    exact ⟨i, _, _, _, testing, .inl ⟨isLeft, nofun⟩⟩
  · by_cases onRight : LEFT s.currentPhilosofers j = i
    · have isRight : j = RIGHT s'.currentPhilosofers i := by rw [current, ← onRight, right_left small]
      exact ⟨i, _, _, _, testing, .inr ⟨rfl, isRight⟩⟩
    · rw [states, Function.update_of_ne onRight] at left
      rw [states, Function.update_of_ne onLeft] at right
      refine (fed.nobody (fun p call index testing there => ?_) small ⟨waits, left, right⟩).elim
      obtain rfl := kept.alone here rfl there rfl
      cases here.symm.trans there

theorem fed_marks (kept : s.Kept) (fed : s.Fed) (here : s.pc i = some (.tests call index .marks))
    (pcs : s'.pc = Function.update s.pc i (some (.tests call index .posts)))
    (current : s'.currentPhilosofers = s.currentPhilosofers)
    (states : s'.state = Function.update s.state index .eating) :
    s'.Fed := by
  intro j small starves
  obtain ⟨waits, left, right⟩ := starves
  rw [current] at small left right
  have waited : s.state index = .waiting := (kept.tests i call index .marks here).2.1 nofun nofun
  have other : j ≠ index := by
    rintro rfl
    rw [states, Function.update_self] at waits
    cases waits
  have before : ∀ k, s'.state k ≠ .eating → s.state k ≠ .eating := by
    intro k notEating
    by_cases same : k = index
    · rw [same, waited]
      nofun
    · rwa [states, Function.update_of_ne same] at notEating
  rw [states, Function.update_of_ne other] at waits
  have awaits := fed j small ⟨waits, before _ left, before _ right⟩
  obtain ⟨onLeft, isRight⟩ := (awaits.tester kept here).resolve_left fun own => other own.1
  refine ⟨i, call, index, .posts, by rw [pcs, Function.update_self], .inr ⟨onLeft, ?_⟩⟩
  rw [current]
  exact isRight

/-- A test ends, and has found whoever it is about not to starve. -/
theorem fed_tested (kept : s.Kept) (fed : s.Fed) (here : s.pc i = some (.tests call index testing))
    (pcs : s'.pc = Function.update s.pc i (some (s.afterTest i call)))
    (current : s'.currentPhilosofers = s.currentPhilosofers) (states : s'.state = s.state)
    (found : testing ≠ .posts → ¬s.Starves index) : s'.Fed := by
  intro j small starves
  rw [current] at small
  have before := starves_of current (fun k _ => by rw [states]) small starves
  rcases (fed j small before).tester kept here with ⟨rfl, early⟩ | ⟨rfl, isRight⟩
  · exact (found early before).elim
  · exact ⟨i, .right, _, .own, by rw [pcs, Function.update_self]; rfl, .inl ⟨isRight, nofun⟩⟩

theorem fed_philosopher (kept : s.Kept) (fed : s.Fed) (went : s.philosopher i = some s') : s'.Fed := by
  obtain ⟨pc, pc', here, stride, pcs, current, -⟩ := stride_of_philosopher went
  generalize before : s'.state = states at stride
  generalize s'.gateMutex = gate at stride
  have elsewhere : (∀ call index testing, pc ≠ .tests call index testing) → s'.state = s.state → s'.Fed := by
    intro notTests same
    refine fed.stays current (fun j _ => by rw [same]) fun p call index testing there => ?_
    rw [pcs, Function.update_of_ne]
    rintro rfl
    cases here.symm.trans there
    exact notTests _ _ _ rfl
  cases stride with
  | enters ways =>
    refine elsewhere ?_ before
    rcases ways with ⟨rfl, -⟩ | ⟨rfl, -⟩ <;> nofun
  | leaves ways =>
    refine elsewhere ?_ before
    rcases ways with ⟨rfl, -⟩ | ⟨rfl, -⟩ <;> nofun
  | strolls ways =>
    refine elsewhere ?_ before
    rcases ways with ⟨rfl, -⟩ | ⟨rfl, -⟩ <;> nofun
  | asks => exact fed_asks kept fed here pcs current before
  | decides => exact fed_decides kept fed here pcs current before
  | @looks index testing call testing' found more =>
    intro j small starves
    rw [current] at small
    have was := starves_of current (fun k _ => by rw [before]) small starves
    refine ⟨i, call, index, testing', by rw [pcs, Function.update_self], ?_⟩
    rw [current]
    exact ((fed j small was).tester kept here).imp_left fun own => ⟨own.1, more⟩
  | refused found =>
    refine fed_tested kept fed here pcs current before fun _ ⟨waits, left, right⟩ => ?_
    exact (found waits).elim left right
  | marks => exact fed_marks kept fed here pcs current before
  | posts => exact fed_tested kept fed here pcs current before fun early => (early rfl).elim

theorem fed_counts (kept : s.Kept) (fed : s.Fed) (here : s.main = .addCounts) (keeps : s.KeepsFed (.goOn started)) :
    Table.Fed { s with currentPhilosofers := s.currentPhilosofers + 1, main := .addPosts } := by
  have within : s.main.inside = true := by rw [here]; rfl
  have nobody : ∀ i < s.currentPhilosofers, ¬s.Starves i := fun i small =>
    fed.nobody (fun p call index testing => kept.nobody within) small
  have fresh := kept.fresh (.inr here)
  have size := kept.size
  unfold INITIAL_PHILO at size
  obtain ⟨first, last⟩ := keeps.1 here
  rintro i small ⟨waits, left, right⟩
  exfalso
  dsimp only at small waits left right
  have notNew : i ≠ s.currentPhilosofers := by
    rintro rfl
    cases fresh.symm.trans waits
  have inRange : i < s.currentPhilosofers := by omega
  rw [left_of_lt small] at left
  rw [right_of_lt small, if_neg (by omega)] at right
  by_cases isFirst : i = 0
  · subst isFirst
    refine nobody 0 inRange ⟨waits, fun eating => ?_, ?_⟩
    · rw [left_of_lt inRange, if_pos rfl] at eating
      exact right (first waits eating)
    · rw [right_of_lt inRange, if_neg (by omega)]
      exact right
  · rw [if_neg isFirst] at left
    refine nobody i inRange ⟨waits, ?_, fun eating => ?_⟩
    · rw [left_of_lt inRange, if_neg isFirst]
      exact left
    · rw [right_of_lt inRange] at eating
      split at eating
      · rename_i isLast
        obtain rfl : i = s.currentPhilosofers - 1 := by omega
        exact left (last waits eating)
      · exact right eating

theorem fed_uncounts (kept : s.Kept) (fed : s.Fed) (here : s.main = .removeCounts)
    (keeps : s.KeepsFed (.goOn started)) :
    Table.Fed { s with currentPhilosofers := s.currentPhilosofers - 1, main := .removePosts } := by
  have within : s.main.inside = true := by rw [here]; rfl
  have nobody : ∀ i < s.currentPhilosofers, ¬s.Starves i := fun i small =>
    fed.nobody (fun p call index testing => kept.nobody within) small
  have more := kept.shrinks (.inr (.inr here))
  unfold INITIAL_PHILO at more
  rintro i small ⟨waits, left, right⟩
  exfalso
  dsimp only at small waits left right
  have inRange : i < s.currentPhilosofers := by omega
  rw [left_of_lt small] at left
  rw [right_of_lt small] at right
  by_cases isFirst : i = 0
  · subst isFirst
    rw [if_pos rfl] at left
    rw [if_neg (by omega)] at right
    refine nobody 0 inRange ⟨waits, fun eating => ?_, ?_⟩
    · rw [left_of_lt inRange, if_pos rfl] at eating
      rcases (keeps.2 here eating).1 waits with second | last
      · exact right second
      · exact left last
    · rw [right_of_lt inRange, if_neg (by omega)]
      exact right
  · rw [if_neg isFirst] at left
    refine nobody i inRange ⟨waits, ?_, fun eating => ?_⟩
    · rw [left_of_lt inRange, if_neg isFirst]
      exact left
    · rw [right_of_lt inRange, if_neg (by omega)] at eating
      split at right
      · rename_i isLast
        obtain rfl : i = s.currentPhilosofers - 2 := by omega
        rw [show s.currentPhilosofers - 2 + 1 = s.currentPhilosofers - 1 by omega] at eating
        rcases (keeps.2 here eating).2 waits with before | first
        · exact left before
        · exact right first
      · exact right eating

theorem fed_goOn (kept : s.Kept) (fed : s.Fed) (keeps : s.KeepsFed (.goOn started)) (went : s.goOn started = some s') :
    s'.Fed := by
  rcases goOn_cases went with ⟨main', -, -, rfl⟩ | ⟨-, rfl⟩ | ⟨-, rfl⟩ | ⟨-, rfl⟩ | ⟨here,
    rfl⟩ | ⟨here, rfl⟩ | ⟨here, rfl⟩ |
    ⟨here, rfl⟩
  · exact fed
  · exact fed
  · exact fed
  · refine fed.stays rfl (fun j small => ?_) fun _ _ _ _ _ => rfl
    exact Function.update_of_ne (Nat.ne_of_lt small) _ _
  · refine fed.stays rfl (fun _ _ => rfl) fun p call index testing there => ?_
    exact (kept.nobody (by rw [here]; rfl) there).elim
  · exact fed_counts kept fed here keeps
  · refine fed.stays rfl (fun _ _ => rfl) fun p call index testing there => ?_
    exact (kept.nobody (by rw [here]; rfl) there).elim
  · exact fed_uncounts kept fed here keeps

theorem fed_step (kept : s.Kept) (fed : s.Fed) (keeps : s.KeepsFed act) (stepped : s.step act = some s') : s'.Fed := by
  have same : s.Stays s' → s'.Fed := fun stays =>
    fed.stays stays.current (fun j _ => by rw [stays.states]) fun p _ _ _ _ => by rw [stays.pcs]
  cases act with
  | philosopher i => exact fed_philosopher kept fed stepped
  | printTable => exact same (stays_printTable stepped)
  | addPhilosofer created => exact same (stays_addPhilosofer stepped)
  | removePhilosofer => exact same (stays_removePhilosofer stepped)
  | goOn started => exact fed_goOn kept fed keeps stepped

theorem fed_start (old : Nat → PhiloState) : (Table.start old).Fed := by
  rintro i small ⟨waits, -⟩
  have decides : (Table.start old).state i = .deciding := if_pos small
  cases decides.symm.trans waits

theorem Table.Fed.wakes (fed : s.Fed) (kept : s.Kept) : s.Wakes := by
  intro free i small
  refine fed.nobody (fun p call index testing there => ?_) small
  cases kept.empty free there

theorem wakes_of_keepsFed (run : Relation.ReflTransGen (Step Table.KeepsFed) (Table.start old) s) : s.Wakes := by
  have fed : s.Fed := by
    induction run with
    | refl => exact fed_start old
    | tail run last ih =>
      obtain ⟨act, keeps, stepped⟩ := last
      exact fed_step (kept_of_run run) ih keeps stepped
  exact fed.wakes (kept_of_run run)

/-- The second philosopher waits for the first one, who rests when a sixth one has come. -/
theorem wakes_of_keepsFed_sixth : ∃ s,
    Relation.ReflTransGen (Step Table.KeepsFed) (Table.start fun _ => .deciding) s ∧
    0 < s.gateMutex ∧ s.currentPhilosofers = 6 ∧ s.state 0 = .deciding ∧ s.state 1 = .eating ∧ s.Wakes := by
  have played : ((Table.start fun _ => .deciding).play Table.KeepsFed
      (List.replicate 9 (.philosopher 0) ++ List.replicate 5 (.philosopher 1) ++
        .addPhilosofer true :: List.replicate 5 (.goOn true) ++ List.replicate 10 (.philosopher 0))).map
      (fun s => (s.gateMutex, s.currentPhilosofers, s.state 0, s.state 1)) = some (1, 6, .deciding, .eating) := by
    decide
  obtain ⟨s, result, view⟩ := Option.map_eq_some_iff.mp played
  obtain ⟨free, current, first, second⟩ : s.gateMutex = 1 ∧ s.currentPhilosofers = 6 ∧ s.state 0 = .deciding ∧
      s.state 1 = .eating := by
    simpa using view
  have run := play_run result
  exact ⟨s, run, by omega, current, first, second, wakes_of_keepsFed run⟩

/-- The first philosopher waits for the fifth one; then a sixth one sits down between them. -/
theorem wakes_fails : ¬∀ old s, Relation.ReflTransGen (Step fun _ _ => True) (Table.start old) s → s.Wakes := by
  intro always
  have played : ((Table.start fun _ => .deciding).play (fun _ _ => True)
      (List.replicate 9 (.philosopher 4) ++ List.replicate 5 (.philosopher 0) ++
        .addPhilosofer true :: List.replicate 5 (.goOn true))).map
      (fun s => (s.gateMutex, s.currentPhilosofers, s.state 0, s.state 1, s.state 5)) =
        some (1, 6, .waiting, .deciding, .deciding) := by
    decide
  obtain ⟨s, result, view⟩ := Option.map_eq_some_iff.mp played
  obtain ⟨free, current, first, second, sixth⟩ : s.gateMutex = 1 ∧ s.currentPhilosofers = 6 ∧ s.state 0 = .waiting ∧
      s.state 1 = .deciding ∧ s.state 5 = .deciding := by
    simpa using view
  have beside : LEFT s.currentPhilosofers 0 = 5 ∧ RIGHT s.currentPhilosofers 0 = 1 := by
    rw [current]
    exact ⟨rfl, rfl⟩
  refine always _ s (play_run result) (by omega) 0 (by omega) ⟨first, ?_, ?_⟩
  · rw [beside.1, sixth]
    nofun
  · rw [beside.2, second]
    nofun

end

end QuesOs.Philosophers
