import QuesOs.BmfsDirectory
import QuesOs.FirstFit

/-! Where `create` puts a file. Between the files that there are, its search is the first
fit; but where they leave no room it goes on behind the deleted entries, which lie anywhere. -/
namespace QuesOs.Bmfs
open FirstFit

/-- The blocks of an entry. -/
def BMFSEntry.extent (entry : BMFSEntry) : Extent := ⟨entry.startingBlock.toNat, entry.reservedBlocks.toNat⟩

/-- The entry lies between the first block and the limit. -/
structure BMFSEntry.Inside (limit : Nat) (entry : BMFSEntry) : Prop where
  starts : 1 ≤ entry.startingBlock.toNat
  positive : 0 < entry.reservedBlocks.toNat
  stops : entry.extent.stop ≤ limit

variable {entries live dead : List BMFSEntry} {entry : BMFSEntry} {limit : Nat}

/-! ## Sorting -/

/-- The difference of two blocks of a disk fits an `int`. -/
theorem startingBlockCmp_le {ea eb : BMFSEntry} (live : ea.first ≠ 1) (live' : eb.first ≠ 1)
    (low : ea.startingBlock.toNat < 2 ^ 31) (low' : eb.startingBlock.toNat < 2 ^ 31) :
    startingBlockCmp ea eb ≤ 0 ↔ ea.startingBlock.toNat ≤ eb.startingBlock.toNat := by
  unfold startingBlockCmp
  rw [if_neg live, if_neg live', Int32.le_iff_toInt_le]
  have value : (ea.startingBlock - eb.startingBlock).toUInt32.toInt32.toInt =
      (ea.startingBlock.toNat : Int) - eb.startingBlock.toNat := by
    have whole := UInt64.toNat_sub ea.startingBlock eb.startingBlock
    have lowest := UInt64.toNat_toUInt32 (ea.startingBlock - eb.startingBlock)
    change (ea.startingBlock - eb.startingBlock).toUInt32.toBitVec.toInt = _
    rw [BitVec.toInt_eq_toNat_cond]
    change (if 2 * (ea.startingBlock - eb.startingBlock).toUInt32.toNat < 2 ^ 32 then
      ((ea.startingBlock - eb.startingBlock).toUInt32.toNat : Int) else
      ((ea.startingBlock - eb.startingBlock).toUInt32.toNat : Int) - (2 ^ 32 : Nat)) = _
    rw [lowest, whole]
    split <;> omega
  rw [value, show (0 : Int32).toInt = 0 from rfl]
  omega

theorem orderedInsert_last (deleted : entry.first = 1) (entries : List BMFSEntry) :
    entries.orderedInsert (fun ea eb => startingBlockCmp ea eb ≤ 0) entry = entries ++ [entry] := by
  have never : ∀ eb, ¬startingBlockCmp entry eb ≤ 0 := by
    intro eb
    unfold startingBlockCmp
    rw [if_pos deleted]
    decide
  induction entries with
  | nil => rfl
  | cons eb entries ih => rw [List.orderedInsert_cons, if_neg (never eb), ih, List.cons_append]

/-- An entry that is not deleted goes among those that are not. -/
theorem orderedInsert_live (here : entry.first ≠ 1) (live : List BMFSEntry) (deleted : ∀ e ∈ dead, e.first = 1) :
    (live ++ dead).orderedInsert (fun ea eb => startingBlockCmp ea eb ≤ 0) entry =
      live.orderedInsert (fun ea eb => startingBlockCmp ea eb ≤ 0) entry ++ dead := by
  induction live with
  | nil =>
    cases dead with
    | nil => rfl
    | cons e dead =>
      refine List.orderedInsert_cons_of_le _ _ ?_
      unfold startingBlockCmp
      rw [if_neg here, if_pos (deleted e (List.mem_cons_self ..))]
      decide
  | cons e live ih =>
    rw [List.cons_append, List.orderedInsert_cons, List.orderedInsert_cons, ih]
    split
    · rfl
    · rfl

theorem orderedInsert_sorted (here : entry.first ≠ 1) (lives : ∀ e ∈ live, e.first ≠ 1)
    (low : entry.startingBlock.toNat < 2 ^ 31) (lows : ∀ e ∈ live, e.startingBlock.toNat < 2 ^ 31)
    (sorted : live.Pairwise fun e f => e.startingBlock.toNat ≤ f.startingBlock.toNat) :
    (live.orderedInsert (fun ea eb => startingBlockCmp ea eb ≤ 0) entry).Pairwise
      fun e f => e.startingBlock.toNat ≤ f.startingBlock.toNat := by
  induction live with
  | nil => exact List.pairwise_singleton _ _
  | cons e live ih =>
    obtain ⟨before, sorted⟩ := List.pairwise_cons.mp sorted
    have order := startingBlockCmp_le here (lives e (List.mem_cons_self ..)) low (lows e (List.mem_cons_self ..))
    rw [List.orderedInsert_cons]
    split
    · have first := order.mp ‹_›
      refine List.pairwise_cons.mpr ⟨fun f member => ?_, List.pairwise_cons.mpr ⟨before, sorted⟩⟩
      rcases List.mem_cons.mp member with rfl | later
      · exact first
      · exact Nat.le_trans first (before f later)
    · have later := Nat.lt_of_not_le (order.not.mp ‹_›)
      refine List.pairwise_cons.mpr ⟨fun f member => ?_, ih (fun f member => lives f (List.mem_cons_of_mem _ member))
        (fun f member => lows f (List.mem_cons_of_mem _ member)) sorted⟩
      rcases (List.mem_orderedInsert _).mp member with rfl | old
      · exact Nat.le_of_lt later
      · exact before f old

/-- The files in the order of their blocks, then the deleted entries. -/
theorem qsort_split (lows : ∀ e ∈ entries, e.startingBlock.toNat < 2 ^ 31) : ∃ live dead, qsort entries = live ++ dead ∧
    live.Perm (entries.filter fun e => e.first ≠ 1) ∧ dead.Perm (entries.filter fun e => e.first = 1) ∧
    live.Pairwise fun e f => e.startingBlock.toNat ≤ f.startingBlock.toNat := by
  induction entries with
  | nil => exact ⟨[], [], rfl, .refl _, .refl _, .nil⟩
  | cons e entries ih =>
    obtain ⟨live, dead, split, lives, deads, sorted⟩ := ih fun f member => lows f (List.mem_cons_of_mem _ member)
    have step : qsort (e :: entries) = (live ++ dead).orderedInsert (fun ea eb => startingBlockCmp ea eb ≤ 0) e := by
      rw [← split]
      rfl
    by_cases deleted : e.first = 1
    · refine ⟨live, dead ++ [e], ?_, ?_, ?_, sorted⟩
      · rw [step, orderedInsert_last deleted, List.append_assoc]
      · simpa [deleted] using lives
      · rw [List.filter_cons_of_pos (by simpa using deleted)]
        exact (List.perm_append_singleton e dead).trans (deads.cons e)
    · have gone : ∀ f ∈ dead, f.first = 1 := fun f member => by simpa using (List.mem_filter.mp (deads.subset member)).2
      have here : ∀ f ∈ live, f ∈ entries ∧ f.first ≠ 1 :=
        fun f member => by simpa using List.mem_filter.mp (lives.subset member)
      refine ⟨live.orderedInsert (fun ea eb => startingBlockCmp ea eb ≤ 0) e, dead, ?_, ?_, ?_, ?_⟩
      · rw [step, orderedInsert_live deleted live gone]
      · rw [List.filter_cons_of_pos (by simpa using deleted)]
        exact (List.perm_orderedInsert _ e live).trans (lives.cons e)
      · simpa [deleted] using deads
      · exact orderedInsert_sorted deleted (fun f member => (here f member).2) (lows e (List.mem_cons_self ..))
          (fun f member => lows f (List.mem_cons_of_mem _ (here f member).1)) sorted

/-! ## The search -/

theorem le_sub_iff {want before after : UInt64} (le : before.toNat ≤ after.toNat) :
    want ≤ after - before ↔ before.toNat + want.toNat ≤ after.toNat := by
  rw [UInt64.le_iff_toNat_le, UInt64.toNat_sub_of_le _ _ (UInt64.le_iff_toNat_le.mpr le)]
  omega

/-- The block behind an entry, if there is room from there to the limit. -/
def staleFit (limit want : Nat) (dead : List BMFSEntry) : Option Nat :=
  (dead.map fun e => e.extent.stop).find? fun stop => stop + want ≤ limit

variable {num_blocks want prev : UInt64}

theorem stop_toNat (inside : entry.Inside limit) (few : limit < 2 ^ 31) :
    (entry.startingBlock + entry.reservedBlocks).toNat = entry.extent.stop := by
  have stops := inside.stops
  rw [UInt64.toNat_add]
  exact Nat.mod_eq_of_lt (Nat.lt_of_le_of_lt stops (Nat.lt_trans few (by decide)))

/-- Behind the files there is the last gap, then what lies behind the deleted entries. -/
theorem fitLoop_dead (blocks : num_blocks.toNat = limit + 1) (few : limit < 2 ^ 31) (deleted : ∀ e ∈ dead, e.first = 1)
    (inside : ∀ e ∈ dead, e.Inside limit) (low : prev.toNat ≤ limit) : (fitLoop num_blocks want dead prev).toNat =
      (if prev.toNat + want.toNat ≤ limit then some prev.toNat else staleFit limit want.toNat dead).getD 0 := by
  have last : (num_blocks - 1).toNat = limit := by
    rw [UInt64.toNat_sub_of_le _ _ (UInt64.le_iff_toNat_le.mpr (by rw [blocks]; exact Nat.le_add_left 1 limit)), blocks]
    rfl
  have fits : ∀ {prev : UInt64}, prev.toNat ≤ limit →
    (want ≤ num_blocks - 1 - prev ↔ prev.toNat + want.toNat ≤ limit) :=
    fun {prev} low => by rw [le_sub_iff (by rwa [last]), last]
  induction dead generalizing prev with
  | nil =>
    unfold fitLoop
    simp only [fits low]
    split
    · rfl
    · rfl
  | cons e dead ih =>
    have stop := stop_toNat (inside e (List.mem_cons_self ..)) few
    have stops := (inside e (List.mem_cons_self ..)).stops
    unfold fitLoop
    simp only [deleted e (List.mem_cons_self ..), if_true, fits low]
    split
    · rfl
    · rw [ih (fun f member => deleted f (List.mem_cons_of_mem _ member)) (fun f member =>
        inside f (List.mem_cons_of_mem _ member))
        (by rw [stop]; exact stops), stop]
      unfold staleFit
      rw [List.map_cons, List.find?_cons]
      by_cases room : e.extent.stop + want.toNat ≤ limit
      · simp [room]
      · simp [room]

/-- Between the files the search is the first fit. -/
theorem fitLoop_eq (blocks : num_blocks.toNat = limit + 1) (few : limit < 2 ^ 31) (deleted : ∀ e ∈ dead, e.first = 1)
    (inside : ∀ e ∈ dead, e.Inside limit) (lives : ∀ e ∈ live, e.first ≠ 1) (insides : ∀ e ∈ live, e.Inside limit)
    (row : Row limit prev.toNat (live.map BMFSEntry.extent)) : (fitLoop num_blocks want (live ++ dead) prev).toNat =
      ((firstFit limit want.toNat prev.toNat (live.map BMFSEntry.extent)).or
        (staleFit limit want.toNat dead)).getD 0 := by
  induction live generalizing prev with
  | nil =>
    rw [List.nil_append, fitLoop_dead blocks few deleted inside row]
    rw [List.map_nil, firstFit]
    split
    · rfl
    · rfl
  | cons e live ih =>
    obtain ⟨starts, row⟩ := row
    have stop := stop_toNat (insides e (List.mem_cons_self ..)) few
    have fits : want ≤ e.startingBlock - prev ↔ prev.toNat + want.toNat ≤ e.extent.start := le_sub_iff starts
    rw [List.cons_append, List.map_cons, fitLoop, firstFit]
    simp only [lives e (List.mem_cons_self ..), if_false, fits]
    split
    · rfl
    · rw [ih (fun f member => lives f (List.mem_cons_of_mem _ member)) (fun f member =>
        insides f (List.mem_cons_of_mem _ member))
        (by rw [stop]; exact row), stop]

end QuesOs.Bmfs
