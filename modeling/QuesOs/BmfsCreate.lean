import QuesOs.BmfsPlacement

/-! What `create` does to the files that there are. It keeps them unless its search goes on
behind the deleted entries, or the directory has no end. -/
namespace QuesOs.Bmfs
open FirstFit

variable {directory directory' : Nat → UInt8} {slot i n limit want a : Nat} {d : Disk}
    {filename : CString} {start blocks : UInt64}
  {entry : BMFSEntry}

/-! ## Files -/

/-- There is a file in the slot. -/
def Live (directory : Nat → UInt8) (i : Nat) : Prop := i < used directory ∧ ¬Deleted directory i

/-- There was a file in the slot. -/
def Gone (directory : Nat → UInt8) (i : Nat) : Prop := i < used directory ∧ Deleted directory i

instance (directory : Nat → UInt8) (i : Nat) : Decidable (Live directory i) := inferInstanceAs (Decidable (_ ∧ _))

instance (directory : Nat → UInt8) (i : Nat) : Decidable (Gone directory i) := inferInstanceAs (Decidable (_ ∧ _))

/-- The names are different and fit, and every entry, deleted ones too, has blocks of its own
between the first one and the limit, which hold its bytes. -/
structure Kept (limit : Nat) (directory : Nat → UInt8) : Prop where
  named : ∀ i, Live directory i → (entryAt directory i).fileName.length ≤ 31
  unique : ∀ i j, Live directory i → Live directory j →
  (entryAt directory i).fileName = (entryAt directory j).fileName → i = j
  inside : ∀ i, i < used directory → (entryAt directory i).Inside limit
  sized : ∀ i, Live directory i → (entryAt directory i).fileSize.toNat ≤
  (entryAt directory i).reservedBlocks.toNat * 2097152

/-- No two files have a block in common. -/
def FilesApart (directory : Nat → UInt8) : Prop :=
  ∀ i j, Live directory i → Live directory j → i ≠ j → (entryAt directory i).extent.Apart (entryAt directory j).extent

/-- From `a` on there are as many free blocks as are wanted. -/
def Free (limit want : Nat) (directory : Nat → UInt8) (a : Nat) : Prop :=
  1 ≤ a ∧ a + want ≤ limit ∧ ∀ i, Live directory i → Extent.Apart ⟨a, want⟩ (entryAt directory i).extent

/-- Sorted, the files are a row of extents, and the deleted entries come behind them. -/
theorem sorted_entries (kept : Kept limit directory) (apart : FilesApart directory)
    (few : limit < 2 ^ 31) (some : 1 ≤ limit) :
    ∃ live dead, qsort ((List.range (used directory)).map (entryAt directory)) = live ++ dead ∧
      (∀ e, e ∈ live ↔ ∃ i, Live directory i ∧ entryAt directory i = e) ∧
      (∀ e, e ∈ dead ↔ ∃ i, Gone directory i ∧ entryAt directory i = e) ∧ Row limit 1 (live.map BMFSEntry.extent) := by
  have lows : ∀ e ∈ (List.range (used directory)).map (entryAt directory), e.startingBlock.toNat < 2 ^ 31 := by
    intro e member
    obtain ⟨i, inside, rfl⟩ := List.mem_map.mp member
    have stops := (kept.inside i (List.mem_range.mp inside)).stops
    exact Nat.lt_of_le_of_lt (Nat.le_trans (Nat.le_add_right _ _) stops) few
  obtain ⟨live, dead, split, lives, deads, sorted⟩ := qsort_split lows
  rw [List.filter_map] at lives deads
  have mem_live : ∀ e, e ∈ live ↔ ∃ i, Live directory i ∧ entryAt directory i = e := by
    intro e
    rw [lives.mem_iff]
    simp [Live, Deleted, and_assoc]
  have mem_dead : ∀ e, e ∈ dead ↔ ∃ i, Gone directory i ∧ entryAt directory i = e := by
    intro e
    rw [deads.mem_iff]
    simp [Gone, Deleted, and_assoc]
  refine ⟨live, dead, split, mem_live, mem_dead,
    row_of_sorted (List.pairwise_map.mpr sorted) (List.pairwise_map.mpr ?_) ?_ some⟩
  · -- Different slots, in whatever order they were sorted.
    rw [lives.pairwise_iff (R := fun e f => e.extent.Apart f.extent) fun apart => apart.symm, List.pairwise_map]
    have different : (List.range (used directory)).Pairwise fun i j => i ≠ j := List.nodup_range
    refine (different.sublist List.filter_sublist).imp_of_mem fun {i j} here there other => ?_
    have live : ∀ {i}, i ∈ (List.range (used directory)).filter ((fun e => decide (e.first ≠ 1)) ∘ entryAt directory) →
        Live directory i := fun member => by simpa [Live, Deleted] using member
    exact apart i j (live here) (live there) other
  · intro x member
    obtain ⟨e, here, rfl⟩ := List.mem_map.mp member
    obtain ⟨i, live, rfl⟩ := (mem_live e).mp here
    have inside := kept.inside i live.1
    exact ⟨inside.starts, inside.positive, inside.stops⟩

/-- The search of `create` comes to a place that is free, if there is one; else to one behind a
deleted entry, or to none. -/
theorem fitLoop_cases {num_blocks want : UInt64} (kept : Kept limit directory) (apart : FilesApart directory)
    (blocks : num_blocks.toNat = limit + 1) (few : limit < 2 ^ 31) (some : 1 ≤ limit) :
    let start := (fitLoop num_blocks want (qsort ((List.range (used directory)).map (entryAt directory))) 1).toNat
    Free limit want.toNat directory start ∨ (∀ a, ¬Free limit want.toNat directory a) ∧
      (start = 0 ∧ (∀ i, Gone directory i → limit < (entryAt directory i).extent.stop + want.toNat) ∨
        ∃ i, Gone directory i ∧ start = (entryAt directory i).extent.stop ∧ start + want.toNat ≤ limit) := by
  obtain ⟨live, dead, split, mem_live, mem_dead, row⟩ := sorted_entries kept apart few some
  have lives : ∀ e ∈ live, e.first ≠ 1 ∧ e.Inside limit := by
    intro e member
    obtain ⟨i, here, rfl⟩ := (mem_live e).mp member
    exact ⟨here.2, kept.inside i here.1⟩
  have deads : ∀ e ∈ dead, e.first = 1 ∧ e.Inside limit := by
    intro e member
    obtain ⟨i, gone, rfl⟩ := (mem_dead e).mp member
    exact ⟨gone.2, kept.inside i gone.1⟩
  have chosen : (fitLoop num_blocks want (live ++ dead) 1).toNat = _ :=
    fitLoop_eq blocks few (fun e member => (deads e member).1) (fun e member => (deads e member).2)
      (fun e member => (lives e member).1) (fun e member => (lives e member).2) row
  have free : ∀ a, Free limit want.toNat directory a ↔
      1 ≤ a ∧ a + want.toNat ≤ limit ∧ ∀ x ∈ live.map BMFSEntry.extent, Extent.Apart ⟨a, want.toNat⟩ x := by
    intro a
    refine and_congr_right fun _ => and_congr_right fun _ => ⟨fun away x member => ?_, fun away i here => ?_⟩
    · obtain ⟨e, listed, rfl⟩ := List.mem_map.mp member
      obtain ⟨i, here, rfl⟩ := (mem_live e).mp listed
      exact away i here
    · exact away _ (List.mem_map_of_mem ((mem_live _).mpr ⟨i, here, rfl⟩))
  rw [split]
  dsimp only
  rw [chosen, show (1 : UInt64).toNat = 1 from rfl]
  cases found : firstFit limit want.toNat 1 (live.map BMFSEntry.extent) with
  | some a => exact .inl ((free a).mpr (firstFit_some row found))
  | none =>
    have crowded : ∀ a, ¬Free limit want.toNat directory a := by
      intro a here
      obtain ⟨low, fits, away⟩ := (free a).mp here
      obtain ⟨x, member, meets⟩ := (firstFit_none_iff row).mp found a low fits
      exact meets (away x member)
    refine .inr ⟨crowded, ?_⟩
    cases stale : staleFit limit want.toNat dead with
    | none =>
      refine .inl ⟨rfl, fun i gone => ?_⟩
      have missed := List.find?_eq_none.mp stale _ (List.mem_map_of_mem ((mem_dead _).mpr ⟨i, gone, rfl⟩))
      simpa using missed
    | some stop =>
      obtain ⟨e, member, same⟩ := List.mem_map.mp (List.mem_of_find?_eq_some stale)
      obtain ⟨i, gone, rfl⟩ := (mem_dead e).mp member
      have fits : stop + want.toNat ≤ limit := by simpa using List.find?_some stale
      exact .inr ⟨i, gone, same.symm, fits⟩

/-! ## The new record -/

theorem directory_flush (inside : i < 4096) : (d.flush directory).directory i = directory i := by
  unfold Disk.directory Disk.flush Disk.fwrite Image.blit
  dsimp only
  rw [if_pos inside, if_pos (by omega), Nat.add_sub_cancel_left]

theorem entryAt_flush (inside : slot < 64) : entryAt (d.flush directory).directory slot = entryAt directory slot :=
  entryAt_congr fun k low high => directory_flush (by omega)

/-- A record is written in a slot without a file; no other entry is. -/
structure Recorded (directory directory' : Nat → UInt8) (slot : Nat) (entry : BMFSEntry) : Prop where
  free : ¬Live directory slot
  here : Live directory' slot
  entry : entryAt directory' slot = entry
  others : ∀ i, i < used directory' → i ≠ slot → i < used directory ∧ entryAt directory' i = entryAt directory i

/-- No entry is lost. -/
def Lasts (directory directory' : Nat → UInt8) : Prop := ∀ i, i < used directory → i < used directory'

theorem Recorded.live (recorded : Recorded directory directory' slot entry)
    (live : Live directory' i) (other : i ≠ slot) :
    Live directory i := by
  obtain ⟨inside, same⟩ := recorded.others i live.1 other
  refine ⟨inside, fun deleted => live.2 ?_⟩
  unfold Deleted
  rw [same]
  exact deleted

theorem Recorded.stays (recorded : Recorded directory directory' slot entry) (lasts : i < used directory')
    (live : Live directory i) : Live directory' i ∧ entryAt directory' i = entryAt directory i := by
  have other : i ≠ slot := by
    rintro rfl
    exact recorded.free live
  obtain ⟨-, same⟩ := recorded.others i lasts other
  refine ⟨⟨lasts, fun deleted => live.2 ?_⟩, same⟩
  unfold Deleted at deleted
  rwa [same] at deleted

/-- Where the name is new and the blocks are those of the disk, the directory stays in order. -/
theorem Recorded.kept (recorded : Recorded directory directory' slot ⟨filename.bytes, start, blocks, 0⟩)
    (kept : Kept limit directory)
    (valid : filename.Valid) (new : ∀ i, Live directory i → (entryAt directory i).fileName ≠ filename.bytes)
    (inside : BMFSEntry.Inside limit ⟨filename.bytes, start, blocks, 0⟩) : Kept limit directory' := by
  have fresh : ∀ i, Live directory' i → i ≠ slot → (entryAt directory' i).fileName ≠ filename.bytes := by
    intro i live other
    rw [(recorded.others i live.1 other).2]
    exact new i (recorded.live live other)
  refine ⟨fun i live => ?_, fun i j live live' same => ?_, fun i used => ?_, fun i live => ?_⟩
  · by_cases own : i = slot
    · rw [own, recorded.entry]
      exact valid.short
    · rw [(recorded.others i live.1 own).2]
      exact kept.named i (recorded.live live own)
  · by_cases own : i = slot
    · by_cases own' : j = slot
      · rw [own, own']
      · rw [own, recorded.entry] at same
        exact (fresh j live' own' same.symm).elim
    · by_cases own' : j = slot
      · rw [own', recorded.entry] at same
        exact (fresh i live own same).elim
      · rw [(recorded.others i live.1 own).2, (recorded.others j live'.1 own').2] at same
        exact kept.unique i j (recorded.live live own) (recorded.live live' own') same
  · by_cases own : i = slot
    · rw [own, recorded.entry]
      exact inside
    · obtain ⟨old, same⟩ := recorded.others i used own
      rw [same]
      exact kept.inside i old
  · by_cases own : i = slot
    · rw [own, recorded.entry]
      exact Nat.zero_le _
    · rw [(recorded.others i live.1 own).2]
      exact kept.sized i (recorded.live live own)

/-- The files stay apart exactly if the new one is put where no file is. -/
theorem Recorded.apart_iff (recorded : Recorded directory directory' slot entry) (apart : FilesApart directory)
    (lasts : Lasts directory directory') : FilesApart directory' ↔ ∀ i, Live directory i →
    entry.extent.Apart (entryAt directory i).extent := by
  constructor
  · intro apart' i live
    obtain ⟨live', same⟩ := recorded.stays (lasts i live.1) live
    have other : slot ≠ i := by
      rintro rfl
      exact recorded.free live
    have between := apart' slot i recorded.here live' other
    rwa [recorded.entry, same] at between
  · intro away i j live live' other
    by_cases own : i = slot
    · subst own
      rw [recorded.entry, (recorded.others j live'.1 other.symm).2]
      exact away j (recorded.live live' other.symm)
    · by_cases own' : j = slot
      · subst own'
        rw [recorded.entry, (recorded.others i live.1 other).2]
        exact (away i (recorded.live live other)).symm
      · rw [(recorded.others i live.1 own).2, (recorded.others j live'.1 own').2]
        exact apart i j (recorded.live live own) (recorded.live live' own') other

/-- A valid name is that of an entry which is neither empty nor deleted. -/
theorem first_of_valid (valid : filename.Valid) (named : entry.fileName = filename.bytes) :
    entry.first ≠ 0 ∧ entry.first ≠ 1 := by
  obtain ⟨byte, head, notDeleted⟩ := valid.first
  have first : entry.first = byte := by
    rw [BMFSEntry.first, named, List.headD_eq_head?_getD, head]
    rfl
  have member : byte ∈ filename.bytes := List.mem_of_head? head
  rw [first]
  exact ⟨fun zero => filename.proper (zero ▸ member), notDeleted⟩

/-- The slot for a new file is that of a deleted one, or the end. A directory without an end is
taken for an empty one. -/
theorem countLoop_cases (directory : Nat → UInt8) : ∃ num free, countLoop directory 64 0 none = (num, free) ∧
    (used directory < 64 ∧ num = used directory ∧
      (∃ slot, free = some slot ∧ (slot = used directory ∨ Gone directory slot)) ∨
      used directory = 64 ∧ num = 0 ∧ (free = none ∧ (∀ i, ¬Gone directory i) ∨
        ∃ slot, free = some slot ∧ Gone directory slot ∧ (slot = 0 ↔ Gone directory 0))) := by
  have counted := countLoop_eq (ends_used directory) (Nat.zero_add 64) (Nat.zero_le _) none
  rw [Nat.sub_zero, ← List.range_eq_range', Option.none_or] at counted
  dsimp only at counted
  have gone : ∀ {slot}, (List.range (used directory)).find? (Deleted directory ·) = some slot →
    Gone directory slot := by
    intro slot found
    exact ⟨List.mem_range.mp (List.mem_of_find?_eq_some found), by simpa using List.find?_some found⟩
  by_cases short : used directory < 64
  · rw [if_pos short] at counted
    refine ⟨_, _, counted, .inl ⟨short, rfl, _, rfl, ?_⟩⟩
    cases found : (List.range (used directory)).find? (Deleted directory ·) with
    | none => exact .inl rfl
    | some slot => exact .inr (gone found)
  · rw [if_neg short] at counted
    have full : used directory = 64 := Nat.le_antisymm (ends_used directory).le (Nat.not_lt.mp short)
    refine ⟨_, _, counted, .inr ⟨full, rfl, ?_⟩⟩
    cases found : (List.range (used directory)).find? (Deleted directory ·) with
    | none =>
      refine .inl ⟨rfl, fun i here => ?_⟩
      have passed := List.find?_eq_none.mp found i (List.mem_range.mpr here.1)
      exact passed (decide_eq_true here.2)
    | some slot =>
      refine .inr ⟨slot, rfl, gone found, fun zero => zero ▸ gone found, fun first => ?_⟩
      rw [full, show List.range 64 = 0 :: List.range' 1 63 from rfl, List.find?_cons, decide_eq_true first.2] at found
      exact (Option.some.inj found).symm

/-- What is written for a new file, up to the end of the directory behind it. -/
theorem recorded_create {num : Nat} (valid : filename.Valid) (start blocks : UInt64)
    (place : used directory < 64 ∧ num = used directory ∧ (slot = used directory ∨ Gone directory slot) ∨
      used directory = 64 ∧ num = 0 ∧ Gone directory slot) :
    let record := addRecord directory slot start blocks filename
    let directory' := if slot = num ∧ num + 1 < 64 then Image.write record ((num + 1) * 64) [0] else record
    Recorded directory (d.flush directory').directory slot ⟨filename.bytes, start, blocks, 0⟩ ∧
      if used directory = 64 ∧ slot = 0 then used (d.flush directory').directory = 1
      else Lasts directory (d.flush directory').directory := by
  intro record directory'
  have here : slot < 64 := by
    rcases place with ⟨short, -, rfl | gone⟩ | ⟨full, -, gone⟩
    · exact short
    · exact Nat.lt_trans gone.1 short
    · exact full ▸ gone.1
  -- Apart from the new entry only the one behind it is written, if it is to be the end.
  have recorded : entryAt (d.flush directory').directory slot = ⟨filename.bytes, start, blocks, 0⟩ := by
    rw [entryAt_flush here]
    dsimp only [directory']
    split
    · rw [entryAt_write_other (n := num + 1) (by simp) (by omega)]
      exact entryAt_addRecord start blocks valid
    · exact entryAt_addRecord start blocks valid
  have others : ∀ i, i < 64 → i ≠ slot → (slot = num → i ≠ num + 1) →
      entryAt (d.flush directory').directory i = entryAt directory i := by
    intro i inside other notEnd
    rw [entryAt_flush inside]
    dsimp only [directory']
    split
    · rename_i last
      rw [entryAt_write_other (n := num + 1) (by simp) (notEnd last.1)]
      exact entryAt_addRecord_other start blocks valid other
    · exact entryAt_addRecord_other start blocks valid other
  have ending : slot = num → num + 1 < 64 → (entryAt (d.flush directory').directory (num + 1)).first = 0 := by
    intro same inside
    rw [entryAt_flush inside, first_eq]
    dsimp only [directory']
    rw [if_pos ⟨same, inside⟩]
    exact Image.write_here (i := 0) (by decide)
  have named : BMFSEntry.first ⟨filename.bytes, start, blocks, 0⟩ ≠ 0 ∧
    BMFSEntry.first ⟨filename.bytes, start, blocks, 0⟩ ≠ 1 :=
    first_of_valid valid rfl
  have free : ¬Live directory slot := by
    rcases place with ⟨-, -, rfl | gone⟩ | ⟨-, -, gone⟩
    · exact fun live => Nat.lt_irrefl _ live.1
    · exact fun live => live.2 gone.2
    · exact fun live => live.2 gone.2
  have finish : ∀ {n}, Ends (d.flush directory').directory n → slot < n → (∀ i, i < n → i ≠ slot → i < used directory ∧
      (slot = num → i ≠ num + 1)) →
      Recorded directory (d.flush directory').directory slot ⟨filename.bytes, start, blocks, 0⟩ := by
    intro n ends inside each
    rw [← ends.used_eq] at inside each
    refine ⟨free, ⟨inside, ?_⟩, recorded, fun i low other => ⟨(each i low other).1, ?_⟩⟩
    · unfold Deleted
      rw [recorded]
      exact named.2
    · exact others i (Nat.lt_of_lt_of_le low (ends_used _).le) other (each i low other).2
  have filled : ∀ {i}, i < used directory → (slot = num → i ≠ num + 1) →
      (entryAt (d.flush directory').directory i).first ≠ 0 := by
    intro i low notEnd
    by_cases own : i = slot
    · rw [own, recorded]
      exact named.1
    · rw [others i (Nat.lt_of_lt_of_le low (ends_used directory).le) own notEnd]
      exact (ends_used directory).taken i low
  rcases place with ⟨short, rfl, rfl | gone⟩ | ⟨full, rfl, gone⟩
  · -- The directory grows by one.
    have ends : Ends (d.flush directory').directory (used directory + 1) := by
      refine ⟨short, fun i low => ?_, ending rfl⟩
      rcases Nat.lt_succ_iff_lt_or_eq.mp low with old | rfl
      · exact filled old fun _ => by omega
      · rw [recorded]
        exact named.1
    refine ⟨finish ends (Nat.lt_succ_self _) fun i low other => ⟨by omega, fun _ => by omega⟩, ?_⟩
    rw [if_neg (by omega)]
    intro i low
    rw [ends.used_eq]
    exact Nat.lt_succ_of_lt low
  · have ends : Ends (d.flush directory').directory (used directory) := by
      have inside := gone.1
      refine ⟨Nat.le_of_lt short, fun i low => filled low fun _ => by omega, fun _ => ?_⟩
      rw [others _ short (by omega) (by omega)]
      exact (ends_used directory).last short
    refine ⟨finish ends gone.1 fun i low _ => ⟨low, fun _ => by have := gone.1; omega⟩, ?_⟩
    rw [if_neg (by omega)]
    intro i low
    rwa [ends.used_eq]
  · by_cases first : slot = 0
    · -- The second entry is made the end.
      subst first
      have ends : Ends (d.flush directory').directory 1 := by
        refine ⟨by decide, fun i low => ?_, ending rfl⟩
        obtain rfl := Nat.lt_one_iff.mp low
        rw [recorded]
        exact named.1
      refine ⟨finish ends Nat.zero_lt_one fun i low other => (other (Nat.lt_one_iff.mp low)).elim, ?_⟩
      rw [if_pos ⟨full, rfl⟩]
      exact ends.used_eq
    · have ends : Ends (d.flush directory').directory 64 :=
        ⟨Nat.le_refl _, fun i low => filled (full ▸ low) fun same => (first same).elim,
          fun less => absurd less (Nat.lt_irrefl _)⟩
      refine ⟨finish ends here fun i low _ => ⟨full ▸ low, fun same => (first same).elim⟩, ?_⟩
      rw [if_neg fun both => first both.2]
      intro i low
      rw [ends.used_eq]
      exact full ▸ low

/-! ## `create` -/

/-- A file of that name is there. -/
def Named (directory : Nat → UInt8) (filename : CString) (i : Nat) : Prop :=
  Live directory i ∧ (entryAt directory i).fileName = filename.bytes

instance (directory : Nat → UInt8) (filename : CString) : Decidable (∀ i, ¬Named directory filename i) :=
  decidable_of_iff (∀ i, i < used directory → ¬Deleted directory i → (entryAt directory i).fileName ≠ filename.bytes)
    (by simp only [Named, Live, not_and, and_imp, ne_eq])

theorem findfile_none : findfile directory filename = none ↔ ∀ i, ¬Named directory filename i := by
  rw [findfile_eq (ends_used directory), List.find?_eq_none]
  constructor
  · intro none i named
    refine none i (List.mem_range.mpr named.1.1) (decide_eq_true ⟨named.1.2, named.2.symm⟩)
  · intro absent i inside found
    obtain ⟨live, same⟩ := of_decide_eq_true found
    exact absent i ⟨⟨List.mem_range.mp inside, live⟩, same.symm⟩

theorem findfile_some (found : findfile directory filename = some i) : Named directory filename i := by
  rw [findfile_eq (ends_used directory)] at found
  have here := List.find?_some found
  obtain ⟨live, same⟩ := of_decide_eq_true here
  exact ⟨⟨List.mem_range.mp (List.mem_of_find?_eq_some found), live⟩, same.symm⟩

/-- The index of the last block, which is left free. -/
def Disk.lastBlock (d : Disk) : Nat := d.disksize.toNat / 2 - 1

theorem Disk.lastBlock_lt (d : Disk) : d.lastBlock < 2 ^ 31 := by
  have := d.disksize.toNat_lt
  unfold lastBlock
  omega

/-- What is asked for in MiB, in blocks. -/
def blocksFor (maxsize : UInt64) : UInt64 := (if maxsize % 2 ≠ 0 then maxsize + 1 else maxsize) / 2

theorem blocksFor_toNat {maxsize : UInt64} (small : maxsize.toNat < 2 ^ 32) :
    (blocksFor maxsize).toNat = (maxsize.toNat + 1) / 2 := by
  have parity : maxsize % 2 = 0 ↔ maxsize.toNat % 2 = 0 := by
    rw [← UInt64.toNat_inj, UInt64.toNat_mod]
    rfl
  unfold blocksFor
  rw [UInt64.toNat_div, show (2 : UInt64).toNat = 2 from rfl]
  split
  · have odd := parity.not.mp ‹_›
    rw [UInt64.toNat_add, show (1 : UInt64).toNat = 1 from rfl]
    omega
  · have even := parity.mp (not_not.mp ‹_›)
    omega

/-- Why there is no new file. -/
def Refuses (d : Disk) (filename : CString) (want : Nat) : Prop :=
  (∃ i, Named d.directory filename i) ∨
    if used d.directory < 64 then (∀ a, ¬Free d.lastBlock want d.directory a) ∧
      ∀ i, Gone d.directory i → d.lastBlock < (entryAt d.directory i).extent.stop + want
    else (∀ i, ¬Gone d.directory i) ∨ d.lastBlock < 1 + want

/-- Where a new file is put. -/
def PutAt (d d' : Disk) (slot start want : Nat) : Prop :=
  if used d.directory < 64 then Lasts d.directory d'.directory ∧ (Free d.lastBlock want d.directory start ∨
    (∀ a, ¬Free d.lastBlock want d.directory a) ∧ ∃ i, Gone d.directory i ∧ start = (entryAt d.directory i).extent.stop)
  else start = 1 ∧ (slot = 0 ↔ Gone d.directory 0) ∧ Gone d.directory slot ∧
    if slot = 0 then used d'.directory = 1 else Lasts d.directory d'.directory

/-- What `create` does. -/
inductive Creates (d : Disk) (filename : CString) (blocks : UInt64) : Disk × List String → Prop
  | refused (printed : List String) (why : Refuses d filename blocks.toNat) : Creates d filename blocks (d, printed)
  | created (slot : Nat) (start : UInt64) (directory' : Nat → UInt8) (new : ∀ i, ¬Named d.directory filename i)
    (recorded : Recorded d.directory (d.flush directory').directory slot ⟨filename.bytes, start, blocks, 0⟩)
    (inside : BMFSEntry.Inside d.lastBlock ⟨filename.bytes, start, blocks, 0⟩)
    (put : PutAt d (d.flush directory') slot start.toNat blocks.toNat) :
    Creates d filename blocks (d.flush directory', ["Creating new file...\n", "Complete\n"])

theorem create_spec {maxsize : UInt64} (kept : Kept d.lastBlock d.directory) (apart : FilesApart d.directory)
    (hasBlocks : 1 ≤ d.lastBlock) (valid : filename.Valid) (positive : 0 < (blocksFor maxsize).toNat) :
    Creates d filename (blocksFor maxsize) (create d filename maxsize) := by
  have num_blocks : ((d.disksize / 2).toUInt64).toNat = d.lastBlock + 1 := by
    have half : ((d.disksize / 2).toUInt64).toNat = d.disksize.toNat / 2 := by
      rw [UInt32.toNat_toUInt64, UInt32.toNat_div]
      rfl
    unfold Disk.lastBlock at hasBlocks ⊢
    omega
  have few := d.lastBlock_lt
  unfold create
  cases found : findfile d.directory filename with
  | some slot => exact .refused _ (.inl ⟨slot, findfile_some found⟩)
  | none =>
    have new := findfile_none.mp found
    obtain ⟨num, free, counted, places⟩ := countLoop_cases d.directory
    dsimp only
    rw [counted]
    have asked : (if maxsize % 2 ≠ 0 then maxsize + 1 else maxsize) / 2 = blocksFor maxsize := rfl
    have inside : ∀ {start : UInt64}, start ≠ 0 → start.toNat + (blocksFor maxsize).toNat ≤ d.lastBlock →
        BMFSEntry.Inside d.lastBlock ⟨filename.bytes, start, blocksFor maxsize, 0⟩ := fun {start} nonzero fits =>
      ⟨Nat.pos_of_ne_zero fun zero => nonzero (UInt64.toNat_inj.mp zero), positive, fits⟩
    rcases places with ⟨short, rfl, slot, rfl, place⟩ | ⟨full, rfl, ⟨rfl, nothing⟩ | ⟨slot, rfl, gone, first⟩⟩
    · have chosen := @fitLoop_cases _ _ _ (blocksFor maxsize) kept apart num_blocks few hasBlocks
      dsimp only at chosen ⊢
      rw [asked]
      generalize fitLoop _ _ _ _ = start at chosen ⊢
      by_cases zero : start = 0
      · rw [if_pos zero]
        refine .refused _ (.inr ?_)
        rw [if_pos short]
        rcases chosen with ⟨low, -⟩ | ⟨crowded, ⟨-, stale⟩ | ⟨i, deleted, same, -⟩⟩
        · exact absurd low (by rw [zero]; decide)
        · exact ⟨crowded, stale⟩
        · have low : 1 ≤ (entryAt d.directory i).extent.stop :=
            Nat.le_trans (kept.inside i deleted.1).starts (Nat.le_add_right _ _)
          rw [← same, zero] at low
          exact absurd low (by decide)
      · rw [if_neg zero]
        obtain ⟨recorded, lasts⟩ := recorded_create (d := d) valid start (blocksFor maxsize) (.inl ⟨short, rfl, place⟩)
        rw [if_neg (by omega)] at lasts
        have fits : start.toNat + (blocksFor maxsize).toNat ≤ d.lastBlock := by
          rcases chosen with ⟨-, fits, -⟩ | ⟨-, ⟨same, -⟩ | ⟨-, -, -, fits⟩⟩
          · exact fits
          · exact (zero (UInt64.toNat_inj.mp same)).elim
          · exact fits
        refine .created slot start _ new recorded (inside zero fits) ?_
        unfold PutAt
        rw [if_pos short]
        refine ⟨lasts, chosen.imp_right fun stale => ⟨stale.1, ?_⟩⟩
        rcases stale.2 with ⟨same, -⟩ | ⟨i, deleted, same, -⟩
        · exact (zero (UInt64.toNat_inj.mp same)).elim
        · exact ⟨i, deleted, same⟩
    · exact .refused _ (.inr (by rw [if_neg (by omega)]; exact .inl nothing))
    · -- The search sees no entry at all.
      have chosen : (fitLoop (d.disksize / 2).toUInt64 (blocksFor maxsize) [] 1).toNat = _ :=
        fitLoop_dead num_blocks few (by simp) (by simp) hasBlocks
      have nothing : qsort ((List.range 0).map (entryAt d.directory)) = [] := rfl
      dsimp only
      rw [asked, nothing]
      generalize fitLoop _ _ _ _ = start at chosen ⊢
      rw [show (1 : UInt64).toNat = 1 from rfl] at chosen
      by_cases room : 1 + (blocksFor maxsize).toNat ≤ d.lastBlock
      · rw [if_pos room, Option.getD_some] at chosen
        have nonzero : start ≠ 0 := by
          rintro rfl
          exact absurd chosen (by decide)
        rw [if_neg nonzero]
        obtain ⟨recorded, lasts⟩ := recorded_create (d := d) valid start (blocksFor maxsize) (.inr ⟨full, rfl, gone⟩)
        refine .created slot start _ new recorded (inside nonzero (by rwa [chosen])) ?_
        unfold PutAt
        rw [if_neg (by omega)]
        refine ⟨chosen, first, gone, ?_⟩
        simpa only [full, true_and] using lasts
      · rw [if_neg room] at chosen
        have zero : start = 0 := UInt64.toNat_inj.mp chosen
        rw [if_pos zero]
        exact .refused _ (.inr (by rw [if_neg (by omega)]; exact .inr (Nat.not_le.mp room)))

/-! ## Exactly when the files are kept -/

/-- The files of the one directory are those of the other, in their places, and apart from one more. -/
def KeepsFiles (directory directory' : Nat → UInt8) : Prop :=
  (∀ i, Live directory i → Live directory' i ∧ entryAt directory' i = entryAt directory i) ∧ FilesApart directory'

/-- There is room for the new file between the others, or nowhere behind a deleted one; and if the directory
has no end, but a deleted entry, there is room before all of them, and the first entry is not the deleted one. -/
def HasPlace (limit want : Nat) (directory : Nat → UInt8) : Prop :=
  if used directory < 64 then (∃ a, Free limit want directory a) ∨
    ∀ i, Gone directory i → limit < (entryAt directory i).extent.stop + want
  else (∃ i, Gone directory i) → 1 + want ≤ limit →
    if Gone directory 0 then ∀ i, ¬Live directory i else Free limit want directory 1

section
variable (limit want : Nat) (directory : Nat → UInt8)

instance (a : Nat) : Decidable (Free limit want directory a) :=
  decidable_of_iff (1 ≤ a ∧ a + want ≤ limit ∧ ∀ i, i < used directory → ¬Deleted directory i →
    Extent.Apart ⟨a, want⟩ (entryAt directory i).extent) (by simp only [Free, Live, and_imp])

instance : Decidable (∃ a, Free limit want directory a) :=
  decidable_of_iff (∃ a, a < limit + 1 ∧ Free limit want directory a)
    ⟨fun ⟨a, _, free⟩ => ⟨a, free⟩, fun ⟨a, free⟩ =>
      ⟨a, Nat.lt_succ_of_le (Nat.le_trans (Nat.le_add_right a want) free.2.1), free⟩⟩

instance : Decidable (∃ i, Gone directory i) :=
  decidable_of_iff (∃ i, i < used directory ∧ Deleted directory i) Iff.rfl

instance : Decidable (∀ i, Gone directory i → limit < (entryAt directory i).extent.stop + want) :=
  decidable_of_iff (∀ i, i < used directory → Deleted directory i → limit < (entryAt directory i).extent.stop + want)
    (by simp only [Gone, and_imp])

instance : Decidable (∀ i, ¬Live directory i) :=
  decidable_of_iff (∀ i, i < used directory → Deleted directory i) (by simp only [Live, not_and, not_not])

instance : Decidable (HasPlace limit want directory) :=
  inferInstanceAs (Decidable (if used directory < 64 then (∃ a, Free limit want directory a) ∨
      ∀ i, Gone directory i → limit < (entryAt directory i).extent.stop + want
    else (∃ i, Gone directory i) → 1 + want ≤ limit →
      if Gone directory 0 then ∀ i, ¬Live directory i else Free limit want directory 1))

end

theorem keepsFiles_self (apart : FilesApart directory) : KeepsFiles directory directory :=
  ⟨fun _ live => ⟨live, rfl⟩, apart⟩

/-- Where no entry is lost, the files are kept exactly if the new one is where none is. -/
theorem Recorded.keeps_iff (recorded : Recorded directory directory' slot ⟨filename.bytes, start, blocks, 0⟩)
    (apart : FilesApart directory) (lasts : Lasts directory directory')
    (inside : BMFSEntry.Inside limit ⟨filename.bytes, start, blocks, 0⟩) :
    KeepsFiles directory directory' ↔ Free limit blocks.toNat directory start.toNat := by
  refine ⟨fun keeps => ⟨inside.starts, inside.stops, (recorded.apart_iff apart lasts).mp keeps.2⟩, fun free => ?_⟩
  exact ⟨fun i live => recorded.stays (lasts i live.1) live, (recorded.apart_iff apart lasts).mpr free.2.2⟩

/-- **`create` keeps the other files exactly if there is a place for the new one.** -/
theorem create_keeps_iff {maxsize : UInt64} (kept : Kept d.lastBlock d.directory) (apart : FilesApart d.directory)
    (hasBlocks : 1 ≤ d.lastBlock) (valid : filename.Valid) (positive : 0 < (blocksFor maxsize).toNat)
    (new : ∀ i, ¬Named d.directory filename i) :
    KeepsFiles d.directory (create d filename maxsize).1.directory ↔
    HasPlace d.lastBlock (blocksFor maxsize).toNat d.directory := by
  have created : Creates d filename (blocksFor maxsize) (create d filename maxsize) :=
    create_spec kept apart hasBlocks valid positive
  generalize create d filename maxsize = result at created
  unfold HasPlace
  cases created with
  | refused printed why =>
    refine iff_of_true (keepsFiles_self apart) ?_
    rcases why with ⟨i, named⟩ | why
    · exact (new i named).elim
    · by_cases short : used d.directory < 64
      · rw [if_pos short] at why ⊢
        exact .inr why.2
      · rw [if_neg short] at why ⊢
        intro gone room
        rcases why with nothing | narrow
        · obtain ⟨i, gone⟩ := gone
          exact (nothing i gone).elim
        · omega
  | created slot start directory' _ recorded inside put =>
    have fits : start.toNat + (blocksFor maxsize).toNat ≤ d.lastBlock := inside.stops
    unfold PutAt at put
    by_cases short : used d.directory < 64
    · rw [if_pos short] at put ⊢
      obtain ⟨lasts, chosen⟩ := put
      rw [recorded.keeps_iff apart lasts inside]
      rcases chosen with free | ⟨crowded, i, gone, same⟩
      · exact iff_of_true free (.inl ⟨_, free⟩)
      · refine iff_of_false (crowded _) ?_
        rintro (⟨a, free⟩ | narrow)
        · exact crowded a free
        · exact absurd (narrow i gone) (by rw [← same]; exact Nat.not_lt.mpr fits)
    · rw [if_neg short] at put ⊢
      obtain ⟨first, zero, gone, rest⟩ := put
      rw [first] at fits
      have asked : ∀ {P : Prop}, ((∃ i, Gone d.directory i) → 1 + (blocksFor maxsize).toNat ≤ d.lastBlock → P) ↔ P :=
        fun {P} => ⟨fun here => here ⟨slot, gone⟩ fits, fun here _ _ => here⟩
      rw [asked]
      by_cases atStart : slot = 0
      · -- The directory ends behind the new file.
        rw [if_pos atStart] at rest
        rw [if_pos (zero.mp atStart)]
        have only : ∀ {i}, Live (d.flush directory').directory i → i = slot := fun {i} live => by
          have inside := live.1
          omega
        constructor
        · intro keeps i live
          exact recorded.free (only (keeps.1 i live).1 ▸ live)
        · intro nothing
          exact ⟨fun i live => (nothing i live).elim, fun i j live live' other =>
            (other ((only live).trans (only live').symm)).elim⟩
      · rw [if_neg atStart] at rest
        rw [if_neg fun here => atStart (zero.mpr here), recorded.keeps_iff apart rest inside, first]

end QuesOs.Bmfs
