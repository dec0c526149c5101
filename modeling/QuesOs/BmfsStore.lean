import QuesOs.BmfsCreate

/-! The disk as a store of files. As long as there is a place for every file that is created,
each command does to the files what its name says, and the blocks of a file hold what was
last written to it. -/
namespace QuesOs.Bmfs
open FirstFit

variable {directory directory' : Nat → UInt8} {slot i n limit : Nat} {d d' : Disk} {filename : CString}
    {bytes name : List UInt8}

/-! ## What is on the disk -/

/-- A file has its blocks of 2 MiB, and its bytes. -/
structure File where
  extent : Extent
  content : List UInt8

/-- The files by their names. -/
abbrev Store := List UInt8 → Option File

/-- No file has a block there, which are on the disk. -/
def Store.Free (store : Store) (limit : Nat) (extent : Extent) : Prop :=
  1 ≤ extent.start ∧ extent.stop ≤ limit ∧ ∀ name f, store name = some f → extent.Apart f.extent

/-- There are as many files as there are entries. -/
def Store.Full (store : Store) : Prop :=
  ∃ names : List (List UInt8), names.Nodup ∧ names.length = 64 ∧ ∀ name ∈ names, store name ≠ none

/-- The file of an entry. -/
def Disk.file (d : Disk) (i : Nat) : File where
  extent := (entryAt d.directory i).extent
  content := Image.read d.byte ((entryAt d.directory i).startingBlock.toNat * 2097152)
    (entryAt d.directory i).fileSize.toNat

def Disk.store (d : Disk) : Store := fun name =>
  ((List.range (used d.directory)).find? fun i => ¬Deleted d.directory i ∧
    name = (entryAt d.directory i).fileName).map d.file

theorem store_findfile (d : Disk) (filename : CString) :
    d.store filename.bytes = (findfile d.directory filename).map d.file := by
  rw [findfile_eq (ends_used d.directory)]
  rfl

theorem store_some_iff (kept : Kept n d.directory) {f : File} : d.store name = some f ↔
    ∃ i, Live d.directory i ∧ (entryAt d.directory i).fileName = name ∧ d.file i = f := by
  unfold Disk.store
  rw [Option.map_eq_some_iff]
  constructor
  · rintro ⟨i, found, rfl⟩
    have here := List.find?_some found
    obtain ⟨live, same⟩ := of_decide_eq_true here
    exact ⟨i, ⟨List.mem_range.mp (List.mem_of_find?_eq_some found), live⟩, same.symm, rfl⟩
  · rintro ⟨i, live, rfl, rfl⟩
    cases found : (List.range (used d.directory)).find? fun j =>
        ¬Deleted d.directory j ∧ (entryAt d.directory i).fileName = (entryAt d.directory j).fileName with
    | none =>
      have passed := List.find?_eq_none.mp found i (List.mem_range.mpr live.1)
      exact (passed (decide_eq_true ⟨live.2, rfl⟩)).elim
    | some j =>
      have here := List.find?_some found
      obtain ⟨notDeleted, same⟩ := of_decide_eq_true here
      have live' : Live d.directory j := ⟨List.mem_range.mp (List.mem_of_find?_eq_some found), notDeleted⟩
      exact ⟨j, rfl, by rw [kept.unique i j live live' same]⟩

theorem free_iff (kept : Kept n d.directory) (a want : Nat) :
    Free limit want d.directory a ↔ d.store.Free limit ⟨a, want⟩ := by
  refine and_congr_right fun _ => and_congr_right fun _ => ⟨fun away name f here => ?_, fun away i live => ?_⟩
  · obtain ⟨i, live, -, rfl⟩ := (store_some_iff kept).mp here
    exact away i live
  · exact away (entryAt d.directory i).fileName (d.file i) ((store_some_iff kept).mpr ⟨i, live, rfl, rfl⟩)

theorem full_of_used (kept : Kept n d.directory) (full : used d.directory = 64) (lives : ∀ i, ¬Gone d.directory i) :
    d.store.Full := by
  have live : ∀ i ∈ List.range 64, Live d.directory i := fun i low => by
    have inside : i < used d.directory := full ▸ List.mem_range.mp low
    exact ⟨inside, fun deleted => lives i ⟨inside, deleted⟩⟩
  refine ⟨(List.range 64).map fun i => (entryAt d.directory i).fileName, ?_, by simp, fun name member => ?_⟩
  · exact List.nodup_range.map_on fun i low j low' same => kept.unique i j (live i low) (live j low') same
  · obtain ⟨i, low, rfl⟩ := List.mem_map.mp member
    exact Option.ne_none_iff_exists'.mpr ⟨_, (store_some_iff kept).mpr ⟨i, live i low, rfl, rfl⟩⟩

/-- Where one slot is written, one name is. -/
theorem store_update (kept : Kept n d.directory) (kept' : Kept n d'.directory)
    (others : ∀ i, i ≠ slot → (Live d'.directory i ↔ Live d.directory i))
    (same : ∀ i, i ≠ slot → Live d.directory i →
      (entryAt d'.directory i).fileName = (entryAt d.directory i).fileName ∧ d'.file i = d.file i)
    (was : Live d.directory slot → (entryAt d.directory slot).fileName = name)
    (now : Live d'.directory slot → (entryAt d'.directory slot).fileName = name)
    (fresh : ∀ i, i ≠ slot → Live d.directory i → (entryAt d.directory i).fileName ≠ name) :
    d'.store = Function.update d.store name (if Live d'.directory slot then some (d'.file slot) else none) := by
  funext name'
  by_cases own : name' = name
  · subst own
    rw [Function.update_self]
    refine Option.ext fun f => ?_
    rw [store_some_iff kept', Option.ite_none_right_eq_some, Option.some.injEq]
    constructor
    · rintro ⟨i, live, named, rfl⟩
      by_cases here : i = slot
      · exact here ▸ ⟨live, rfl⟩
      · have before := (others i here).mp live
        rw [(same i here before).1] at named
        exact (fresh i here before named).elim
    · rintro ⟨live, rfl⟩
      exact ⟨slot, live, now live, rfl⟩
  · rw [Function.update_of_ne own]
    refine Option.ext fun f => ?_
    rw [store_some_iff kept', store_some_iff kept]
    constructor
    · rintro ⟨i, live, named, rfl⟩
      have here : i ≠ slot := by
        rintro rfl
        exact own (named.symm.trans (now live))
      have before := (others i here).mp live
      obtain ⟨names, files⟩ := same i here before
      exact ⟨i, before, names ▸ named, files.symm⟩
    · rintro ⟨i, live, named, rfl⟩
      have here : i ≠ slot := by
        rintro rfl
        exact own (named.symm.trans (was live))
      obtain ⟨names, files⟩ := same i here live
      exact ⟨i, (others i here).mpr live, names.trans named, files⟩

/-! ## Bytes -/

theorem byte_flush (outside : i < 4096 ∨ 8192 ≤ i) : (d.flush directory).byte i = d.byte i := by
  unfold Disk.flush Disk.fwrite Image.blit
  exact if_neg (by omega)

theorem size_fwrite (inside : i + n ≤ d.size) : (d.fwrite i n directory).size = d.size := by
  change (if n = 0 then d.size else max d.size (i + n)) = d.size
  split
  · rfl
  · exact Nat.max_eq_left inside

theorem size_flush (large : 8192 ≤ d.size) : (d.flush directory).size = d.size := size_fwrite large

/-- The blocks of a file are on the disk. -/
theorem lastBlock_le (d : Disk) (hasBlocks : 1 ≤ d.lastBlock) : (d.lastBlock + 1) * 2097152 ≤ d.size := by
  have low : d.disksize.toNat ≤ d.size / 1048576 := by
    unfold Disk.disksize
    rw [UInt32.toNat_ofNat']
    exact Nat.mod_le _ _
  unfold Disk.lastBlock at hasBlocks ⊢
  omega

theorem putAll_spec (inside : i + bytes.length ≤ d.size) :
    (d.putAll i bytes).size = d.size ∧ (d.putAll i bytes).byte = Image.write d.byte i bytes := by
  induction bytes generalizing d i with
  | nil => exact ⟨rfl, rfl⟩
  | cons byte bytes ih =>
    rw [List.length_cons] at inside
    have size : (d.putc i byte).size = d.size := size_fwrite (by omega)
    have one : (d.putc i byte).byte = Function.update d.byte i byte := by
      funext k
      unfold Disk.putc Disk.fwrite Image.blit
      by_cases here : k = i
      · subst here
        rw [Function.update_self]
        exact if_pos ⟨Nat.le_refl _, Nat.lt_succ_self _⟩
      · rw [Function.update_of_ne here]
        exact if_neg (by omega)
    obtain ⟨size', byte'⟩ := ih (d := d.putc i byte) (i := i + 1) (by rw [size]; omega)
    unfold Disk.putAll Image.write
    exact ⟨size'.trans size, by rw [byte', one]⟩

theorem getAll_eq (inside : i + n ≤ d.size) : d.getAll i n = Image.read d.byte i n := by
  induction n generalizing i with
  | zero => rfl
  | succ n ih =>
    unfold Disk.getAll Image.read
    rw [ih (by omega)]
    unfold Disk.getc
    rw [if_pos (by omega)]

/-! ## The commands -/

/-- The disk is a BMFS disk of so many blocks, and no two of its files have one in common. -/
structure Disk.InOrder (limit : Nat) (d : Disk) : Prop where
  tagged : d.tag = fs_tag
  last : d.lastBlock = limit
  hasBlocks : 1 ≤ limit
  kept : Kept limit d.directory
  apart : FilesApart d.directory

theorem Disk.InOrder.blocks_le (inOrder : d.InOrder limit) : (limit + 1) * 2097152 ≤ d.size := by
  have hasBlocks := inOrder.hasBlocks
  rw [← inOrder.last] at hasBlocks ⊢
  exact lastBlock_le d hasBlocks

theorem Disk.InOrder.large (inOrder : d.InOrder limit) : 4194304 ≤ d.size := by
  have := inOrder.blocks_le
  have := inOrder.hasBlocks
  omega

theorem tag_congr (same : ∀ i, i < 4096 → d'.byte i = d.byte i) : d'.tag = d.tag := by
  unfold Disk.tag
  rw [Image.read_congr fun k low high => same k (by omega)]

theorem lastBlock_congr (same : d'.size = d.size) : d'.lastBlock = d.lastBlock := by
  unfold Disk.lastBlock Disk.disksize
  rw [same]

theorem file_congr (same : entryAt d'.directory i = entryAt d.directory i)
    (bytes : ∀ k, (entryAt d.directory i).startingBlock.toNat * 2097152 ≤ k →
      k < (entryAt d.directory i).startingBlock.toNat * 2097152 + (entryAt d.directory i).fileSize.toNat →
      d'.byte k = d.byte k) :
    d'.file i = d.file i := by
  unfold Disk.file
  rw [same, Image.read_congr bytes]

/-- A file lies behind the directory, in its own blocks. -/
theorem Disk.InOrder.place (inOrder : d.InOrder limit) (live : Live d.directory i) :
    2097152 ≤ (entryAt d.directory i).startingBlock.toNat * 2097152 ∧
      (entryAt d.directory i).startingBlock.toNat * 2097152 + (entryAt d.directory i).fileSize.toNat ≤
        (entryAt d.directory i).extent.stop * 2097152 ∧
      (entryAt d.directory i).extent.stop * 2097152 ≤ d.size := by
  have inside := inOrder.kept.inside i live.1
  have sized := inOrder.kept.sized i live
  have starts := inside.starts
  have stops := inside.stops
  have disk := inOrder.blocks_le
  unfold Extent.stop BMFSEntry.extent at stops ⊢
  dsimp only at stops ⊢
  omega

/-- Writing the directory changes no file. -/
theorem file_flush (inOrder : d.InOrder limit) (live : Live d.directory i)
    (same : entryAt (d.flush directory).directory i = entryAt d.directory i) :
    (d.flush directory).file i = d.file i := by
  obtain ⟨behind, -⟩ := inOrder.place live
  exact file_congr same fun k low _ => byte_flush (by omega)

theorem refused_store {want : Nat} (kept : Kept n d.directory) (why : Refuses d filename want) :
    d.store filename.bytes ≠ none ∨ d.store.Full ∨ ∀ a, ¬d.store.Free d.lastBlock ⟨a, want⟩ := by
  rcases why with ⟨i, live, named⟩ | why
  · exact .inl (Option.ne_none_iff_exists'.mpr ⟨_, (store_some_iff kept).mpr ⟨i, live, named, rfl⟩⟩)
  · refine .inr ?_
    split at why
    · exact .inr fun a free => why.1 a ((free_iff kept a want).mpr free)
    · rcases why with nothing | narrow
      · exact .inl (full_of_used kept (Nat.le_antisymm (ends_used _).le (Nat.not_lt.mp ‹_›)) nothing)
      · refine .inr fun a free => ?_
        obtain ⟨starts, stops, -⟩ := free
        unfold Extent.stop at stops
        dsimp only at starts stops
        omega

/-- **Creating a file where there is a place for it** adds an empty one in free blocks, if it can be added. -/
theorem create_step {maxsize : UInt64} (inOrder : d.InOrder limit) (valid : filename.Valid)
    (positive : 0 < maxsize.toNat)
    (small : maxsize.toNat < 2 ^ 32)
    (place : (∀ i, ¬Named d.directory filename i) → HasPlace d.lastBlock ((maxsize.toNat + 1) / 2) d.directory) :
    (create d filename maxsize).1.InOrder limit ∧
      ((create d filename maxsize).1.store = d.store ∧
        (d.store filename.bytes ≠ none ∨ d.store.Full ∨ ∀ a, ¬d.store.Free limit ⟨a, (maxsize.toNat + 1) / 2⟩) ∨
      d.store filename.bytes = none ∧ ∃ a, d.store.Free limit ⟨a, (maxsize.toNat + 1) / 2⟩ ∧
        (create d filename maxsize).1.store =
          Function.update d.store filename.bytes (some ⟨⟨a, (maxsize.toNat + 1) / 2⟩, []⟩)) := by
  obtain ⟨tagged, rfl, hasBlocks, kept, apart⟩ := inOrder
  have inOrder : d.InOrder d.lastBlock := ⟨tagged, rfl, hasBlocks, kept, apart⟩
  have asked := blocksFor_toNat small
  have some : 0 < (blocksFor maxsize).toNat := by omega
  have created := create_spec kept apart hasBlocks valid some
  have keeps := fun new => (create_keeps_iff kept apart hasBlocks valid some new).mpr (asked ▸ place new)
  generalize create d filename maxsize = result at created keeps ⊢
  cases created with
  | refused printed why => exact ⟨inOrder, .inl ⟨rfl, asked ▸ refused_store kept why⟩⟩
  | created slot start directory' new recorded inside put =>
    obtain ⟨stays, apart'⟩ := keeps new
    have large := inOrder.large
    have size : (d.flush directory').size = d.size := size_flush (by omega)
    have kept' : Kept d.lastBlock (d.flush directory').directory :=
      recorded.kept kept valid (fun i live same => new i ⟨live, same⟩) inside
    have free : Free d.lastBlock (blocksFor maxsize).toNat d.directory start.toNat := by
      refine ⟨inside.starts, inside.stops, fun i live => ?_⟩
      have away := apart' slot i recorded.here (stays i live).1 fun same => recorded.free (same ▸ live)
      rw [recorded.entry, (stays i live).2] at away
      exact away
    refine ⟨⟨?_, lastBlock_congr size, hasBlocks, kept', apart'⟩, .inr ⟨?_, start.toNat, ?_, ?_⟩⟩
    · rw [tag_congr fun i low => byte_flush (.inl low)]
      exact tagged
    · refine Option.eq_none_iff_forall_ne_some.mpr fun f here => ?_
      obtain ⟨i, live, same, -⟩ := (store_some_iff kept).mp here
      exact new i ⟨live, same⟩
    · rw [← asked]
      exact (free_iff kept _ _).mp free
    · have updated := @store_update slot _ _ _ filename.bytes kept kept'
        (fun i other => ⟨fun live => recorded.live live other, fun live => (stays i live).1⟩)
        (fun i _ live => ⟨congrArg BMFSEntry.fileName (stays i live).2, file_flush inOrder live (stays i live).2⟩)
        (fun live => (recorded.free live).elim) (fun _ => by rw [recorded.entry]) fun i _ live same =>
        new i ⟨live, same⟩
      rw [updated, if_pos recorded.here]
      unfold Disk.file BMFSEntry.extent
      rw [recorded.entry, ← asked]
      rfl

/-- One entry with a file is changed: it keeps its blocks, and its name if it is still a file. -/
structure Touched (directory directory' : Nat → UInt8) (slot : Nat) : Prop where
  live : Live directory slot
  first : (entryAt directory' slot).first ≠ 0
  starts : (entryAt directory' slot).startingBlock = (entryAt directory slot).startingBlock
  reserves : (entryAt directory' slot).reservedBlocks = (entryAt directory slot).reservedBlocks
  named : ¬Deleted directory' slot → (entryAt directory' slot).fileName = (entryAt directory slot).fileName ∧
    (entryAt directory' slot).fileSize.toNat ≤ (entryAt directory slot).reservedBlocks.toNat * 2097152
  others : ∀ i, i < 64 → i ≠ slot → entryAt directory' i = entryAt directory i

theorem Touched.used_eq (touched : Touched directory directory' slot) : used directory' = used directory := by
  have ends := ends_used directory
  have here := touched.live.1
  refine Ends.used_eq ⟨ends.le, fun i low => ?_, fun short => ?_⟩
  · by_cases own : i = slot
    · rw [own]
      exact touched.first
    · rw [touched.others i (Nat.lt_of_lt_of_le low ends.le) own]
      exact ends.taken i low
  · rw [touched.others _ short (Nat.ne_of_gt here)]
    exact ends.last short

theorem Touched.live_iff (touched : Touched directory directory' slot) (other : i ≠ slot) :
    Live directory' i ↔ Live directory i := by
  unfold Live
  rw [touched.used_eq]
  refine and_congr_right fun low => ?_
  unfold Deleted
  rw [touched.others i (Nat.lt_of_lt_of_le low (ends_used directory).le) other]

theorem Touched.entry (touched : Touched directory directory' slot) (other : i ≠ slot) (live : Live directory i) :
    entryAt directory' i = entryAt directory i :=
  touched.others i (Nat.lt_of_lt_of_le live.1 (ends_used directory).le) other

theorem Touched.live_old (touched : Touched directory directory' slot) (live : Live directory' i) :
    Live directory i := by
  by_cases own : i = slot
  · exact own ▸ touched.live
  · exact (touched.live_iff own).mp live

theorem Touched.extent_eq (touched : Touched directory directory' slot) (low : i < used directory) :
    (entryAt directory' i).extent = (entryAt directory i).extent := by
  by_cases own : i = slot
  · unfold BMFSEntry.extent
    rw [own, touched.starts, touched.reserves]
  · rw [touched.others i (Nat.lt_of_lt_of_le low (ends_used directory).le) own]

theorem Touched.name_eq (touched : Touched directory directory' slot) (live : Live directory' i) :
    (entryAt directory' i).fileName = (entryAt directory i).fileName := by
  by_cases own : i = slot
  · subst own
    exact (touched.named live.2).1
  · rw [touched.entry own ((touched.live_iff own).mp live)]

theorem Touched.kept (touched : Touched directory directory' slot) (kept : Kept n directory) : Kept n directory' := by
  refine ⟨fun i live => ?_, fun i j live live' same => ?_, fun i low => ?_, fun i live => ?_⟩
  · rw [touched.name_eq live]
    exact kept.named i (touched.live_old live)
  · rw [touched.name_eq live, touched.name_eq live'] at same
    exact kept.unique i j (touched.live_old live) (touched.live_old live') same
  · rw [touched.used_eq] at low
    obtain ⟨starts, positive, stops⟩ := kept.inside i low
    by_cases own : i = slot
    · subst own
      refine ⟨?_, ?_, ?_⟩
      · rw [touched.starts]
        exact starts
      · rw [touched.reserves]
        exact positive
      · rw [touched.extent_eq low]
        exact stops
    · rw [touched.others i (Nat.lt_of_lt_of_le low (ends_used directory).le) own]
      exact ⟨starts, positive, stops⟩
  · by_cases own : i = slot
    · subst own
      rw [touched.reserves]
      exact (touched.named live.2).2
    · have old := (touched.live_iff own).mp live
      rw [touched.entry own old]
      exact kept.sized i old

theorem Touched.apart (touched : Touched directory directory' slot) (apart : FilesApart directory) :
    FilesApart directory' := by
  intro i j live live' other
  have old := touched.live_old live
  have old' := touched.live_old live'
  rw [touched.extent_eq old.1, touched.extent_eq old'.1]
  exact apart i j old old' other

/-- A disk of which one entry is changed, and no byte of another file. -/
theorem Touched.step (touched : Touched d.directory d'.directory slot) (inOrder : d.InOrder limit)
    (size : d'.size = d.size)
    (low : ∀ i, i < 4096 → d'.byte i = d.byte i) (files : ∀ i, i ≠ slot → Live d.directory i → d'.file i = d.file i) :
    d'.InOrder limit ∧ d'.store = Function.update d.store (entryAt d.directory slot).fileName
      (if Live d'.directory slot then some (d'.file slot) else none) := by
  obtain ⟨tagged, last, hasBlocks, kept, apart⟩ := inOrder
  refine ⟨⟨?_, (lastBlock_congr size).trans last, hasBlocks, touched.kept kept, touched.apart apart⟩, ?_⟩
  · rw [tag_congr low]
    exact tagged
  · refine store_update kept (touched.kept kept) (fun i other => touched.live_iff other)
      (fun i other live => ⟨congrArg BMFSEntry.fileName (touched.entry other live), files i other live⟩) (fun _ => rfl)
      (fun live => touched.name_eq live) fun i other live same => other ?_
    exact kept.unique i slot live touched.live same

/-- **Deleting a file** leaves the others. -/
theorem delete_step (inOrder : d.InOrder limit) (filename : CString) : (delete d filename).1.InOrder limit ∧
    (delete d filename).1.store = Function.update d.store filename.bytes none := by
  unfold delete
  cases found : findfile d.directory filename with
  | none =>
    refine ⟨inOrder, ?_⟩
    have absent : d.store filename.bytes = none := by
      rw [store_findfile, found]
      rfl
    exact (Function.update_eq_self_iff.mpr absent.symm).symm
  | some slot =>
    obtain ⟨live, named⟩ := findfile_some found
    have inside : slot < 64 := Nat.lt_of_lt_of_le live.1 (ends_used _).le
    obtain ⟨fileName, head, entry⟩ := @entryAt_mark d.directory slot
    dsimp only
    have large := inOrder.large
    have size : (d.flush (Image.write d.directory (slot * 64) [1])).size = d.size := size_flush (by omega)
    have others : ∀ i, i < 64 → i ≠ slot →
        entryAt (d.flush (Image.write d.directory (slot * 64) [1])).directory i = entryAt d.directory i := by
      intro i low other
      rw [entryAt_flush low, entryAt_write_other (n := slot) (by simp) other]
    have first : (entryAt (d.flush (Image.write d.directory (slot * 64) [1])).directory slot).first = 1 := by
      rw [entryAt_flush inside, entry, BMFSEntry.first, List.headD_eq_head?_getD, head]
      rfl
    have touched : Touched d.directory (d.flush (Image.write d.directory (slot * 64) [1])).directory slot := by
      refine ⟨live, by rw [first]; decide, ?_, ?_, fun here => (here first).elim, others⟩
      · rw [entryAt_flush inside, entry]
      · rw [entryAt_flush inside, entry]
    obtain ⟨inOrder', store⟩ := touched.step inOrder size (fun i low => byte_flush (.inl low)) fun i other here =>
      file_flush inOrder here (others i (Nat.lt_of_lt_of_le here.1 (ends_used _).le) other)
    refine ⟨inOrder', ?_⟩
    rw [store, named, if_neg fun here => here.2 first]

/-- The size of a run of blocks is computed without overflow. -/
theorem blocks_toNat {blocks : UInt64} (few : blocks.toNat < 2 ^ 31) :
    (blocks * 2097152).toNat = blocks.toNat * 2097152 := by
  rw [UInt64.toNat_mul, show (2097152 : UInt64).toNat = 2097152 from rfl]
  exact Nat.mod_eq_of_lt (by omega)

theorem Disk.InOrder.few (inOrder : d.InOrder limit) (live : Live d.directory i) :
    (entryAt d.directory i).startingBlock.toNat < 2 ^ 31 ∧ (entryAt d.directory i).reservedBlocks.toNat < 2 ^ 31 := by
  have stops := (inOrder.kept.inside i live.1).stops
  have last := d.lastBlock_lt
  rw [inOrder.last] at last
  unfold Extent.stop BMFSEntry.extent at stops
  dsimp only at stops
  omega

theorem stop_mul (entry : BMFSEntry) :
    entry.extent.stop * 2097152 = entry.startingBlock.toNat * 2097152 + entry.reservedBlocks.toNat * 2097152 :=
  Nat.add_mul _ _ _

/-- The bytes of a file and its size are written. -/
theorem written_step (inOrder : d.InOrder limit) (live : Live d.directory slot) (small : bytes.length < 2 ^ 31)
    (fits : bytes.length ≤ (entryAt d.directory slot).reservedBlocks.toNat * 2097152)
    (made : d' = (d.putAll ((entryAt d.directory slot).startingBlock.toNat * 2097152) bytes).flush
      (putWord d.directory (slot * 64 + 48) (UInt64.ofNat bytes.length))) :
    d'.InOrder limit ∧ d'.store = Function.update d.store (entryAt d.directory slot).fileName
      (some ⟨(entryAt d.directory slot).extent, bytes⟩) := by
  have inside : slot < 64 := Nat.lt_of_lt_of_le live.1 (ends_used _).le
  have length : (UInt64.ofNat bytes.length).toNat = bytes.length := by
    rw [UInt64.toNat_ofNat']
    exact Nat.mod_eq_of_lt (Nat.lt_trans small (by decide))
  obtain ⟨behind, -, onDisk⟩ := inOrder.place live
  have room : (entryAt d.directory slot).startingBlock.toNat * 2097152 + bytes.length ≤
      (entryAt d.directory slot).extent.stop * 2097152 := by
    rw [stop_mul]
    exact Nat.add_le_add_left fits _
  obtain ⟨size, byte⟩ := putAll_spec (d := d) (Nat.le_trans room onDisk)
  have large : 8192 ≤ d.size := Nat.le_trans (by decide) inOrder.large
  have size' : d'.size = d.size := by
    rw [made, size_flush (size ▸ large), size]
  have byte' : ∀ i, i < 4096 ∨ 8192 ≤ i →
      d'.byte i = Image.write d.byte ((entryAt d.directory slot).startingBlock.toNat * 2097152) bytes i := by
    intro i outside
    rw [made, byte_flush outside, byte]
  have others : ∀ i, i < 64 → i ≠ slot → entryAt d'.directory i = entryAt d.directory i := by
    intro i low other
    rw [made, entryAt_flush low]
    exact entryAt_putWord_other (by decide) other
  have entry : entryAt d'.directory slot = { entryAt d.directory slot with fileSize := UInt64.ofNat bytes.length } := by
    rw [made, entryAt_flush inside]
    exact entryAt_putSize _ (Nat.lt_of_le_of_lt (inOrder.kept.named slot live) (by decide))
  have first : (entryAt d'.directory slot).first = (entryAt d.directory slot).first := by
    unfold BMFSEntry.first
    rw [entry]
  have touched : Touched d.directory d'.directory slot := by
    refine ⟨live, ?_, by rw [entry], by rw [entry], fun _ => ?_, others⟩
    · rw [first]
      exact (ends_used _).taken slot live.1
    · rw [entry]
      exact ⟨rfl, by rw [length]; exact fits⟩
  have files : ∀ i, i ≠ slot → Live d.directory i → d'.file i = d.file i := by
    intro i other here
    obtain ⟨behind', upTo, -⟩ := inOrder.place here
    refine file_congr (touched.entry other here) fun k low high => ?_
    rw [byte' k (.inr (Nat.le_trans (Nat.le_trans (by decide) behind') low)), Image.write_other]
    -- The blocks of the two files are apart, and so are their bytes.
    rcases inOrder.apart i slot here live other with before | after
    · exact .inl (Nat.lt_of_lt_of_le high (Nat.le_trans upTo (Nat.mul_le_mul_right _ before)))
    · exact .inr (Nat.le_trans (Nat.le_trans room (Nat.mul_le_mul_right _ after)) low)
  have lows : ∀ i, i < 4096 → d'.byte i = d.byte i := by
    intro i low
    rw [byte' i (.inl low), Image.write_other (.inl (Nat.lt_of_lt_of_le low (Nat.le_trans (by decide) behind)))]
  obtain ⟨inOrder', store⟩ := touched.step inOrder size' lows files
  refine ⟨inOrder', ?_⟩
  have still : Live d'.directory slot :=
    ⟨by rw [touched.used_eq]; exact live.1, fun deleted => live.2 (first.symm.trans deleted)⟩
  have content :
    Image.read d'.byte ((entryAt d.directory slot).startingBlock.toNat * 2097152) bytes.length = bytes := by
    rw [Image.read_congr fun k low _ => byte' k (.inr (Nat.le_trans (Nat.le_trans (by decide) behind) low)),
      Image.read_write]
  rw [store, if_pos still]
  unfold Disk.file BMFSEntry.extent
  rw [entry]
  dsimp only
  rw [length, content]

/-- **Writing a file** replaces its bytes if they fit, and leaves the others. -/
theorem write_step {h : Host} (inOrder : h.disk.InOrder limit) (filename : CString)
    (small : ∀ bytes, h.files filename.bytes = some bytes → bytes.length < 2 ^ 31) :
    (write h filename).1.disk.InOrder limit ∧ (write h filename).1.files = h.files ∧
    (write h filename).1.writable = h.writable ∧
      ((write h filename).1.disk.store = h.disk.store ∧ (∀ f bytes, h.disk.store filename.bytes = some f →
          h.files filename.bytes = some bytes → f.extent.length * 2097152 < bytes.length) ∨
        ∃ f bytes, h.disk.store filename.bytes = some f ∧ h.files filename.bytes = some bytes ∧
          bytes.length ≤ f.extent.length * 2097152 ∧
          (write h filename).1.disk.store =
            Function.update h.disk.store filename.bytes (some { f with content := bytes })) := by
  have store := store_findfile h.disk filename
  unfold write
  cases found : findfile h.disk.directory filename with
  | none =>
    rw [found, Option.map_none] at store
    exact ⟨inOrder, rfl, rfl, .inl ⟨rfl, fun f bytes here => (Option.some_ne_none f (here.symm.trans store)).elim⟩⟩
  | some slot =>
    rw [found, Option.map_some] at store
    obtain ⟨live, named⟩ := findfile_some found
    dsimp only
    cases source : h.files filename.bytes with
    | none => exact ⟨inOrder, rfl, rfl, .inl ⟨rfl, fun f bytes _ impossible => nomatch impossible⟩⟩
    | some bytes =>
      have short := small bytes source
      obtain ⟨fewStart, fewReserved⟩ := inOrder.few live
      have length : (UInt64.ofNat bytes.length).toNat = bytes.length := by
        rw [UInt64.toNat_ofNat']
        exact Nat.mod_eq_of_lt (Nat.lt_trans short (by decide))
      have roomy : (entryAt h.disk.directory slot).reservedBlocks * 2097152 < UInt64.ofNat bytes.length ↔
          (entryAt h.disk.directory slot).reservedBlocks.toNat * 2097152 < bytes.length := by
        rw [UInt64.lt_iff_toNat_lt, blocks_toNat fewReserved, length]
      dsimp only
      by_cases long : (entryAt h.disk.directory slot).reservedBlocks * 2097152 < UInt64.ofNat bytes.length
      · rw [if_pos long]
        refine ⟨inOrder, rfl, rfl, .inl ⟨rfl, fun f bytes' here same => ?_⟩⟩
        obtain rfl := Option.some.inj (store.symm.trans here)
        obtain rfl := Option.some.inj same
        exact roomy.mp long
      · rw [if_neg long]
        have fits := Nat.not_lt.mp (roomy.not.mp long)
        obtain ⟨inOrder', store'⟩ := written_step inOrder live short fits rfl
        dsimp only
        rw [blocks_toNat fewStart]
        refine ⟨inOrder', rfl, rfl, .inr ⟨_, bytes, store, rfl, fits, ?_⟩⟩
        rw [store', named]
        unfold Disk.file
        dsimp only

/-- **Reading a file** gives the host its bytes. -/
theorem read_step {h : Host} (inOrder : h.disk.InOrder limit) (filename : CString) : (read h filename).1.disk = h.disk ∧
    (read h filename).1.writable = h.writable ∧
      ((read h filename).1.files = h.files ∧ (h.disk.store filename.bytes = none ∨ h.writable filename.bytes = false) ∨
        ∃ f, h.disk.store filename.bytes = some f ∧ h.writable filename.bytes = true ∧
          (read h filename).1.files = Function.update h.files filename.bytes (some f.content)) := by
  have store := store_findfile h.disk filename
  unfold read
  cases found : findfile h.disk.directory filename with
  | none =>
    rw [found, Option.map_none] at store
    exact ⟨rfl, rfl, .inl ⟨rfl, .inl store⟩⟩
  | some slot =>
    rw [found, Option.map_some] at store
    obtain ⟨live, named⟩ := findfile_some found
    obtain ⟨-, upTo, onDisk⟩ := inOrder.place live
    dsimp only
    rw [named]
    cases opens : h.writable filename.bytes with
    | false => exact ⟨rfl, rfl, .inl ⟨rfl, .inr rfl⟩⟩
    | true =>
      refine ⟨rfl, rfl, .inr ⟨_, store, rfl, ?_⟩⟩
      rw [if_pos rfl, blocks_toNat (inOrder.few live).1, getAll_eq (Nat.le_trans upTo onDisk)]
      unfold Disk.file
      dsimp only

theorem used_blank (blank : ∀ i, i < 64 → directory (i * 64) = 0) : used directory = 0 :=
  Ends.used_eq ⟨Nat.zero_le _, nofun, fun _ => by rw [first_eq]; exact blank 0 (by decide)⟩

/-- **A disk that is formatted** has no files. -/
theorem format_step (d : Disk) (hasBlocks : 1 ≤ d.lastBlock) : (format d).InOrder d.lastBlock ∧
    (format d).store = fun _ => none := by
  have large := lastBlock_le d hasBlocks
  have size : (format d).size = d.size := by
    have inner : (d.fwrite 1024 512 (Image.write (fun _ => 0) 0 fs_tag)).size = d.size := size_fwrite (by omega)
    unfold format
    rw [size_flush (by omega), inner]
  have empty : used (format d).directory = 0 := used_blank fun i low => directory_flush (by omega)
  have none : ∀ i, ¬Live (format d).directory i := fun i live => Nat.not_lt_zero i (empty ▸ live.1)
  have tagged : (format d).tag = fs_tag := by
    have start : Image.read (format d).byte 1024 5 = fs_tag ++ [0] := by
      unfold format Disk.flush Disk.fwrite
      dsimp only
      rw [Image.read_blit_other (by omega)]
      exact Image.read_blit (b := 0) (by omega)
    unfold Disk.tag
    rw [show 512 = 5 + 507 from rfl, Image.read_add, start]
    rfl
  refine ⟨⟨tagged, lastBlock_congr size, hasBlocks, ⟨?_, ?_, ?_, ?_⟩, ?_⟩, ?_⟩
  · exact fun i live => (none i live).elim
  · exact fun i _ live => (none i live).elim
  · rw [empty]
    exact fun i low => (Nat.not_lt_zero i low).elim
  · exact fun i live => (none i live).elim
  · exact fun i _ live => (none i live).elim
  · funext name
    unfold Disk.store
    rw [empty]
    rfl

end QuesOs.Bmfs
