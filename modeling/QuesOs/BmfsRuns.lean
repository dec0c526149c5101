import QuesOs.BmfsStore

/-! Commands one after another. Every file is, whenever it is read, what was last written to
it, and no two have a block in common, as long as `create` has a place for the new ones. -/
namespace QuesOs.Bmfs
open FirstFit

/-! ## What the commands are for -/

/-- The files of the host. -/
abbrev Files := List UInt8 → Option (List UInt8)

/-- The size in MiB. -/
def Size.value : Size → Int
  | .argument filesize => filesize.toInt
  | .keyboard filesize => filesize.toNat

/-- The blocks for that. -/
def Size.blocks (size : Size) : Nat := (size.value.toNat + 1) / 2

section
variable (limit : Nat) (writable : List UInt8 → Bool)

/-- What a command may do to the files on a disk of so many blocks, and to those of the host. -/
inductive Store.Does (store : Store) (files : Files) : Command → Store → Files → Prop
  | listed : Does store files .list store files
  | formatted (forced : sameFolded force.bytes forceOption) : Does store files (.format (some force)) (fun _ =>
    none) files
  | notFormatted (notForced : ∀ name, force = some name → sameFolded name.bytes forceOption = false) :
    Does store files (.format force) store files
  | created (positive : 1 ≤ size.value) (new : store filename.bytes = none)
    (free : store.Free limit ⟨start, size.blocks⟩) :
    Does store files (.create filename size)
    (Function.update store filename.bytes (some ⟨⟨start, size.blocks⟩, []⟩)) files
  | notCreated (why : size.value < 1 ∨ store filename.bytes ≠ none ∨ store.Full ∨
      ∀ start, ¬store.Free limit ⟨start, size.blocks⟩) : Does store files (.create filename size) store files
  | read (here : store filename.bytes = some f) (opens : writable filename.bytes) :
    Does store files (.read filename) store (Function.update files filename.bytes (some f.content))
  | notRead (why : store filename.bytes = none ∨ writable filename.bytes = false) :
    Does store files (.read filename) store files
  | written (here : store filename.bytes = some f) (source : files filename.bytes = some bytes)
    (fits : bytes.length ≤ f.extent.length * 2097152) :
    Does store files (.write filename) (Function.update store filename.bytes (some { f with content := bytes })) files
  | notWritten (why : ∀ f bytes, store filename.bytes = some f → files filename.bytes = some bytes →
      f.extent.length * 2097152 < bytes.length) : Does store files (.write filename) store files
  | deleted : Does store files (.delete filename) (Function.update store filename.bytes none) files

inductive Store.Runs : Store → Files → List Command → Store → Files → Prop
  | nil : Runs store files [] store files
  | cons (does : Store.Does limit writable store files command store' files')
    (rest : Runs store' files' commands store'' files'') :
    Runs store files (command :: commands) store'' files''

end

/-! ## What the utility does -/

/-- A new file has a name that fits, and there is a place for it; what is written is not too long for an `int`; and
what is written or read is not the disk. -/
def Allowed (h : Host) : Command → Prop
  | .create filename size => 1 ≤ size.value → filename.Valid ∧ ((∀ i, ¬Named h.disk.directory filename i) →
      HasPlace h.disk.lastBlock size.blocks h.disk.directory)
  | .read filename => h.isDisk filename.bytes = false
  | .write filename => h.isDisk filename.bytes = false ∧ ∀ bytes ∈ h.files filename.bytes, bytes.length < 2 ^ 31
  | _ => True

instance (h : Host) : (command : Command) → Decidable (Allowed h command)
  | .create filename size => inferInstanceAs (Decidable (1 ≤ size.value → filename.Valid ∧
      ((∀ i, ¬Named h.disk.directory filename i) → HasPlace h.disk.lastBlock size.blocks h.disk.directory)))
  | .read filename => inferInstanceAs (Decidable (h.isDisk filename.bytes = false))
  | .write filename => inferInstanceAs (Decidable
      (h.isDisk filename.bytes = false ∧ ∀ bytes ∈ h.files filename.bytes, bytes.length < 2 ^ 31))
  | .list | .format _ | .delete _ => .isTrue trivial

def performAll (diskname : String) : Host → List Command → Host
  | h, [] => h
  | h, command :: commands => performAll diskname (main diskname h command).1 commands

def Careful (diskname : String) : Host → List Command → Prop
  | _, [] => True
  | h, command :: commands => Allowed h command ∧ Careful diskname (main diskname h command).1 commands

variable {d : Disk} {h : Host} {limit : Nat} {diskname : String} {command : Command} {commands : List Command}

instance (diskname : String) : (h : Host) → (commands : List Command) → Decidable (Careful diskname h commands)
  | _, [] => .isTrue trivial
  | h, command :: commands =>
    have := instDecidableCareful diskname (main diskname h command).1 commands
    inferInstanceAs (Decidable (Allowed h command ∧ Careful diskname (main diskname h command).1 commands))

/-- A size that is no less than one is passed on as it is. -/
theorem Size.toNat_value {size : Size} (positive : 1 ≤ size.value) :
    (UInt64.ofNat size.value.toNat).toNat = size.value.toNat ∧ 0 < size.value.toNat ∧ size.value.toNat < 2 ^ 32 := by
  have high : size.value < 2 ^ 32 := by
    cases size with
    | argument filesize => exact Int.lt_trans filesize.toInt_lt (by decide)
    | keyboard filesize => exact Int.ofNat_lt.mpr filesize.toNat_lt
  refine ⟨?_, by omega, by omega⟩
  rw [UInt64.toNat_ofNat']
  exact Nat.mod_eq_of_lt (by omega)

/-- Both ways to give the size come to this. -/
theorem main_create (diskname : String) (tagged : h.disk.tag = fs_tag) (filename : CString) (size : Size) :
    (main diskname h (.create filename size)).1 = if 1 ≤ size.value then
      { h with disk := (create h.disk filename (UInt64.ofNat size.value.toNat)).1 } else h := by
  unfold main
  rw [tagged, if_pos (by decide)]
  cases size with
  | argument filesize =>
    have same : 1 ≤ filesize ↔ 1 ≤ (Size.argument filesize).value := Int32.le_iff_toInt_le
    by_cases positive : 1 ≤ filesize
    · simp only [positive, same.mp positive, if_true]
      rfl
    · simp only [positive, same.not.mp positive, if_false]
  | keyboard filesize =>
    have same : 1 ≤ filesize ↔ 1 ≤ (Size.keyboard filesize).value := by
      rw [UInt32.le_iff_toNat_le]
      exact Int.ofNat_le.symm
    have passed : filesize.toUInt64 = UInt64.ofNat (Size.keyboard filesize).value.toNat :=
      UInt64.toNat_inj.mp (by simp [Size.value])
    by_cases positive : 1 ≤ filesize
    · simp only [positive, same.mp positive, if_true, passed]
    · simp only [positive, same.not.mp positive, if_false]

theorem create_does {filename : CString} {size : Size} (inOrder : h.disk.InOrder limit)
    (allowed : Allowed h (.create filename size)) :
    (main diskname h (.create filename size)).1.disk.InOrder limit ∧
    (main diskname h (.create filename size)).1.writable = h.writable ∧
    Store.Does limit h.writable h.disk.store h.files (.create filename size)
      (main diskname h (.create filename size)).1.disk.store (main diskname h (.create filename size)).1.files := by
  rw [main_create diskname inOrder.tagged]
  by_cases positive : 1 ≤ size.value
  · rw [if_pos positive]
    obtain ⟨valid, place⟩ := allowed positive
    obtain ⟨passed, some, small⟩ := size.toNat_value positive
    rw [← passed] at some small
    obtain ⟨inOrder', step⟩ := create_step inOrder valid some small (by rwa [passed])
    refine ⟨inOrder', rfl, ?_⟩
    dsimp only
    rw [passed] at step
    rcases step with ⟨same, why⟩ | ⟨new, start, free, updated⟩
    · rw [same]
      exact .notCreated (.inr why)
    · rw [updated]
      exact .created positive new free
  · rw [if_neg positive]
    exact ⟨inOrder, rfl, .notCreated (.inl (Int.not_le.mp positive))⟩

theorem main_step (diskname : String) (inOrder : h.disk.InOrder limit) (allowed : Allowed h command) :
    (main diskname h command).1.disk.InOrder limit ∧ (main diskname h command).1.writable = h.writable ∧
    Store.Does limit h.writable h.disk.store h.files command
      (main diskname h command).1.disk.store (main diskname h command).1.files := by
  cases command
  case create filename size => exact create_does inOrder allowed
  all_goals
    unfold main
    rw [inOrder.tagged, if_pos (by decide)]
  case list => exact ⟨inOrder, rfl, .listed⟩
  case format force =>
    dsimp only
    by_cases forced : force.any fun option => sameFolded option.bytes forceOption
    · rw [if_pos forced]
      obtain ⟨name, rfl, same⟩ := (Option.any_eq_true _ _).mp forced
      obtain ⟨inOrder', store⟩ := format_step h.disk (inOrder.last ▸ inOrder.hasBlocks)
      refine ⟨inOrder.last ▸ inOrder', rfl, ?_⟩
      dsimp only
      rw [store]
      exact .formatted same
    · rw [if_neg forced]
      refine ⟨inOrder, rfl, .notFormatted fun name here => ?_⟩
      subst here
      exact Bool.eq_false_iff.mpr forced
  case read filename =>
    obtain ⟨disk, writable, step⟩ := read_step inOrder filename
    dsimp only
    rw [disk, writable]
    refine ⟨inOrder, rfl, ?_⟩
    rcases step with ⟨same, why⟩ | ⟨f, here, opens, updated⟩
    · rw [same]
      exact .notRead why
    · rw [updated]
      exact .read here opens
  case write filename =>
    obtain ⟨inOrder', files, writable, step⟩ := write_step inOrder filename allowed.2
    refine ⟨inOrder', writable, ?_⟩
    dsimp only
    rw [files]
    rcases step with ⟨same, why⟩ | ⟨f, bytes, here, source, fits, updated⟩
    · rw [same]
      exact .notWritten why
    · rw [updated]
      exact .written here source fits
  case delete filename =>
    obtain ⟨inOrder', store⟩ := delete_step inOrder filename
    refine ⟨inOrder', rfl, ?_⟩
    dsimp only
    rw [store]
    exact .deleted

/-- What `list` prints are the files. -/
theorem mem_listLoop (inOrder : d.InOrder limit) (name : List UInt8) :
    (∃ entry ∈ listLoop d.directory 64 0, entry.fileName = name) ↔ d.store name ≠ none := by
  have listed := listLoop_eq (ends_used d.directory) (Nat.zero_add 64) (Nat.zero_le _)
  rw [Nat.sub_zero, ← List.range_eq_range'] at listed
  rw [listed, Option.ne_none_iff_exists']
  constructor
  · rintro ⟨entry, member, named⟩
    obtain ⟨i, here, rfl⟩ := List.mem_map.mp member
    obtain ⟨low, live⟩ := List.mem_filter.mp here
    exact ⟨_, (store_some_iff inOrder.kept).mpr ⟨i, ⟨List.mem_range.mp low, of_decide_eq_true live⟩, named, rfl⟩⟩
  · rintro ⟨f, here⟩
    obtain ⟨i, live, named, -⟩ := (store_some_iff inOrder.kept).mp here
    exact ⟨_, List.mem_map_of_mem (List.mem_filter.mpr ⟨List.mem_range.mpr live.1, decide_eq_true live.2⟩), named⟩

theorem performAll_step (inOrder : h.disk.InOrder limit) (careful : Careful diskname h commands) :
    (performAll diskname h commands).disk.InOrder limit ∧ Store.Runs limit h.writable h.disk.store h.files commands
      (performAll diskname h commands).disk.store (performAll diskname h commands).files := by
  induction commands generalizing h with
  | nil => exact ⟨inOrder, .nil⟩
  | cons command commands ih =>
    obtain ⟨allowed, careful⟩ := careful
    obtain ⟨inOrder', writable, does⟩ := main_step diskname inOrder allowed
    obtain ⟨ends, runs⟩ := ih inOrder' careful
    rw [writable] at runs
    exact ⟨ends, .cons does runs⟩

/-- **The disk is a store of files.** -/
theorem commands_refine (hasBlocks : 1 ≤ d.lastBlock) (formatted : h.disk = format d)
    (careful : Careful diskname h commands) :
    FilesApart (performAll diskname h commands).disk.directory ∧
    (∀ name, (∃ entry ∈ listLoop (performAll diskname h commands).disk.directory 64 0, entry.fileName = name) ↔
      (performAll diskname h commands).disk.store name ≠ none) ∧
    Store.Runs d.lastBlock h.writable (fun _ => none) h.files commands
      (performAll diskname h commands).disk.store (performAll diskname h commands).files := by
  obtain ⟨inOrder, empty⟩ := format_step d hasBlocks
  rw [← formatted] at inOrder empty
  obtain ⟨ends, runs⟩ := performAll_step inOrder careful
  rw [empty] at runs
  exact ⟨ends.apart, mem_listLoop ends, runs⟩

/-- Three files are created, of which one is written, one is deleted, and one comes in its place. -/
theorem commands_refine_six : ∃ (d : Disk) (h : Host) (commands : List Command), commands.length = 6 ∧
    FilesApart (performAll "disk" h commands).disk.directory ∧
    (∀ name, (∃ entry ∈ listLoop (performAll "disk" h commands).disk.directory 64 0, entry.fileName = name) ↔
      (performAll "disk" h commands).disk.store name ≠ none) ∧
    Store.Runs d.lastBlock h.writable (fun _ => none) h.files commands
      (performAll "disk" h commands).disk.store (performAll "disk" h commands).files := by
  let d : Disk := ⟨20971520, fun _ => 0, fun _ _ => rfl⟩
  let h : Host := ⟨format d, fun name => name = [100, 105, 115, 107],
    fun name => if name = [65] then some [1, 2, 3] else none, fun _ => true⟩
  have careful : Careful "disk" h [.create ⟨[65], by decide⟩ (.argument 4), .create ⟨[66], by decide⟩ (.argument 2),
      .write ⟨[65], by decide⟩, .delete ⟨[66], by decide⟩, .create ⟨[67], by decide⟩ (.keyboard 1),
      .read ⟨[65], by decide⟩] := by decide +kernel
  exact ⟨d, h, _, rfl, commands_refine (d := d) (by decide +kernel) rfl careful⟩

/-- **Wherever the commands led, `create` keeps the other files exactly if there is a place for the new one.** -/
theorem create_keeps_iff_reachable {filename : CString} {maxsize : UInt64} (hasBlocks : 1 ≤ d.lastBlock)
    (formatted : h.disk = format d) (careful : Careful diskname h commands) (valid : filename.Valid)
    (positive : 0 < maxsize.toNat) (small : maxsize.toNat < 2 ^ 32)
    (new : ∀ i, ¬Named (performAll diskname h commands).disk.directory filename i) :
    KeepsFiles (performAll diskname h commands).disk.directory
        (create (performAll diskname h commands).disk filename maxsize).1.directory ↔
      HasPlace (performAll diskname h commands).disk.lastBlock ((maxsize.toNat + 1) / 2)
        (performAll diskname h commands).disk.directory := by
  obtain ⟨inOrder, -⟩ := format_step d hasBlocks
  rw [← formatted] at inOrder
  obtain ⟨ends, -⟩ := performAll_step inOrder careful
  have asked := blocksFor_toNat small
  rw [← asked]
  exact create_keeps_iff (ends.last ▸ ends.kept) ends.apart (ends.last ▸ ends.hasBlocks) valid (by omega) new

/-- Of eight blocks two were deleted and six are a file's. A file of four blocks has no place, and gets
blocks of the other. -/
theorem create_keeps_iff_stale : ∃ (h : Host) (commands : List Command) (filename : CString),
    ¬KeepsFiles (performAll "disk" h commands).disk.directory
    (create (performAll "disk" h commands).disk filename 8).1.directory := by
  let d : Disk := ⟨20971520, fun _ => 0, fun _ _ => rfl⟩
  let h : Host := ⟨format d, fun name => name = [100, 105, 115, 107], fun _ => none, fun _ => true⟩
  let commands : List Command :=
    [.create ⟨[65], by decide⟩ (.argument 4), .create ⟨[66], by decide⟩ (.argument 12), .delete ⟨[65], by decide⟩]
  have careful : Careful "disk" h commands := by decide +kernel
  let filename : CString := ⟨[67], by decide⟩
  have new : ∀ i, ¬Named (performAll "disk" h commands).disk.directory filename i := by decide +kernel
  have crowded : ¬HasPlace (performAll "disk" h commands).disk.lastBlock (((8 : UInt64).toNat + 1) / 2)
      (performAll "disk" h commands).disk.directory := by decide +kernel
  have valid : filename.Valid := by decide
  have hasBlocks : 1 ≤ d.lastBlock := by decide +kernel
  exact ⟨h, commands, filename,
    (create_keeps_iff_reachable hasBlocks rfl careful valid (by decide) (by decide) new).not.mpr crowded⟩

end QuesOs.Bmfs
