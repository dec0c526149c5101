import QuesOs.Bmfs

/-! The directory of a disk. A change of one entry leaves the others, and the functions that
go through the entries stop at the first one that is empty. -/
namespace QuesOs.Bmfs

variable {directory directory' : Nat → UInt8} {slot i n : Nat} {d : Disk} {filename : CString}

/-! ## One entry -/

theorem entryAt_congr (same : ∀ k, slot * 64 ≤ k → k < slot * 64 + 64 → directory k = directory' k) :
    entryAt directory slot = entryAt directory' slot := by
  have words : ∀ offset, offset + 8 ≤ 64 → word directory (slot * 64 + offset) =
    word directory' (slot * 64 + offset) := by
    intro offset within
    unfold word
    rw [Image.read_congr fun k low high => same k (by omega) (by omega)]
  unfold entryAt
  rw [Image.read_congr same, words 32 (by omega), words 40 (by omega), words 48 (by omega)]

/-- What is written in another entry leaves this one. -/
theorem entryAt_write_other {a : Nat} {bytes : List UInt8} (inside : n * 64 ≤ a ∧ a + bytes.length ≤ n * 64 + 64)
    (other : slot ≠ n) : entryAt (Image.write directory a bytes) slot = entryAt directory slot :=
  entryAt_congr fun k low high => Image.write_other (by omega)

theorem entryAt_putWord_other {offset : Nat} {value : UInt64} (inside : offset + 8 ≤ 64) (other : slot ≠ n) :
    entryAt (putWord directory (n * 64 + offset) value) slot = entryAt directory slot :=
  entryAt_write_other (n := n) (by rw [Image.length_bytesOf]; omega) other

theorem word_putWord (value : UInt64) : word (putWord directory i value) i = value := by
  have back : Image.number (Image.read (putWord directory i value) i 8) = value.toNat := by
    have read : Image.read (putWord directory i value) i (Image.bytesOf 8 value.toNat).length =
      Image.bytesOf 8 value.toNat :=
      Image.read_write
    rw [Image.length_bytesOf] at read
    rw [read, Image.number_bytesOf_small value.toNat_lt]
  unfold word
  rw [back, UInt64.ofNat_toNat]

theorem word_write_other {a : Nat} {bytes : List UInt8} (apart : a + bytes.length ≤ i ∨ i + 8 ≤ a) :
    word (Image.write directory a bytes) i = word directory i := by
  unfold word
  rw [Image.read_write_other apart]

theorem word_putWord_other {k : Nat} (value : UInt64) (apart : k + 8 ≤ i ∨ i + 8 ≤ k) :
    word (putWord directory k value) i = word directory i :=
  word_write_other (by rwa [Image.length_bytesOf])

theorem first_eq (directory : Nat → UInt8) (slot : Nat) : (entryAt directory slot).first = directory (slot * 64) := by
  simp only [BMFSEntry.first, entryAt, Image.read]
  by_cases zero : directory (slot * 64) = 0
  · simp [zero]
  · simp [zero]

/-- A name that fits can be a file's: it is no mark of an entry that is empty or deleted. -/
structure CString.Valid (name : CString) : Prop where
  short : name.bytes.length ≤ 31
  first : ∃ byte, name.bytes.head? = some byte ∧ byte ≠ 1

instance (name : CString) : Decidable name.Valid :=
  decidable_of_iff (name.bytes.length ≤ 31 ∧ ∃ byte ∈ name.bytes.head?, byte ≠ 1) ⟨fun ⟨short, first⟩ => ⟨short, first⟩,
    fun ⟨short, first⟩ => ⟨short, first⟩⟩

theorem takeWhile_name (name : CString) (rest : List UInt8) :
    (name.bytes ++ 0 :: rest).takeWhile (· ≠ 0) = name.bytes := by
  rw [List.takeWhile_append_of_pos fun byte member => decide_eq_true (ne_of_mem_of_not_mem member name.proper)]
  simp

theorem fileName_strcpy (valid : filename.Valid) :
    (Image.read (strcpy directory (slot * 64) filename) (slot * 64) 64).takeWhile (· ≠ 0) = filename.bytes := by
  have short : (filename.bytes ++ [0]).length ≤ 64 := by
    have := valid.short
    rw [List.length_append, List.length_singleton]
    omega
  unfold strcpy
  rw [← Nat.add_sub_cancel' short, Image.read_write_append, List.append_assoc, List.singleton_append, takeWhile_name]

/-- The name leaves the fields behind it. -/
theorem word_strcpy (valid : filename.Valid) {offset : Nat} (behind : 32 ≤ offset) :
    word (strcpy directory (slot * 64) filename) (slot * 64 + offset) = word directory (slot * 64 + offset) := by
  have := valid.short
  refine word_write_other (.inl ?_)
  rw [List.length_append, List.length_singleton]
  omega

/-- The new record reads back. -/
theorem entryAt_addRecord (start blocks : UInt64) (valid : filename.Valid) :
    entryAt (addRecord directory slot start blocks filename) slot = ⟨filename.bytes, start, blocks, 0⟩ := by
  have first : ∀ {m : Nat → UInt8} {a b : UInt64},
    word (putWord (putWord m (slot * 64 + 40) a) (slot * 64 + 48) b) (slot * 64 + 32) =
      word m (slot * 64 + 32) := fun {m a b} => by
    rw [word_putWord_other _ (by omega), word_putWord_other _ (by omega)]
  have second : ∀ {m : Nat → UInt8} {a : UInt64}, word (putWord m (slot * 64 + 48) a) (slot * 64 + 40) =
    word m (slot * 64 + 40) :=
    fun {m a} => word_putWord_other _ (by omega)
  unfold addRecord entryAt
  dsimp only
  rw [fileName_strcpy valid, word_strcpy valid (by omega), word_strcpy valid (by omega), word_strcpy valid (by omega)]
  rw [first, second, word_putWord, word_putWord, word_putWord]

theorem entryAt_addRecord_other (start blocks : UInt64) (valid : filename.Valid) (other : n ≠ slot) :
    entryAt (addRecord directory slot start blocks filename) n = entryAt directory n := by
  have name : slot * 64 ≤ slot * 64 ∧ slot * 64 + (filename.bytes ++ [0]).length ≤ slot * 64 + 64 := by
    have := valid.short
    rw [List.length_append, List.length_singleton]
    omega
  unfold addRecord strcpy
  dsimp only
  rw [entryAt_write_other name other, entryAt_putWord_other (by omega) other, entryAt_putWord_other (by omega) other,
    entryAt_putWord_other (by omega) other]

/-- Of a short name only the bytes before the sizes matter. -/
theorem fileName_short {m m' : Nat → UInt8} (same : Image.read m' (slot * 64) 48 = Image.read m (slot * 64) 48)
    (short : (entryAt m slot).fileName.length < 48) : (entryAt m' slot).fileName = (entryAt m slot).fileName := by
  simp only [entryAt] at short ⊢
  rw [show 64 = 48 + 16 from rfl, Image.read_add, List.takeWhile_append] at short ⊢
  rw [Image.read_add, List.takeWhile_append, same]
  -- A name of 48 bytes would not be short.
  have ends : ((Image.read m (slot * 64) 48).takeWhile (· ≠ 0)).length ≠ (Image.read m (slot * 64) 48).length := by
    intro whole
    rw [if_pos whole, List.length_append, Image.length_read] at short
    omega
  rw [if_neg ends, if_neg ends]

/-- `write` changes the size of the file. -/
theorem entryAt_putSize (value : UInt64) (short : (entryAt directory slot).fileName.length < 48) :
    entryAt (putWord directory (slot * 64 + 48) value) slot = { entryAt directory slot with fileSize := value } := by
  have name : (entryAt (putWord directory (slot * 64 + 48) value) slot).fileName = (entryAt directory slot).fileName :=
    fileName_short (Image.read_write_other (.inr (by omega))) short
  have first : word (putWord directory (slot * 64 + 48) value) (slot * 64 + 32) = word directory (slot * 64 + 32) :=
    word_putWord_other _ (by omega)
  have second : word (putWord directory (slot * 64 + 48) value) (slot * 64 + 40) = word directory (slot * 64 + 40) :=
    word_putWord_other _ (by omega)
  simp only [entryAt] at name ⊢
  rw [name, first, second, word_putWord]

/-- `delete` changes the first byte of the name. -/
theorem entryAt_mark : ∃ fileName, fileName.head? = some 1 ∧
    entryAt (Image.write directory (slot * 64) [1]) slot = { entryAt directory slot with fileName } := by
  have kept : ∀ {offset : Nat}, 32 ≤ offset → word (Image.write directory (slot * 64) [1]) (slot * 64 + offset) =
      word directory (slot * 64 + offset) := fun {offset} behind =>
      word_write_other (.inl (by rw [List.length_singleton]; omega))
  refine ⟨(entryAt (Image.write directory (slot * 64) [1]) slot).fileName, ?_, ?_⟩
  · simp [entryAt, Image.read, Image.write]
  · unfold entryAt
    rw [kept (by omega), kept (by omega), kept (by omega)]

/-! ## The loops -/

/-- The entries before `n` are used or deleted, and the directory ends there, unless that is its
whole length. -/
structure Ends (directory : Nat → UInt8) (n : Nat) : Prop where
  le : n ≤ 64
  taken : ∀ i, i < n → (entryAt directory i).first ≠ 0
  last : n < 64 → (entryAt directory n).first = 0

/-- Where the directory ends. -/
def used (directory : Nat → UInt8) : Nat := (List.range 64).findIdx fun i => (entryAt directory i).first = 0

theorem ends_used (directory : Nat → UInt8) : Ends directory (used directory) := by
  refine ⟨?_, fun i inside => ?_, fun short => ?_⟩
  · have most : used directory ≤ (List.range 64).length := List.findIdx_le_length
    rwa [List.length_range] at most
  · have passed := List.not_of_lt_findIdx inside
    rw [List.getElem_range] at passed
    exact of_decide_eq_false passed
  · have here := List.findIdx_getElem (w := by rw [List.length_range]; exact short)
    rw [List.getElem_range] at here
    exact of_decide_eq_true here

theorem Ends.used_eq (ends : Ends directory n) : used directory = n := by
  obtain ⟨le, before, last⟩ := ends_used directory
  rcases Nat.lt_trichotomy (used directory) n with less | same | more
  · exact (ends.taken _ less (last (Nat.lt_of_lt_of_le less ends.le))).elim
  · exact same
  · exact (before n more (ends.last (Nat.lt_of_lt_of_le more le))).elim

def Deleted (directory : Nat → UInt8) (i : Nat) : Prop := (entryAt directory i).first = 1

instance (directory : Nat → UInt8) (i : Nat) : Decidable (Deleted directory i) := inferInstanceAs (Decidable (_ = _))

/-- From `tint` on, either the directory has ended or there is one more entry. -/
theorem Ends.next (ends : Ends directory n) {left tint : Nat} (all : tint + (left + 1) = 64) (low : tint ≤ n) :
    (tint = n ∧ (entryAt directory tint).first = 0) ∨
      tint < n ∧ (entryAt directory tint).first ≠ 0 ∧
      List.range' tint (n - tint) = tint :: List.range' (tint + 1) (n - (tint + 1)) := by
  rcases Nat.lt_or_eq_of_le low with inside | rfl
  · refine .inr ⟨inside, ends.taken tint inside, ?_⟩
    rw [show n - tint = n - (tint + 1) + 1 by omega, List.range'_succ]
  · exact .inl ⟨rfl, ends.last (by omega)⟩

theorem findfileLoop_eq (ends : Ends directory n) (name : List UInt8) {left tint : Nat}
    (all : tint + left = 64) (low : tint ≤ n) :
    findfileLoop directory name left tint =
      (List.range' tint (n - tint)).find? fun i => ¬Deleted directory i ∧ name = (entryAt directory i).fileName := by
  induction left generalizing tint with
  | zero =>
    have le := ends.le
    rw [show n - tint = 0 by omega]
    rfl
  | succ left ih =>
    unfold findfileLoop
    rcases ends.next all low with ⟨rfl, empty⟩ | ⟨inside, used, split⟩
    · rw [Nat.sub_self]
      exact if_pos empty
    · have rest := ih (by omega) inside
      rw [split, List.find?_cons]
      dsimp only
      rw [if_neg used, rest]
      by_cases deleted : Deleted directory tint
      · rw [if_pos (show (entryAt directory tint).first = 1 from deleted)]
        simp [deleted]
      · rw [if_neg (show ¬(entryAt directory tint).first = 1 from deleted)]
        by_cases same : name = (entryAt directory tint).fileName
        · rw [if_pos same]
          simp [deleted, same]
        · rw [if_neg same]
          simp [same]

theorem findfile_eq (ends : Ends directory n) (filename : CString) : findfile directory filename =
    (List.range n).find? fun i => ¬Deleted directory i ∧ filename.bytes = (entryAt directory i).fileName := by
  have loop := findfileLoop_eq ends filename.bytes (Nat.zero_add 64) (Nat.zero_le n)
  rwa [Nat.sub_zero, ← List.range_eq_range'] at loop

theorem listLoop_eq (ends : Ends directory n) {left tint : Nat} (all : tint + left = 64) (low : tint ≤ n) :
    listLoop directory left tint =
      ((List.range' tint (n - tint)).filter fun i => ¬Deleted directory i).map (entryAt directory) := by
  induction left generalizing tint with
  | zero =>
    have le := ends.le
    rw [show n - tint = 0 by omega]
    rfl
  | succ left ih =>
    unfold listLoop
    rcases ends.next all low with ⟨rfl, empty⟩ | ⟨inside, used, split⟩
    · rw [Nat.sub_self]
      exact if_pos empty
    · have rest := ih (by omega) inside
      rw [split]
      dsimp only
      rw [if_neg used, rest]
      by_cases deleted : Deleted directory tint
      · rw [if_pos (show (entryAt directory tint).first = 1 from deleted)]
        simp [deleted]
      · rw [if_neg (show ¬(entryAt directory tint).first = 1 from deleted)]
        simp [deleted]

theorem countLoop_eq (ends : Ends directory n) {left tint : Nat} (all : tint + left = 64)
    (low : tint ≤ n) (free : Option Nat) :
    countLoop directory left tint free =
      let deleted := free.or ((List.range' tint (n - tint)).find? (Deleted directory ·))
      if n < 64 then (n, some (deleted.getD n)) else (0, deleted) := by
  induction left generalizing tint free with
  | zero =>
    have le := ends.le
    rw [show n - tint = 0 by omega]
    simp [countLoop, show ¬n < 64 by omega]
  | succ left ih =>
    unfold countLoop
    rcases ends.next all low with ⟨rfl, empty⟩ | ⟨inside, used, split⟩
    · rw [Nat.sub_self]
      simp [empty, show tint < 64 by omega]
    · have rest := ih (by omega) inside
      rw [split, List.find?_cons]
      dsimp only at rest ⊢
      rw [if_neg used]
      by_cases deleted : Deleted directory tint
      · rw [if_pos (show (entryAt directory tint).first = 1 from deleted), rest]
        cases free <;> simp [deleted]
      · rw [if_neg (show ¬(entryAt directory tint).first = 1 from deleted), rest]
        simp [deleted]

end QuesOs.Bmfs
