import Mathlib.Data.List.Sort
import QuesOs.Images

/-! The disk utility, `bmfs.c`. A disk has a tag, a directory of 64 entries of 64 bytes
each, and blocks of 2 MiB for the files, each of which has a run of blocks to itself. -/
namespace QuesOs.Bmfs

/-- A string of C, without the byte that ends it. -/
structure CString where
  bytes : List UInt8
  proper : 0 ∉ bytes
  deriving DecidableEq

/-- The bytes of a file of the host. There are none beyond its end. -/
structure Disk where
  size : Nat
  byte : Nat → UInt8
  blank : ∀ i, size ≤ i → byte i = 0

/-- `strcasecmp` is zero. -/
def sameFolded (s t : List UInt8) : Bool :=
  let lower (byte : UInt8) : UInt8 := if 65 ≤ byte ∧ byte ≤ 90 then byte + 32 else byte
  s.map lower = t.map lower

def fs_tag : List UInt8 := [66, 77, 70, 83]

/-- What `printf` shows of a string. -/
def shown (bytes : List UInt8) : String := String.ofList (bytes.map fun byte => Char.ofNat byte.toNat)

/-! ## Entries -/

/-- `struct BMFSEntry`, with the name as a string. -/
structure BMFSEntry where
  fileName : List UInt8
  startingBlock : UInt64
  reservedBlocks : UInt64
  fileSize : UInt64
  deriving DecidableEq

/-- `FileName[0]`. -/
def BMFSEntry.first (entry : BMFSEntry) : UInt8 := entry.fileName.headD 0

/-- A field of eight bytes. -/
def word (directory : Nat → UInt8) (i : Nat) : UInt64 := UInt64.ofNat (Image.number (Image.read directory i 8))

/-- The 64 bytes at `Directory + slot * 64`. The name runs up to the first zero, wherever that is. -/
def entryAt (directory : Nat → UInt8) (slot : Nat) : BMFSEntry where
  fileName := (Image.read directory (slot * 64) 64).takeWhile (· ≠ 0)
  startingBlock := word directory (slot * 64 + 32)
  reservedBlocks := word directory (slot * 64 + 40)
  fileSize := word directory (slot * 64 + 48)

def putWord (directory : Nat → UInt8) (i : Nat) (value : UInt64) : Nat → UInt8 :=
  Image.write directory i (Image.bytesOf 8 value.toNat)

/-- The bytes of the name and the zero behind it, into whatever is there. -/
def strcpy (directory : Nat → UInt8) (i : Nat) (name : CString) : Nat → UInt8 :=
  Image.write directory i (name.bytes ++ [0])

/-! ## The disk -/

namespace Disk

/-- What `main` reads into `Directory`, which is zero where the disk has ended. -/
def directory (d : Disk) : Nat → UInt8 := fun i => if i < 4096 then d.byte (4096 + i) else 0

/-- `disksize`, in MiB. -/
def disksize (d : Disk) : UInt32 := UInt32.ofNat (d.size / 1048576)

/-- The string in `DiskInfo`. -/
def tag (d : Disk) : List UInt8 := (Image.read d.byte 1024 512).takeWhile (· ≠ 0)

/-- `n` bytes are written from `a` on, from a buffer. -/
def fwrite (d : Disk) (a n : Nat) (buffer : Nat → UInt8) : Disk where
  size := if n = 0 then d.size else max d.size (a + n)
  byte := Image.blit d.byte a n buffer
  blank := by
    intro i beyond
    unfold Image.blit
    split at beyond
    · rw [if_neg (by omega)]
      exact d.blank i beyond
    · rw [if_neg (by omega)]
      exact d.blank i (by omega)

/-- Every function that changes the directory writes all of it. -/
def flush (d : Disk) (directory : Nat → UInt8) : Disk := d.fwrite 4096 4096 directory

/-- At the end of the disk `getc` returns `EOF`, of which `putc` writes the lowest byte. -/
def getc (d : Disk) (i : Nat) : UInt8 := if i < d.size then d.byte i else 255

/-- The loop of `read`. -/
def getAll (d : Disk) (i : Nat) : Nat → List UInt8
  | 0 => []
  | n + 1 => d.getc i :: d.getAll (i + 1) n

def putc (d : Disk) (i : Nat) (byte : UInt8) : Disk := d.fwrite i 1 fun _ => byte

/-- The loop of `write`. -/
def putAll (d : Disk) (i : Nat) : List UInt8 → Disk
  | [] => d
  | byte :: bytes => (d.putc i byte).putAll (i + 1) bytes

end Disk

/-! ## `findfile`, `list` and `format` -/

/-- The loop of `findfile`, from `tint` on. -/
def findfileLoop (directory : Nat → UInt8) (filename : List UInt8) : Nat → Nat → Option Nat
  | 0, _ => none
  | left + 1, tint =>
    let entry := entryAt directory tint
    if entry.first = 0 then none
    else if entry.first = 1 then findfileLoop directory filename left (tint + 1)
    else if filename = entry.fileName then some tint
    else findfileLoop directory filename left (tint + 1)

/-- The slot of the file. -/
def findfile (directory : Nat → UInt8) (filename : CString) : Option Nat :=
  findfileLoop directory filename.bytes 64 0

/-- The entries that `list` prints. -/
def listLoop (directory : Nat → UInt8) : Nat → Nat → List BMFSEntry
  | 0, _ => []
  | left + 1, tint =>
    let entry := entryAt directory tint
    if entry.first = 0 then []
    else if entry.first = 1 then listLoop directory left (tint + 1)
    else entry :: listLoop directory left (tint + 1)

/-- A column of the table: `%-32s` on the left, `%20lld` on the right. -/
def blanks (width : Nat) (s : String) : String := String.ofList (List.replicate (width - s.length) ' ')

def line (entry : BMFSEntry) : String :=
  let name := shown entry.fileName
  let size := toString entry.fileSize.toInt64.toInt
  let reserved := toString (entry.reservedBlocks * 2).toInt64.toInt
  name ++ blanks 32 name ++ " " ++ blanks 20 size ++ size ++ " " ++ blanks 20 reserved ++ reserved ++ "\n"

def list (diskname : String) (d : Disk) : List String :=
  -- The size is unsigned, and printed with `%d`.
  [diskname ++ "\nDisk Size: " ++ toString d.disksize.toInt32.toInt ++ " MiB\n",
    "Name                            |            Size (B)|      Reserved (MiB)\n",
    "==========================================================================\n"] ++
    (listLoop d.directory 64 0).map line

def format (d : Disk) : Disk :=
  let diskInfo := Image.write (fun _ => 0) 0 fs_tag
  (d.fwrite 1024 512 diskInfo).flush fun _ => 0

/-! ## `create` -/

/-- How many entries are used or deleted, and where to put a new one. Where there is no end of the
directory the number stays at zero. -/
def countLoop (directory : Nat → UInt8) : Nat → Nat → Option Nat → Nat × Option Nat
  | 0, _, first_free_entry => (0, first_free_entry)
  | left + 1, tint, first_free_entry =>
    let pEntry := entryAt directory tint
    if pEntry.first = 0 then (tint, some (first_free_entry.getD tint))
    else if pEntry.first = 1 then countLoop directory left (tint + 1) (some (first_free_entry.getD tint))
    else countLoop directory left (tint + 1) first_free_entry

/-- Deleted entries go to the end. The difference of two blocks is returned as an `int`. -/
def startingBlockCmp (ea eb : BMFSEntry) : Int32 :=
  if ea.first = 1 then 1
  else if eb.first = 1 then -1
  else (ea.startingBlock - eb.startingBlock).toUInt32.toInt32

def qsort (entries : List BMFSEntry) : List BMFSEntry :=
  entries.insertionSort fun ea eb => startingBlockCmp ea eb ≤ 0

/-- Where the new file starts, or zero. What lies before an entry ends where the entry before it
does, and a deleted one is no exception. -/
def fitLoop (num_blocks blocks_requested : UInt64) : List BMFSEntry → UInt64 → UInt64
  | [], prev_file_end =>
    if blocks_requested ≤ num_blocks - 1 - prev_file_end then prev_file_end else 0
  | pEntry :: rest, prev_file_end =>
    let this_file_start := if pEntry.first = 1 then num_blocks - 1 else pEntry.startingBlock
    if blocks_requested ≤ this_file_start - prev_file_end then prev_file_end
    else fitLoop num_blocks blocks_requested rest (pEntry.startingBlock + pEntry.reservedBlocks)

/-- The record of a new file, field by field. -/
def addRecord (directory : Nat → UInt8) (slot : Nat) (new_file_start blocks_requested : UInt64) (filename : CString) :
    Nat → UInt8 :=
  let directory := putWord directory (slot * 64 + 32) new_file_start
  let directory := putWord directory (slot * 64 + 40) blocks_requested
  let directory := putWord directory (slot * 64 + 48) 0
  strcpy directory (slot * 64) filename

def create (d : Disk) (filename : CString) (maxsize : UInt64) : Disk × List String :=
  let maxsize := if maxsize % 2 ≠ 0 then maxsize + 1 else maxsize
  match findfile d.directory filename with
  | some _ => (d, ["Error: File already exists.\n"])
  | none =>
    let blocks_requested := maxsize / 2
    let num_blocks := (d.disksize / 2).toUInt64
    let (num_used_entries, first_free_entry) := countLoop d.directory 64 0 none
    match first_free_entry with
    | none => (d, ["Creating new file...\n", "Cannot create file: no free directory entries.\n"])
    | some slot =>
      let dir_copy := qsort ((List.range num_used_entries).map (entryAt d.directory))
      let new_file_start := fitLoop num_blocks blocks_requested dir_copy 1
      if new_file_start = 0 then
        (d, ["Creating new file...\n", "Cannot create file of size " ++ toString maxsize.toInt64.toInt ++ " MiB.\n"])
      else
        let directory := addRecord d.directory slot new_file_start blocks_requested filename
        let directory := if slot = num_used_entries ∧ num_used_entries + 1 < 64 then
            Image.write directory ((num_used_entries + 1) * 64) [0]
          else directory
        (d.flush directory, ["Creating new file...\n", "Complete\n"])

/-! ## `read`, `write` and `delete` -/

/-- The host: the disk, its other files, and which of them it lets be written. The names that lead to the disk itself,
which `read` would empty and `write` read from, are not those of other files. -/
structure Host where
  disk : Disk
  isDisk : List UInt8 → Bool
  files : List UInt8 → Option (List UInt8)
  writable : List UInt8 → Bool

def read (h : Host) (filename : CString) : Host × List String :=
  match findfile h.disk.directory filename with
  | none => (h, ["Error: File not found in BMFS.\n"])
  | some slot =>
    let tempentry := entryAt h.disk.directory slot
    let begun := "Reading '" ++ shown filename.bytes ++ "' from BMFS to local file... "
    if h.writable tempentry.fileName then
      let bytes := h.disk.getAll (tempentry.startingBlock * 2097152).toNat tempentry.fileSize.toNat
      ({ h with files := Function.update h.files tempentry.fileName (some bytes) }, [begun, "Complete\n"])
    else (h, [begun, "Error: Could not open local file '" ++ shown tempentry.fileName ++ "'\n"])

def write (h : Host) (filename : CString) : Host × List String :=
  match findfile h.disk.directory filename with
  | none => (h, ["Error: File not found in BMFS. A file entry must first be created.\n"])
  | some slot =>
    let tempentry := entryAt h.disk.directory slot
    let begun := "Writing local file '" ++ shown filename.bytes ++ "' to BMFS... "
    match h.files filename.bytes with
    | none => (h, [begun, "Error: Could not open local file '" ++ shown tempentry.fileName ++ "'\n"])
    | some bytes =>
      if tempentry.reservedBlocks * 2097152 < UInt64.ofNat bytes.length then
        (h, [begun, "Not enough reserved space in BMFS.\n"])
      else
        let disk := h.disk.putAll (tempentry.startingBlock * 2097152).toNat bytes
        let directory := putWord h.disk.directory (slot * 64 + 48) (UInt64.ofNat bytes.length)
        ({ h with disk := disk.flush directory }, [begun, "Complete\n"])

def delete (d : Disk) (filename : CString) : Disk × List String :=
  match findfile d.directory filename with
  | none => (d, ["Error: File not found in BMFS.\n"])
  | some slot =>
    let directory := Image.write d.directory (slot * 64) [1]
    (d.flush directory, ["Deleting file '" ++ shown filename.bytes ++ "' from BMFS... ", "Complete\n"])

/-! ## `main` -/

/-- What `atoi` makes of an argument, as an `int`, or of the keyboard, as the `unsigned int` outside of `main`. -/
inductive Size where
  | argument (filesize : Int32)
  | keyboard (filesize : UInt32)
  deriving DecidableEq

/-- What is asked of a disk. -/
inductive Command where
  | list
  | format (force : Option CString)
  | create (filename : CString) (size : Size)
  | read (filename : CString)
  | write (filename : CString)
  | delete (filename : CString)
  deriving DecidableEq

/-- `/FORCE` -/
def forceOption : List UInt8 := [47, 70, 79, 82, 67, 69]

/-- `main`, for a disk that can be opened. -/
def main (diskname : String) (h : Host) (command : Command) : Host × List String :=
  if sameFolded h.disk.tag fs_tag then
    match command with
    | .list => (h, list diskname h.disk)
    | .format force =>
      if force.any fun option => sameFolded option.bytes forceOption then
        ({ h with disk := format h.disk }, ["Format complete.\n"])
      else (h, ["Format aborted!\n"])
    | .create filename (.argument filesize) =>
      if 1 ≤ filesize then
        let (disk, printed) := create h.disk filename (UInt64.ofNat filesize.toNatClampNeg)
        ({ h with disk }, printed)
      else (h, ["Error: Invalid file size.\n"])
    | .create filename (.keyboard filesize) =>
      let prompt := "Maximum file size in MiB: "
      if 1 ≤ filesize then
        let (disk, printed) := create h.disk filename filesize.toUInt64
        ({ h with disk }, prompt :: printed)
      else (h, [prompt, "Error: Invalid file size.\n"])
    | .read filename => read h filename
    | .write filename => write h filename
    | .delete filename =>
      let (disk, printed) := delete h.disk filename
      ({ h with disk }, printed)
  else
    match command with
    | .format _ => ({ h with disk := format h.disk }, ["Format complete.\n"])
    | _ => (h, ["Error: Not a valid BMFS drive (Disk is not BMFS formatted).\n"])

end QuesOs.Bmfs
