import QuesOs.UserlandPrintf

/-! The command `printmem`, as the calls it makes. `strToHex` answers with an
`int`, in which a numeral of more than eight digits loses the first ones and
the error is -1; the command widens that to 64 bits and compares it. -/
namespace QuesOs.Userland
open Numerals

def DUMP_SIZE : Nat := 33
def LAST_MEM : UInt64 := 0x80000000

/-- The calls; `writeError` is `write` with `ERROR_COLOURS`. -/
inductive Call where
  | writeError (message : String)
  | fprintf (format : String) (arg : List Argument)
  | printMem (direc : UInt64) (bytes : Nat)

/-- What is printed of the buffer. -/
def dumpByte (buffer : Nat → UInt8) (i : Nat) : List Call :=
  (if i % 8 = 0 then [.fprintf "\n x%d:  " [.int (.ofNat i)]] else []) ++
    [.fprintf "0x%x  " [.int (.ofNat (buffer i).toNat)]]

/-- The rest of the command, once the address is accepted. The system call
fills the buffer with what is in memory from the address on. -/
def dump (memory : UInt64 → UInt8) (memDir : UInt64) (address : CString) : List Call :=
  let buffer := fun i : Nat => memory (memDir + .ofNat i)
  [.fprintf "\nDump de 32 bytes a partir de la direccion: %s\n\n" [.pointer address], .printMem memDir DUMP_SIZE] ++
    (List.range DUMP_SIZE).flatMap (dumpByte buffer) ++ [.fprintf "\n" []]

def unreachableAddress : List Call := [.writeError "\nLa direccion ingresada no es alcanzable \n"]

def printmem (memory : UInt64 → UInt8) (argc : UInt32) (argv : Nat → CString) : List Call :=
  if argc < 1 then [.writeError "No se dio una direccion de memoria\n"]
  else
    let address := argv 1
    let memDir := (strToHex address.chars).toInt64.toUInt64
    if memDir = (-1 : Int32).toInt64.toUInt64 ∨ memDir ≥ LAST_MEM then unreachableAddress
    else dump memory memDir address

/-- The address that a string is the numeral of. -/
def addressOf (str : List Int8) : Option Nat :=
  if str = [] then none else (hexValue str).filter (· < LAST_MEM.toNat)

/-- What the command should do with its argument. -/
def checked (memory : UInt64 → UInt8) (address : CString) : List Call :=
  match addressOf address.chars with
  | some memDir => dump memory (.ofNat memDir) address
  | none => unreachableAddress

/-! ## What the check lets through -/

theorem negative_address {val : Int32} (negative : val.toInt < 0) : val.toInt64.toUInt64 ≥ LAST_MEM := by
  have wide : val.toInt64.toBitVec.toInt < 0 := by
    rw [Int64.toInt_toBitVec, Int32.toInt_toInt64]
    exact negative
  have large : 2 ^ 64 ≤ 2 * val.toInt64.toUInt64.toNat := BitVec.toInt_neg_iff.mp wide
  have bound : LAST_MEM.toNat = 2 ^ 31 := rfl
  apply UInt64.le_iff_toNat_le.mpr
  omega

theorem positive_address {val : Int32} (positive : 0 ≤ val.toInt) :
    val.toInt64.toUInt64 = .ofNat val.toInt.toNat ∧ val.toInt64.toUInt64 < LAST_MEM := by
  have wide : 0 ≤ val.toInt64 := by
    apply Int64.le_iff_toInt_le.mpr
    rw [Int32.toInt_toInt64]
    exact positive
  have amount : val.toInt64.toUInt64.toNat = val.toInt.toNat := by
    rw [Int64.toNat_toUInt64_of_le wide, Int64.toNatClampNeg, Int32.toInt_toInt64]
  have small := val.toInt_lt
  have bound : LAST_MEM.toNat = 2 ^ 31 := rfl
  constructor
  · rw [← amount, UInt64.ofNat_toNat]
  · apply UInt64.lt_iff_toNat_lt.mpr
    omega

/-- The comparison with -1 is part of the one with the bound. -/
theorem printmem_cases (given : 1 ≤ argc) : printmem memory argc argv =
    if (strToHex (argv 1).chars).toInt < 0 then unreachableAddress
    else dump memory (.ofNat (strToHex (argv 1).chars).toInt.toNat) (argv 1) := by
  have some : ¬ argc < 1 := UInt32.not_lt.mpr given
  rw [printmem, if_neg some]
  dsimp only
  by_cases negative : (strToHex (argv 1).chars).toInt < 0
  · rw [if_pos negative, if_pos (.inr (negative_address negative))]
  · obtain ⟨address, inside⟩ := positive_address (Int.not_lt.mp negative)
    have bound : (-1 : Int32).toInt64.toUInt64 ≥ LAST_MEM := negative_address (by decide)
    have accepted : ¬ ((strToHex (argv 1).chars).toInt64.toUInt64 = (-1 : Int32).toInt64.toUInt64 ∨
        (strToHex (argv 1).chars).toInt64.toUInt64 ≥ LAST_MEM) := by
      rintro (error | outside)
      · rw [error] at inside
        exact UInt64.not_lt.mpr bound inside
      · exact UInt64.not_lt.mpr outside inside
    rw [if_neg negative, if_neg accepted, address]

/-- The command dumps from where the numeral is, cut to 32 bits, unless that
looks negative. -/
theorem printmem_spec (given : 1 ≤ argc) : printmem memory argc argv =
    match hexValue (argv 1).chars with
    | some v => if v % 2 ^ 32 < 2 ^ 31 then dump memory (.ofNat (v % 2 ^ 32)) (argv 1) else unreachableAddress
    | none => unreachableAddress := by
  rw [printmem_cases given, strToHex_spec]
  cases hexValue (argv 1).chars with
  | none => exact if_pos (by decide)
  | some v =>
    have cut : (Int32.ofInt v).toInt = (v : Int).bmod (2 ^ 32) := Int32.toInt_ofInt
    dsimp only
    rw [cut, Int.bmod_def]
    by_cases low : v % 2 ^ 32 < 2 ^ 31
    · have positive : (v : Int) % ((2 ^ 32 : Nat) : Int) < (((2 ^ 32 : Nat) : Int) + 1) / 2 := by omega
      have amount : ((v : Int) % ((2 ^ 32 : Nat) : Int)).toNat = v % 2 ^ 32 := by omega
      rw [if_pos low, if_pos positive, amount, if_neg (by omega)]
    · have negative : ¬ (v : Int) % ((2 ^ 32 : Nat) : Int) < (((2 ^ 32 : Nat) : Int) + 1) / 2 := by omega
      rw [if_neg low, if_neg negative, if_pos (by omega)]

theorem dump_accepts : dump memory memDir address ≠ unreachableAddress := by
  intro same
  cases same

/-- **When `printmem` checks its argument right**: the string has another
character, or it has digits and their number is below the bound or cut to one
that looks negative. -/
theorem printmem_checks_iff (given : 1 ≤ argc) : printmem memory argc argv = checked memory (argv 1) ↔
    ∀ v, hexValue (argv 1).chars = some v → (argv 1).chars ≠ [] ∧ (v < 2 ^ 31 ∨ 2 ^ 31 ≤ v % 2 ^ 32) := by
  have bound : LAST_MEM.toNat = 2 ^ 31 := rfl
  rw [printmem_spec given, checked, addressOf]
  cases number : hexValue (argv 1).chars with
  | none => simp
  | some v =>
    simp only [Option.some.injEq, forall_eq', Option.filter_some, bound, decide_eq_true_eq]
    by_cases empty : (argv 1).chars = []
    · rw [empty] at number
      cases number
      rw [if_pos empty, if_pos (by decide)]
      simp [empty, dump_accepts]
    · rw [if_neg empty]
      by_cases inside : v < 2 ^ 31
      · have uncut : v % 2 ^ 32 = v := Nat.mod_eq_of_lt (by omega)
        rw [uncut, if_pos inside, if_pos inside]
        exact ⟨fun _ => ⟨empty, .inl inside⟩, fun _ => rfl⟩
      · rw [if_neg inside]
        by_cases low : v % 2 ^ 32 < 2 ^ 31
        · rw [if_pos low]
          exact ⟨fun same => absurd same dump_accepts, fun fits => by omega⟩
        · rw [if_neg low]
          exact ⟨fun _ => ⟨empty, .inr (Nat.le_of_not_lt low)⟩, fun _ => rfl⟩

/-- `7fffffff`, the last address below the bound. -/
theorem printmem_checks_last :
    printmem (fun _ => 0) 2 (fun _ => ⟨[55, 102, 102, 102, 102, 102, 102, 102], by decide +kernel⟩) =
      checked (fun _ => 0) ⟨[55, 102, 102, 102, 102, 102, 102, 102], by decide +kernel⟩ := by
  have number : hexValue [55, 102, 102, 102, 102, 102, 102, 102] = some 0x7fffffff := by decide +kernel
  apply (printmem_checks_iff (by decide)).mpr
  intro v same
  cases number.symm.trans same
  exact ⟨List.cons_ne_nil _ _, .inl (by decide)⟩

/-- `100000000` is taken for address 0. -/
theorem printmem_wraps : ¬ ∀ memory argc argv, 1 ≤ argc → printmem memory argc argv = checked memory (argv 1) := by
  intro always
  have number : hexValue [49, 48, 48, 48, 48, 48, 48, 48, 48] = some (2 ^ 32) := by decide +kernel
  have given : (1 : UInt32) ≤ 2 := by decide
  have wrong := always (fun _ => 0) 2 (fun _ => ⟨[49, 48, 48, 48, 48, 48, 48, 48, 48], by decide +kernel⟩) given
  rw [printmem_spec given, checked, addressOf, number] at wrong
  cases wrong

end QuesOs.Userland
