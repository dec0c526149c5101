import Mathlib.Logic.Function.Basic
import Mathlib.Logic.Relation
import Mathlib.Algebra.Group.Int.Defs
import Mathlib.Algebra.Group.Nat.Defs

/-! `Kernel/memory_manager/buddy.c` and `buddyBTree.c`, the allocator of the
BUDDY build. A `list_t` is either one of the static sentinels `orders[i]` or a
header inside the heap, addressed by its offset from `base`; `free` is the
flag 1, as the code writes it. -/
namespace QuesOs.BuddyMalloc

/-- A `list_t *`. -/
inductive Ptr where
  | null
  | orders (index : Nat)
  | heap (offset : Nat)
  deriving DecidableEq

/-- `list_t`. `order` and `free` are `uint8_t`. -/
structure ListT where
  prev : Ptr
  next : Ptr
  order : Nat
  free : Nat
  deriving DecidableEq

abbrev Memory := Ptr → ListT

namespace Memory

def setPrev (m : Memory) (p value : Ptr) : Memory := Function.update m p { m p with prev := value }
def setNext (m : Memory) (p value : Ptr) : Memory := Function.update m p { m p with next := value }
def setOrder (m : Memory) (p : Ptr) (value : Nat) : Memory :=
  Function.update m p { m p with order := value % 2 ^ 8 }
def setFree (m : Memory) (p : Ptr) (value : Nat) : Memory := Function.update m p { m p with free := value }

end Memory

open Memory

/-! ## `buddyBTree.c` -/

def initializeList (m : Memory) (list : Ptr) : Memory :=
  setNext (setPrev m list list) list list

def pushToList (m : Memory) (list entry : Ptr) : Memory :=
  let prev := (m list).prev
  setPrev (setNext (setNext (setPrev m entry prev) entry list) prev entry) list entry

def removeFromList (m : Memory) (entry : Ptr) : Memory :=
  let prev := (m entry).prev
  let next := (m entry).next
  setPrev (setNext m prev next) next prev

def popFromList (m : Memory) (list : Ptr) : Memory × Ptr :=
  let back := (m list).prev
  if back = list then (m, .null) else (removeFromList m back, back)

def listIsEmpty (m : Memory) (list : Ptr) : Bool := (m list).prev = list

/-! ## `buddy.c` -/

/-- `sizeof(list_t)`. -/
def sizeofListT : Nat := 24

def minAllocLog2 : Nat := 4
def maxAllocLog2 : Nat := 31
def maxBlockCount : Nat := maxAllocLog2 - minAllocLog2

/-- The static variables and the memory behind them; `base` is offset 0. -/
structure Buddy where
  memory : Memory
  currentBlocks : Nat
  blockMaxSize : Nat

/-- The loop of `log2`: how often the number can be halved. -/
def log2Loop : Nat → Nat → Int → Int
  | 0, _, result => result
  | steps + 1, number, result => if number = 0 then result else log2Loop steps (number / 2) (result + 1)

/-- The argument is a `uint32_t`, so 32 halvings are all there can be. -/
def log2 (number : Nat) : Int :=
  if number % 2 ^ 32 = 0 then -1 else log2Loop 33 (number % 2 ^ 32) (-1)

/-- The order of the smallest block that fits, as a `size_t`. -/
def getMinimumFittingOrder (memNeeded : Nat) : Nat :=
  let minOrder := (log2 memNeeded % 2 ^ 64).toNat
  if minOrder < minAllocLog2 then 0
  else if memNeeded ≠ 0 ∧ memNeeded &&& (memNeeded - 1) = 0 then minOrder - minAllocLog2
  else minOrder - minAllocLog2 + 1

def addNodeToOrder (m : Memory) (blockList node : Ptr) (blockOrder : Nat) : Memory :=
  pushToList (setFree (setOrder m node blockOrder) node 1) blockList node

/-- The loop of `getFreeBlock`; `freeBlock` is a `uint8_t` that stops at
`currentBlocks` at the latest. -/
def getFreeBlockLoop (b : Buddy) : Nat → Nat → Nat
  | 0, freeBlock => freeBlock
  | steps + 1, freeBlock =>
    if freeBlock < b.currentBlocks ∧ listIsEmpty b.memory (.orders freeBlock) then
      getFreeBlockLoop b steps (freeBlock + 1)
    else freeBlock

def getFreeBlock (b : Buddy) (minBlockRequired : Nat) : Int :=
  let freeBlock := getFreeBlockLoop b (b.currentBlocks + 1) minBlockRequired
  if freeBlock > b.currentBlocks then -1 else freeBlock

/-- The buddy's offset differs in the one bit of the block's size. -/
def getBuddyBlock (m : Memory) (node : Nat) : Nat := node ^^^ 2 ^ (minAllocLog2 + (m (.heap node)).order)

/-- The lower of the two: the bit of the block's size cleared in 64 bits. -/
def getBlockAddress (m : Memory) (node : Nat) : Nat :=
  node &&& (2 ^ 64 - 1 - 2 ^ (minAllocLog2 + (m (.heap node)).order))

/-- The splitting loop of `malloc`, with `freeBlock - lowestFittingOrder`
rounds to go. -/
def splitLoop (m : Memory) (node : Nat) : Nat → Nat → Memory
  | 0, _ => m
  | rounds + 1, freeBlock =>
    let m := setOrder m (.heap node) ((m (.heap node)).order + 2 ^ 8 - 1)
    let m := addNodeToOrder m (.orders (freeBlock - 1)) (.heap (getBuddyBlock m node)) (freeBlock - 1)
    splitLoop m node rounds (freeBlock - 1)

/-- Returns the offset just after the header, `none` for `NULL`. -/
def malloc (b : Buddy) (size : Nat) : Buddy × Option Nat :=
  let memNeeded := (size + sizeofListT) % 2 ^ 64
  if size = 0 ∨ memNeeded > b.blockMaxSize then (b, none)
  else
    let lowestFittingOrder := getMinimumFittingOrder memNeeded % 2 ^ 8
    match getFreeBlock b lowestFittingOrder with
    | .negSucc _ => (b, none)
    | .ofNat freeBlock =>
      if (b.memory (.orders freeBlock)).prev ≠ .null ∨ (b.memory (.orders freeBlock)).next ≠ .null then
        match popFromList b.memory (.orders freeBlock) with
        | (m, .heap node) =>
          let m := splitLoop m node (freeBlock - lowestFittingOrder) freeBlock
          ({ b with memory := setFree m (.heap node) 0 }, some (node + sizeofListT))
        -- `NULL`, which the code would write through: never on a list that is not empty
        | (m, _) => ({ b with memory := m }, none)
      else (b, none)

/-- The merging loop of `free`, with the block in hand; `none` when it does
not end in the given number of rounds. -/
def mergeLoop (b : Buddy) : Nat → Memory → Nat → Option (Memory × Nat)
  | 0, _, _ => none
  | rounds + 1, m, freeNode =>
    let freeBuddyBlock := getBuddyBlock m freeNode
    let order := (m (.heap freeNode)).order
    if order ≠ b.currentBlocks - 1 ∧ (m (.heap freeBuddyBlock)).order = order ∧
        (m (.heap freeBuddyBlock)).free ≠ 0 then
      let m := removeFromList m (.heap freeBuddyBlock)
      let freeNode := getBlockAddress m freeNode
      mergeLoop b rounds (setOrder m (.heap freeNode) ((m (.heap freeNode)).order + 1)) freeNode
    else some (m, freeNode)

/-- `free`, given the offset `malloc` returned; `none` is `NULL`. -/
def free (b : Buddy) : Option Nat → Option Buddy
  | none => some b
  | some block =>
    let freeNode := block - sizeofListT
    match mergeLoop b (b.currentBlocks + 1) (setFree b.memory (.heap freeNode) 1) freeNode with
    | none => none
    | some (m, freeNode) =>
      some { b with memory := pushToList m (.orders (m (.heap freeNode)).order) (.heap freeNode) }

/-- The loop of `initializeMemoryManager` over the order lists. -/
def initializeOrders (m : Memory) : Nat → Memory
  | 0 => m
  | i + 1 =>
    let m := initializeList (initializeOrders m i) (.orders i)
    setOrder (setFree m (.orders i) 0) (.orders i) i

/-- `initializeMemoryManager`, with a heap base that is not `NULL`. -/
def initializeMemoryManager (m : Memory) (heapSize : Nat) : Buddy :=
  let counted := ((log2 heapSize - minAllocLog2 + 1) % 2 ^ 8).toNat
  let currentBlocks := if counted > maxBlockCount then maxBlockCount else counted
  let m := initializeOrders m currentBlocks
  { memory := addNodeToOrder m (.orders (currentBlocks - 1)) (.heap 0) (currentBlocks - 1)
    currentBlocks, blockMaxSize := heapSize }

/-! ## The client -/

/-- A pointer the client holds and the size it asked for. -/
structure Held where
  pointer : Nat
  size : Nat
  deriving DecidableEq

structure State where
  buddy : Buddy
  live : List Held

inductive Call where
  | malloc (size : Nat)
  | free (held : Held)
  | write (held : Held) (byte : Nat) (value : ListT)
  deriving DecidableEq

/-- One call: a 64-bit request that does not wrap when the header is added, the
release of a held pointer, or a write to the bytes that were asked for, after
which a header read there shows anything. -/
def perform (s : State) : Call → Option State
  | .malloc size =>
    if size + sizeofListT < 2 ^ 64 then
      match malloc s.buddy size with
      | (b, none) => some ⟨b, s.live⟩
      | (b, some pointer) => some ⟨b, ⟨pointer, size⟩ :: s.live⟩
    else none
  | .free held =>
    if held ∈ s.live then (free s.buddy (some held.pointer)).map fun b => ⟨b, s.live.erase held⟩
    else none
  | .write held byte value =>
    if held ∈ s.live ∧ byte < held.size then
      some { s with buddy.memory := Function.update s.buddy.memory (.heap (held.pointer + byte)) value }
    else none

def Run : State → State → Prop := Relation.ReflTransGen fun s s' => ∃ call, perform s call = some s'

/-- Static data starts as zero. -/
def zeroed (heap : Nat → ListT) : Memory
  | .heap offset => heap offset
  | _ => ⟨.null, .null, 0, 0⟩

/-- The state after `initializeMemoryManager`, over any contents of the heap. -/
def start (heap : Nat → ListT) (heapSize : Nat) : State :=
  ⟨initializeMemoryManager (zeroed heap) heapSize, []⟩

end QuesOs.BuddyMalloc
