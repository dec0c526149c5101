import QuesOs.BuddyMalloc

/-! The BUDDY allocator once more, over the bytes of the heap. A header is the
24 bytes its pointer leads to: `prev` and `next` of eight bytes each, then
`order` and `free` of one; a store writes the bytes of one field and no other.
A byte is a number or one of the eight bytes of a pointer, so that the client
may keep its pointers in its blocks. -/
namespace QuesOs.BuddyMalloc

inductive Byte where
  | number (n : UInt8)
  | pointer (p : Ptr) (index : Nat)
  deriving DecidableEq

/-- The bytes of the heap, and the headers that lie outside it. -/
structure Bytes where
  heap : Nat → Byte
  statics : Ptr → ListT

namespace Bytes

/-- The pointer in the eight bytes from `i`. Bytes that make no pointer read as `NULL`. -/
def pointer (b : Bytes) (i : Nat) : Ptr :=
  match b.heap i with
  | .pointer p _ => if ∀ k : Fin 8, b.heap (i + k) = .pointer p k then p else .null
  | .number _ => .null

def number (b : Bytes) (i : Nat) : Nat :=
  match b.heap i with
  | .number n => n.toNat
  | .pointer .. => 0

/-- What is read through a `list_t *`. -/
def header (b : Bytes) : Memory
  | .heap o => ⟨b.pointer o, b.pointer (o + 8), b.number (o + 16), b.number (o + 17)⟩
  | p => b.statics p

def storePointer (b : Bytes) (i : Nat) (value : Ptr) : Bytes :=
  { b with heap := fun j => if i ≤ j ∧ j < i + 8 then .pointer value (j - i) else b.heap j }

def storeNumber (b : Bytes) (i value : Nat) : Bytes :=
  { b with heap := Function.update b.heap i (.number (UInt8.ofNat value)) }

def setPrev (b : Bytes) (p value : Ptr) : Bytes :=
  match p with
  | .heap o => b.storePointer o value
  | p => { b with statics := Memory.setPrev b.statics p value }

def setNext (b : Bytes) (p value : Ptr) : Bytes :=
  match p with
  | .heap o => b.storePointer (o + 8) value
  | p => { b with statics := Memory.setNext b.statics p value }

def setOrder (b : Bytes) (p : Ptr) (value : Nat) : Bytes :=
  match p with
  | .heap o => b.storeNumber (o + 16) value
  | p => { b with statics := Memory.setOrder b.statics p value }

def setFree (b : Bytes) (p : Ptr) (value : Nat) : Bytes :=
  match p with
  | .heap o => b.storeNumber (o + 17) value
  | p => { b with statics := Memory.setFree b.statics p value }

/-! ## `buddyBTree.c` -/

def initializeList (b : Bytes) (list : Ptr) : Bytes :=
  (b.setPrev list list).setNext list list

def pushToList (b : Bytes) (list entry : Ptr) : Bytes :=
  let prev := (b.header list).prev
  (((b.setPrev entry prev).setNext entry list).setNext prev entry).setPrev list entry

def removeFromList (b : Bytes) (entry : Ptr) : Bytes :=
  let prev := (b.header entry).prev
  let next := (b.header entry).next
  (b.setNext prev next).setPrev next prev

def popFromList (b : Bytes) (list : Ptr) : Bytes × Ptr :=
  let back := (b.header list).prev
  if back = list then (b, .null) else (b.removeFromList back, back)

/-! ## `buddy.c` -/

def addNodeToOrder (b : Bytes) (blockList node : Ptr) (blockOrder : Nat) : Bytes :=
  ((b.setOrder node blockOrder).setFree node 1).pushToList blockList node

/-- The splitting loop of `malloc`. -/
def splitLoop (b : Bytes) (node : Nat) : Nat → Nat → Bytes
  | 0, _ => b
  | rounds + 1, freeBlock =>
    let b := b.setOrder (.heap node) ((b.header (.heap node)).order + 2 ^ 8 - 1)
    let b := b.addNodeToOrder (.orders (freeBlock - 1)) (.heap (getBuddyBlock b.header node)) (freeBlock - 1)
    splitLoop b node rounds (freeBlock - 1)

/-- The merging loop of `free`. -/
def mergeLoop (currentBlocks : Nat) : Nat → Bytes → Nat → Option (Bytes × Nat)
  | 0, _, _ => none
  | rounds + 1, b, freeNode =>
    let freeBuddyBlock := getBuddyBlock b.header freeNode
    let order := (b.header (.heap freeNode)).order
    if order ≠ currentBlocks - 1 ∧ (b.header (.heap freeBuddyBlock)).order = order ∧
        (b.header (.heap freeBuddyBlock)).free ≠ 0 then
      let b := b.removeFromList (.heap freeBuddyBlock)
      let freeNode := getBlockAddress b.header freeNode
      mergeLoop currentBlocks rounds (b.setOrder (.heap freeNode) ((b.header (.heap freeNode)).order + 1)) freeNode
    else some (b, freeNode)

/-- The loop of `initializeMemoryManager` over the order lists. -/
def initializeOrders (b : Bytes) : Nat → Bytes
  | 0 => b
  | i + 1 =>
    let b := (initializeOrders b i).initializeList (.orders i)
    (b.setFree (.orders i) 0).setOrder (.orders i) i

end Bytes

/-- The static variables and the bytes behind them. -/
structure ByteBuddy where
  bytes : Bytes
  currentBlocks : Nat
  blockMaxSize : Nat

namespace ByteBuddy

/-- The headers as they read. -/
def headers (t : ByteBuddy) : Buddy := ⟨t.bytes.header, t.currentBlocks, t.blockMaxSize⟩

def malloc (t : ByteBuddy) (size : Nat) : ByteBuddy × Option Nat :=
  let memNeeded := (size + sizeofListT) % 2 ^ 64
  if size = 0 ∨ memNeeded > t.blockMaxSize then (t, none)
  else
    let lowestFittingOrder := getMinimumFittingOrder memNeeded % 2 ^ 8
    match getFreeBlock t.headers lowestFittingOrder with
    | .negSucc _ => (t, none)
    | .ofNat freeBlock =>
      if (t.bytes.header (.orders freeBlock)).prev ≠ .null ∨ (t.bytes.header (.orders freeBlock)).next ≠ .null then
        match t.bytes.popFromList (.orders freeBlock) with
        | (b, .heap node) =>
          let b := b.splitLoop node (freeBlock - lowestFittingOrder) freeBlock
          ({ t with bytes := b.setFree (.heap node) 0 }, some (node + sizeofListT))
        | (b, _) => ({ t with bytes := b }, none)
      else (t, none)

def free (t : ByteBuddy) : Option Nat → Option ByteBuddy
  | none => some t
  | some block =>
    let freeNode := block - sizeofListT
    match Bytes.mergeLoop t.currentBlocks (t.currentBlocks + 1) (t.bytes.setFree (.heap freeNode) 1) freeNode with
    | none => none
    | some (b, freeNode) =>
      some { t with bytes := b.pushToList (.orders (b.header (.heap freeNode)).order) (.heap freeNode) }

def initializeMemoryManager (b : Bytes) (heapSize : Nat) : ByteBuddy :=
  let counted := ((log2 heapSize - minAllocLog2 + 1) % 2 ^ 8).toNat
  let currentBlocks := if counted > maxBlockCount then maxBlockCount else counted
  let b := b.initializeOrders currentBlocks
  { bytes := b.addNodeToOrder (.orders (currentBlocks - 1)) (.heap 0) (currentBlocks - 1)
    currentBlocks, blockMaxSize := heapSize }

end ByteBuddy

/-! ## The client -/

structure ByteState where
  buddy : ByteBuddy
  live : List Held

inductive ByteCall where
  | malloc (size : Nat)
  | free (held : Held)
  | write (held : Held) (byte : Nat) (value : Byte)
  deriving DecidableEq

namespace ByteState

/-- One call, as `BuddyMalloc.perform`: the client writes single bytes of those it asked for. -/
def perform (t : ByteState) : ByteCall → Option ByteState
  | .malloc size =>
    if size + sizeofListT < 2 ^ 64 then
      match t.buddy.malloc size with
      | (b, none) => some ⟨b, t.live⟩
      | (b, some pointer) => some ⟨b, ⟨pointer, size⟩ :: t.live⟩
    else none
  | .free held =>
    if held ∈ t.live then (t.buddy.free (some held.pointer)).map fun b => ⟨b, t.live.erase held⟩
    else none
  | .write held byte value =>
    if held ∈ t.live ∧ byte < held.size then
      some { t with buddy.bytes.heap := Function.update t.buddy.bytes.heap (held.pointer + byte) value }
    else none

def Run : ByteState → ByteState → Prop := Relation.ReflTransGen fun t t' => ∃ call, t.perform call = some t'

/-- The state after `initializeMemoryManager`, over any bytes. -/
def start (heap : Nat → Byte) (heapSize : Nat) : ByteState :=
  ⟨.initializeMemoryManager ⟨heap, fun _ => ⟨.null, .null, 0, 0⟩⟩ heapSize, []⟩

end ByteState

end QuesOs.BuddyMalloc
