import Mathlib.Logic.Function.Basic
import Mathlib.Logic.Relation
import Mathlib.Algebra.Group.Nat.Defs

/-! `Kernel/memory_manager/memoryManager.c`, the allocator of the STANDARD
build. Memory is seen as `Header`s by byte address; the allocator reads and
writes headers only. Its loops run on the circular free list with no counter
of their own, so they take one here and answer `none` when it runs out. -/
namespace QuesOs.StandardMalloc

/-- `union header`: the link of the free list, and the units of the block. -/
structure Header where
  next : Nat
  size : Nat
  deriving DecidableEq

/-- `sizeof(Header)`, which is also the unit all block sizes are counted in. -/
def sizeofHeader : Nat := 16

/-- The allocator's static variables and the memory they point into. -/
structure Heap where
  header : Nat → Header
  base : Nat
  freeNode : Nat
  headerBlocks : Nat

namespace Heap

def next (h : Heap) (block : Nat) : Nat := (h.header block).next

def size (h : Heap) (block : Nat) : Nat := (h.header block).size

/-- Pointer arithmetic on `Header *`. -/
def plus (block units : Nat) : Nat := block + units * sizeofHeader

def setNext (h : Heap) (block value : Nat) : Heap :=
  { h with header := Function.update h.header block { h.header block with next := value } }

/-- `size` is an `unsigned int`. -/
def setSize (h : Heap) (block value : Nat) : Heap :=
  { h with header := Function.update h.header block { h.header block with size := value % 2 ^ 32 } }

def setFreeNode (h : Heap) (block : Nat) : Heap := { h with freeNode := block }

end Heap

open Heap

/-- The units `malloc` looks for: the request rounded up in 64-bit arithmetic,
and one more for the header. -/
def requestBlocks (mem : Nat) : Nat := (mem + sizeofHeader - 1) % 2 ^ 64 / sizeofHeader + 1

/-- The first branch of the loop body of `malloc`: `current` is large enough.
An exact fit leaves the list, a larger block gives up its last units. -/
def take (h : Heap) (blocks prev current : Nat) : Heap × Nat :=
  if h.size current = blocks then
    ((h.setNext prev (h.next current)).setFreeNode prev, plus current 1)
  else
    let rest := h.setSize current (h.size current - blocks)
    let carved := plus current (rest.size current)
    ((rest.setSize carved blocks).setFreeNode prev, plus carved 1)

/-- The loop of `malloc`. The pointer 0 is `NULL`. -/
def mallocLoop (h : Heap) (blocks : Nat) : Nat → Nat → Nat → Option (Heap × Nat)
  | 0, _, _ => none
  | steps + 1, prev, current =>
    if blocks ≤ h.size current then some (take h blocks prev current)
    else if current = h.freeNode then some (h, 0)
    else mallocLoop h blocks steps current (h.next current)

def malloc (h : Heap) (mem : Nat) : Option (Heap × Nat) :=
  if mem = 0 then some (h, 0)
  else mallocLoop h (requestBlocks mem) (h.headerBlocks + 1) h.freeNode (h.next h.freeNode)

/-- How the search loop of `free` ends. -/
inductive Position where
  /-- `return` inside the loop: the block is already in the list. -/
  | listed
  /-- The loop condition failed: the block lies between this node and the next. -/
  | between (current : Nat)
  /-- `valid_external`: the block lies outside the span of the list, whose
  last node this is. -/
  | outside (current : Nat)
  deriving DecidableEq

/-- The search loop of `free`. -/
def search (h : Heap) (freeBlock : Nat) : Nat → Nat → Option Position
  | 0, _ => none
  | steps + 1, current =>
    if freeBlock > current ∧ freeBlock < h.next current then some (.between current)
    else if current = freeBlock ∨ h.next current = freeBlock then some .listed
    else if current ≥ h.next current ∧ (freeBlock > current ∨ freeBlock < h.next current) then
      some (.outside current)
    else search h freeBlock steps (h.next current)

/-- Joining with the node after: "unir". -/
def joinNext (h : Heap) (freeBlock current : Nat) : Heap :=
  let after := h.next current
  if plus freeBlock (h.size freeBlock) = after then
    (h.setSize freeBlock (h.size freeBlock + h.size after)).setNext freeBlock (h.next after)
  else h.setNext freeBlock after

/-- Joining with the node before. -/
def joinPrev (h : Heap) (freeBlock current : Nat) : Heap :=
  if plus current (h.size current) = freeBlock then
    (h.setSize current (h.size current + h.size freeBlock)).setNext current (h.next freeBlock)
  else h.setNext current freeBlock

/-- The end of `free`, after the position was found. -/
def link (h : Heap) (freeBlock current : Nat) : Heap :=
  (joinPrev (joinNext h freeBlock current) freeBlock current).setFreeNode current

/-- `base + header_blocks * sizeof(Header)` is arithmetic on `Header *`, so the
range test reaches sixteen times past the region. A pointer below 16 wraps
to the top of memory in C and to 0 here, and is out of range in both. -/
def free (h : Heap) (memory : Nat) : Option Heap :=
  if memory = 0 ∨ ((memory : Int) - sizeofHeader - h.base) % sizeofHeader ≠ 0 then some h
  else
    let freeBlock := memory - sizeofHeader
    if freeBlock < h.base ∨ freeBlock ≥ plus h.base (h.headerBlocks * sizeofHeader) then some h
    else match search h freeBlock (h.headerBlocks + 1) h.freeNode with
      | none => none
      | some .listed => some h
      | some (.outside current) => some (link h freeBlock current)
      | some (.between current) =>
        if plus current (h.size current) > freeBlock ∨
            plus freeBlock (h.size freeBlock) > h.next current then some h
        else some (link h freeBlock current)

def initializeMemoryManager (h : Heap) (heapBase heapSize : Nat) : Heap :=
  if heapBase = 0 then h
  else
    let started : Heap :=
      { h with
        headerBlocks := ((heapSize + sizeofHeader - 1) / sizeofHeader + 1) % 2 ^ 32
        base := heapBase, freeNode := heapBase }
    (started.setSize heapBase started.headerBlocks).setNext heapBase heapBase

/-! ## The client -/

/-- A pointer the client holds, with the units its header recorded when
`malloc` returned it. -/
structure Held where
  pointer : Nat
  units : Nat
  deriving DecidableEq

/-- The block behind a held pointer: its header and the units after it. -/
def Held.Covers (held : Held) (address : Nat) : Prop :=
  held.pointer - sizeofHeader ≤ address ∧
    address < plus (held.pointer - sizeofHeader) held.units

/-- The allocator and what its client holds. -/
structure State where
  heap : Heap
  live : List Held

/-- What the client does: calls, and writes to the memory it was given. -/
inductive Call where
  | malloc (mem : Nat)
  | free (held : Held)
  | write (held : Held) (unit : Nat) (value : Header)
  deriving DecidableEq

/-- One call. A client frees and writes only what it holds; a request is a
64-bit number. -/
def perform (s : State) : Call → Option State
  | .malloc mem =>
    if mem < 2 ^ 64 then
      (malloc s.heap mem).map fun (heap, pointer) =>
        if pointer = 0 then ⟨heap, s.live⟩
        else ⟨heap, ⟨pointer, heap.size (pointer - sizeofHeader)⟩ :: s.live⟩
    else none
  | .free held =>
    if held ∈ s.live then (free s.heap held.pointer).map fun heap => ⟨heap, s.live.erase held⟩
    else none
  | .write held unit value =>
    if held ∈ s.live ∧ unit + 1 < held.units then
      some ⟨{ s.heap with header := Function.update s.heap.header (plus held.pointer unit) value }, s.live⟩
    else none

/-- A run of calls that each satisfy `allowed` where they are made. -/
def Run (allowed : State → Call → Prop) : State → State → Prop :=
  Relation.ReflTransGen fun s s' => ∃ call, allowed s call ∧ perform s call = some s'

/-- The state after `initializeMemoryManager`, with nothing handed out. -/
def start (h : Heap) (heapBase heapSize : Nat) : State :=
  ⟨initializeMemoryManager h heapBase heapSize, []⟩

end QuesOs.StandardMalloc
