import QuesOs.Resumption
import Mathlib.Logic.Function.Basic
import Mathlib.Algebra.Group.Nat.Defs

/-! The state of the kernel: what `sem.c`, `pipes.c` and `processManager.c` keep
in static variables, and the blocks of memory they hang from them. A pointer is
a `Ref`, the number of the allocation request that made the block, so no two
blocks are ever confused. A `NULL` or freed pointer that is followed is a fault,
and so is a spin lock that nobody can release. The counters are `int`s: one that
grows beyond its range is a fault as well, like every other undefined behaviour. -/
namespace QuesOs.Kernel
open Resumption

abbrev Ref := Nat

/-- Why a run stops. -/
inductive Fault where
  | nullPointer
  | freed
  | spinning
  | nestedTick
  | outOfFuel
  /-- An `int` leaves its range. -/
  | overflow
  /-- An array is written to past its end. -/
  | overrun
  /-- What was never set is freed. -/
  | stray
  deriving DecidableEq

/-- Nothing is said of a program that goes on after it. -/
def Fault.isUndefined : Fault → Bool
  | .overflow | .overrun | .stray => true
  | _ => false

/-- The allocator as its callers see it: `grants` says which requests succeed,
`garbage` what is read as `argv` and its strings where they were never set. Whoever
frees a block takes the pointer from where it was stored when the block was made; only
what is read there is nobody's to free. -/
structure Heap where
  grants : Nat → Bool
  garbage : Option Ref × List Ref
  requests : Nat
  live : List Ref

/-- `queueNode`. -/
structure Node (α : Type) where
  ref : Ref
  value : α
  deriving DecidableEq

/-- The nodes of a queue, first to last. -/
abbrev Queue (α : Type) := List (Node α)

/-- The values of a queue, first to last. -/
def values {α : Type} (queue : Queue α) : List α := queue.map Node.value

/-- `int *callerPID`. -/
structure Caller where
  ref : Ref
  pid : Int
  deriving DecidableEq

/-- `t_sem`. `queueRef` is `NULL` when `initQueue` failed. -/
structure Sem where
  ref : Ref
  queueRef : Option Ref
  blockedPids : Queue Caller
  attachedProcesses : Nat
  id : Int
  value : Int
  lock : Int
  name : String
  nameRef : Ref
  deriving DecidableEq

structure Sems where
  semId : Int
  semQueue : Queue Sem
  allSemsLock : Int

/-- Writes the semaphore behind a pointer. -/
def Sems.modify (sems : Sems) (sem : Ref) (f : Sem → Sem) : Sems :=
  { sems with semQueue := sems.semQueue.map fun node =>
      if node.value.ref = sem then { node with value := f node.value } else node }

def PIPE_BUFFER_SIZE : Nat := 1024
def STDIN_PIPENO : Int := 0
def STDOUT_PIPENO : Int := 1

/-- `t_pipe`. A freed pipe stays readable for the one look `pipeClose` takes at
the `id` behind `cachedPipe`. `puts` and `takes` are no fields of the source:
they record every character written and read, and no function looks at them. -/
structure Pipe where
  id : Int
  buffer : Nat → Int8
  writeIndex : Nat
  readIndex : Nat
  totalProcesses : Int
  writeSemId : Int
  readSemId : Int
  freed : Bool
  puts : List Int8
  takes : List Int8

structure Pipes where
  pipeQueue : Queue Ref
  pipes : Ref → Option Pipe
  cachedPipe : Option Ref
  allPipesSem : Int

/-- `process_state`. -/
inductive ProcessState where
  | ready
  | blocked
  | exited
  | terminated
  deriving DecidableEq

def MAX_PRIO : Int := 20
def BACKGROUND_PRIORITY : Int := 1
def FOREGROUND_PRIORITY : Int := 2

/-- The size of `name` in a `pcb`. -/
def NAME_SIZE : Nat := 30

/-- `pcb`. The saved stack pointer is not here: a suspended process is told by
the program it goes on with. `arguments` is the `argv` array and its strings,
`none` before `startTask` sets them. -/
structure Pcb where
  pid : Int
  ppid : Int
  foreground : Int
  state : ProcessState
  priority : Int
  name : String
  fileDescriptors : Int × Int
  stack : Ref
  arguments : Option (Option Ref × List Ref)
  semId : Int
  deriving DecidableEq

/-- `pcbs` are the blocks that were enqueued and not freed; a block that a
process is still filling in `startTask` is in `newProcess`, under its creator.
`waiting` and `granted` are no variables of the source: they record which
process is blocked inside `semWait` on which semaphore, and which was handed a
unit there and has not run since, and no function looks at them. -/
structure Procs where
  pidCounter : Int
  queue : Queue Ref
  pcbs : Ref → Option Pcb
  newProcess : Ref → Option (Ref × Pcb)
  currentCycles : Int
  idleProcessPCB : Option Ref
  currentProcessPCB : Option Ref
  readyCount : Int
  userlandPid : Int
  initPid : Int
  waiting : List (Ref × Int)
  granted : List (Ref × Int)

/-- The pid of the current process, for the record. -/
def Procs.callerPid (procs : Procs) : Int := (procs.currentProcessPCB.bind procs.pcbs).elim 0 Pcb.pid

/-- What a run is remembered by; no function looks at it. -/
inductive Event where
  /-- A semaphore was created with the value. -/
  | created (sem value : Int)
  /-- `semWait` found a unit. -/
  | took (sem pid : Int)
  /-- `semWait` queued its caller. -/
  | arrived (sem pid : Int)
  /-- `semPost` took the pid off the queue and resumed it. -/
  | handed (sem poster pid : Int) (before : Procs)
  /-- `semPost` took the pid off the queue in vain. -/
  | skipped (sem pid : Int)
  /-- `semPost` raised the value. -/
  | raised (sem poster : Int) (before : Procs)
  /-- `changeState` marked the process `TERMINATED`. -/
  | terminated (pid : Int) (before after : Procs)
  /-- `waitpid` found the child, and waits for it. -/
  | awaits (process child : Ref)
  /-- `waitpid` is past its `semWait`, and found the child as `p`. -/
  | waited (process child : Ref) (p : Pcb)
  | pipeMade (pipeId : Int)
  | pipeOpened (pipeId : Int)
  | pipeClosed (pipeId : Int)
  /-- `freeProcess` gave up the process. -/
  | reaped (process : Pcb) (before after : Pipes × Sems)

structure State where
  heap : Heap
  sems : Sems
  pipes : Pipes
  procs : Procs
  history : List Event

abbrev K := Action State Fault

/-! ## Access to the state -/

def modifySems (f : Sems → Sems) : K Unit := modify fun s => { s with sems := f s.sems }
def modifyPipes (f : Pipes → Pipes) : K Unit := modify fun s => { s with pipes := f s.pipes }
def modifyProcs (f : Procs → Procs) : K Unit := modify fun s => { s with procs := f s.procs }

/-- The latest event first. -/
def log (event : Event) : K Unit := modify fun s => { s with history := event :: s.history }

/-- The same, of the current process. -/
def logCurrent (event : Ref → Event) : K Unit :=
  modify fun s => { s with history := (s.procs.currentProcessPCB.map event).toList ++ s.history }

/-- Follows a pointer that is not `NULL`. -/
def deref {α : Type} : Option α → K α
  | some a => pure a
  | none => throw .nullPointer

/-- Reads a block that is not freed. -/
def lookup {α : Type} : Option α → K α
  | some a => pure a
  | none => throw .freed

def INT_MIN : Int := -2147483648
def INT_MAX : Int := 2147483647

/-- What is given for an `int` is one. -/
def int (n : Int) : K Unit := if INT_MIN ≤ n ∧ n ≤ INT_MAX then return else throw .overflow

/-- `n++` is still an `int`. -/
def increment (n : Int) : K Unit := if n < INT_MAX then return else throw .overflow

/-! ## `memoryManager.h` -/

def malloc : K (Option Ref) := do
  let heap := (← get).heap
  if heap.grants heap.requests then
    modify fun s => { s with heap := { heap with requests := heap.requests + 1, live := heap.requests :: heap.live } }
    return some heap.requests
  else
    modify fun s => { s with heap := { heap with requests := heap.requests + 1 } }
    return none

def free (ref : Ref) : K Unit :=
  modify fun s => { s with heap := { s.heap with live := s.heap.live.erase ref } }

/-! ## `queue.c` -/

section
variable {α : Type}

/-- A node that cannot be allocated leaves the queue as it is. -/
def enqueue (queue : Queue α) (value : α) : K (Queue α) := do
  match ← malloc with
  | none => return queue
  | some ref => return queue ++ [⟨ref, value⟩]

def dequeue : Queue α → K (Queue α × Option α)
  | [] => return ([], none)
  | node :: rest => do
    free node.ref
    return (rest, some node.value)

/-- Without memory for its iterator, `find` finds nothing. -/
def find (queue : Queue α) (findCondition : α → Bool) : K (Option α) := do
  match ← malloc with
  | none => return none
  | some it =>
    free it
    return (values queue).find? findCondition

def takeElement (queue : Queue α) (removeCondition : α → Bool) : K (Queue α × Option α) :=
  match queue.find? (removeCondition ·.value) with
  | none => return (queue, none)
  | some node => do
    free node.ref
    return (queue.eraseP (removeCondition ·.value), some node.value)

/-- The loop of `freeQueue`: every node goes, and every value. -/
def freeNodes : Queue Caller → K Unit
  | [] => return
  | node :: rest => do
    free node.ref
    free node.value.ref
    freeNodes rest

def freeQueue (queueRef : Option Ref) (queue : Queue Caller) : K Unit :=
  match queueRef with
  | none => return
  | some ref => do
    freeNodes queue
    free ref

end

end QuesOs.Kernel
