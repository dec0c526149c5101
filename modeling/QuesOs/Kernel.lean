import QuesOs.KernelState

/-! The functions of `sem.c`, `pipes.c` and `processManager.c`. An interrupt
gate keeps a system call from being preempted, so a call runs as one piece up
to a `_callTimerTick`, where it pauses. The `killCurrent` after the main function of a
process and the calls that `init` makes itself do not pass that gate; ticks are taken to
fall before and after these, too, not in between. What cannot pause is an action; the
rest are programs. -/
namespace QuesOs.Kernel
open Resumption Program

abbrev Task := Program State Fault

/-! ## Processes, part one: states -/

def readPcb (process : Ref) : K Pcb := do
  lookup ((← get).procs.pcbs process)

def modifyPcb (process : Ref) (f : Pcb → Pcb) : K Unit :=
  modifyProcs fun procs => { procs with pcbs := Function.update procs.pcbs process ((procs.pcbs process).map f) }

/-- Follows `currentProcessPCB`. -/
def currentPcb : K (Ref × Pcb) := do
  let process ← deref (← get).procs.currentProcessPCB
  return (process, ← readPcb process)

/-- The loop of `getProcess`. -/
def getProcessLoop (pid : Int) : List Ref → K (Option Ref)
  | [] => return none
  | process :: rest => do
    if (← readPcb process).pid = pid then return some process
    else getProcessLoop pid rest

def getProcess (pid : Int) : K (Option Ref) := do
  match ← malloc with
  | none => return none
  | some it =>
    let found ← getProcessLoop pid (values (← get).procs.queue)
    free it
    return found

/-- The loop of `sendTaskToInit`, at `process` and with `it` to come. It looks
at a process only as long as the iterator has another one after it. -/
def sendTaskToInitLoop (pid : Int) (killedProcess : Option Ref) : Ref → List Ref → Bool → K Bool
  | process, it, hasParent => do
    let killed ← readPcb (← deref killedProcess)
    let p ← readPcb process
    let hasParent := hasParent || (p.pid = killed.ppid && p.state ≠ .terminated && p.state ≠ .exited)
    if p.ppid = pid ∧ p.state ≠ .terminated then
      let initPid := (← get).procs.initPid
      modifyPcb process fun p => { p with ppid := initPid }
    match it with
    | [] => return hasParent
    | [_] => return hasParent
    | next :: rest => sendTaskToInitLoop pid killedProcess next rest hasParent

def sendTaskToInit (pid : Int) : K Int := do
  let it ← malloc
  let killedProcess ← getProcess pid
  match (← get).procs.currentProcessPCB with
  | none => return -1
  | some process =>
    let queue := values (← get).procs.queue
    -- without memory for the iterator only the current process is looked at
    let hasParent ← sendTaskToInitLoop pid killedProcess process (if it.isSome then queue else []) false
    it.forM free
    if !hasParent then
      let initPid := (← get).procs.initPid
      modifyPcb (← deref killedProcess) fun p => { p with ppid := initPid }
    return 0

/-- The last statements of `changeState`: `readyCount` follows the state. -/
def Procs.moveState (procs : Procs) (process : Ref) (p : Pcb) (newState : ProcessState) : Procs :=
  { procs with
    readyCount := procs.readyCount + (if p.state ≠ .ready ∧ newState = .ready then 1 else 0) -
      (if p.state = .ready ∧ newState ≠ .ready then 1 else 0)
    pcbs := Function.update procs.pcbs process (some { p with state := newState }) }

/-- The process with the pid: the current one, or one of the queue. -/
def processOf (pid : Int) : K (Option Ref) := do
  let (current, p) ← currentPcb
  if pid = p.pid then return some current else getProcess pid

/-- `changeState` once it has the process, given the `semPost` it calls for one
that exits. -/
def changeProcess (semPost : Int → K Int) (process : Ref) (newState : ProcessState) : K Int := do
  let p ← readPcb process
  if (p.state = .exited ∧ newState ≠ .terminated) ∨ p.state = .terminated then return -1
  else
    let before := (← get).procs
    if newState = .exited then discard <| semPost p.semId
    if newState = .terminated then discard <| sendTaskToInit p.pid
    -- the state is read again: `semPost` may have woken the process itself
    let p ← readPcb process
    modifyProcs (·.moveState process p newState)
    if newState = .terminated then log (.terminated p.pid before (← get).procs)
    return p.pid

def changeStateWith (semPost : Int → K Int) (pid : Int) (newState : ProcessState) : K Int := do
  match ← processOf pid with
  | none => return -1
  | some process => changeProcess semPost process newState

/-- `changeState(pid, READY)` posts no semaphore. -/
def resumeTask (pid : Int) : K Int := changeStateWith (fun _ => return 0) pid .ready

/-- `getpid`: 0 before the first process runs. -/
def getpid : K Int := do
  match (← get).procs.currentProcessPCB with
  | none => return 0
  | some process => return (← readPcb process).pid

/-! ## Semaphores, part one -/

/-- `acquire`: `_xchg` until the lock was 0. Nobody else runs, so a lock that is
taken stays taken. -/
def acquire (lock : Int) : K Unit :=
  if lock = 0 then return else throw .spinning

/-- Reads a semaphore through a pointer. -/
def readSem (sem : Ref) : K Sem := do
  lookup ((values (← get).sems.semQueue).find? (·.ref = sem))

/-- Writes a semaphore through a pointer. -/
def modifySem (sem : Ref) (f : Sem → Sem) : K Unit := modifySems (·.modify sem f)

def acquireSem (sem : Ref) : K Unit := do
  acquire (← readSem sem).lock
  modifySem sem fun s => { s with lock := 1 }

def releaseSem (sem : Ref) : K Unit := modifySem sem fun s => { s with lock := 0 }

def acquireAllSems : K Unit := do
  acquire (← get).sems.allSemsLock
  modifySems fun sems => { sems with allSemsLock := 1 }

def releaseAllSems : K Unit := modifySems fun sems => { sems with allSemsLock := 0 }

def findSem (id : Int) : K (Option Sem) := do
  find (← get).sems.semQueue (·.id = id)

def getNextSemaphoreId : K Int := do
  let id := (← get).sems.semId
  increment id
  modifySems fun sems => { sems with semId := id + 1 }
  return id

def createSem (initialValue : Int) (name : String) : K (Option Sem) := do
  int initialValue
  match ← malloc with
  | none => return none
  | some ref =>
    let id ← getNextSemaphoreId
    let queueRef ← malloc
    match ← malloc with
    | none =>
      free ref
      return none
    | some nameRef =>
      let sem : Sem :=
        { ref, queueRef, blockedPids := [], attachedProcesses := 0, id, value := initialValue,
          lock := 0, name, nameRef }
      let semQueue ← enqueue (← get).sems.semQueue sem
      modifySems fun sems => { sems with semQueue }
      log (.created id initialValue)
      return some sem

def semInit (initialValue : Int) : K Int := do
  acquireAllSems
  let created ← createSem initialValue ""
  releaseAllSems
  match created with
  | none => return -1
  | some sem =>
    modifySem sem.ref fun s => { s with attachedProcesses := (s.attachedProcesses + 1) % 2 ^ 16 }
    return sem.id

def destroySem (sem : Sem) : K Unit := do
  freeQueue sem.queueRef sem.blockedPids
  free sem.nameRef
  free sem.ref

def semClose (id : Int) : K Int := do
  match ← findSem id with
  | none => return -1
  | some sem =>
    acquireAllSems
    if sem.name.length = 0 ∨ sem.attachedProcesses = 1 then
      let (semQueue, closed) ← takeElement (← get).sems.semQueue (·.id = id)
      modifySems fun sems => { sems with semQueue }
      destroySem (← deref closed)
    else
      modifySem sem.ref fun s => { s with attachedProcesses := (s.attachedProcesses + 2 ^ 16 - 1) % 2 ^ 16 }
    releaseAllSems
    return 0

def semValue (id : Int) : K Int := do
  match ← findSem id with
  | none => return -1
  | some sem => return sem.value

/-- The process with the pid is handed a unit of the semaphore. -/
def Procs.grant (procs : Procs) (sem pid : Int) : Procs :=
  let here (w : Ref × Int) : Bool := w.2 = sem && (procs.pcbs w.1).any (·.pid = pid)
  { procs with waiting := procs.waiting.filter (!here ·), granted := procs.waiting.filter here ++ procs.granted }

/-- The loop of `semPost`, one round for each queued pid; whether one was resumed. -/
def semPostLoop (sem : Ref) (id : Int) : Nat → K Bool
  | 0 => return false
  | rounds + 1 => do
    let (blockedPids, callerPID) ← dequeue (← readSem sem).blockedPids
    modifySem sem fun s => { s with blockedPids }
    let callerPID ← deref callerPID
    let before := (← get).procs
    let pid ← resumeTask callerPID.pid
    free callerPID.ref
    if pid ≠ -1 then
      modifyProcs (·.grant id callerPID.pid)
      log (.handed id before.callerPid callerPID.pid before)
      return true
    else
      log (.skipped id callerPID.pid)
      semPostLoop sem id rounds

def semPost (id : Int) : K Int := do
  match ← findSem id with
  | none => return -1
  | some sem =>
    acquireSem sem.ref
    discard <| deref sem.queueRef
    let resumed ← semPostLoop sem.ref id sem.blockedPids.length
    if !resumed then
      let before := (← get).procs
      increment (← readSem sem.ref).value
      modifySem sem.ref fun s => { s with value := s.value + 1 }
      log (.raised id before.callerPid before)
    releaseSem sem.ref
    return 0

/-! ## Processes, part two -/

def changeState : Int → ProcessState → K Int := changeStateWith semPost

/-- `_callTimerTick`. -/
def callTimerTick : Task Unit := suspend

def blockTask (pid : Int) : Task Int := do
  let id ← changeState pid .blocked
  if id = -1 then return -1
  else
    if id = (← currentPcb).2.pid then callTimerTick
    return 0

def killTask (pid : Int) : Task Int := do
  let procs := (← (get : K State)).procs
  if pid = procs.userlandPid ∨ pid = procs.initPid then return -1
  else
    let id ← changeState pid .exited
    if id = -1 then return -1
    else
      if id = (← currentPcb).2.pid then callTimerTick
      return id

/-- What a process comes to when its main function returns. -/
def killCurrent : Task Int := do
  killTask (← currentPcb).2.pid

/-- The loop of `terminateChildren`, at `current` and with `it` to come. Like
`sendTaskToInit` it leaves out the last one. -/
def terminateChildrenLoop (pid : Int) : Ref → List Ref → K Unit
  | current, it => do
    let p ← readPcb current
    if p.ppid = pid then
      discard <| changeState p.pid .terminated
      let initPid := (← get).procs.initPid
      modifyPcb current fun p => { p with ppid := initPid }
    match it with
    | [] => return
    | [_] => return
    | next :: rest => terminateChildrenLoop pid next rest

def terminateChildren (pid : Int) : K Unit := do
  let it ← malloc
  let (current, _) ← currentPcb
  let queue := values (← get).procs.queue
  terminateChildrenLoop pid current (if it.isSome then queue else [])
  it.forM free

/-- `currentForegroundCondition`. -/
def Procs.isForeground (procs : Procs) (p : Pcb) : Bool :=
  p.foreground ≠ 0 && p.pid ≠ procs.initPid && p.pid ≠ procs.userlandPid

/-- What the keyboard calls on Ctrl+C, in the context of whoever is running. -/
def killCurrentForeground : Task Int := do
  let (_, p) ← currentPcb
  let procs := (← (get : K State)).procs
  if procs.isForeground p then
    terminateChildren p.pid
    killCurrent
  else
    match ← find procs.queue fun r => (procs.pcbs r).any procs.isForeground with
    | none => return -1
    | some foregroundProcess =>
      terminateChildren (← readPcb foregroundProcess).pid
      killTask (← readPcb foregroundProcess).pid

def nice (pid newPriority : Int) : K Int := do
  let newPriority := if newPriority < 0 then 0 else newPriority
  let newPriority := if newPriority > MAX_PRIO then MAX_PRIO else newPriority
  match ← getProcess pid with
  | none => return -1
  | some process =>
    modifyPcb process fun p => { p with priority := newPriority }
    return 0

def yield : Task Int := do
  modifyProcs fun procs => { procs with currentCycles := 0 }
  callTimerTick
  return 0

/-! ## Semaphores, part two -/

/-- The current process now waits on the semaphore. -/
def beginWait (sem : Int) : K Unit :=
  modifyProcs fun procs =>
    match procs.currentProcessPCB with
    | none => procs
    | some process => { procs with waiting := (process, sem) :: procs.waiting }

/-- The current process leaves `semWait`. -/
def endWait (sem : Int) : K Unit :=
  modifyProcs fun procs =>
    match procs.currentProcessPCB with
    | none => procs
    | some process => { procs with
        waiting := procs.waiting.filter (· ≠ (process, sem))
        granted := procs.granted.filter (· ≠ (process, sem)) }

/-- `semWait` up to its `blockTask`: the value it returns, or the pid to block. -/
def semWaitEnter (id : Int) : K (Int ⊕ Int) := do
  match ← findSem id with
  | none => return .inl (-1)
  | some sem =>
    acquireSem sem.ref
    if (← readSem sem.ref).value > 0 then
      modifySem sem.ref fun s => { s with value := s.value - 1 }
      log (.took id (← get).procs.callerPid)
      releaseSem sem.ref
      return .inl 0
    else
      match ← malloc with
      | none => return .inl (-1)
      | some ref =>
        let pid ← getpid
        discard <| deref sem.queueRef
        let blockedPids ← enqueue (← readSem sem.ref).blockedPids ⟨ref, pid⟩
        modifySem sem.ref fun s => { s with blockedPids }
        beginWait id
        log (.arrived id pid)
        releaseSem sem.ref
        return .inr pid

def semWait (id : Int) : Task Int := do
  match ← semWaitEnter id with
  | .inl result => return result
  | .inr callerPID =>
    discard <| blockTask callerPID
    endWait id
    return 0

def waitpid (pid : Int) : Task Int := do
  match ← processOf pid with
  | none => return -1
  | some childProcess =>
    logCurrent (.awaits · childProcess)
    discard <| semWait (← readPcb childProcess).semId
    let p ← readPcb childProcess
    logCurrent (.waited · childProcess p)
    changeState p.pid .terminated

/-! ## Pipes -/

def readPipe (pipe : Ref) : K Pipe := do
  lookup (((← get).pipes.pipes pipe).filter (!·.freed))

def modifyPipe (pipe : Ref) (f : Pipe → Pipe) : K Unit :=
  modifyPipes fun pipes => { pipes with pipes := Function.update pipes.pipes pipe ((pipes.pipes pipe).map f) }

/-- The pipe has the id; the look does not ask whether it was freed. -/
def Pipes.hasId (pipes : Pipes) (id : Int) (pipe : Ref) : Bool := (pipes.pipes pipe).any (·.id = id)

def getPipe (pipeId : Int) : K (Option Ref) := do
  let pipes := (← get).pipes
  if pipes.cachedPipe.any (pipes.hasId pipeId) then return pipes.cachedPipe
  else
    let pipe ← find pipes.pipeQueue (pipes.hasId pipeId)
    modifyPipes fun pipes => { pipes with cachedPipe := pipe }
    return pipe

def createPipe (id : Int) : K (Option Ref) := do
  match ← malloc with
  | none => return none
  | some pipe =>
    let readSemId ← semInit 0
    let writeSemId ← semInit PIPE_BUFFER_SIZE
    if readSemId = -1 ∨ writeSemId = -1 then
      discard <| semClose readSemId
      discard <| semClose writeSemId
      free pipe
      return none
    else
      let created : Pipe :=
        { id, buffer := fun _ => 0, writeIndex := 0, readIndex := 0, totalProcesses := 0, writeSemId, readSemId,
          freed := false, puts := [], takes := [] }
      modifyPipes fun pipes => { pipes with pipes := Function.update pipes.pipes pipe (some created) }
      let pipeQueue ← enqueue (← get).pipes.pipeQueue pipe
      modifyPipes fun pipes => { pipes with pipeQueue }
      log (.pipeMade id)
      return some pipe

/-- `pipeOpen` once it has `allPipesSem`. -/
def pipeOpenEntered (pipeId : Int) : K Int := do
  let pipe ← do
    match ← getPipe pipeId with
    | some pipe => pure (some pipe)
    | none => createPipe pipeId
  match pipe with
  | none => return -1
  | some pipe =>
    increment (← readPipe pipe).totalProcesses
    modifyPipe pipe fun p => { p with totalProcesses := p.totalProcesses + 1 }
    log (.pipeOpened pipeId)
    discard <| semPost (← get).pipes.allPipesSem
    return (← readPipe pipe).id

def pipeOpen (pipeId : Int) : Task Int := do
  discard <| semWait (← (get : K State)).pipes.allPipesSem
  pipeOpenEntered pipeId

def writeBuffer (pipe : Ref) (c : Int8) : K Unit := do
  let p ← readPipe pipe
  modifyPipe pipe fun p => { p with
    buffer := Function.update p.buffer p.writeIndex c
    writeIndex := (p.writeIndex + 1) % PIPE_BUFFER_SIZE
    puts := p.puts ++ [c] }
  discard <| semPost p.readSemId

def writeToPipe (pipe : Ref) (c : Int8) : Task Unit := do
  discard <| semWait (← readPipe pipe).writeSemId
  writeBuffer pipe c

/-- The loop of `pipeWrite`, up to the terminating zero. -/
def pipeWriteLoop (pipe : Ref) : List Int8 → Task Unit
  | [] => return
  | c :: str => do
    if c = 0 then return
    else
      writeToPipe pipe c
      pipeWriteLoop pipe str

def pipeWrite (pipeId : Int) (str : List Int8) : Task Int := do
  match ← getPipe pipeId with
  | none => return -1
  | some pipe =>
    pipeWriteLoop pipe str
    return 0

def pipePutchar (pipeId : Int) (c : Int8) : Task Int := do
  match ← getPipe pipeId with
  | none => return -1
  | some pipe =>
    writeToPipe pipe c
    return 0

def readBuffer (pipe : Ref) : K Int := do
  let p ← readPipe pipe
  let c := p.buffer p.readIndex
  modifyPipe pipe fun p => { p with
    readIndex := (p.readIndex + 1) % PIPE_BUFFER_SIZE
    takes := p.takes ++ [c] }
  discard <| semPost p.writeSemId
  return c.toInt

def pipeRead (pipeId : Int) : Task Int := do
  match ← getPipe pipeId with
  | none => return -1
  | some pipe =>
    discard <| semWait (← readPipe pipe).readSemId
    readBuffer pipe

/-- `removeElement`, and the cached pipe is forgotten if it was the one. -/
def removePipe (pipeId : Int) : K Unit := do
  let pipes := (← get).pipes
  let (pipeQueue, removed) ← takeElement pipes.pipeQueue (pipes.hasId pipeId)
  modifyPipes fun pipes => { pipes with pipeQueue }
  match removed with
  | none => pure ()
  | some removed =>
    free removed
    modifyPipe removed fun p => { p with freed := true }
  modifyPipes fun pipes =>
    if pipes.cachedPipe.any (pipes.hasId pipeId) then { pipes with cachedPipe := none } else pipes

/-- `pipeClose` once it has `allPipesSem`. -/
def pipeCloseEntered (pipe : Ref) (pipeId : Int) : K Int := do
  discard <| readPipe pipe
  modifyPipe pipe fun p => { p with totalProcesses := p.totalProcesses - 1 }
  log (.pipeClosed pipeId)
  let p ← readPipe pipe
  if p.totalProcesses ≤ 0 then
    discard <| semClose p.readSemId
    discard <| semClose p.writeSemId
    removePipe pipeId
  discard <| semPost (← get).pipes.allPipesSem
  return 0

def pipeClose (pipeId : Int) : Task Int := do
  match ← getPipe pipeId with
  | none =>
    log (.pipeClosed pipeId)
    return -1
  | some pipe =>
    discard <| semWait (← (get : K State)).pipes.allPipesSem
    pipeCloseEntered pipe pipeId

/-! ## Processes, part three: birth and death -/

/-- Frees the strings a process was started with. -/
def freeStrings : List Ref → K Unit
  | [] => return
  | string :: rest => do
    free string
    freeStrings rest

/-- `argv` and its strings. Where they were not set it is what the block held before, and that is
harmless only if it comes to no string and no array. -/
def readArguments (process : Pcb) : K (Option Ref × List Ref) := do
  match process.arguments with
  | some arguments => return arguments
  | none => if (← get).heap.garbage = (none, []) then return (none, []) else throw .stray

/-- `freeProcess` before it comes to the pipes. -/
def freeArguments (process : Pcb) : K Unit := do
  let (argv, strings) ← readArguments process
  freeStrings strings
  if (← semValue process.semId) = 0 then discard <| semPost process.semId
  argv.forM free
  discard <| semClose process.semId

/-- `freeProcess` after the pipes. -/
def freeBlocks (process : Ref) (p : Pcb) : K Unit := do
  let current ← currentPcb
  modifyProcs fun procs => { procs with
    pidCounter := procs.pidCounter - if current.2.pid = procs.pidCounter - 1 then 1 else 0 }
  free p.stack
  free process
  modifyProcs fun procs => { procs with pcbs := Function.update procs.pcbs process none }

/-- The part of `freeProcess` that is about the pipes. -/
def freePipes (fd : Int × Int) : Task Unit := do
  if fd.2 ≠ STDOUT_PIPENO then
    discard <| pipePutchar fd.2 (-1)
    discard <| pipeClose fd.2
  if fd.1 ≠ STDIN_PIPENO then
    discard <| pipeClose fd.1

/-- `freeProcess`, given the block it reads. -/
def freeProcess (process : Ref) (p : Pcb) : Task Unit := do
  let before ← (get : K State)
  freeArguments p
  freePipes p.fileDescriptors
  let after ← (get : K State)
  log (.reaped p (before.pipes, before.sems) (after.pipes, after.sems))
  freeBlocks process p

/-- The process the current one is filling in `startTask`. -/
def readNewProcess : K (Ref × Pcb) := do
  let creator ← deref (← get).procs.currentProcessPCB
  lookup ((← get).procs.newProcess creator)

def setNewProcess (newProcess : Option (Ref × Pcb)) : K Unit := do
  let creator ← deref (← get).procs.currentProcessPCB
  modifyProcs fun procs => { procs with newProcess := Function.update procs.newProcess creator newProcess }

/-- The `strcpy` into the name of a new process, which has room for `NAME_SIZE` characters and
no more, the terminating zero included. -/
def copyName (name : String) : K Unit :=
  if name.length < NAME_SIZE then return else throw .overrun

/-- `initializeBlock` before it opens the pipes; whether it goes on. -/
def allocateBlock (name : String) (foreground : Int) (fd : Int × Int) : K Bool := do
  if foreground > 1 then return false
  else
    match ← malloc with
    | none => return false
    | some newProcess =>
      let ppid ← getpid
      copyName name
      let pid := (← get).procs.pidCounter
      increment pid
      modifyProcs fun procs => { procs with pidCounter := pid + 1 }
      match ← malloc with
      | none =>
        free newProcess
        return false
      | some stack =>
        setNewProcess <| some (newProcess,
          { pid, ppid, foreground, state := .ready
            priority := if foreground ≠ 0 then FOREGROUND_PRIORITY else BACKGROUND_PRIORITY
            name, fileDescriptors := fd, stack, arguments := none
            -- not set before the pipes are open, and not read until then
            semId := -1 })
        return true

/-- `initializeBlock` after it opened the pipes. -/
def attachSemaphore : K Bool := do
  let semId ← semInit 0
  let (newProcess, p) ← readNewProcess
  if semId = -1 then
    free p.stack
    free newProcess
    setNewProcess none
    return false
  else
    setNewProcess (some (newProcess, { p with semId }))
    return true

/-- Whether there is a new process. -/
def initializeBlock (name : String) (foreground : Int) (fd : Int × Int) : Task Bool := do
  if ← allocateBlock name foreground fd then
    if fd.1 ≠ STDIN_PIPENO then discard <| pipeOpen fd.1
    if fd.2 ≠ STDOUT_PIPENO then discard <| pipeOpen fd.2
    attachSemaphore
  else return false

/-- The loop of `cpyArgs`; the strings copied so far are freed when one cannot be. -/
def cpyArgsLoop : List String → List Ref → K (Option (List Ref))
  | [], dest => return some dest
  | _ :: src, dest => do
    match ← malloc with
    | none =>
      freeStrings dest.reverse
      return none
    | some string => cpyArgsLoop src (dest ++ [string])

def cpyArgs (dest : Option Ref) (src : List String) : K (Option (List Ref)) :=
  if dest.isNone ∧ src ≠ [] then throw .nullPointer else cpyArgsLoop src []

/-- The last statements of `startTask`. -/
def enqueueNewProcess (foreground : Int) (args : Option Ref) (strings : List Ref) : K Int := do
  let (newProcess, p) ← readNewProcess
  let queue ← enqueue (← get).procs.queue newProcess
  let (_, current) ← currentPcb
  let procs := (← get).procs
  let ppid := if current.pid = procs.userlandPid ∧ foreground = 0 then procs.initPid else p.ppid
  setNewProcess none
  modifyProcs fun procs => { procs with
    queue
    pcbs := Function.update procs.pcbs newProcess (some { p with arguments := some (args, strings), ppid })
    readyCount := procs.readyCount + 1 }
  return p.pid

/-- `startTask` once it has the new process. -/
def fillNewProcess (argv : List String) (foreground : Int) : Task Int := do
  let args ← malloc
  match ← cpyArgs args argv with
  | none =>
    let (newProcess, p) ← readNewProcess
    freeProcess newProcess p
    setNewProcess none
    return -1
  | some strings => enqueueNewProcess foreground args strings

/-- The file descriptors of a new process: those given, or those of its creator. -/
def descriptorsOf : Option (Int × Int) → K (Int × Int)
  | some fd => return fd
  | none => do return (← currentPcb).2.fileDescriptors

/-- `startTask`. Of `process` only whether it is `NULL` matters. `argc` is the length of `argv`;
`argv[0]` is read whatever it is, and there is none if it is 0. -/
def startTask (process : Option Ref) (argv : List String) (foreground : Int) (fd : Option (Int × Int)) : Task Int := do
  if process.isNone then return -1
  else
    let name ← deref argv.head?
    if ← initializeBlock name foreground (← descriptorsOf fd) then fillNewProcess argv foreground
    else return -1

/-! ## The scheduler -/

/-- The search of `scheduleTask`: reaps or requeues until a process is ready. -/
def scheduleLoop : Nat → K Unit
  | 0 => throw .outOfFuel
  | fuel + 1 => do
    let (current, p) ← currentPcb
    if p.state = .ready then return
    else
      if p.state = .terminated then
        (freeProcess current p).complete .nestedTick
      else
        let queue ← enqueue (← get).procs.queue current
        modifyProcs fun procs => { procs with queue }
      let (queue, next) ← dequeue (← get).procs.queue
      modifyProcs fun procs => { procs with queue, currentProcessPCB := next }
      scheduleLoop fuel

/-- `scheduleTask`. The stack pointer it gets and returns is the context of the
process that was, and of the one that is, the current one. -/
def scheduleTask : K Unit := do
  match (← get).procs.currentProcessPCB with
  | none => choose
  | some current =>
    let p ← readPcb current
    if p.state = .ready ∧ (← get).procs.currentCycles > 0 then
      modifyProcs fun procs => { procs with currentCycles := procs.currentCycles - 1 }
    else
      let idle ← readPcb (← deref (← get).procs.idleProcessPCB)
      if p.pid ≠ idle.pid then
        let queue ← enqueue (← get).procs.queue current
        modifyProcs fun procs => { procs with queue }
      else
        modifyProcs fun procs => { procs with idleProcessPCB := some current }
      choose
where
  /-- The choice of the process to run. -/
  choose : K Unit := do
    let procs := (← get).procs
    if procs.readyCount > 0 then
      let (queue, next) ← dequeue procs.queue
      modifyProcs fun procs => { procs with queue, currentProcessPCB := next }
      scheduleLoop (queue.length + 1)
    else
      modifyProcs fun procs => { procs with currentProcessPCB := procs.idleProcessPCB }
    let priority := (← currentPcb).2.priority
    modifyProcs fun procs => { procs with currentCycles := priority }

end QuesOs.Kernel
