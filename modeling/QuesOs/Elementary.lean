import QuesOs.KernelSystem

/-! The kernel is made of a few elementary actions: requests for memory, the
operations on semaphores and on the table of pipes, and writes to single
processes. What holds of these, and of one action after another, holds of all
that is made of them. -/
namespace QuesOs.Kernel
open Resumption

/-- The write leaves the pipe what it is. -/
def SamePipe (f : Pipe → Pipe) : Prop :=
  ∀ p, (f p).id = p.id ∧ (f p).readSemId = p.readSemId ∧ (f p).writeSemId = p.writeSemId ∧ (f p).freed = p.freed

/-- What holds of requests for memory, of notes and of writes to single processes that
leave pids and states, and of one action after another. -/
structure Primitive (P : ∀ {α : Type}, K α → Prop) : Prop where
  ends : ∀ {α : Type} (a : α), P (pure a)
  follows : ∀ {α β : Type} {f : K α} {g : α → K β}, P f → (∀ a, P (g a)) → P (f >>= g)
  reads : P (get : K State)
  fails : ∀ {α : Type} (fault : Fault), P (throw fault : K α)
  asks : P malloc
  releases : ∀ ref, P (free ref)
  notes : ∀ event, P (log event)
  remembers : ∀ event, P (logCurrent event)
  edits : ∀ process (f : Pcb → Pcb), (∀ p, ∃ ppid priority, f p = { p with ppid, priority }) → P (modifyPcb process f)

/-- What holds, besides, of the operations on semaphores and on the table of pipes. -/
structure Elementary (P : ∀ {α : Type}, K α → Prop) : Prop extends Primitive P where
  changes : ∀ {semPost : Int → K Int}, (∀ id, P (semPost id)) → ∀ pid newState, P (changeStateWith semPost pid newState)
  expires : P (modifyProcs fun procs => { procs with currentCycles := 0 })
  leaves : ∀ sem, P (endWait sem)
  enters : ∀ id, P (semWaitEnter id)
  posts : ∀ id, P (semPost id)
  inits : ∀ initialValue, P (semInit initialValue)
  closes : ∀ id, P (semClose id)
  gets : ∀ pipeId, P (getPipe pipeId)
  creates : ∀ pipeId, P (createPipe pipeId)
  removes : ∀ pipeId, P (removePipe pipeId)
  writes : ∀ pipe {f : Pipe → Pipe}, SamePipe f → P (modifyPipe pipe f)

/-- What holds, besides, of any write to the processes. -/
structure Sweeping (P : ∀ {α : Type}, K α → Prop) : Prop extends Elementary P where
  sweeps : ∀ f, P (modifyProcs f)

/-- What does not depend on what is written to the semaphores and to the pipes. -/
structure Detached (P : ∀ {α : Type}, K α → Prop) : Prop extends Primitive P where
  wakes : ∀ pid, P (resumeTask pid)
  expires : P (modifyProcs fun procs => { procs with currentCycles := 0 })
  records : ∀ f : Procs → Procs, (∀ procs, ∃ waiting granted, f procs = { procs with waiting, granted }) →
  P (modifyProcs f)
  semsWritten : ∀ f, P (modifySems f)
  pipesWritten : ∀ f, P (modifyPipes f)

section
variable {P : ∀ {α : Type}, K α → Prop} (holds : Primitive P) {α β : Type} {f : K α}
include holds

theorem built_discard (built : P f) : P (discard f) := holds.follows built fun _ => holds.ends _

omit holds in
theorem built_ite {c : Prop} [Decidable c] {g : K α} (yes : P f) (no : P g) : P (if c then f else g) := by
  split
  · exact yes
  · exact no

/-- Something is done under a condition, and what follows in any case. -/
theorem built_whenever {c : Prop} [Decidable c] {f : K Unit} {g : Unit → K β} (first : P f) (rest : P (g ())) :
    P (if c then f >>= g else g ()) :=
  built_ite (holds.follows first fun _ => rest) rest

theorem built_deref (a : Option α) : P (deref a) := by
  cases a with
  | none => exact holds.fails _
  | some a => exact holds.ends a

theorem built_lookup (a : Option α) : P (lookup a) := by
  cases a with
  | none => exact holds.fails _
  | some a => exact holds.ends a

theorem built_int (n : Int) : P (int n) := built_ite (holds.ends _) (holds.fails _)

theorem built_increment (n : Int) : P (increment n) := built_ite (holds.ends _) (holds.fails _)

/-! ## Memory and queues -/

theorem built_freeOption (ref : Option Ref) : P (ref.forM free) := by
  cases ref with
  | none => exact holds.ends _
  | some ref => exact holds.releases ref

theorem built_enqueue (queue : Queue α) (value : α) : P (enqueue queue value) := by
  refine holds.follows holds.asks fun ref => ?_
  cases ref with
  | none => exact holds.ends _
  | some ref => exact holds.ends _

theorem built_dequeue (queue : Queue α) : P (dequeue queue) := by
  cases queue with
  | nil => exact holds.ends _
  | cons node rest => exact holds.follows (holds.releases _) fun _ => holds.ends _

theorem built_find (queue : Queue α) (findCondition : α → Bool) : P (find queue findCondition) := by
  refine holds.follows holds.asks fun it => ?_
  cases it with
  | none => exact holds.ends _
  | some it => exact holds.follows (holds.releases it) fun _ => holds.ends _

theorem built_freeStrings (strings : List Ref) : P (freeStrings strings) := by
  induction strings with
  | nil => exact holds.ends _
  | cons string rest ih => exact holds.follows (holds.releases _) fun _ => ih

theorem built_cpyArgsLoop (src : List String) (dest : List Ref) : P (cpyArgsLoop src dest) := by
  induction src generalizing dest with
  | nil => exact holds.ends _
  | cons _ src ih =>
    refine holds.follows holds.asks fun string => ?_
    cases string with
    | none => exact holds.follows (built_freeStrings holds _) fun _ => holds.ends _
    | some string => exact ih _

theorem built_cpyArgs (dest : Option Ref) (src : List String) : P (cpyArgs dest src) :=
  built_ite (holds.fails _) (built_cpyArgsLoop holds src [])

/-! ## Processes -/

theorem built_readPcb (process : Ref) : P (readPcb process) :=
  holds.follows holds.reads fun _ => built_lookup holds _

theorem built_currentPcb : P currentPcb :=
  holds.follows holds.reads fun _ => holds.follows (built_deref holds _) fun _ =>
    holds.follows (built_readPcb holds _) fun _ => holds.ends _

theorem built_getProcessLoop (pid : Int) (refs : List Ref) : P (getProcessLoop pid refs) := by
  induction refs with
  | nil => exact holds.ends _
  | cons process rest ih => exact holds.follows (built_readPcb holds process) fun _ => built_ite (holds.ends _) ih

theorem built_getProcess (pid : Int) : P (getProcess pid) := by
  refine holds.follows holds.asks fun it => ?_
  cases it with
  | none => exact holds.ends _
  | some it =>
    exact holds.follows holds.reads fun _ => holds.follows (built_getProcessLoop holds _ _) fun _ =>
      holds.follows (holds.releases it) fun _ => holds.ends _

theorem built_reparent (process : Ref) (a : α) : P (do
    let initPid := (← get).procs.initPid
    modifyPcb process fun p => { p with ppid := initPid }
    return a) :=
  holds.follows holds.reads fun _ => holds.follows (holds.edits _ _ fun _ => ⟨_, _, rfl⟩) fun _ => holds.ends _

theorem built_sendTaskToInitLoop (pid : Int) (killedProcess : Option Ref) (process : Ref)
    (it : List Ref) (hasParent : Bool) :
    P (sendTaskToInitLoop pid killedProcess process it hasParent) := by
  induction it generalizing process hasParent with
  | nil =>
    unfold sendTaskToInitLoop
    refine holds.follows (built_deref holds _) fun _ => holds.follows (built_readPcb holds _) fun _ =>
      holds.follows (built_readPcb holds _) fun _ => ?_
    exact built_ite (built_reparent holds _ _) (holds.ends _)
  | cons next rest ih =>
    unfold sendTaskToInitLoop
    refine holds.follows (built_deref holds _) fun _ => holds.follows (built_readPcb holds _) fun _ =>
      holds.follows (built_readPcb holds _) fun _ => ?_
    cases rest with
    | nil => exact built_ite (built_reparent holds _ _) (holds.ends _)
    | cons next' rest =>
      exact built_ite (holds.follows holds.reads fun _ =>
        holds.follows (holds.edits _ _ fun _ => ⟨_, _, rfl⟩) fun _ => ih _ _)
        (ih _ _)

theorem built_sendTaskToInit (pid : Int) : P (sendTaskToInit pid) := by
  refine holds.follows holds.asks fun it => holds.follows (built_getProcess holds pid) fun killedProcess =>
    holds.follows holds.reads fun s => ?_
  cases s.procs.currentProcessPCB with
  | none => exact holds.ends _
  | some process =>
    refine holds.follows holds.reads fun _ => holds.follows (built_sendTaskToInitLoop holds _ _ _ _ _) fun hasParent =>
      holds.follows (built_freeOption holds it) fun _ => ?_
    exact built_ite (holds.follows holds.reads fun _ => holds.follows (built_deref holds _) fun _ =>
      holds.follows (holds.edits _ _ fun _ => ⟨_, _, rfl⟩) fun _ => holds.ends _) (holds.ends _)

theorem built_processOf (pid : Int) : P (processOf pid) :=
  holds.follows (built_currentPcb holds) fun _ => built_ite (holds.ends _) (built_getProcess holds pid)

/-- Whoever may move a process may change its state. -/
theorem built_changeStateWith (moves : ∀ {α : Type} process newState {f : Pcb → K α}, (∀ p, P (f p)) → P (do
      let p ← readPcb process
      modifyProcs (·.moveState process p newState)
      f p))
    {semPost : Int → K Int} (posts : ∀ id, P (semPost id)) (pid : Int) (newState : ProcessState) :
    P (changeStateWith semPost pid newState) := by
  refine holds.follows (built_processOf holds pid) fun process => ?_
  cases process with
  | none => exact holds.ends _
  | some process =>
    refine holds.follows (built_readPcb holds process) fun p =>
      built_ite (holds.ends _) (holds.follows holds.reads fun _ => ?_)
    refine built_whenever holds (built_discard holds (posts p.semId))
      (built_whenever holds (built_discard holds (built_sendTaskToInit holds p.pid)) ?_)
    exact moves process newState fun p =>
      built_ite (holds.follows holds.reads fun _ => holds.follows (holds.notes _) fun _ => holds.ends _) (holds.ends _)

theorem built_getpid : P getpid := by
  refine holds.follows holds.reads fun s => ?_
  cases s.procs.currentProcessPCB with
  | none => exact holds.ends _
  | some process => exact holds.follows (built_readPcb holds process) fun _ => holds.ends _

theorem built_nice (pid newPriority : Int) : P (nice pid newPriority) := by
  refine holds.follows (built_getProcess holds pid) fun process => ?_
  cases process with
  | none => exact holds.ends _
  | some process => exact holds.follows (holds.edits _ _ fun _ => ⟨_, _, rfl⟩) fun _ => holds.ends _

theorem built_descriptorsOf (fd : Option (Int × Int)) : P (descriptorsOf fd) := by
  cases fd with
  | none => exact holds.follows (built_currentPcb holds) fun _ => holds.ends _
  | some fd => exact holds.ends _

theorem built_findSem (id : Int) : P (findSem id) :=
  holds.follows holds.reads fun _ => built_find holds _ _

theorem built_semValue (id : Int) : P (semValue id) := by
  refine holds.follows (built_findSem holds id) fun sem => ?_
  cases sem with
  | none => exact holds.ends _
  | some sem => exact holds.ends _

/-- Whoever may terminate a process may terminate its children. -/
theorem built_terminates (terminates : ∀ pid, P (changeState pid .terminated)) (pid : Int) :
    P (terminateChildren pid) := by
  have each : ∀ current it, P (terminateChildrenLoop pid current it) := by
    intro current it
    induction it generalizing current with
    | nil =>
      unfold terminateChildrenLoop
      exact holds.follows (built_readPcb holds current) fun _ => built_ite (holds.follows
        (built_discard holds (terminates _)) fun _ => built_reparent holds _ _) (holds.ends _)
    | cons next rest ih =>
      unfold terminateChildrenLoop
      cases rest with
      | nil =>
        exact holds.follows (built_readPcb holds current) fun _ => built_ite (holds.follows
          (built_discard holds (terminates _)) fun _ => built_reparent holds _ _) (holds.ends _)
      | cons next' rest =>
        exact holds.follows (built_readPcb holds current) fun _ => built_ite (holds.follows
          (built_discard holds (terminates _)) fun _ => holds.follows holds.reads fun _ =>
          holds.follows (holds.edits _ _ fun _ => ⟨_, _, rfl⟩) fun _ => ih next) (ih next)
  exact holds.follows holds.asks fun it => holds.follows (built_currentPcb holds) fun _ =>
    holds.follows holds.reads fun _ =>
    holds.follows (each _ _) fun _ => built_freeOption holds it

theorem built_readPipe (pipe : Ref) : P (readPipe pipe) :=
  holds.follows holds.reads fun _ => built_lookup holds _

end

/-! ## Semaphores and pipes -/

section
variable {P : ∀ {α : Type}, K α → Prop} (holds : Primitive P)
include holds

theorem built_takeElement {α : Type} (queue : Queue α) (removeCondition : α → Bool) :
    P (takeElement queue removeCondition) := by
  unfold takeElement
  split
  · exact holds.ends _
  · exact holds.follows (holds.releases _) fun _ => holds.ends _

theorem built_freeNodes (queue : Queue Caller) : P (freeNodes queue) := by
  induction queue with
  | nil => exact holds.ends _
  | cons node rest ih => exact holds.follows (holds.releases _) fun _ => holds.follows (holds.releases _) fun _ => ih

theorem built_freeQueue (queueRef : Option Ref) (queue : Queue Caller) : P (freeQueue queueRef queue) := by
  cases queueRef with
  | none => exact holds.ends _
  | some ref => exact holds.follows (built_freeNodes holds queue) fun _ => holds.releases ref

theorem built_destroySem (sem : Sem) : P (destroySem sem) :=
  holds.follows (built_freeQueue holds _ _) fun _ => holds.follows (holds.releases _) fun _ => holds.releases _

theorem built_acquire (lock : Int) : P (acquire lock) := built_ite (holds.ends _) (holds.fails _)

theorem built_readSem (sem : Ref) : P (readSem sem) := holds.follows holds.reads fun _ => built_lookup holds _

end

namespace Detached
variable {P : ∀ {α : Type}, K α → Prop} (holds : Detached P)
include holds

theorem modifySem (sem : Ref) (f : Sem → Sem) : P (Kernel.modifySem sem f) := holds.semsWritten _

theorem acquireSem (sem : Ref) : P (Kernel.acquireSem sem) :=
  holds.follows (built_readSem holds.toPrimitive sem) fun _ =>
    holds.follows (built_acquire holds.toPrimitive _) fun _ =>
    holds.modifySem _ _

theorem releaseSem (sem : Ref) : P (Kernel.releaseSem sem) := holds.modifySem _ _

theorem acquireAllSems : P Kernel.acquireAllSems :=
  holds.follows holds.reads fun _ => holds.follows (built_acquire holds.toPrimitive _) fun _ => holds.semsWritten _

theorem createSem (initialValue : Int) (name : String) : P (Kernel.createSem initialValue name) := by
  refine holds.follows (built_int holds.toPrimitive _) fun _ => holds.follows holds.asks fun ref => ?_
  cases ref with
  | none => exact holds.ends _
  | some ref =>
    have next : P getNextSemaphoreId := holds.follows holds.reads fun _ =>
      holds.follows (built_increment holds.toPrimitive _) fun _ =>
        holds.follows (holds.semsWritten _) fun _ => holds.ends _
    refine holds.follows next fun id =>
      holds.follows holds.asks fun queueRef => holds.follows holds.asks fun nameRef => ?_
    cases nameRef with
    | none => exact holds.follows (holds.releases _) fun _ => holds.ends _
    | some nameRef =>
      exact holds.follows holds.reads fun _ => holds.follows (built_enqueue holds.toPrimitive _ _) fun _ =>
        holds.follows (holds.semsWritten _) fun _ => holds.follows (holds.notes _) fun _ => holds.ends _

theorem semInit (initialValue : Int) : P (Kernel.semInit initialValue) := by
  refine holds.follows holds.acquireAllSems fun _ => holds.follows (holds.createSem _ _) fun created =>
    holds.follows (holds.semsWritten _) fun _ => ?_
  cases created with
  | none => exact holds.ends _
  | some sem => exact holds.follows (holds.modifySem _ _) fun _ => holds.ends _

theorem semClose (id : Int) : P (Kernel.semClose id) := by
  refine holds.follows (built_findSem holds.toPrimitive id) fun sem => ?_
  cases sem with
  | none => exact holds.ends _
  | some sem =>
    have ends : P (do releaseAllSems; return (0 : Int)) := holds.follows (holds.semsWritten _) fun _ => holds.ends _
    refine holds.follows holds.acquireAllSems fun _ => built_ite ?_ (holds.follows (holds.modifySem _ _) fun _ => ends)
    exact holds.follows holds.reads fun _ => holds.follows (built_takeElement holds.toPrimitive _ _) fun _ =>
      holds.follows (holds.semsWritten _) fun _ => holds.follows (built_deref holds.toPrimitive _) fun _ =>
      holds.follows (built_destroySem holds.toPrimitive _) fun _ => ends

theorem semPostLoop (sem : Ref) (id : Int) (rounds : Nat) : P (Kernel.semPostLoop sem id rounds) := by
  induction rounds with
  | zero => exact holds.ends _
  | succ rounds ih =>
    refine holds.follows (built_readSem holds.toPrimitive sem) fun _ =>
      holds.follows (built_dequeue holds.toPrimitive _) fun _ =>
      holds.follows (holds.modifySem _ _) fun _ => holds.follows (built_deref holds.toPrimitive _) fun callerPID =>
      holds.follows holds.reads fun _ => holds.follows (holds.wakes _) fun pid =>
      holds.follows (holds.releases _) fun _ => built_ite ?_ (holds.follows (holds.notes _) fun _ => ih)
    exact holds.follows (holds.records _ fun _ => ⟨_, _, rfl⟩) fun _ =>
      holds.follows (holds.notes _) fun _ => holds.ends _

theorem semPost (id : Int) : P (Kernel.semPost id) := by
  refine holds.follows (built_findSem holds.toPrimitive id) fun sem => ?_
  cases sem with
  | none => exact holds.ends _
  | some sem =>
    have ends : P (do Kernel.releaseSem sem.ref; return (0 : Int)) :=
      holds.follows (holds.releaseSem _) fun _ => holds.ends _
    refine holds.follows (holds.acquireSem _) fun _ =>
      holds.follows (built_discard holds.toPrimitive (built_deref holds.toPrimitive _)) fun _ =>
      holds.follows (holds.semPostLoop _ _ _) fun _ => built_ite ?_ ends
    exact holds.follows holds.reads fun _ => holds.follows (built_readSem holds.toPrimitive _) fun _ =>
      holds.follows (built_increment holds.toPrimitive _) fun _ => holds.follows (holds.modifySem _ _) fun _ =>
      holds.follows (holds.notes _) fun _ => ends

theorem beginWait (sem : Int) : P (Kernel.beginWait sem) := by
  refine holds.records _ fun procs => ?_
  split
  · exact ⟨_, _, rfl⟩
  · exact ⟨_, _, rfl⟩

theorem endWait (sem : Int) : P (Kernel.endWait sem) := by
  refine holds.records _ fun procs => ?_
  split
  · exact ⟨_, _, rfl⟩
  · exact ⟨_, _, rfl⟩

theorem semWaitEnter (id : Int) : P (Kernel.semWaitEnter id) := by
  refine holds.follows (built_findSem holds.toPrimitive id) fun sem => ?_
  cases sem with
  | none => exact holds.ends _
  | some sem =>
    refine holds.follows (holds.acquireSem _) fun _ => holds.follows (built_readSem holds.toPrimitive _) fun _ =>
      built_ite ?_ (holds.follows holds.asks fun ref => ?_)
    · exact holds.follows (holds.modifySem _ _) fun _ => holds.follows holds.reads fun _ =>
        holds.follows (holds.notes _) fun _ =>
        holds.follows (holds.releaseSem _) fun _ => holds.ends _
    · cases ref with
      | none => exact holds.ends _
      | some ref =>
        exact holds.follows (built_getpid holds.toPrimitive) fun _ =>
          holds.follows (built_discard holds.toPrimitive (built_deref holds.toPrimitive _)) fun _ =>
          holds.follows (built_readSem holds.toPrimitive _) fun _ =>
            holds.follows (built_enqueue holds.toPrimitive _ _) fun _ =>
          holds.follows (holds.modifySem _ _) fun _ => holds.follows (holds.beginWait _) fun _ =>
          holds.follows (holds.notes _) fun _ => holds.follows (holds.releaseSem _) fun _ => holds.ends _

theorem getPipe (pipeId : Int) : P (Kernel.getPipe pipeId) :=
  holds.follows holds.reads fun _ => built_ite (holds.ends _) (holds.follows (built_find holds.toPrimitive _ _) fun _ =>
    holds.follows (holds.pipesWritten _) fun _ => holds.ends _)

theorem createPipe (id : Int) : P (Kernel.createPipe id) := by
  refine holds.follows holds.asks fun pipe => ?_
  cases pipe with
  | none => exact holds.ends _
  | some pipe =>
    have closes : ∀ id, P (discard (Kernel.semClose id)) :=
      fun id => built_discard holds.toPrimitive (holds.semClose id)
    refine holds.follows (holds.semInit _) fun _ => holds.follows (holds.semInit _) fun _ => built_ite ?_ ?_
    · exact holds.follows (closes _) fun _ => holds.follows (closes _) fun _ =>
        holds.follows (holds.releases _) fun _ => holds.ends _
    · exact holds.follows (holds.pipesWritten _) fun _ => holds.follows holds.reads fun _ =>
        holds.follows (built_enqueue holds.toPrimitive _ _) fun _ => holds.follows (holds.pipesWritten _) fun _ =>
        holds.follows (holds.notes _) fun _ => holds.ends _

theorem removePipe (pipeId : Int) : P (Kernel.removePipe pipeId) := by
  refine holds.follows holds.reads fun _ => holds.follows (built_takeElement holds.toPrimitive _ _) fun taken =>
    holds.follows (holds.pipesWritten _) fun _ => ?_
  obtain ⟨-, removed⟩ := taken
  cases removed with
  | none => exact holds.pipesWritten _
  | some removed =>
    exact holds.follows (holds.releases _) fun _ => holds.follows (holds.pipesWritten _) fun _ => holds.pipesWritten _

theorem elementary (changes : ∀ {semPost : Int → K Int}, (∀ id, P (semPost id)) → ∀ pid newState,
    P (changeStateWith semPost pid newState)) : Elementary P where
  toPrimitive := holds.toPrimitive
  changes := changes
  expires := holds.expires
  leaves := holds.endWait
  enters := holds.semWaitEnter
  posts := holds.semPost
  inits := holds.semInit
  closes := holds.semClose
  gets := holds.getPipe
  creates := holds.createPipe
  removes := holds.removePipe
  writes _ _ _ := holds.pipesWritten _

end Detached

section
variable {P : ∀ {α : Type}, K α → Prop} (holds : Elementary P) {α : Type}
include holds

theorem built_changeState (pid : Int) (newState : ProcessState) : P (changeState pid newState) :=
  holds.changes holds.posts pid newState

theorem built_resumeTask (pid : Int) : P (resumeTask pid) := holds.changes (fun _ => holds.ends _) pid .ready

theorem built_terminateChildren (pid : Int) : P (terminateChildren pid) :=
  built_terminates holds.toPrimitive (fun pid => built_changeState holds pid .terminated) pid

/-! ## Pipes -/

theorem built_pipeOpenEntered (pipeId : Int) : P (pipeOpenEntered pipeId) := by
  refine holds.follows (holds.gets pipeId) fun found => ?_
  have opens : ∀ pipe, P (do
      increment (← readPipe pipe).totalProcesses
      modifyPipe pipe fun p => { p with totalProcesses := p.totalProcesses + 1 }
      log (.pipeOpened pipeId)
      discard <| semPost (← get).pipes.allPipesSem
      return (← readPipe pipe).id) := fun pipe =>
    holds.follows (built_readPipe holds.toPrimitive pipe) fun _ =>
      holds.follows (built_increment holds.toPrimitive _) fun _ =>
      holds.follows (holds.writes _ fun _ => ⟨rfl, rfl, rfl, rfl⟩) fun _ => holds.follows (holds.notes _) fun _ =>
      holds.follows holds.reads fun _ => holds.follows (built_discard holds.toPrimitive (holds.posts _)) fun _ =>
      holds.follows (built_readPipe holds.toPrimitive pipe) fun _ => holds.ends _
  cases found with
  | none =>
    refine holds.follows (holds.creates pipeId) fun pipe => ?_
    cases pipe with
    | none => exact holds.ends _
    | some pipe => exact opens pipe
  | some pipe => exact opens pipe

theorem built_writeBuffer (pipe : Ref) (c : Int8) : P (writeBuffer pipe c) :=
  holds.follows (built_readPipe holds.toPrimitive pipe) fun _ =>
    holds.follows (holds.writes _ fun _ => ⟨rfl, rfl, rfl, rfl⟩) fun _ =>
    built_discard holds.toPrimitive (holds.posts _)

theorem built_readBuffer (pipe : Ref) : P (readBuffer pipe) :=
  holds.follows (built_readPipe holds.toPrimitive pipe) fun _ =>
    holds.follows (holds.writes _ fun _ => ⟨rfl, rfl, rfl, rfl⟩) fun _ =>
    holds.follows (built_discard holds.toPrimitive (holds.posts _)) fun _ => holds.ends _

theorem built_pipeCloseEntered (pipe : Ref) (pipeId : Int) : P (pipeCloseEntered pipe pipeId) := by
  have posts : P (do
      discard <| semPost (← get).pipes.allPipesSem
      return (0 : Int)) :=
    holds.follows holds.reads fun _ => holds.follows (built_discard holds.toPrimitive (holds.posts _)) fun _ =>
      holds.ends _
  refine holds.follows (built_discard holds.toPrimitive (built_readPipe holds.toPrimitive pipe)) fun _ =>
    holds.follows (holds.writes _ fun _ => ⟨rfl, rfl, rfl, rfl⟩) fun _ => holds.follows (holds.notes _) fun _ =>
    holds.follows (built_readPipe holds.toPrimitive pipe) fun _ => built_ite ?_ posts
  exact holds.follows (built_discard holds.toPrimitive (holds.closes _)) fun _ =>
    holds.follows (built_discard holds.toPrimitive (holds.closes _)) fun _ =>
    holds.follows (holds.removes _) fun _ => posts

theorem built_readArguments (process : Pcb) : P (readArguments process) := by
  unfold readArguments
  cases process.arguments with
  | none => exact holds.follows holds.reads fun _ => built_ite (holds.ends _) (holds.fails _)
  | some arguments => exact holds.ends _

theorem built_freeArguments (process : Pcb) : P (freeArguments process) := by
  refine holds.follows (built_readArguments holds process) fun _ =>
    holds.follows (built_freeStrings holds.toPrimitive _) fun _ =>
    holds.follows (built_semValue holds.toPrimitive _) fun _ => ?_
  exact built_whenever holds.toPrimitive (built_discard holds.toPrimitive (holds.posts _))
    (holds.follows (built_freeOption holds.toPrimitive _) fun _ => built_discard holds.toPrimitive (holds.closes _))

/-! ## System calls -/

theorem every_tick (pid : Int) (a : α) : (do
    if pid = (← currentPcb).2.pid then callTimerTick
    return a : Task α).Every P :=
  (Program.Every.lift (built_currentPcb holds.toPrimitive)).bind fun _ =>
    .ite (Program.Every.suspend.bind fun _ => .pure _) (.pure _)

theorem every_get : (liftM (get : K State) : Task State).Every P := .lift holds.reads

theorem every_blockTask (pid : Int) : (blockTask pid).Every P :=
  (Program.Every.lift (built_changeState holds pid .blocked)).bind fun id => .ite (.pure _) (every_tick holds id 0)

theorem every_killTask (pid : Int) : (killTask pid).Every P :=
  (every_get holds).bind fun _ => .ite (.pure _) <|
    (Program.Every.lift (built_changeState holds pid .exited)).bind fun id => .ite (.pure _) (every_tick holds id id)

theorem every_killCurrent : killCurrent.Every P :=
  (Program.Every.lift (built_currentPcb holds.toPrimitive)).bind fun _ => every_killTask holds _

theorem every_killCurrentForeground : killCurrentForeground.Every P := by
  refine (Program.Every.lift (built_currentPcb holds.toPrimitive)).bind fun _ =>
    (every_get holds).bind fun _ => .ite ?_ ?_
  · exact (Program.Every.lift (built_terminateChildren holds _)).bind fun _ => every_killCurrent holds
  · refine (Program.Every.lift (built_find holds.toPrimitive _ _)).bind fun foregroundProcess => ?_
    cases foregroundProcess with
    | none => exact .pure _
    | some foregroundProcess =>
      exact (Program.Every.lift (built_readPcb holds.toPrimitive _)).bind fun _ =>
        (Program.Every.lift (built_terminateChildren holds _)).bind fun _ =>
        (Program.Every.lift (built_readPcb holds.toPrimitive _)).bind fun _ => every_killTask holds _

theorem every_yield : yield.Every P :=
  (Program.Every.lift holds.expires).bind fun _ => Program.Every.suspend.bind fun _ => .pure _

theorem every_semWait (id : Int) : (semWait id).Every P := by
  refine (Program.Every.lift (holds.enters id)).bind fun entered => ?_
  cases entered with
  | inl result => exact .pure _
  | inr callerPID =>
    exact (every_blockTask holds callerPID).discard.bind fun _ =>
      (Program.Every.lift (holds.leaves id)).bind fun _ => .pure _

theorem every_waitpid (pid : Int) : (waitpid pid).Every P := by
  refine (Program.Every.lift (built_processOf holds.toPrimitive pid)).bind fun childProcess => ?_
  cases childProcess with
  | none => exact .pure _
  | some childProcess =>
    exact (Program.Every.lift (holds.remembers _)).bind fun _ =>
      (Program.Every.lift (built_readPcb holds.toPrimitive _)).bind fun _ =>
      (every_semWait holds _).discard.bind fun _ =>
        (Program.Every.lift (built_readPcb holds.toPrimitive _)).bind fun _ =>
      (Program.Every.lift (holds.remembers _)).bind fun _ => .lift (built_changeState holds _ _)

theorem every_pipeOpen (pipeId : Int) : (pipeOpen pipeId).Every P :=
  (every_get holds).bind fun _ => (every_semWait holds _).discard.bind fun _ =>
    .lift (built_pipeOpenEntered holds pipeId)

theorem every_writeToPipe (pipe : Ref) (c : Int8) : (writeToPipe pipe c).Every P :=
  (Program.Every.lift (built_readPipe holds.toPrimitive pipe)).bind fun _ =>
    (every_semWait holds _).discard.bind fun _ =>
    .lift (built_writeBuffer holds pipe c)

theorem every_pipeWriteLoop (pipe : Ref) (str : List Int8) : (pipeWriteLoop pipe str).Every P := by
  induction str with
  | nil => exact .pure _
  | cons c str ih => exact .ite (.pure _) ((every_writeToPipe holds pipe c).bind fun _ => ih)

theorem every_pipeWrite (pipeId : Int) (str : List Int8) : (pipeWrite pipeId str).Every P := by
  refine (Program.Every.lift (holds.gets pipeId)).bind fun pipe => ?_
  cases pipe with
  | none => exact .pure _
  | some pipe => exact (every_pipeWriteLoop holds pipe str).bind fun _ => .pure _

theorem every_pipePutchar (pipeId : Int) (c : Int8) : (pipePutchar pipeId c).Every P := by
  refine (Program.Every.lift (holds.gets pipeId)).bind fun pipe => ?_
  cases pipe with
  | none => exact .pure _
  | some pipe => exact (every_writeToPipe holds pipe c).bind fun _ => .pure _

theorem every_pipeRead (pipeId : Int) : (pipeRead pipeId).Every P := by
  refine (Program.Every.lift (holds.gets pipeId)).bind fun pipe => ?_
  cases pipe with
  | none => exact .pure _
  | some pipe =>
    exact (Program.Every.lift (built_readPipe holds.toPrimitive pipe)).bind fun _ =>
      (every_semWait holds _).discard.bind fun _ =>
      .lift (built_readBuffer holds pipe)

theorem every_pipeClose (pipeId : Int) : (pipeClose pipeId).Every P := by
  refine (Program.Every.lift (holds.gets pipeId)).bind fun pipe => ?_
  cases pipe with
  | none => exact (Program.Every.lift (holds.notes _)).bind fun _ => .pure _
  | some pipe =>
    exact (every_get holds).bind fun _ => (every_semWait holds _).discard.bind fun _ =>
      .lift (built_pipeCloseEntered holds pipe pipeId)

theorem every_freePipes (fd : Int × Int) : (freePipes fd).Every P := by
  have input : (do if fd.1 ≠ STDIN_PIPENO then discard <| pipeClose fd.1 : Task Unit).Every P :=
    .ite (every_pipeClose holds _).discard (.pure _)
  exact .ite ((every_pipePutchar holds _ _).discard.bind fun _ =>
    (every_pipeClose holds _).discard.bind fun _ => input) input

/-- The calls other than `startTask`. -/
theorem every_call (call : Call) (other : ∀ process argv foreground fd, call ≠ .startTask process argv foreground fd) :
    call.perform.Every P := by
  cases call with
  | startTask process argv foreground fd => exact absurd rfl (other process argv foreground fd)
  | killCurrent => exact every_killCurrent holds
  | killTask pid => exact every_killTask holds pid
  | blockTask pid => exact every_blockTask holds pid
  | resumeTask pid => exact .lift (built_resumeTask holds pid)
  | waitpid pid => exact every_waitpid holds pid
  | nice pid newPriority => exact .lift (built_nice holds.toPrimitive pid newPriority)
  | yield => exact every_yield holds
  | semInit initialValue => exact .lift (holds.inits initialValue)
  | semWait id => exact every_semWait holds id
  | semPost id => exact .lift (holds.posts id)
  | pipeOpen pipeId => exact every_pipeOpen holds pipeId
  | pipeClose pipeId => exact every_pipeClose holds pipeId
  | pipeRead pipeId => exact every_pipeRead holds pipeId
  | pipePutchar pipeId c => exact every_pipePutchar holds pipeId c
  | pipeWrite pipeId str => exact every_pipeWrite holds pipeId str
  | killCurrentForeground => exact every_killCurrentForeground holds

end

section
variable {P : ∀ {α : Type}, K α → Prop} (holds : Sweeping P) {α : Type}
include holds

/-! ## Birth and death of processes -/

theorem built_complete {p : Task α} (every : p.Every P) (nested : Fault) : P (p.complete nested) := by
  induction p with
  | done a => exact holds.ends a
  | act action rest ih => exact holds.follows every.1 fun b => ih b (every.2 b)
  | pause rest => exact holds.fails nested

theorem built_freeBlocks (process : Ref) (p : Pcb) : P (freeBlocks process p) :=
  holds.follows (built_currentPcb holds.toPrimitive) fun _ => holds.follows (holds.sweeps _) fun _ =>
    holds.follows (holds.releases _) fun _ => holds.follows (holds.releases _) fun _ => holds.sweeps _

theorem every_freeProcess (process : Ref) (p : Pcb) : (freeProcess process p).Every P :=
  (every_get holds.toElementary).bind fun _ =>
    (Program.Every.lift (built_freeArguments holds.toElementary p)).bind fun _ =>
    (every_freePipes holds.toElementary _).bind fun _ => (every_get holds.toElementary).bind fun _ =>
    (Program.Every.lift (holds.notes _)).bind fun _ => .lift (built_freeBlocks holds process p)

theorem built_readNewProcess : P readNewProcess :=
  holds.follows holds.reads fun _ => holds.follows (built_deref holds.toPrimitive _) fun _ =>
    holds.follows holds.reads fun _ => built_lookup holds.toPrimitive _

theorem built_setNewProcess (newProcess : Option (Ref × Pcb)) : P (setNewProcess newProcess) :=
  holds.follows holds.reads fun _ => holds.follows (built_deref holds.toPrimitive _) fun _ => holds.sweeps _

theorem built_copyName (name : String) : P (copyName name) := built_ite (holds.ends _) (holds.fails _)

theorem built_allocateBlock (name : String) (foreground : Int) (fd : Int × Int) :
    P (allocateBlock name foreground fd) := by
  refine built_ite (holds.ends _) (holds.follows holds.asks fun newProcess => ?_)
  cases newProcess with
  | none => exact holds.ends _
  | some newProcess =>
    refine holds.follows (built_getpid holds.toPrimitive) fun ppid => holds.follows (built_copyName holds name) fun _ =>
      holds.follows holds.reads fun _ => holds.follows (built_increment holds.toPrimitive _) fun _ =>
      holds.follows (holds.sweeps _) fun _ => holds.follows holds.asks fun stack => ?_
    cases stack with
    | none => exact holds.follows (holds.releases _) fun _ => holds.ends _
    | some stack => exact holds.follows (built_setNewProcess holds _) fun _ => holds.ends _

theorem built_attachSemaphore : P attachSemaphore := by
  refine holds.follows (holds.inits 0) fun semId => holds.follows (built_readNewProcess holds) fun made =>
    built_ite ?_ ?_
  · exact holds.follows (holds.releases _) fun _ => holds.follows (holds.releases _) fun _ =>
      holds.follows (built_setNewProcess holds _) fun _ => holds.ends _
  · exact holds.follows (built_setNewProcess holds _) fun _ => holds.ends _

theorem every_initializeBlock (name : String) (foreground : Int) (fd : Int × Int) :
    (initializeBlock name foreground fd).Every P := by
  have attached : (liftM attachSemaphore : Task Bool).Every P := .lift (built_attachSemaphore holds)
  have opens : ∀ pipeId, (discard (pipeOpen pipeId) : Task Unit).Every P := fun pipeId =>
    (every_pipeOpen holds.toElementary pipeId).discard
  refine (Program.Every.lift (built_allocateBlock holds name foreground fd)).bind fun goes => .ite ?_ (.pure _)
  exact .ite ((opens _).bind fun _ => .ite ((opens _).bind fun _ => attached) attached)
    (.ite ((opens _).bind fun _ => attached) attached)

theorem built_enqueueNewProcess (foreground : Int) (args : Option Ref) (strings : List Ref) :
    P (enqueueNewProcess foreground args strings) :=
  holds.follows (built_readNewProcess holds) fun _ => holds.follows holds.reads fun _ =>
    holds.follows (built_enqueue holds.toPrimitive _ _) fun _ =>
      holds.follows (built_currentPcb holds.toPrimitive) fun _ =>
    holds.follows holds.reads fun _ => holds.follows (built_setNewProcess holds _) fun _ =>
    holds.follows (holds.sweeps _) fun _ => holds.ends _

theorem every_fillNewProcess (argv : List String) (foreground : Int) : (fillNewProcess argv foreground).Every P := by
  refine (Program.Every.lift holds.asks).bind fun args =>
    (Program.Every.lift (built_cpyArgs holds.toPrimitive args argv)).bind fun strings => ?_
  cases strings with
  | none =>
    exact (Program.Every.lift (built_readNewProcess holds)).bind fun made => (every_freeProcess holds _ _).bind fun _ =>
      (Program.Every.lift (built_setNewProcess holds _)).bind fun _ => .pure _
  | some strings => exact .lift (built_enqueueNewProcess holds foreground args strings)

theorem every_startTask (process : Option Ref) (argv : List String) (foreground : Int) (fd : Option (Int × Int)) :
    (startTask process argv foreground fd).Every P :=
  .ite (.pure _) <| (Program.Every.lift (built_deref holds.toPrimitive _)).bind fun name =>
    (Program.Every.lift (built_descriptorsOf holds.toPrimitive fd)).bind fun _ =>
    (every_initializeBlock holds name foreground _).bind fun _ =>
      .ite (every_fillNewProcess holds argv foreground) (.pure _)

theorem every_perform (call : Call) : call.perform.Every P := by
  cases call with
  | startTask process argv foreground fd => exact every_startTask holds process argv foreground fd
  | _ => exact every_call holds.toElementary _ (by nofun)

/-! ## The scheduler -/

/-- The next one takes its turn. -/
theorem built_takeTurn {later : K Unit} (follows : P later) : P (do
    let (queue, next) ← dequeue (← get).procs.queue
    modifyProcs fun procs => { procs with queue, currentProcessPCB := next }
    later) :=
  holds.follows holds.reads fun _ => holds.follows (built_dequeue holds.toPrimitive _) fun _ =>
    holds.follows (holds.sweeps _) fun _ => follows

theorem built_scheduleLoop (fuel : Nat) : P (scheduleLoop fuel) := by
  induction fuel with
  | zero => exact holds.fails _
  | succ fuel ih =>
    have next := built_takeTurn holds ih
    refine holds.follows (built_currentPcb holds.toPrimitive) fun current => built_ite (holds.ends _) (built_ite ?_ ?_)
    · exact holds.follows (built_complete holds (every_freeProcess holds _ _) _) fun _ => next
    · exact holds.follows holds.reads fun _ => holds.follows (built_enqueue holds.toPrimitive _ _) fun _ =>
        holds.follows (holds.sweeps _) fun _ => next

theorem built_choose : P scheduleTask.choose := by
  have runs : P (do
      let priority := (← currentPcb).2.priority
      modifyProcs fun procs => { procs with currentCycles := priority }) :=
    holds.follows (built_currentPcb holds.toPrimitive) fun _ => holds.sweeps _
  refine holds.follows holds.reads fun _ => built_ite ?_ (holds.follows (holds.sweeps _) fun _ => runs)
  exact holds.follows (built_dequeue holds.toPrimitive _) fun _ => holds.follows (holds.sweeps _) fun _ =>
    holds.follows (built_scheduleLoop holds _) fun _ => runs

theorem built_scheduleTask : P scheduleTask := by
  have chosen := built_choose holds
  refine holds.follows holds.reads fun s => ?_
  cases s.procs.currentProcessPCB with
  | none => exact chosen
  | some current =>
    refine holds.follows (built_readPcb holds.toPrimitive current) fun _ => holds.follows holds.reads fun _ =>
      built_ite (holds.sweeps _) ?_
    refine holds.follows holds.reads fun _ => holds.follows (built_deref holds.toPrimitive _) fun _ =>
      holds.follows (built_readPcb holds.toPrimitive _) fun _ =>
        built_ite ?_ (holds.follows (holds.sweeps _) fun _ => chosen)
    exact holds.follows holds.reads fun _ => holds.follows (built_enqueue holds.toPrimitive _ _) fun _ =>
      holds.follows (holds.sweeps _) fun _ => chosen

end

end QuesOs.Kernel
