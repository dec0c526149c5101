import QuesOs.Kernel
import QuesOs.Threads

/-! The kernel as processes use it. Whoever `currentProcessPCB` points to is
running; it issues a system call, or goes on with the one it paused in. A
timer tick may come between any two of these, and the `_callTimerTick` of a
call comes before anything else. -/
namespace QuesOs.Kernel
open Resumption Threads

/-- A system call, the return from the main function, or Ctrl+C on the keyboard. -/
inductive Call where
  | startTask (process : Option Ref) (argv : List String) (foreground : Int) (fd : Option (Int × Int))
  | killCurrent
  | killTask (pid : Int)
  | blockTask (pid : Int)
  | resumeTask (pid : Int)
  | waitpid (pid : Int)
  | nice (pid newPriority : Int)
  | yield
  | semInit (initialValue : Int)
  | semWait (id : Int)
  | semPost (id : Int)
  | pipeOpen (pipeId : Int)
  | pipeClose (pipeId : Int)
  | pipeRead (pipeId : Int)
  | pipePutchar (pipeId : Int) (c : Int8)
  | pipeWrite (pipeId : Int) (str : List Int8)
  | killCurrentForeground

def Call.perform : Call → Task Int
  | .startTask process argv foreground fd => Kernel.startTask process argv foreground fd
  | .killCurrent => Kernel.killCurrent
  | .killTask pid => Kernel.killTask pid
  | .blockTask pid => Kernel.blockTask pid
  | .resumeTask pid => Kernel.resumeTask pid
  | .waitpid pid => Kernel.waitpid pid
  | .nice pid newPriority => Kernel.nice pid newPriority
  | .yield => Kernel.yield
  | .semInit initialValue => Kernel.semInit initialValue
  | .semWait id => Kernel.semWait id
  | .semPost id => Kernel.semPost id
  | .pipeOpen pipeId => Kernel.pipeOpen pipeId
  | .pipeClose pipeId => Kernel.pipeClose pipeId
  | .pipeRead pipeId => Kernel.pipeRead pipeId
  | .pipePutchar pipeId c => Kernel.pipePutchar pipeId c
  | .pipeWrite pipeId str => Kernel.pipeWrite pipeId str
  | .killCurrentForeground => Kernel.killCurrentForeground

/-- An interrupt, not a system call. -/
def Call.isInterrupt : Call → Bool
  | .killCurrentForeground => true
  | _ => false

def machine : Machine State Fault Ref where
  running s := s.procs.currentProcessPCB
  schedule := scheduleTask

/-- A dispatched process other than the idle one issues an allowed call, or an
interrupt comes. -/
def Issues (allowed : State → Call → Prop) (s : State) (program : Task Int) : Prop :=
  ∃ call, allowed s call ∧ program = call.perform ∧
    (call.isInterrupt = true ∨ s.procs.currentProcessPCB ≠ s.procs.idleProcessPCB)

abbrev System := Threads.System State Fault Ref Int

abbrev Run (allowed : State → Call → Prop) : System → System → Prop := Threads.Run machine (Issues allowed)

/-! ## Runs that can be played -/

/-- One move: the scheduler's, that of a paused call, or that of a new one. -/
inductive Move where
  | schedule
  | resume
  | call (call : Call)

/-- Makes the move, where it is due, permitted and free of faults. -/
def take (permits : State → Call → Bool) (S : System) : Move → Option System
  | .schedule =>
    match scheduleTask.run S.state with
    | .ok ((), s) => some { S with state := s, due := false }
    | .error _ => none
  | .resume =>
    match S.due, S.state.procs.currentProcessPCB with
    | false, some process =>
      match S.contexts process with
      | some program =>
        match program.execute S.state with
        | .ok outcome => some (S.settle process outcome)
        | .error _ => none
      | none => none
    | _, _ => none
  | .call call =>
    match S.due, S.state.procs.currentProcessPCB with
    | false, some process =>
      if (call.isInterrupt ∨ some process ≠ S.state.procs.idleProcessPCB) ∧ permits S.state call then
        match S.contexts process with
        | some _ => none
        | none =>
          match call.perform.execute S.state with
          | .ok outcome => some (S.settle process outcome)
          | .error _ => none
      else none
    | _, _ => none

def play (permits : State → Call → Bool) : List Move → System → Option System
  | [], S => some S
  | move :: rest, S => (take permits S move).bind (play permits rest)

theorem take_step {permits : State → Call → Bool} {allowed : State → Call → Prop}
    (agree : ∀ s call, permits s call = true → allowed s call) {S S' : System} (move : Move)
    (took : take permits S move = some S') : Step machine (Issues allowed) S S' := by
  cases move with
  | schedule =>
    simp only [take] at took
    split at took
    · cases took
      exact .schedule (by assumption)
    · cases took
  | resume =>
    simp only [take] at took
    split at took
    · split at took
      · split at took
        · cases took
          exact .resume (by assumption) (by assumption) (by assumption) (by assumption)
        · cases took
      · cases took
    · cases took
  | call call =>
    simp only [take] at took
    split at took
    · split at took
      · rename_i current permitted
        split at took
        · cases took
        · split at took
          · cases took
            refine .call (by assumption) (by assumption) (by assumption) ?_ (by assumption)
            exact ⟨call, agree _ _ permitted.2, rfl, current ▸ permitted.1⟩
          · cases took
      · cases took
    · cases took

/-- What can be played is a run. -/
theorem play_run {permits : State → Call → Bool} {allowed : State → Call → Prop}
    (agree : ∀ s call, permits s call = true → allowed s call) {S S' : System} {moves : List Move}
    (played : play permits moves S = some S') : Run allowed S S' := by
  induction moves generalizing S with
  | nil =>
    cases played
    exact .refl
  | cons move rest ih =>
    obtain ⟨middle, took, later⟩ := Option.bind_eq_some_iff.mp played
    exact .head (take_step agree move took) (ih later)

theorem play_append (permits : State → Call → Bool) (first second : List Move) (S : System) :
    play permits (first ++ second) S = (play permits first S).bind (play permits second) := by
  induction first generalizing S with
  | nil => rfl
  | cons move rest ih =>
    simp only [List.cons_append, play, Option.bind_assoc]
    exact congrArg _ (funext ih)

/-- A call that ends at once leaves only the state. -/
theorem take_call (permits : State → Call → Bool) (due : S.due = false)
    (turn : S.state.procs.currentProcessPCB = some r)
    (awake : some r ≠ S.state.procs.idleProcessPCB) (fresh : S.contexts r = none) {call : Call}
    (permitted : permits S.state call = true) (ran : call.perform.execute S.state = .ok (.finished a s)) :
    take permits S (.call call) = some { S with state := s } := by
  have same : Function.update S.contexts r none = S.contexts := by rw [← fresh, Function.update_eq_self]
  simp only [take, due, turn, fresh, ran, permitted, awake, ne_eq, not_false_eq_true, or_true, and_self, if_true,
    System.settle, same]

/-! ## The end of boot -/

/-- A semaphore created during boot, with one process attached. -/
def bootSem (id value : Nat) : Node Sem where
  ref := 4 * id + 3
  value :=
    { ref := 4 * id, queueRef := some (4 * id + 1), blockedPids := [], attachedProcesses := 1, id, value, lock := 0
      name := "", nameRef := 4 * id + 2 }

/-- The pipe of standard input, opened by the keyboard, idle and init. -/
def bootPipe : Pipe where
  id := STDIN_PIPENO
  buffer := fun _ => 0
  writeIndex := 0
  readIndex := 0
  totalProcesses := 3
  writeSemId := 2
  readSemId := 1
  freed := false
  puts := []
  takes := []

/-- A process created during boot, which has no parent. -/
def bootPcb (pid foreground priority : Int) (name : String) (fileDescriptors : Int × Int)
    (block : Ref) (semId : Int) : Pcb where
  pid
  ppid := 0
  foreground
  state := .ready
  priority
  name
  fileDescriptors
  stack := block + 1
  arguments := some (some (block + 2), [block + 3])
  semId

def idleRef : Ref := 26
def initRef : Ref := 30
def userlandRef : Ref := 35

/-- The idle process, `init` and the shell. -/
def bootPcbs : Ref → Option Pcb
  | 26 => some (bootPcb 1 0 BACKGROUND_PRIORITY "idle" (0, 0) 26 3)
  | 30 => some (bootPcb 2 0 BACKGROUND_PRIORITY "Init" (0, 0) 30 4)
  | 35 => some (bootPcb 3 1 FOREGROUND_PRIORITY "Init userland" (0, 1) 35 5)
  | _ => none

/-- What was created and opened during boot, the last first. -/
def bootHistory : List Event :=
  [.created 5 0, .created 4 0, .pipeOpened STDIN_PIPENO, .created 3 0, .pipeOpened STDIN_PIPENO,
    .pipeOpened STDIN_PIPENO,
    .pipeMade STDIN_PIPENO, .created 2 PIPE_BUFFER_SIZE, .created 1 0, .created 0 1]

/-- `allPipesSem`, the two of the pipe, and one for each process. -/
def bootSems : Sems where
  semId := 6
  semQueue := [bootSem 0 1, bootSem 1 0, bootSem 2 PIPE_BUFFER_SIZE, bootSem 3 0, bootSem 4 0, bootSem 5 0]
  allSemsLock := 0

def bootPipes : Pipes where
  pipeQueue := [⟨25, 24⟩]
  pipes := fun pipe => if pipe = 24 then some bootPipe else none
  cachedPipe := some 24
  allPipesSem := 0

def bootProcs : Procs where
  pidCounter := 4
  queue := [⟨34, initRef⟩, ⟨39, userlandRef⟩]
  pcbs := bootPcbs
  newProcess := fun _ => none
  currentCycles := 0
  idleProcessPCB := some idleRef
  currentProcessPCB := none
  readyCount := 2
  userlandPid := 3
  initPid := 2
  waiting := []
  granted := []

/-- The kernel when `main` turns the interrupts on. -/
def bootState (grants : Nat → Bool) (garbage : Option Ref × List Ref) : State where
  heap := { grants, garbage, requests := 40, live := List.range 40 }
  sems := bootSems
  pipes := bootPipes
  procs := bootProcs
  history := bootHistory

/-- The first tick is due. -/
def boot (grants : Nat → Bool) (garbage : Option Ref × List Ref) : System :=
  ⟨bootState grants garbage, fun _ => none, true⟩

/-- After the first tick `init` runs. -/
def initState (grants : Nat → Bool) (garbage : Option Ref × List Ref) : State where
  heap := { grants, garbage, requests := 40, live := (List.range 40).erase 34 }
  sems := bootSems
  pipes := bootPipes
  procs := { bootProcs with
    queue := [⟨39, userlandRef⟩], currentProcessPCB := some initRef, currentCycles := BACKGROUND_PRIORITY }
  history := bootHistory

theorem initState_step (issues : State → Task Int → Prop) (grants : Nat → Bool) (garbage : Option Ref × List Ref) :
    Step machine issues (boot grants garbage) ⟨initState grants garbage, fun _ => none, false⟩ :=
  .schedule rfl

end QuesOs.Kernel
