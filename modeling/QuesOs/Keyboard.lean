import QuesOs.Shortage
import QuesOs.Numbering
import QuesOs.WaitQueues
import Mathlib.Data.Finset.Card

/-! The keyboard. Its interrupt writes the character to the pipe of standard input with
the primitive that processes use, in the name of the process that happens to run: where
the pipe is full that process is blocked, whoever it is. -/
namespace QuesOs.Kernel
open Resumption

/-! ## `keyboard.c` -/

def RELEASE : UInt8 := 128
def LSHIFT : UInt8 := 42
def RSHIFT : UInt8 := 54
def LCTRL : UInt8 := 29

def charCode (c : Char) : Int8 := Int8.ofNat c.toNat

/-- `kbd_US`, up to its last key; the rest are 0. -/
def kbd_US : List Char := [
  '\x00', '\x00', '1', '2', '3', '4', '5', '6', '7', '8', '9', '0', '-', '=', '\x08',
  '\t', 'q', 'w', 'e', 'r', 't', 'y', 'u',
  'i', 'o', 'p', '[', ']', '\n', '\x00', 'a', 's', 'd', 'f', 'g', 'h', 'j', 'k', 'l',
  ';', '\x27', '\x60', '\x00', '\x5c', 'z',
  'x', 'c', 'v', 'b', 'n', 'm', ',', '.', '/', '\x00', '*', '\x00', ' ', '\x00', '\x00',
  '\x00', '\x00', '\x00', '\x00', '\x00',
  '\x00', '\x00', '\x00', '\x00', '\x00', '\x00', '\x00', '\x00', '\x00', '-', '\x00', '\x00', '\x00', '+']

/-- `shift_kbd_US`, up to its last key; the rest are 0. -/
def shift_kbd_US : List Char := [
  '\x00', '\x00', '!', '@', '#', '$', '%', '^', '&', '*', '(', ')', '_', '+', '\x08',
  '\t', 'Q', 'W', 'E', 'R', 'T', 'Y', 'U',
  'I', 'O', 'P', '\x7b', '\x7d', '\n', '\x00', 'A', 'S', 'D', 'F', 'G', 'H', 'J', 'K',
  'L', ':', '\x22', '\x60', '\x00', '|',
  'Z', 'X', 'C', 'V', 'B', 'N', 'M', '<', '>', '?', '\x00', '*', '\x00', ' ', '\x00',
  '\x00', '\x00', '\x00', '\x00', '\x00',
  '\x00', '\x00', '\x00', '\x00', '\x00', '\x00', '\x00', '\x00', '\x00', '\x00', '-', '\x00', '\x00', '\x00', '+']

/-- An entry of one of the tables; past their 128 entries `beyond` says what is read. -/
def keyAt (beyond : UInt8 → Int8) (table : List Char) (teclahex : UInt8) : Int8 :=
  if teclahex < RELEASE then charCode (table.getD teclahex.toNat '\x00') else beyond teclahex

structure Keyboard where
  isSpecial : Bool
  shiftFlag : Bool
  controlFlag : Bool

/-- What the handler comes to. -/
inductive Stroke where
  | nothing
  | snapshot
  | kill
  | write (c : Int8)
  deriving DecidableEq

def isPrintable (teclahex : UInt8) : Bool := teclahex < RELEASE && keyAt (fun _ => 0) kbd_US teclahex ≠ 0

/-- `keyboardHandler` once it has the key. -/
def handleKey (beyond : UInt8 → Int8) (keyboard : Keyboard) (teclahex : UInt8) : Keyboard × Stroke :=
  if teclahex = 0xE0 then (keyboard, .nothing)
  else if teclahex = RSHIFT ∨ teclahex = LSHIFT then ({ keyboard with shiftFlag := true }, .nothing)
  else if teclahex = RSHIFT + RELEASE ∨
    teclahex = LSHIFT + RELEASE then ({ keyboard with shiftFlag := false }, .nothing)
  else if teclahex = LCTRL then ({ keyboard with controlFlag := true }, .nothing)
  else if teclahex = LCTRL + RELEASE then ({ keyboard with controlFlag := false }, .nothing)
  else if keyboard.controlFlag then
    let key := keyAt beyond kbd_US teclahex
    (keyboard, if key = charCode 'r' then .snapshot else if key = charCode 'c' then .kill
      else if key = charCode 'd' then .write (-1) else .nothing)
  else if keyboard.shiftFlag && isPrintable teclahex then (keyboard, .write (keyAt beyond shift_kbd_US teclahex))
  else if isPrintable teclahex then (keyboard, .write (keyAt beyond kbd_US teclahex))
  else (keyboard, .nothing)

/-- `keyboardHandler`, given whether there is a key, and the bytes that `_getKey` would read. -/
def keyboardHandler (beyond : UInt8 → Int8) (keyboard : Keyboard) (hasKey : Bool) (first second : UInt8) :
    Keyboard × Stroke :=
  if !hasKey then (keyboard, .nothing)
  else
    let special := keyboard.isSpecial || first = 0xE0
    handleKey beyond { keyboard with isSpecial := false } (if special then second else first)

/-- `writeStdin`. -/
def writeStdin (c : Int8) : Task Int := pipePutchar STDIN_PIPENO c

def Stroke.perform : Stroke → Task Int
  | .nothing => return 0
  -- the registers that are copied are not part of the state
  | .snapshot => return 0
  | .kill => killCurrentForeground
  | .write c => writeStdin c

/-- Calls of processes, Ctrl+C, and whatever the keyboard handler comes to in the name of the running process. -/
def Interrupts (allowed : State → Call → Prop) (s : State) (program : Task Int) : Prop :=
  Issues allowed s program ∨ ∃ beyond keyboard hasKey first second,
    program = (keyboardHandler beyond keyboard hasKey first second).2.perform

abbrev KeyboardRun (allowed : State → Call → Prop) : System → System → Prop := Threads.Run machine (Interrupts allowed)

/-! ## Undisturbed processes -/

/-- What the process contributes to `readyCount`: all of it but the other processes of the queue that are ready. -/
def Procs.share (procs : Procs) (process : Ref) : Int :=
  procs.readyCount - ((values procs.queue).toFinset.filter fun r => r ≠ process ∧ procs.isReady r = true).card

/-- The process keeps its state and its share in `readyCount`. -/
structure Procs.Undisturbed (process : Ref) (procs procs' : Procs) : Prop where
  state : (procs'.pcbs process).map Pcb.state = (procs.pcbs process).map Pcb.state
  share : procs'.share process = procs.share process

/-- The pipe of standard input is full: its write semaphore is found, has no unit left, and there is memory to
queue the caller. -/
def State.StdinFull (s : State) : Prop :=
  ∃ pipe q sem block, s.pipeOf STDIN_PIPENO = some pipe ∧ s.pipes.pipes pipe = some q ∧
    s.heap.Grants (s.pipeRequests STDIN_PIPENO) ∧ s.sems.find q.writeSemId = some sem ∧ s.sems.at sem.ref = some block ∧
    block.value ≤ 0 ∧ s.heap.Grants (s.pipeRequests STDIN_PIPENO + 1)

namespace Procs.Undisturbed
variable {procs procs' procs'' : Procs} {process : Ref}

theorem refl (process : Ref) (procs : Procs) : procs.Undisturbed process procs := ⟨rfl, rfl⟩

theorem trans (first : Undisturbed process procs procs') (second : Undisturbed process procs' procs'') :
    Undisturbed process procs procs'' :=
  ⟨second.state.trans first.state, second.share.trans first.share⟩

end Procs.Undisturbed

theorem isReady_moveState (procs : Procs) (r : Ref) (p : Pcb) (x : Ref) :
    (procs.moveState r p .ready).isReady x = if x = r then true else procs.isReady x := by
  unfold Procs.isReady Procs.moveState
  by_cases here : x = r
  · simp [here]
  · simp [here]

/-- Another process that becomes ready is counted as one of the others. -/
theorem share_moveState {procs : Procs} {p : Pcb} (listed : r ∈ values procs.queue) (other : r ≠ process)
    (block : procs.pcbs r = some p) : (procs.moveState r p .ready).share process = procs.share process := by
  have ready : procs.isReady r = decide (p.state = .ready) := by simp [Procs.isReady, block]
  have queue : (procs.moveState r p .ready).queue = procs.queue := rfl
  unfold Procs.share
  rw [queue]
  by_cases was : p.state = .ready
  · have same : ∀ x, (procs.moveState r p .ready).isReady x = procs.isReady x := by
      intro x
      rw [isReady_moveState]
      split
      · rename_i here
        rw [here, ready, decide_eq_true was]
      · rfl
    simp only [same]
    simp [Procs.moveState, was]
  · have absent : r ∉ (values procs.queue).toFinset.filter fun x => x ≠ process ∧ procs.isReady x = true := by
      simp [ready, was]
    have more : ((values procs.queue).toFinset.filter fun x => x ≠ process ∧
      (procs.moveState r p .ready).isReady x = true) =
        insert r ((values procs.queue).toFinset.filter fun x => x ≠ process ∧ procs.isReady x = true) := by
      ext x
      simp only [Finset.mem_filter, List.mem_toFinset, Finset.mem_insert, isReady_moveState]
      by_cases here : x = r
      · simp [here, listed, other]
      · simp [here]
    rw [more, Finset.card_insert_of_notMem absent]
    simp only [Procs.moveState, was, ne_eq, not_false_eq_true, true_and, if_true, false_and, if_false]
    omega

/-- Whoever is woken, a process that runs and is not blocked keeps its state and its share. -/
theorem Procs.Roused.undisturbed {procs procs' : Procs} (roused : procs.Roused procs')
    (running : procs.currentProcessPCB = some c) (awake : ∀ p, procs.pcbs c = some p → p.state ≠ .blocked) :
    procs.Undisturbed c procs' ∧ procs'.currentProcessPCB = some c := by
  induction roused with
  | recorded waiting granted => exact ⟨⟨rfl, rfl⟩, running⟩
  | also _ waiting granted ih => exact ⟨⟨ih.1.state, ih.1.share⟩, ih.2⟩
  | @woken middle r p _ listed block alive ih =>
    obtain ⟨before, current⟩ := ih
    refine ⟨before.trans ?_, current⟩
    by_cases own : r = c
    · subst own
      have state : p.state = .ready := by
        have was := before.state
        rw [block] at was
        obtain ⟨q, there, same⟩ := Option.map_eq_some_iff.mp was.symm
        have notBlocked := awake q there
        rw [same] at notBlocked
        cases now : p.state with
        | ready => rfl
        | blocked => exact (notBlocked now).elim
        | exited => exact (alive.1 now).elim
        | terminated => exact (alive.2 now).elim
      have stays : middle.moveState r p .ready = middle := by
        have same : { p with state := .ready } = p := by rw [← state]
        unfold Procs.moveState
        rw [same, ← block, Function.update_eq_self]
        simp [state]
      rw [stays]
      exact .refl r middle
    · constructor
      · simp [Procs.moveState, Function.update_of_ne (Ne.symm own)]
      · refine share_moveState (listed.resolve_left fun same => ?_) own block
        exact own (Option.some.inj (same.symm.trans current))

/-! ## The interrupt -/

section
variable {s : State} {process : Ref} {p : Pcb}

theorem writeBuffer_spares (running : s.procs.currentProcessPCB = some process) (there : s.procs.pcbs process = some p)
    (awake : p.state ≠ .blocked) (pipe : Ref) (c : Int8) :
    Meets (fun _ => True) (writeBuffer pipe c) (fun _ s' => s.procs.Undisturbed process s'.procs) s := by
  simp only [writeBuffer, readPipe, meets_bind, meets_get]
  cases ((s.pipes.pipes pipe).filter fun q => !q.freed) with
  | none => trivial
  | some q =>
    simp only [meets_lookup_some, modifyPipe, meets_modifyPipes, meets_discard]
    refine (semPost_any q.readSemId).mono fun _ s' gives => ?_
    refine (Procs.Roused.undisturbed gives.roused running fun p' block => ?_).1
    cases there.symm.trans block
    exact awake

/-- A process that is not ready any more cannot be blocked. -/
theorem blockTask_dead (running : s.procs.currentProcessPCB = some process) (there : s.procs.pcbs process = some p)
    (dead : p.state ≠ .ready) (awake : p.state ≠ .blocked) {still resumed : State → State → Prop}
    {post : Int → State → State → Prop} (ends : ∀ h, post (-1) since (s.withHeap h)) :
    (blockTask s.procs.callerPid).Meets (fun _ => True) still resumed post since s := by
  unfold blockTask
  rw [Program.meets_bind, Program.meets_lift]
  refine (changeStateWith_any semPost _ (by nofun) (by nofun)).mono ?_
  rintro id s' ⟨h, -, -, ⟨rfl, rfl, -⟩ | ⟨r, q, -, block, notExited, notTerminated, -, -, own, -⟩⟩
  · exact ends h
  · obtain rfl := Option.some.inj (running.symm.trans (own rfl))
    cases there.symm.trans block
    cases state : p.state with
    | ready => exact (dead state).elim
    | blocked => exact (awake state).elim
    | exited => exact (notExited state).elim
    | terminated => exact (notTerminated state).elim

/-- A process that is ready is blocked there and then. -/
theorem blockTask_ready (running : s.procs.currentProcessPCB = some process) (there : s.procs.pcbs process = some p)
    (ready : p.state = .ready) (valid : p.pid ≠ -1) {post : Int → State → State → Prop} :
    (blockTask s.procs.callerPid).Meets (fun _ => True)
      (fun _ s' => (s'.procs.pcbs process).map Pcb.state = some .blocked) (fun _ _ => False) post since s := by
  have caller : s.procs.callerPid = p.pid := by simp [Procs.callerPid, running, there]
  unfold blockTask
  rw [Program.meets_bind, Program.meets_lift]
  refine (changeStateWith_any semPost _ (by decide) (by decide)).mono ?_
  rintro id s' ⟨h, -, -, ⟨rfl, -, dead⟩ | ⟨r, q, -, block, -, -, rfl, same, own, rfl⟩⟩
  · rcases dead rfl process p running there with exited | terminated
    · cases ready.symm.trans exited
    · cases ready.symm.trans terminated
  · obtain rfl := Option.some.inj (running.symm.trans (own rfl))
    cases there.symm.trans block
    rw [if_neg valid, Program.meets_bind, Program.meets_lift]
    have now : (s.procs.moveState process p .blocked).pcbs process = some { p with state := .blocked } :=
      Function.update_self _ _ _
    rw [meets_currentPcb (by exact running) (by exact now), if_pos rfl, Program.meets_bind]
    refine ⟨?_, fun _ never => never.elim⟩
    simp [now]

/-- The interrupt spares the running process, unless that is ready and the pipe is full. -/
theorem writeStdin_spares (running : s.procs.currentProcessPCB = some process) (there : s.procs.pcbs process = some p)
    (awake : p.state ≠ .blocked) (room : p.state = .ready → ¬s.StdinFull) (c : Int8) :
    (writeStdin c).Meets (fun _ => True) (fun _ _ => False) (fun _ _ => False)
      (fun _ _ s' => s.procs.Undisturbed process s'.procs) s s := by
  unfold writeStdin pipePutchar
  rw [Program.meets_bind, Program.meets_lift]
  refine (getPipe_asks STDIN_PIPENO).mono ?_
  rintro pipe s' ⟨isPipe, h, asked, rfl⟩
  cases pipe with
  | none => exact .refl _ _
  | some pipe =>
    -- What is left to do once the process is past `semWait`.
    have ends : ∀ s₁ : State, s.procs.Undisturbed process s₁.procs → s₁.procs.currentProcessPCB = some process →
        s₁.procs.pcbs process = some p →
        Meets (fun _ => True) (writeBuffer pipe c) (fun _ s' => s.procs.Undisturbed process s'.procs) s₁ :=
      fun s₁ spared running' there' => (writeBuffer_spares running' there' awake pipe c).mono fun _ _ => spared.trans
    simp only [writeToPipe, readPipe, semWait, Program.meets_bind, Program.meets_lift, meets_bind, meets_get,
      Program.meets_discard]
    cases pipeThere : s.pipes.pipes pipe with
    | none => trivial
    | some q =>
      cases freed : q.freed with
      | true =>
        simp only [Option.filter_some, freed, Bool.not_true, Bool.false_eq_true, if_false]
        trivial
      | false =>
        simp only [Option.filter_some, freed, Bool.not_false, if_true, meets_lookup_some]
        refine (semWaitEnter_any q.writeSemId).mono ?_
        intro result s' tries
        cases tries with
        | missed => exact ends _ (.refl _ _) running there
        | took => exact ends _ (.refl _ _) running there
        | refused => exact ends _ (.refl _ _) running there
        | queued found block unlocked empty granted asked' blockedPids waiting =>
          have dead : p.state ≠ .ready := by
            intro ready
            obtain ⟨granted', found⟩ := findable_some found
            exact room ready ⟨pipe, q, _, _, isPipe.symm, pipeThere, (asked.later 0).mp granted', found, block, empty,
              (asked.later 1).mp granted⟩
          simp only [Program.meets_bind, Program.meets_discard]
          refine blockTask_dead (by exact running) (by exact there) dead awake fun h' => ?_
          rw [Program.meets_lift]
          refine (endWait_any _).mono ?_
          rintro _ s' ⟨waiting', granted', rfl⟩
          exact ends _ ⟨rfl, rfl⟩ running there

/-- Where the pipe is full, a process that is ready is blocked. -/
theorem writeStdin_blocks (running : s.procs.currentProcessPCB = some process) (there : s.procs.pcbs process = some p)
    (ready : p.state = .ready) (valid : p.pid ≠ -1) (full : s.StdinFull) (c : Int8) :
    (writeStdin c).Meets (fun _ => True) (fun _ s' => (s'.procs.pcbs process).map Pcb.state = some .blocked)
      (fun _ _ => False) (fun _ _ _ => False) s s := by
  obtain ⟨pipe, q, sem, b, isPipe, pipeThere, granted, found, block, empty, granted'⟩ := full
  unfold writeStdin pipePutchar
  rw [Program.meets_bind, Program.meets_lift]
  refine (getPipe_asks STDIN_PIPENO).mono ?_
  rintro pipe' s' ⟨isPipe', h, asked, rfl⟩
  obtain rfl := isPipe'.trans isPipe
  simp only [writeToPipe, readPipe, semWait, Program.meets_bind, Program.meets_lift, meets_bind, meets_get,
    Program.meets_discard]
  cases freed : q.freed with
  | true =>
    simp only [pipeThere, Option.filter_some, freed, Bool.not_true, Bool.false_eq_true, if_false]
    trivial
  | false =>
    simp only [pipeThere, Option.filter_some, freed, Bool.not_false, if_true, meets_lookup_some]
    refine (semWaitEnter_any q.writeSemId).mono ?_
    intro result s' tries
    have first : h.Grants 0 := (asked.later 0).mpr granted
    have seen : State.findable { s with heap := h, pipes := { s.pipes with cachedPipe := s.pipeOf STDIN_PIPENO } }
        q.writeSemId = some sem := (if_pos first).trans found
    cases tries with
    | missed missing => cases missing.symm.trans seen
    | took found' block' unlocked positive =>
      obtain rfl := Option.some.inj (seen.symm.trans found')
      cases block.symm.trans block'
      omega
    | refused found' block' unlocked empty' short =>
      exact (short ((asked.later 1).mpr granted')).elim
    | queued found' block' unlocked empty' granted'' asked' blockedPids waiting =>
      simp only [Program.meets_bind, Program.meets_discard]
      exact blockTask_ready (by exact running) (by exact there) ready valid

end

/-! ## Every run -/

theorem numbering_interrupts (allowed : State → Call → Prop) : numbering.Calls (Interrupts allowed) := by
  rintro s program t (issued | ⟨beyond, keyboard, hasKey, first, second, rfl⟩) numbered turn running
  · exact numbering_calls allowed s program t issued numbered turn running
  · cases (keyboardHandler beyond keyboard hasKey first second).2 with
    | nothing => exact ⟨numbered, trivial, fun _ _ => rfl⟩
    | snapshot => exact ⟨numbered, trivial, fun _ _ => rfl⟩
    | kill => exact numbering_follows .killCurrentForeground numbered running
    | write c => exact numbering_follows (.pipePutchar STDIN_PIPENO c) numbered running

theorem pids_positive (run : KeyboardRun allowed (boot grants garbage) S) (there : S.state.procs.pcbs r = some p) :
    0 < p.pid := by
  have numbered := (numbering.holds_run (numbering_interrupts allowed) numbering_boot run).inv
  exact (numbered.pids r p.pid (by simp [Procs.pidOf, there])).1

theorem stroke_spares_iff {stroke : Stroke} {outcome : Outcome State Fault Int}
    (run : KeyboardRun allowed (boot grants garbage) S)
    (running : S.state.procs.currentProcessPCB = some process) (there : S.state.procs.pcbs process = some p)
    (awake : p.state ≠ .blocked) (notKill : stroke ≠ .kill) (executed : stroke.perform.execute S.state = .ok outcome) :
    S.state.procs.Undisturbed process outcome.state.procs ↔
      ∀ c, stroke = .write c → p.state = .ready → ¬S.state.StdinFull := by
  have writes : ∀ c, stroke = .write c → (writeStdin c).execute S.state = .ok outcome := by
    rintro c rfl
    exact executed
  constructor
  · intro spared c isWrite ready full
    have valid : p.pid ≠ -1 := by
      have positive := pids_positive run there
      omega
    have blocks := (writeStdin_blocks running there ready valid full c).execute (writes c isWrite)
    have was : (S.state.procs.pcbs process).map Pcb.state = some .ready := by simp [there, ready]
    cases outcome with
    | finished a s => exact blocks
    | paused rest s => cases was.symm.trans (spared.state.symm.trans blocks.1)
  · intro room
    cases stroke with
    | nothing =>
      cases executed
      exact .refl _ _
    | snapshot =>
      cases executed
      exact .refl _ _
    | kill => exact (notKill rfl).elim
    | write c =>
      have spares := (writeStdin_spares running there awake (room c rfl) c).execute executed
      cases outcome with
      | finished a s => exact spares
      | paused rest s => exact spares.1.elim

/-- **A key spares the process it interrupts** exactly if it writes no character, the process
is not ready, or the pipe of standard input is not full. A process that runs is not blocked;
it is gone if it waited for itself. -/
theorem keyboard_spares_iff {outcome : Outcome State Fault Int} (run : KeyboardRun allowed (boot grants garbage) S)
    (running : S.state.procs.currentProcessPCB = some process) (there : S.state.procs.pcbs process = some p)
    (awake : p.state ≠ .blocked) (notKill : (keyboardHandler beyond keyboard hasKey first second).2 ≠ .kill)
    (executed : (keyboardHandler beyond keyboard hasKey first second).2.perform.execute S.state = .ok outcome) :
    S.state.procs.Undisturbed process outcome.state.procs ↔
      ∀ c, (keyboardHandler beyond keyboard hasKey first second).2 = .write c → p.state = .ready → ¬S.state.StdinFull :=
  stroke_spares_iff run running there awake notKill executed

/-! ## Filling the pipe -/

/-- `init` runs after boot, and so many characters are unread. -/
structure Filled (unread : Nat) (s : State) : Prop where
  procs : s.procs =
    { bootProcs with
      queue := [⟨39, userlandRef⟩], currentProcessPCB := some initRef, currentCycles := BACKGROUND_PRIORITY }
  sound : Sound s
  cached : s.pipes.cachedPipe = some 24
  pipe : ∃ q, s.pipes.pipes 24 = some q ∧ q.id = STDIN_PIPENO ∧ q.writeSemId = 2 ∧ q.readSemId = 1 ∧ q.freed = false
  room : ∃ w, s.sems.find 2 = some w ∧ w.value = PIPE_BUFFER_SIZE - unread
  line : ∃ r, s.sems.find 1 = some r ∧ r.pids = []
  spare : Spare (fun _ => False) (PIPE_BUFFER_SIZE - unread) s.sems

def initPcb : Pcb := bootPcb 2 0 BACKGROUND_PRIORITY "Init" (0, 0) 30 4

namespace Filled

theorem attended (filled : Filled unread s) : s.procs.Attended initRef initPcb := by
  have table := boot_table
  rw [filled.procs]
  refine ⟨rfl, rfl, fun r queued => ?_, fun r q block => (table.pids r q block).1⟩
  rw [List.mem_singleton.mp queued]
  nofun

theorem found (filled : Filled unread s) : s.pipeOf STDIN_PIPENO = some 24 ∧ s.pipeRequests STDIN_PIPENO = 0 := by
  obtain ⟨q, here, isStdin, -⟩ := filled.pipe
  have cached : s.Cached STDIN_PIPENO := by
    unfold State.Cached
    rw [filled.cached]
    simp [Pipes.hasId, here, isStdin]
  exact ⟨(if_pos cached).trans filled.cached, if_pos cached⟩

/-- A character goes in as long as there is room. -/
theorem put (filled : Filled unread s) (room : unread < PIPE_BUFFER_SIZE) (c : Int8) :
    (writeStdin c).Meets (fun _ => False) (fun _ _ => False) (fun _ _ => False)
      (fun _ _ s' => Filled (unread + 1) s') s s := by
  obtain ⟨q, here, isStdin, writeSem, readSem, isOpen⟩ := filled.pipe
  obtain ⟨w, foundW, value⟩ := filled.room
  obtain ⟨r, foundR, line⟩ := filled.line
  have attended := filled.attended
  have cached : Option.any (s.pipes.hasId STDIN_PIPENO) (some 24) = true := by simp [Pipes.hasId, here, isStdin]
  simp only [writeStdin, pipePutchar, getPipe, writeToPipe, semWait, Program.meets_bind,
    Program.meets_lift, meets_bind, meets_get,
    filled.cached, cached, if_true, meets_pure, Program.meets_discard]
  rw [meets_readPipe here isOpen, writeSem]
  refine (semWaitEnter_spec filled.sound.grants filled.sound.sems attended 2).mono ?_
  rintro result s₁ (⟨missing, -⟩ | ⟨sem, found, entered⟩)
  · cases missing.symm.trans foundW
  · obtain rfl := Option.some.inj (found.symm.trans foundW)
    have sound₁ := entered.sound filled.sound
    have left : PIPE_BUFFER_SIZE - unread = PIPE_BUFFER_SIZE - (unread + 1) + 1 := by omega
    have spare₁ : Spare (fun _ => False) (PIPE_BUFFER_SIZE - (unread + 1) + 1) _ :=
      (left ▸ filled.spare).entered entered
    cases entered with
    | queued empty grown last => omega
    | took positive grown =>
      refine (writeBuffer_within (spare₁.less (Nat.le_add_left 1 _)) sound₁ (by exact attended)
        (by exact here) isOpen c).mono ?_
      intro u s' posts
      have spare₂ := Spare.posts (by exact spare₁) posts
      have sound₂ := posts.sound (sound₁.writePipe 24 (f := (·.put c)) fun _ => ⟨rfl, rfl⟩)
      have line₁ :=
        find_modify_apart (f := fun x => { x with value := x.value - 1, lock := 0 }) filled.sound.sems (fun _ => rfl)
        foundR foundW (by decide)
      have room₁ := find_modify_self (f := fun x => { x with value := x.value - 1, lock := 0 }) (fun _ => rfl) foundW
      rcases posts with ⟨missing, -⟩ | ⟨reader, foundReader, posted⟩
      · rw [readSem] at missing
        cases missing.symm.trans line₁
      · rw [readSem] at foundReader
        obtain rfl := Option.some.inj (foundReader.symm.trans line₁)
        cases posted with
        | handed queued inVain resumed left grown' =>
          rw [line] at queued
          simp at queued
        | raised inVain grown' =>
          have room₂ := find_modify_apart (f := fun x => { x with blockedPids := [], value := x.value + 1, lock := 0 })
            (by exact sound₁.sems) (fun _ => rfl) room₁ line₁ (by decide)
          have line₂ := find_modify_self (f := fun x => { x with blockedPids := [], value := x.value + 1, lock := 0 })
            (fun _ => rfl) line₁
          have here' : (s.pipes.modify 24 (·.put c)).pipes 24 = some (q.put c) := by simp [Pipes.modify, here]
          refine ⟨filled.procs, sound₂, filled.cached, ⟨_, here', isStdin, writeSem, readSem, isOpen⟩,
            ⟨_, room₂, ?_⟩, ⟨_, line₂, rfl⟩, spare₂⟩
          simp only [value]
          omega

/-- The last unit is gone. -/
theorem stdinFull (filled : Filled PIPE_BUFFER_SIZE s) : s.StdinFull := by
  obtain ⟨q, here, isStdin, writeSem, readSem, isOpen⟩ := filled.pipe
  obtain ⟨w, foundW, value⟩ := filled.room
  rw [← writeSem] at foundW
  refine ⟨24, q, w, w, filled.found.1, here, filled.sound.grants _, foundW, ?_, ?_, filled.sound.grants _⟩
  · exact find_ref filled.sound.sems (find_some foundW).1
  · omega

theorem roomy (filled : Filled unread s) (room : unread < PIPE_BUFFER_SIZE) : ¬s.StdinFull := by
  rintro ⟨pipe, q, sem, block, isPipe, here, -, found, here', empty, -⟩
  obtain ⟨q', there, isStdin, writeSem, -⟩ := filled.pipe
  obtain ⟨w, foundW, value⟩ := filled.room
  obtain rfl := Option.some.inj (isPipe.symm.trans filled.found.1)
  cases here.symm.trans there
  rw [writeSem] at found
  obtain rfl := Option.some.inj (found.symm.trans foundW)
  obtain rfl := Option.some.inj (here'.symm.trans (find_ref filled.sound.sems (find_some foundW).1))
  omega

/-- Then the next character waits. -/
theorem waits (filled : Filled PIPE_BUFFER_SIZE s) (c : Int8) :
    (writeStdin c).Meets (fun _ => False) (fun _ _ => True) (fun _ _ => False) (fun _ _ _ => False) s s := by
  obtain ⟨q, here, isStdin, writeSem, readSem, isOpen⟩ := filled.pipe
  obtain ⟨w, foundW, value⟩ := filled.room
  have cached : Option.any (s.pipes.hasId STDIN_PIPENO) (some 24) = true := by simp [Pipes.hasId, here, isStdin]
  simp only [writeStdin, pipePutchar, getPipe, writeToPipe, Program.meets_bind,
    Program.meets_lift, meets_bind, meets_get,
    filled.cached, cached, if_true, meets_pure, Program.meets_discard]
  rw [meets_readPipe here isOpen, writeSem]
  have empty : w.value ≤ 0 := Int.le_of_eq (value.trans (Int.sub_self _))
  exact Program.Meets.weaken (semWait_leaves filled.sound filled.attended rfl foundW empty) (fun _ _ _ => trivial)
    (fun _ _ never => never) fun _ _ _ same => same

end Filled

theorem filled_boot (allowed : State → Call → Prop) (garbage : Option Ref × List Ref) :
    ∃ S, KeyboardRun allowed (boot (fun _ => true) garbage) S ∧
    S.due = false ∧ S.contexts initRef = none ∧ Filled 0 S.state := by
  refine ⟨⟨initState (fun _ => true) garbage, fun _ => none, false⟩, .single (initState_step _ _ _), rfl, rfl, rfl,
    ⟨fun _ => rfl, boot_sems, boot_pipes⟩, rfl, ⟨bootPipe, rfl, rfl, rfl, rfl, rfl⟩, ⟨_, rfl, rfl⟩,
    ⟨_, rfl, rfl⟩, .inr ?_⟩
  change bootSems.Room _
  decide

/-- So many keys later, so many characters are unread. -/
theorem filled_run (allowed : State → Call → Prop) (garbage : Option Ref × List Ref) (few : unread ≤ PIPE_BUFFER_SIZE) :
    ∃ S, KeyboardRun allowed (boot (fun _ => true) garbage) S ∧ S.due = false ∧ S.contexts initRef = none ∧
    Filled unread S.state := by
  induction unread with
  | zero => exact filled_boot allowed garbage
  | succ unread ih =>
    obtain ⟨S, run, due, idle, filled⟩ := ih (Nat.le_of_succ_le few)
    obtain ⟨outcome, executed, meets⟩ := (filled.put few 97).returns
    cases outcome with
    | paused rest s => exact meets.1.elim
    | finished a s =>
      have issued : Interrupts allowed S.state (writeStdin 97) :=
        .inr ⟨fun _ => 0, ⟨false, false, false⟩, true, 30, 0, rfl⟩
      refine ⟨_, run.tail (.call filled.attended.running due idle issued executed), rfl, ?_, meets⟩
      simp [Threads.System.settle]

/-- The key of the letter a. -/
def pressA : Keyboard × Stroke := keyboardHandler (fun _ => 0) ⟨false, false, false⟩ true 30 0

theorem keyboard_spares_init : ∃ S outcome, KeyboardRun (fun _ _ => True) (boot (fun _ => true) (none, [])) S ∧
    pressA.2.perform.execute S.state = .ok outcome ∧ S.state.procs.Undisturbed initRef outcome.state.procs := by
  obtain ⟨S, run, due, idle, filled⟩ := filled_run (fun _ _ => True) (none, []) (Nat.zero_le PIPE_BUFFER_SIZE)
  obtain ⟨outcome, executed, meets⟩ := (filled.put (by decide) 97).returns
  refine ⟨S, outcome, run, executed, ?_⟩
  have notKill : (keyboardHandler (fun _ => 0) ⟨false, false, false⟩ true 30 0).2 ≠ .kill := by
    change Stroke.write 97 ≠ .kill
    nofun
  have spares := keyboard_spares_iff run filled.attended.running filled.attended.block
    (by nofun) notKill (by exact executed)
  exact spares.mpr fun c isWrite ready => filled.roomy (by decide)

/-- With 1024 characters unread, the next key blocks whoever runs. -/
theorem keyboard_spares_fails :
    ¬∀ S process outcome, KeyboardRun (fun _ _ => True) (boot (fun _ => true) (none, [])) S →
    S.due = false → S.state.procs.currentProcessPCB = some process → pressA.2.perform.execute S.state = .ok outcome →
    S.state.procs.Undisturbed process outcome.state.procs := by
  intro claim
  obtain ⟨S, run, due, idle, filled⟩ := filled_run (fun _ _ => True) (none, []) (Nat.le_refl PIPE_BUFFER_SIZE)
  obtain ⟨outcome, executed, meets⟩ := (filled.waits 97).returns
  have spared := claim S initRef outcome run due filled.attended.running executed
  have blocks :=
    (writeStdin_blocks filled.attended.running filled.attended.block rfl (by decide) filled.stdinFull 97).execute
    executed
  have was : (S.state.procs.pcbs initRef).map Pcb.state = some .ready := by rw [filled.attended.block]; rfl
  cases outcome with
  | finished a s => exact blocks
  | paused rest s => cases was.symm.trans (spared.state.symm.trans blocks.1)

end QuesOs.Kernel
