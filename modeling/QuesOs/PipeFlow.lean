import QuesOs.Accounts
import QuesOs.RingBuffer

/-! What flows through a pipe. Its read semaphore counts what was written and its write
semaphore what was read, every reader and every writer uses up a unit, and so no
character is read that was not written, and none is written over one that was not read. -/
namespace QuesOs.Kernel
open Resumption Threads Counting

variable {s s' s'' : State}

/-! ## Units change hands -/

/-- Somebody gets past `a` and then posts `b`. -/
structure State.Exchanges (s s' : State) (a b : Int) : Prop where
  uses : s.used a + 1 ≤ s'.used a
  spares : posts a s'.history = posts a s.history ∧ initials a s'.history = initials a s.history
  keeps : s.used b ≤ s'.used b
  counts : posts b s'.history = posts b s.history + 1 ∧ initials b s'.history = initials b s.history
  others : ∀ sem, sem ≠ a → sem ≠ b → s.Unposted s' sem

theorem exchanges (orderly : s.Orderly) (tidy : s.Tidy) (passed : Passed s c a s₁) {pipes : Pipes}
    (working₁ : Working { s₁ with pipes } c) (posted : Posts { s₁ with pipes } b s') (fair : s.Fair c a)
    (isOpen : s.sems.find a ≠ none) (isOpen' : s₁.sems.find b ≠ none) (apart : a ≠ b) : s.Exchanges s' a b := by
  have written : ∀ sem, s₁.Unposted { s₁ with pipes } sem := fun sem => .of_others rfl [] rfl (List.forall_mem_nil _)
  have before : ∀ sem, s.Unposted { s₁ with pipes } sem := fun sem => (passed.spares sem).trans (written sem)
  obtain ⟨keeps, counts, created⟩ := posted.counts working₁ (passed.tidy tidy).once isOpen'
  have after : State.Unposted { s₁ with pipes } s' a := posted.spares apart
  have uses : s.used a + 1 ≤ s₁.used a := passed.uses orderly isOpen fair
  refine ⟨?_, ?_, ?_, ?_, fun sem _ notPosted => (before sem).trans (posted.spares notPosted)⟩
  · exact Int.le_trans uses (Int.le_trans (written a).used after.used)
  · exact ⟨after.posts.trans (before a).posts, after.initials.trans (before a).initials⟩
  · exact Int.le_trans (before b).used keeps
  · exact ⟨by rw [counts, (before b).posts], created.trans (before b).initials⟩

/-! ## Pipes -/

/-- Where a pipe is: its read semaphore counts what was written, its write semaphore
what was read, and every character was written, and read, with a unit. -/
structure State.Flows (s : State) (p : Pipe) : Prop where
  ring : Ring.Carries PIPE_BUFFER_SIZE p.buffer p.writeIndex p.readIndex p.puts p.takes
  initials : initials p.readSemId s.history = [0] ∧ initials p.writeSemId s.history = [(PIPE_BUFFER_SIZE : Int)]
  written : posts p.readSemId s.history = p.puts.length ∧ p.puts.length ≤ s.used p.writeSemId
  read : posts p.writeSemId s.history = p.takes.length ∧ p.takes.length ≤ s.used p.readSemId

/-- So it is with every open pipe. -/
def State.Flowing (s : State) : Prop := ∀ r p, s.pipes.pipes r = some p → p.freed = false → s.Flows p

/-- The pipe is left alone. -/
theorem State.Flows.spared (flows : s.Flows p) (alike : p.Alike p') (read : s.Unposted s' p.readSemId)
    (write : s.Unposted s' p.writeSemId) : s'.Flows p' := by
  obtain ⟨_, _, rfl, -⟩ := alike
  refine ⟨flows.ring, ⟨read.initials.trans flows.initials.1, write.initials.trans flows.initials.2⟩, ?_, ?_⟩
  · exact ⟨read.posts.trans flows.written.1, Int.le_trans flows.written.2 write.used⟩
  · exact ⟨write.posts.trans flows.read.1, Int.le_trans flows.read.2 read.used⟩

theorem State.Flowing.next (flowing : s.Flowing) (older : s.pipes.Older s'.pipes)
    (spares : ∀ r p, s.pipes.pipes r = some p → p.freed = false → s.Unposted s' p.readSemId ∧
      s.Unposted s' p.writeSemId) :
    s'.Flowing := by
  intro r p' here isOpen
  obtain ⟨p, was, alike⟩ := older r p' here
  have wasOpen : p.freed = false := by
    obtain ⟨_, _, rfl, still⟩ := alike
    exact still isOpen
  exact (flowing r p was wasOpen).spared alike (spares r p was wasOpen).1 (spares r p was wasOpen).2

/-- What happens is about no semaphore. -/
theorem State.Flowing.quiet (flowing : s.Flowing) (older : s.pipes.Older s'.pipes)
    (granted : s'.procs.granted = s.procs.granted)
    (new : List Event) (history : s'.history = new ++ s.history) (others : ∀ event ∈ new, event.sem = none) :
    s'.Flowing := by
  have spares : ∀ sem, s.Unposted s' sem := fun sem => .of_others granted new history fun event member => by
    rw [others event member]
    exact Option.some_ne_none sem |>.symm
  exact flowing.next older fun _ p _ _ => ⟨spares p.readSemId, spares p.writeSemId⟩

/-- A pipe that is new. -/
theorem Opened.flowing (opened : Opened s pipeId s') (booked : s.Booked) (tidy : s.Tidy)
    (books : Books s) (flowing : s.Flowing) :
    s'.Flowing := by
  obtain ⟨procs, -⟩ := opened.procs
  obtain ⟨-, ⟨older, -, history⟩ | ⟨-, history, pipes⟩⟩ := opened.pipes
  · exact flowing.quiet older (by rw [procs]) [_] history (List.forall_mem_singleton.mpr rfl)
  · intro r p' here isOpen
    rcases pipes r p' here with ⟨p, was, alike⟩ | ⟨_, _, rfl, -⟩
    · have wasOpen : p.freed = false := by
        obtain ⟨_, _, rfl, still⟩ := alike
        exact still isOpen
      have card : s.pipes.card r = some p.card := congrArg (Option.map Pipe.card) was
      have spares : ∀ sem, sem < s.sems.semId → s.Unposted s' sem := by
        intro sem low
        refine .of_others (by rw [procs]) _ history fun event member same => ?_
        simp only [List.mem_cons, List.not_mem_nil, or_false] at member
        rcases member with rfl | rfl | rfl | rfl
        · cases same
        · cases same
        · exact Int.ne_of_gt (Int.lt_trans low (Int.lt_succ _)) (Option.some.inj same)
        · exact Int.ne_of_gt low (Option.some.inj same)
      exact (flowing r p was wasOpen).spared alike (spares _ (books.below (.reads r) _ ⟨p.card, card, rfl⟩))
        (spares _ (books.below (.writes r) _ ⟨p.card, card, rfl⟩))
    · obtain ⟨readNew, readOwed⟩ := booked.new tidy (Int.le_refl s.sems.semId)
      obtain ⟨writeNew, writeOwed⟩ := booked.new tidy (Int.le_of_lt (Int.lt_succ s.sems.semId))
      have unused : ∀ sem, sem = s.sems.semId ∨ sem = s.sems.semId + 1 → posts sem s'.history = 0 ∧
        s'.used sem = 0 := by
        intro sem here
        have fresh : (∀ event ∈ s.history, event.sem ≠ some sem) ∧ s.procs.owed sem = 0 := by
          rcases here with rfl | rfl
          · exact ⟨readNew, readOwed⟩
          · exact ⟨writeNew, writeOwed⟩
        have none : notes sem s'.history = [] := by
          rw [history, notes_append, notes_others fresh.1]
          rfl
        unfold State.used grants posts
        rw [none, procs, fresh.2]
        exact ⟨rfl, rfl⟩
      have first : initials s.sems.semId s'.history = [0] ∧
          initials (s.sems.semId + 1) s'.history = [(PIPE_BUFFER_SIZE : Int)] := by
        rw [history, initials_append, initials_append, initials_others readNew, initials_others writeNew]
        simp [initials, Event.initial]
      obtain ⟨noPosts, noUse⟩ := unused _ (.inl rfl)
      obtain ⟨noPosts', noUse'⟩ := unused _ (.inr rfl)
      exact ⟨Ring.carries_empty _ _, first, ⟨noPosts, Int.le_of_eq noUse'.symm⟩, noPosts', Int.le_of_eq noUse.symm⟩

/-- A unit of one of its semaphores goes to the other, and a pipe is written to or read from. -/
theorem State.Flowing.exchanged (flowing : s.Flowing) (books : Books s) (here : s.pipes.pipes r = some p)
    (exchanges : s.Exchanges s' a b) (own : a = p.readSemId ∧ b = p.writeSemId ∨ a = p.writeSemId ∧ b = p.readSemId)
    (pipes : s'.pipes.pipes = Function.update s.pipes.pipes r (some p')) (flows : s'.Flows p') : s'.Flowing := by
  intro r' q now isOpen
  rw [pipes] at now
  by_cases this : r' = r
  · subst this
    rw [Function.update_self, Option.some.injEq] at now
    exact now ▸ flows
  · rw [Function.update_of_ne this] at now
    have card : s.pipes.card r' = some q.card := congrArg (Option.map Pipe.card) now
    have read := books.foreign here (o := .reads r') ⟨q.card, card, rfl⟩ (fun same => this (Owner.reads.inj same)) nofun
    have write := books.foreign here (o := .writes r') ⟨q.card, card, rfl⟩ nofun fun same =>
      this (Owner.writes.inj same)
    change q.readSemId ≠ _ ∧ q.readSemId ≠ _ at read
    change q.writeSemId ≠ _ ∧ q.writeSemId ≠ _ at write
    refine (flowing r' q now isOpen).spared (.refl q) (exchanges.others _ ?_ ?_) (exchanges.others _ ?_ ?_)
    all_goals rcases own with ⟨rfl, rfl⟩ | ⟨rfl, rfl⟩ <;> grind

/-- The pipes are written to and read from by those who could wait, and nobody else posts their semaphores. -/
def flows : Deed → State → State → Prop
  | .posts sem, s, _ => sem = s.pipes.allPipesSem ∨
      ∀ r p, s.pipes.pipes r = some p → p.freed = false → sem ≠ p.readSemId ∧ sem ≠ p.writeSemId
  | .puts r _, s, _ => ∀ c p, s.procs.currentProcessPCB = some c → s.pipes.pipes r = some p → s.Fair c p.writeSemId
  | .takes r, s, _ => ∀ c p, s.procs.currentProcessPCB = some c → s.pipes.pipes r = some p → s.Fair c p.readSemId
  | _, _, _ => True

theorem Does.flowing_put (working : Working s c) (orderly : s.Orderly) (tidy : s.Tidy)
    (books : Books s) (booked : s.Booked)
    (flowing : s.Flowing) (allowed : flows (.puts r ch) s s') (here : s.pipes.pipes r = some p)
    (isOpen : p.freed = false)
    (passed : Passed s c p.writeSemId s₁)
    (posted : Posts { s₁ with pipes := s₁.pipes.modify r (·.put ch) } p.readSemId s') :
    s'.Flowing := by
  have fair := allowed c p working.running here
  have here₁ : s₁.pipes.pipes r = some p := by rw [passed.pipes, here]
  have finds := books.finds here isOpen
  have finds₁ := ((passed.kindred working).books books).finds here₁ isOpen
  have working₂ := (working.passed passed).writePipe r (f := (·.put ch)) fun _ => ⟨rfl, rfl⟩
  have old := flowing r p here isOpen
  have within := passed_within working orderly booked passed fair finds.2 finds₁.2 old.initials.2 (by decide)
  have exchanges := exchanges orderly tidy passed working₂ posted fair finds.2 finds₁.1 (books.two here).symm
  -- There is a unit for every cell that is free.
  have room : p.puts.length < p.takes.length + PIPE_BUFFER_SIZE := by
    rw [old.read.1] at within
    have used := old.written.2
    omega
  have pipes : s'.pipes.pipes = Function.update s.pipes.pipes r (some (p.put ch)) := by
    rw [posted.pipes, ← passed.pipes]
    simp [Pipes.modify, here₁]
  refine flowing.exchanged books here exchanges (.inr ⟨rfl, rfl⟩) pipes ⟨old.ring.put room ch, ?_, ⟨?_, ?_⟩, ?_, ?_⟩
  · exact ⟨exchanges.counts.2.trans old.initials.1, exchanges.spares.2.trans old.initials.2⟩
  · exact exchanges.counts.1.trans (by rw [old.written.1]; simp [Pipe.put])
  · have used := old.written.2
    have uses := exchanges.uses
    simp only [Pipe.put, List.length_append, List.length_singleton]
    omega
  · exact exchanges.spares.1.trans old.read.1
  · exact Int.le_trans old.read.2 exchanges.keeps

theorem Does.flowing_take (working : Working s c) (orderly : s.Orderly) (tidy : s.Tidy)
    (books : Books s) (booked : s.Booked)
    (flowing : s.Flowing) (allowed : flows (.takes r) s s') (here : s.pipes.pipes r = some p) (isOpen : p.freed = false)
    (passed : Passed s c p.readSemId s₁)
    (posted : Posts { s₁ with pipes := s₁.pipes.modify r Pipe.take } p.writeSemId s') :
    s'.Flowing := by
  have fair := allowed c p working.running here
  have here₁ : s₁.pipes.pipes r = some p := by rw [passed.pipes, here]
  have finds := books.finds here isOpen
  have finds₁ := ((passed.kindred working).books books).finds here₁ isOpen
  have working₂ := (working.passed passed).writePipe r (f := Pipe.take) fun _ => ⟨rfl, rfl⟩
  have old := flowing r p here isOpen
  have within := passed_within working orderly booked passed fair finds.1 finds₁.1 old.initials.1 (Int.le_refl 0)
  have exchanges := exchanges orderly tidy passed working₂ posted fair finds.1 finds₁.2 (books.two here)
  -- There is a unit for every character that was not read.
  have unread : p.takes.length < p.puts.length := by
    rw [old.written.1] at within
    have used := old.read.2
    omega
  have pipes : s'.pipes.pipes = Function.update s.pipes.pipes r (some p.take) := by
    rw [posted.pipes, ← passed.pipes]
    simp [Pipes.modify, here₁]
  refine flowing.exchanged books here exchanges (.inl ⟨rfl, rfl⟩) pipes ⟨old.ring.take unread, ?_, ⟨?_, ?_⟩, ?_, ?_⟩
  · exact ⟨exchanges.spares.2.trans old.initials.1, exchanges.counts.2.trans old.initials.2⟩
  · exact exchanges.spares.1.trans old.written.1
  · exact Int.le_trans old.written.2 exchanges.keeps
  · exact exchanges.counts.1.trans (by rw [old.read.1]; simp [Pipe.take])
  · have used := old.read.2
    have uses := exchanges.uses
    simp only [Pipe.take, List.length_append, List.length_singleton]
    omega

/-- Nobody but the pipe posts its semaphores. -/
theorem spares_of_flows (tidy : s.Tidy) (books : Books s) (allowed : flows deed s s') (leaves : deed.leavesPipes)
    (here : s.pipes.pipes r = some p) (isOpen : p.freed = false) : ¬s.Gives p.readSemId deed ∧
    ¬s.Gives p.writeSemId deed := by
  cases deed with
  | posts sem =>
    rcases allowed with rfl | foreign
    · obtain ⟨read, write⟩ := tidy.apart r p here
      exact ⟨read.symm, write.symm⟩
    · exact foreign r p here isOpen
  | exits pid =>
    have own : ∀ sem, s.Gives sem (.exits pid) → sem ≠ p.readSemId ∧ sem ≠ p.writeSemId := by
      rintro _ ⟨r', q, target, block, rfl⟩
      exact books.foreign here (o := .process r') ⟨q, block, rfl⟩ nofun nofun
    exact ⟨fun gives => (own _ gives).1 rfl, fun gives => (own _ gives).2 rfl⟩
  | puts r ch => exact leaves.elim
  | takes r => exact leaves.elim
  | _ => exact ⟨fun gives => gives, fun gives => gives⟩

theorem Does.flowing (working : Working s c) (accounted : s.Accounted) (flowing : s.Flowing) (allowed : flows deed s s')
    (does : Does s c deed s') : s'.Flowing := by
  obtain ⟨orderly, tidy, books, booked⟩ := accounted
  by_cases leaves : deed.leavesPipes
  · refine flowing.next (does.older working.sound leaves) fun r p here isOpen => ?_
    have card : s.pipes.card r = some p.card := congrArg (Option.map Pipe.card) here
    obtain ⟨read, write⟩ := spares_of_flows tidy books allowed leaves here isOpen
    exact ⟨does.unposted (books.below (.reads r) _ ⟨p.card, card, rfl⟩) read,
      does.unposted (books.below (.writes r) _ ⟨p.card, card, rfl⟩) write⟩
  · cases does with
    | opened opened => exact opened.flowing booked tidy books flowing
    | put here isOpen passed posts =>
      exact flowing_put working orderly tidy books booked flowing allowed here isOpen passed posts
    | took here isOpen passed posts =>
      exact flowing_take working orderly tidy books booked flowing allowed here isOpen passed posts
    | _ => exact (leaves trivial).elim

/-! ## The end of a process -/

/-- The pipe that the process wrote to, if it was there, had room for the end of the output. -/
def Event.hadRoom : Event → Bool
  | .reaped p before _ => p.fileDescriptors.2 = STDOUT_PIPENO ||
      ((before.1.find p.fileDescriptors.2).bind before.1.pipes).all fun pipe =>
        (before.2.find pipe.writeSemId).any (0 < ·.value)
  | _ => true

/-- `freeProcess` writes to a pipe where there is room, and posts no semaphore of a pipe. -/
theorem flowing_rests : Rests (fun event => event.hadRoom) flows State.Flowing where
  deeds working accounted flowing allowed does := does.flowing working accounted flowing allowed
  thins accounted flowing thins := by
    obtain ⟨new, history, plain⟩ := thins.new
    exact flowing.quiet (by rw [thins.pipes]; exact Pipes.older_same rfl) thins.granted new history fun event member =>
      (plain event member).1
  retires := by
    intro s s' c p before after deed working accounted flowing block dead room retired
    have foreign : ∀ r q, s.pipes.pipes r = some q → p.semId ≠ q.readSemId ∧ p.semId ≠ q.writeSemId := fun r q here =>
      accounted.books.foreign here (o := .process c) ⟨p, block, rfl⟩ nofun nofun
    cases deed with
    | posts sem =>
      rcases retired with rfl | mutex
      · exact .inr fun r q here _ => foreign r q here
      · exact .inl mutex
    | takes r => exact retired.elim
    | puts r ch =>
      obtain ⟨-, output, found, pipes, sems⟩ := retired
      intro c' q _ here
      rw [pipes] at here
      simp only [Event.hadRoom, decide_eq_false output, found, Option.bind_some, here, Option.all_some, Bool.false_or,
        Option.any_eq_true, decide_eq_true_eq] at room
      rw [← pipes] at here
      obtain ⟨x, there, positive⟩ := room
      exact .inr ⟨x, by rw [sems _ (foreign r q here).2.symm, there], positive⟩
    | _ => trivial

/-! ## Runs -/

/-- The call posts no semaphore of a pipe by its id. -/
def State.SparesPipes (s : State) : Call → Prop
  | .semPost id => ∀ r ∈ values s.pipes.pipeQueue, ∀ p ∈ s.pipes.pipes r, id ≠ p.readSemId ∧ id ≠ p.writeSemId
  | _ => True

instance (s : State) : (call : Call) → Decidable (s.SparesPipes call)
  | .semPost id => inferInstanceAs (Decidable (∀ r ∈ values s.pipes.pipeQueue, ∀ p ∈ s.pipes.pipes r,
      id ≠ p.readSemId ∧ id ≠ p.writeSemId))
  | .startTask .. | .resumeTask _ | .killCurrent | .killTask _ | .blockTask _ | .waitpid
    _ | .nice .. | .yield | .semInit _
  | .semWait _ | .pipeOpen _ | .pipeClose _ | .pipeRead _ | .pipePutchar .. | .pipeWrite .. | .killCurrentForeground =>
    .isTrue trivial

theorem calls_flow (keeps : ∀ s call, allowed s call → s.KeepsLine call ∧ s.SparesPipes call) :
    (discipline fun deed s s' => keepsLine deed s s' ∧ flows deed s s').Calls (Issues allowed) := by
  apply calls_of_covers
  intro start call permitted deed makes s s' c finds acting _
  obtain ⟨line, spares⟩ := keeps start call permitted
  have fair : ∀ c' sem, s.procs.currentProcessPCB = some c' → s.Fair c' sem := by
    intro c' sem running
    obtain rfl : c = c' := Option.some.inj (acting.working.running.symm.trans running)
    obtain ⟨pid, p, block, ready, -⟩ := acting.ready
    exact .inl ⟨p, block, ready⟩
  refine ⟨keepsLine_of_call line makes finds, ?_⟩
  cases deed with
  | posts sem =>
    cases call with
    | semPost id =>
      obtain rfl : sem = id := makes
      obtain rfl : s = start := finds
      exact .inr fun r p here isOpen => spares r (acting.working.sound.pipes.listed r p here isOpen) p here
    | startTask process argv foreground fd => exact .inl finds
    | pipeOpen pipeId => exact .inl finds
    | pipeClose pipeId => exact .inl finds
    | _ => exact makes.elim
  | puts r ch => exact fun c' p running _ => fair c' p.writeSemId running
  | takes r => exact fun c' p running _ => fair c' p.readSemId running
  | _ => trivial

theorem flowing_boot (garbage : Option Ref × List Ref) : (bootState (fun _ => true) garbage).Flowing := by
  intro r p here _
  obtain rfl := bootPipes_some here
  exact ⟨Ring.carries_empty _ _, ⟨rfl, rfl⟩, ⟨rfl, Int.le_of_eq rfl⟩, rfl, Int.le_of_eq rfl⟩

variable {allowed : State → Call → Prop} {garbage : Option Ref × List Ref} {S : System}

/-- The pipe with what is in it, between its two semaphores. -/
structure State.Streams (s : State) (p : Pipe) (unread : List Int8) (read write : Sem) : Prop where
  order : p.puts = p.takes ++ unread
  fits : unread.length ≤ PIPE_BUFFER_SIZE
  index : p.writeIndex = (p.readIndex + unread.length) % PIPE_BUFFER_SIZE
  cells : ∀ i (inside : i < unread.length), p.buffer ((p.readIndex + i) % PIPE_BUFFER_SIZE) = unread[i]
  found : s.sems.find p.readSemId = some read ∧ s.sems.find p.writeSemId = some write
  valid : 0 ≤ read.value ∧ 0 ≤ write.value
  readers : read.value + s.procs.owed p.readSemId ≤ unread.length
  writers : write.value + s.procs.owed p.writeSemId + unread.length ≤ PIPE_BUFFER_SIZE
  written : read.value + grants p.readSemId s.history = p.puts.length
  taken : write.value + grants p.writeSemId s.history = PIPE_BUFFER_SIZE + p.takes.length
  waits : (read.pids ≠ [] → read.value = 0) ∧ (write.pids ≠ [] → write.value = 0)

/-- **A pipe hands over what was written, in order.** In every state that is reachable while memory
is granted, nobody is resumed in line, nobody but the pipes posts their semaphores, and whoever
ended had room in the pipe for the end of its output, this holds of every open pipe: what was read
is the beginning of what was written, and the rest, of `PIPE_BUFFER_SIZE` characters at most, is in
the buffer from `readIndex` on, round to `writeIndex`. There are no more units for readers, in the
semaphore or handed out and not yet used, than characters that were not read, and no more for
writers than free cells; every character written is a unit that is there or was given to a reader,
and nobody waits for a unit that is there. -/
theorem pipes_flow (keeps : ∀ s call, allowed s call → s.KeepsLine call ∧ s.SparesPipes call)
    (run : Run allowed (boot (fun _ => true) garbage) S) (room : ∀ event ∈ S.state.history, event.hadRoom) :
    ∀ r p, S.state.pipes.pipes r = some p → p.freed = false →
    ∃ unread read write, S.state.Streams p unread read write := by
  intro r p here isOpen
  obtain ⟨accounted, flowing⟩ := flowing_rests.reachable (calls_flow keeps) (flowing_boot garbage) run room
  have flows := flowing r p here isOpen
  obtain ⟨unread, split, index, holds⟩ := flows.ring.unread
  obtain ⟨readOpen, writeOpen⟩ := accounted.books.finds here isOpen
  have counted : ∀ {sem v}, S.state.sems.find sem ≠ none → initials sem S.state.history = [v] → 0 ≤ v →
      ∃ x, S.state.sems.find sem = some x ∧ 0 ≤ x.value ∧
        x.value + grants sem S.state.history = v + posts sem S.state.history ∧ (x.pids ≠ [] → x.value = 0) := by
    intro sem v isOpen first valid
    obtain ⟨x, found⟩ := Option.ne_none_iff_exists'.mp isOpen
    obtain ⟨listed, rfl⟩ := find_some found
    obtain ⟨v', first', steps⟩ := accounted.booked.books x listed
    cases first.symm.trans first'
    have low := Int.le_trans (Int.le_of_eq (Int.min_eq_right valid).symm) steps.min_le_value
    exact ⟨x, found, low, steps.value_add_grants, fun waits => by
      have empty := steps.line_eq_nil rfl
      dsimp only at low empty
      exact Int.le_antisymm (Int.not_lt.mp fun positive => waits (empty positive)) low⟩
  obtain ⟨read, foundRead, readLow, readUnits, readLine⟩ := counted readOpen flows.initials.1 (Int.le_refl 0)
  obtain ⟨write, foundWrite, writeLow, writeUnits, writeLine⟩ := counted writeOpen flows.initials.2 (by decide)
  obtain ⟨written, writers⟩ := flows.written
  obtain ⟨taken, readers⟩ := flows.read
  unfold State.used at writers readers
  rw [written] at readUnits
  rw [taken] at writeUnits
  have lengths : p.puts.length = p.takes.length + unread.length := by rw [split, List.length_append]
  refine ⟨unread, read, write, split, ?_, index, holds, ⟨foundRead, foundWrite⟩, ⟨readLow, writeLow⟩,
    ?_, ?_, ?_, writeUnits,
    readLine, writeLine⟩
  · omega
  · omega
  · omega
  · omega

/-- The shell opens pipe 7 and writes two characters, and a process that has the pipe as its output
is killed and reaped, which adds the end of its output; then the shell reads the two. -/
theorem pipes_flow_reaped : ∃ S, Run (fun s call => s.KeepsLine call ∧ s.SparesPipes call)
    (boot (fun _ => true) (none, [])) S ∧
    (values S.state.pipes.pipeQueue).map (fun r => (S.state.pipes.pipes r).map fun p => (p.puts, p.takes)) =
      [some ([], []), some ([65, 66, -1], [65, 66])] ∧
    ∀ r p, S.state.pipes.pipes r = some p → p.freed = false →
    ∃ unread read write, S.state.Streams p unread read write := by
  have played :
    ((play (fun s call => decide (s.KeepsLine call ∧ s.SparesPipes call)) [.schedule, .schedule, .schedule, .schedule,
      .call (.pipeOpen 7), .call (.startTask (some 0) ["cat"] 0 (some (0, 7))), .call (.pipePutchar 7 65),
      .call (.pipePutchar 7 66),
      .call (.killTask 4), .call (.waitpid 4), .schedule, .schedule, .schedule, .schedule,
      .call (.pipeRead 7), .call (.pipeRead 7)]
      (boot (fun _ => true) (none, []))).map fun S => (S.state.history.all Event.hadRoom,
        (values S.state.pipes.pipeQueue).map fun r => (S.state.pipes.pipes r).map fun p => (p.puts, p.takes))) =
      some (true, [some ([], []), some ([65, 66, -1], [65, 66])]) := by decide +kernel
  obtain ⟨S, played, observed⟩ := Option.map_eq_some_iff.mp played
  have run : Run (fun s call => s.KeepsLine call ∧ s.SparesPipes call) (boot (fun _ => true) (none, [])) S :=
    play_run (fun _ _ => of_decide_eq_true) played
  obtain ⟨room, pipes⟩ := Prod.mk.inj observed
  exact ⟨S, run, pipes, pipes_flow (fun _ _ keeps => keeps) run (List.all_eq_true.mp room)⟩

end QuesOs.Kernel
