import QuesOs.Children
import QuesOs.Occurrences

/-! Where `sendTaskToInit` looks for the process that is terminated: in the queue, in
which the running process is not. A process is terminated at the end of a `waitpid`
and by `terminateChildren` on Ctrl+C, and it is running where a process waited for
itself, and where Ctrl+C arrives while a child of the one to be killed runs. -/
namespace QuesOs.Kernel
open Resumption Threads

variable {s s' : State} {c t r : Ref} {p q : Pcb} {pid : Int} {made : Option (Ref × Pcb)} {since : State}

/-! ## When the process is found -/

/-- The process is dead, or not there, or `sendTaskToInit` finds it: it is not the running one, and the lookup
that comes two requests after that of `changeState` gets memory if the latter did. -/
def State.FindsKilled (s : State) (pid : Int) : Prop :=
  (∀ c p, s.procs.currentProcessPCB = some c → s.procs.pcbs c = some p → p.pid = pid → p.state = .terminated) ∧
  ∀ r ∈ values s.procs.queue, ∀ p, s.procs.pcbs r = some p → p.pid = pid → p.state ≠ .terminated →
    s.heap.Grants 0 → s.heap.Grants 2

/-- An action that ends well or fails in one way fails exactly where it does not end well. -/
theorem null_iff {α : Type} {f : K α} {fine : Prop}
    (meets : Meets (fun e => e = .nullPointer ∧ ¬fine) f (fun _ _ => fine) s) :
    f.run s ≠ .error .nullPointer ↔ fine := by
  unfold Meets at meets
  cases ran : f.run s with
  | ok result =>
    rw [ran] at meets
    exact ⟨fun _ => meets, fun _ => nofun⟩
  | error e =>
    rw [ran] at meets
    obtain ⟨rfl, not⟩ := meets
    exact ⟨fun never => (never rfl).elim, fun fine => (not fine).elim⟩

theorem changeState_null_iff (lists : s.procs.Lists c) (pid : Int) :
    (changeState pid .terminated).run s ≠ .error .nullPointer ↔ s.FindsKilled pid := by
  obtain ⟨q, block⟩ := lists.current
  have running : (q.pid = pid → q.state = .terminated) ↔ ∀ c p, s.procs.currentProcessPCB = some c →
    s.procs.pcbs c = some p →
      p.pid = pid → p.state = .terminated := by
    constructor
    · intro here c' p running' block'
      cases lists.running.symm.trans running'
      cases block.symm.trans block'
      exact here
    · exact fun here => here c q lists.running block
  unfold State.FindsKilled
  rw [← running]
  apply null_iff
  by_cases own : q.pid = pid
  · subst own
    have queued : ∀ r ∈ values s.procs.queue, ∀ p, s.procs.pcbs r = some p → p.pid = q.pid → p.state ≠ .terminated →
        s.heap.Grants 0 → s.heap.Grants 2 := fun r member p block' same => (lists.other block member block' same).elim
    refine ((terminate_running lists block).mono fun _ _ dead => ⟨fun _ => dead.1, queued⟩).allow ?_
    exact fun e null => ⟨null.1, fun fine => null.2 (fine.1 rfl)⟩
  · cases found : s.procs.process pid with
    | some r =>
      obtain ⟨member, p, block', rfl⟩ := process_some found
      have only : ∀ x ∈ values s.procs.queue, ∀ p', s.procs.pcbs x = some p' → p'.pid = p.pid → p' = p := by
        intro x member' p' block'' same
        have here : x = r := lists.unique x (List.mem_cons_of_mem _ member') r (List.mem_cons_of_mem _ member)
          (by simp [Procs.pidOf, block', block'', same])
        subst here
        exact Option.some.inj (block''.symm.trans block')
      refine ((terminate_queued lists member block').mono ?_).allow ?_
      · intro _ s' buries
        refine ⟨fun same => (own same).elim, ?_⟩
        intro x member' p' block'' same alive granted
        obtain rfl := only x member' p' block'' same
        cases buries with
        | spared why => exact (why.elim alive fun refused => refused granted).elim
        | buried _ _ again => exact again
      · rintro e ⟨null, alive, granted, missing⟩
        exact ⟨null, fun fine => missing (fine.2 r member p block' rfl alive granted)⟩
    | none =>
      have nobody : ∀ r ∈ values s.procs.queue, ∀ p, s.procs.pcbs r = some p → p.pid = pid → p.state ≠ .terminated →
          s.heap.Grants 0 → s.heap.Grants 2 := by
        intro r member p block' same
        rw [← same, lists.process member block'] at found
        cases found
      unfold changeState changeStateWith
      rw [meets_bind]
      refine (processOf_asks lists.running block lists.alive pid).mono ?_
      rintro _ s₁ ⟨rfl, h, -, rfl⟩
      have none : s.sought pid = Option.none := by
        unfold State.sought
        split
        · exact found
        · rfl
      rw [if_neg (Ne.symm own), none]
      exact ⟨fun same => (own same).elim, nobody⟩

theorem terminateChildren_null_iff (lists : s.procs.Lists c) (pid : Int) :
    (terminateChildren pid).run s ≠ .error .nullPointer ↔ s.procs.SparesRunning pid ∧ s.Finds pid 1 [] s.examines :=
  null_iff ((terminateChildren_spec lists pid).mono fun _ _ after => ⟨after.1, after.2.1⟩)

/-! ## In every turn -/

theorem State.Located.lists (located : s.Located) : ∃ c, s.procs.Lists c := by
  obtain ⟨c, running⟩ := Option.ne_none_iff_exists'.mp located.running
  obtain ⟨apart, there⟩ := located.placed.running c running
  have pids : ∀ r ∈ c :: values s.procs.queue, s.procs.pidOf r ≠ none := by
    intro r member
    rcases List.mem_cons.mp member with rfl | member
    · exact there
    · exact located.placed.queued r member
  refine ⟨c, running, List.nodup_cons.mpr ⟨apart, located.placed.once⟩, fun r member none =>
    ?_, fun r member r' _ same => ?_⟩
  · exact pids r member (congrArg (Option.map Pcb.pid) none)
  · obtain ⟨i, here⟩ := Option.ne_none_iff_exists'.mp (pids r member)
    exact located.numbered.unique r r' i here (same.symm.trans here)

theorem State.Steady.located (steady : s.Steady s') (located : s.Located) : s'.Located :=
  ⟨⟨steady.placed located.placed, steady.current ▸ located.running⟩, steady.toAlike.numbered located.numbered⟩

/-- All along the program, everybody is in place. -/
def Trails {α : Type} (t : Ref) (made : Option (Ref × Pcb)) (p : Task α) : Prop :=
  ∀ since s, Placing t made since s → p.Along State.Located (Replaced t) s

theorem Trails.lift {α : Type} (f : K α) : Trails t made (liftM f : Task α) := fun _ _ placing => .lift placing.located

theorem Trails.pure {α : Type} (a : α) : Trails t made (Pure.pure a : Task α) := fun _ _ _ => trivial

theorem Trails.every {α : Type} {p : Task α} (every : p.Every Steadily) : Trails t made p := by
  intro since s placing
  have keeps : ∀ {β : Type} {f : K β}, Steadily f → Keeps (fun _ => True) State.Located f :=
    fun steady s located => (steady s).mono fun _ _ after => after.located located
  refine Program.Along.every every keeps placing.located fun _ s' found => ?_
  exact ⟨⟨found.placed, fun none => nomatch found.running.symm.trans none⟩, found.numbered⟩

theorem Trails.bind {α β : Type} {p : Task α} {f : α → Task β} {middle : α → Option (Ref × Pcb) → Prop}
    (first : Trails t made p)
    (places : Places t made p middle) (rest : ∀ a made', middle a made' → Trails t made' (f a)) :
    Trails t made (p >>= f) := by
  intro since s placing
  refine (first since s placing).bind ((places since s placing).mono ?_)
  rintro a since' s' ⟨made', here, placing'⟩
  exact rest a made' here since' s' placing'

/-- Steady programs come first, and then the rest. -/
theorem Trails.after {α β : Type} {p : Task α} {f : α → Task β} (every : p.Every Steadily)
    (rest : ∀ a, Trails t made (f a)) :
    Trails t made (p >>= f) := by
  refine Trails.bind (.every every) (.every every) ?_
  rintro a _ rfl
  exact rest a

theorem trails_initializeBlock (name : String) (foreground : Int) (fd : Int × Int) (made : Option (Ref × Pcb)) :
    Trails t made (initializeBlock name foreground fd) := by
  refine Trails.bind (.lift _) (places_allocateBlock name foreground fd made) fun goes made' _ => ?_
  have opened : ∀ {P : Prop} [Decidable P] (pipeId : Int) (rest : Unit → Task Bool), Trails t made' (rest ()) →
      Trails t made' (if P then (discard <| pipeOpen pipeId) >>= rest else rest ()) := by
    intro P _ pipeId rest trails
    split
    · exact .after (every_pipeOpen steady_elementary pipeId).discard fun _ => trails
    · exact trails
  cases goes with
  | false => exact .pure _
  | true =>
    rw [if_pos rfl]
    exact opened _ _ (opened _ _ (.lift _))

theorem trails_freeProcess (r : Ref) (p : Pcb) : Trails t made (freeProcess r p) :=
  .after (every_get steady_elementary) fun _ => .after (.lift (built_freeArguments steady_elementary p)) fun _ =>
    .after (every_freePipes steady_elementary p.fileDescriptors) fun _ => .after (every_get steady_elementary) fun _ =>
      .after (.lift (steady_primitive.notes _)) fun _ => .lift _

theorem trails_fillNewProcess (argv : List String) (foreground : Int) :
    Trails t (some (r, p)) (fillNewProcess argv foreground) := by
  refine .after (.lift steady_primitive.asks) fun args =>
    .after (.lift (built_cpyArgs steady_primitive args argv)) fun strings => ?_
  cases strings with
  | some strings => exact .lift _
  | none =>
    refine Trails.bind (.lift _) (places_readNewProcess r p) ?_
    rintro _ _ ⟨rfl, rfl⟩
    have given : Places t (some (r, p)) (liftM (setNewProcess none) : Task Unit) fun _ _ => True := places_giveUp
    refine Trails.bind (trails_freeProcess r p) (places_freeProcess r p) ?_
    rintro _ _ rfl
    exact .bind (.lift _) given fun _ _ _ => .pure _

theorem trails_startTask (process : Option Ref) (argv : List String) (foreground : Int) (fd : Option (Int × Int))
    (made : Option (Ref × Pcb)) : Trails t made (startTask process argv foreground fd) := by
  unfold startTask
  split
  · exact .pure _
  · refine .after (.lift (built_deref steady_primitive argv.head?)) fun name => ?_
    refine .after (.lift (built_descriptorsOf steady_primitive fd)) fun fd => ?_
    refine Trails.bind (trails_initializeBlock name foreground fd _) (places_initializeBlock name foreground fd _) ?_
    intro goes made' given
    cases goes with
    | false => exact .pure _
    | true =>
      obtain ⟨r, p, rfl⟩ := given rfl
      exact trails_fillNewProcess argv foreground

theorem trails_call (call : Call) (made : Option (Ref × Pcb)) : Trails t made call.perform := by
  cases call with
  | startTask process argv foreground fd => exact trails_startTask process argv foreground fd made
  | _ => exact .every (every_call steady_elementary _ (by nofun))

/-! ## Every run -/

variable {grants : Nat → Bool} {garbage : Option Ref × List Ref} {allowed : State → Call → Prop} {S S₀ : System}

/-- Whoever terminates processes, and where it finds them. -/
inductive Reparents : {β : Type} → K β → (State → Prop) → Prop
  | changeState (pid : Int) : Reparents (Kernel.changeState pid .terminated) (·.FindsKilled pid)
  | terminateChildren (pid : Int) : Reparents (Kernel.terminateChildren pid) fun s =>
    s.procs.SparesRunning pid ∧ s.Finds pid 1 [] s.examines

/-- **Whatever a turn of a run terminates**, `sendTaskToInit` finds it exactly where it is not running and
there is memory for the second lookup. -/
theorem reparenting_finds_iff {program : Task Int} {β : Type} {f : K β} {found : State → Prop}
    (first : Step machine (Issues allowed) (boot grants garbage) S₀) (run : Run allowed S₀ S)
    (due : S.Due machine (Issues allowed) program) (comes : program.Comes S.state f s) (reparents : Reparents f found) :
    f.run s ≠ .error .nullPointer ↔ found s := by
  have along : ∀ s p t, Issues allowed s p → s.Located → True → s.procs.currentProcessPCB = some t →
      p.Along State.Located (locating.Resumed t) s := by
    rintro s p t ⟨call, -, rfl, -⟩ located - running
    refine (trails_call (t := t) call (s.procs.newProcess t) s s ?_).again ?_
    · exact ⟨⟨located.numbered, running, rfl, fun _ _ => rfl⟩, located.placed, rfl⟩
    · rintro s' s'' ⟨located', -, running', same⟩
      exact ⟨⟨located'.numbered, running', same⟩, located'.placed⟩
  have nobody : locating.Watches State.Located S₀ := by
    cases first with
    | schedule => nofun
    | resume turn => cases turn
    | call turn => cases turn
  have located := locating.comes_run (locating_calls allowed) along (locating_dispatched first) nobody run due comes
  obtain ⟨c, lists⟩ := located.lists
  cases reparents with
  | changeState pid => exact changeState_null_iff lists pid
  | terminateChildren pid => exact terminateChildren_null_iff lists pid

/-- Ctrl+C, when the running process is none that it kills. -/
theorem comes_terminateChildren (running : s.procs.currentProcessPCB = some c) (block : s.procs.pcbs c = some q)
    (apart : s.procs.isForeground q = false) (granted : s.heap.Grants 0)
    (chosen : (values s.procs.queue).find? (fun r => (s.procs.pcbs r).any s.procs.isForeground) = some r)
    (target : s.procs.pcbs r = some p) :
    ∃ h, killCurrentForeground.Comes s (terminateChildren p.pid) (s.withHeap h) := by
  have first : Meets (fun _ => False) currentPcb (fun a s₁ => s₁ = s ∧ a = (c, q)) s := by
    rw [meets_currentPcb running block]
    exact ⟨rfl, rfl⟩
  obtain ⟨_, s₁, ran, same, rfl⟩ := first.returns
  rw [same] at ran
  have second : Meets (fun _ => False) (find s.procs.queue _) _ s :=
    find_asks fun r => (s.procs.pcbs r).any s.procs.isForeground
  obtain ⟨_, _, found, rfl, h, -, rfl⟩ := second.returns
  rw [if_pos granted, chosen] at found
  have third : Meets (fun _ => False) (readPcb r) (fun a s₁ => a = p ∧ s₁ = s.withHeap h) (s.withHeap h) := by
    rw [meets_readPcb, withHeap_procs, target]
    exact ⟨rfl, rfl⟩
  obtain ⟨_, _, read, rfl, rfl⟩ := third.returns
  refine ⟨h, ?_⟩
  unfold killCurrentForeground
  refine .after ran (.after rfl ?_)
  dsimp only
  rw [if_neg (by simp [apart])]
  exact .after found (.after read .first)

/-- Nothing is looked for where there are no children. -/
theorem State.Finds.of_childless {refs : List Ref}
    (childless : ∀ r ∈ refs, ∀ p, s.procs.pcbs r = some p → p.ppid ≠ pid) :
    s.Finds pid asked [] refs := by
  induction refs generalizing asked with
  | nil => trivial
  | cons r rest ih =>
    intro p block
    have present : s.procs.presentPpid [] p ≠ pid := by
      simpa [Procs.presentPpid] using childless r (List.mem_cons_self ..) p block
    rw [if_neg present]
    exact ih fun x member => childless x (List.mem_cons_of_mem _ member)

/-- The shell is running, and its child in the foreground is in the queue. -/
theorem reparenting_finds_shell : ∃ S₀ S s, Step machine (Issues fun _ _ => True) (boot (fun _ => true) (none, [])) S₀ ∧
    Run (fun _ _ => True) S₀ S ∧ killCurrentForeground.Comes S.state (terminateChildren 4) s ∧
    (terminateChildren 4).run s ≠ .error .nullPointer := by
  have played : (play (fun _ _ => true) [.call .yield, .schedule, .call (.startTask (some 0) ["p"] 1 (some (0, 1)))]
      ⟨initState (fun _ => true) (none, []), fun _ => none, false⟩).any (fun S => S.due = false ∧
      (S.contexts 35).isNone ∧
        S.state.procs.currentProcessPCB = some 35 ∧
        (S.state.procs.pcbs 35).map S.state.procs.isForeground = some false ∧
        S.state.heap.Grants 0 ∧ (S.state.procs.pcbs 41).map Pcb.pid = some 4 ∧
        (values S.state.procs.queue).find? (fun r => (S.state.procs.pcbs r).any S.state.procs.isForeground) = some 41 ∧
        ∀ r ∈ 35 :: values S.state.procs.queue, (S.state.procs.pcbs r).all (·.ppid ≠ 4)) = true := by decide +kernel
  obtain ⟨S, played, observed⟩ := (Option.any_eq_true _ _).mp played
  obtain ⟨due, fresh, running, apart, granted, target, chosen, childless⟩ := of_decide_eq_true observed
  have run : Run (fun _ _ => True) _ S := play_run (fun _ _ _ => trivial) played
  obtain ⟨q, block, apart⟩ := Option.map_eq_some_iff.mp apart
  obtain ⟨p, target, pid⟩ := Option.map_eq_some_iff.mp target
  obtain ⟨h, comes⟩ := comes_terminateChildren running block apart granted chosen target
  rw [pid] at comes
  have due : S.Due machine (Issues fun _ _ => True) killCurrentForeground :=
    ⟨35, running, due, .inr ⟨Option.isNone_iff_eq_none.mp fresh, .killCurrentForeground, trivial, rfl, .inl rfl⟩⟩
  have nobody : ∀ r ∈ 35 :: values S.state.procs.queue, ∀ p', S.state.procs.pcbs r = some p' → p'.ppid ≠ 4 := by
    intro r member p' block'
    simpa [block'] using childless r member
  have first := initState_step (Issues fun _ _ => True) (fun _ => true) (none, [])
  refine ⟨_, S, _, first, run, comes, (reparenting_finds_iff first run due comes (.terminateChildren 4)).mpr ⟨?_, ?_⟩⟩
  · intro c p' running' block' child
    cases running.symm.trans running'
    exact (nobody 35 (List.mem_cons_self ..) p' block' child).elim
  · refine .of_childless fun r member p' block' => nobody r (List.mem_cons_of_mem _ ?_) p' block'
    rw [State.examines] at member
    split at member
    · exact List.dropLast_subset _ member
    · cases member

/-- A child of the one that Ctrl+C is to kill is running. -/
theorem reparenting_loses : ∃ S₀ S s, Step machine (Issues fun _ _ => True) (boot (fun _ => true) (none, [])) S₀ ∧
    Run (fun _ _ => True) S₀ S ∧ S.Due machine (Issues fun _ _ => True) killCurrentForeground ∧
    killCurrentForeground.Comes S.state (terminateChildren 4) s ∧
    (terminateChildren 4).run s = .error .nullPointer := by
  have played :
    (play (fun _ _ => true) [.call .yield, .schedule, .call (.startTask (some 0) ["p"] 1 (some (0, 1))), .call .yield,
      .schedule, .resume, .call .yield, .schedule, .call (.startTask (some 0) ["p"] 0 (some (0, 1))),
      .call .yield, .schedule,
      .resume, .call .yield, .schedule, .resume, .call .yield, .schedule]
      ⟨initState (fun _ => true) (none, []), fun _ => none, false⟩).any (fun S => S.due = false ∧
      (S.contexts 52).isNone ∧
        S.state.procs.currentProcessPCB = some 52 ∧ (S.state.procs.pcbs 52).any (fun p =>
          S.state.procs.isForeground p = false ∧ p.ppid = 4 ∧ p.state ≠ .terminated) ∧
        S.state.heap.Grants 0 ∧ (S.state.procs.pcbs 41).map Pcb.pid = some 4 ∧
        (values S.state.procs.queue).find? (fun r => (S.state.procs.pcbs r).any S.state.procs.isForeground) =
        some 41) = true := by
    decide +kernel
  obtain ⟨S, played, observed⟩ := (Option.any_eq_true _ _).mp played
  obtain ⟨due, fresh, running, child, granted, target, chosen⟩ := of_decide_eq_true observed
  have run : Run (fun _ _ => True) _ S := play_run (fun _ _ _ => trivial) played
  obtain ⟨q, block, child⟩ := (Option.any_eq_true _ _).mp child
  obtain ⟨apart, child, alive⟩ := of_decide_eq_true child
  obtain ⟨p, target, pid⟩ := Option.map_eq_some_iff.mp target
  obtain ⟨h, comes⟩ := comes_terminateChildren running block apart granted chosen target
  rw [pid] at comes
  refine ⟨_, S, _, initState_step .., run,
    ⟨52, running, due, .inr ⟨Option.isNone_iff_eq_none.mp fresh, .killCurrentForeground, trivial, rfl, .inl rfl⟩⟩,
    comes, ?_⟩
  obtain ⟨c, lists⟩ := (located_reachable (initState_step ..) run).lists
  have lists' : (S.state.withHeap h).procs.Lists c := lists
  by_contra found
  exact alive (((terminateChildren_null_iff lists' 4).mp found).1 52 q running block child)

end QuesOs.Kernel
