/-
# Properties.Streaming -- a client that polls the stream

A client asks for the stream events beyond its cursor and passes back the cursor
that it was given.  A run only appends to its buffer (`execution_streams`), but
the next run begins with an empty one, and the cursor is kept.  So the client
gets all events exactly when it polls at the right times around each
continue-as-new (`all_events_received_iff`): when a run that has emitted
something is over, it must have been polled to the end, and the run that follows
must be polled before it emits anything.
-/
import LanggraphTemporal.Machine.Reference
import LanggraphTemporal.Theory.Tail

namespace LanggraphTemporal.Properties

set_option autoImplicit false

open Theory Theory.System Theory.History Model Model.LangGraphWorkflow Machine

variable {Chan : Type} {threshold : Option Nat}

/-! ## The client -/

/-- The buffer of the run that is going on. -/
def streamBuffer (wf : Workflow threshold Chan) : List StreamEvent :=
  match stoppedAt wf.outcome with
  | some w => w.self.streamBuffer
  | none => []

/-- A workflow and a client that polls its stream. -/
structure Streaming (threshold : Option Nat) (Chan : Type) where
  workflow : Workflow threshold Chan
  /-- The events of the runs that have continued as new. -/
  earlier : List StreamEvent := []
  cursor : Nat := 0
  received : List StreamEvent := []
  /-- The client has polled the run that is going on. -/
  polled : Bool := false

namespace Streaming

/-- All events that the runs have emitted. -/
def emitted (s : Streaming threshold Chan) : List StreamEvent := s.earlier ++ streamBuffer s.workflow

def act (action : Action Response Signal) (s : Streaming threshold Chan) : Streaming threshold Chan :=
  { s with workflow := s.workflow.act action }

def continueAsNew (s : Streaming threshold Chan) {S : Setting Chan}
    {rest : List (Action Response Signal)} {w : Execution Chan}
    (ended : s.workflow.outcome = .done (.continueAsNew S.input) rest w)
    (named : S.env.workflowId = s.workflow.current.env.workflowId) (uuids : Nat → String)
    (arrived : List Signal) : Streaming threshold Chan :=
  { s with
    workflow := s.workflow.continueAsNew ended named uuids arrived
    earlier := s.emitted
    polled := false }

/-- One query of `get_stream_buffer`, in the loop of `poll_stream`. -/
def poll (s : Streaming threshold Chan) : Streaming threshold Chan :=
  match stoppedAt s.workflow.outcome with
  | some w =>
      let result := getStreamBuffer s.cursor w.self
      { s with received := s.received ++ result.events, cursor := result.nextCursor, polled := true }
  | none => s

/-- The query is answered: the workflow waits, or its run is over. -/
def Answers (s : Streaming threshold Chan) : Prop := s.workflow.waits = true ∨ s.workflow.isOver = true

/-- The client, as a reader of the buffers. -/
def tail (s : Streaming threshold Chan) : Tail StreamEvent where
  earlier := s.earlier
  log := streamBuffer s.workflow
  cursor := s.cursor
  received := s.received
  polled := s.polled

end Streaming

/-- What happens to the two, with conditions under which a run may continue as
new and the client may poll. -/
inductive StreamStep (replaces polls : Tail StreamEvent → Prop) :
    Streaming threshold Chan → Streaming threshold Chan → Prop
  | act {s : Streaming threshold Chan} (action : Action Response Signal)
      (waits : s.workflow.waits = true) (accepted : (s.workflow.act action).outcome ≠ .refused) :
      StreamStep replaces polls s (s.act action)
  | continueAsNew {s : Streaming threshold Chan} {S : Setting Chan}
      {rest : List (Action Response Signal)} {w : Execution Chan}
      (ended : s.workflow.outcome = .done (.continueAsNew S.input) rest w)
      (named : S.env.workflowId = s.workflow.current.env.workflowId) (uuids : Nat → String)
      (arrived : List Signal) (allowed : replaces s.tail) :
      StreamStep replaces polls s (s.continueAsNew ended named uuids arrived)
  | poll {s : Streaming threshold Chan} (answers : s.Answers) (allowed : polls s.tail) :
      StreamStep replaces polls s s.poll

/-- A client starts at cursor 0, beside a workflow that begins. -/
def streamMachine (replaces polls : Tail StreamEvent → Prop) (threshold : Option Nat) (Chan : Type) :
    Machine (Streaming threshold Chan) where
  Init s := ∃ S uuids arrived, s = { workflow := .begin S uuids arrived }
  Step := StreamStep replaces polls

/-- A client that polls whenever it likes. -/
def freeMachine : (threshold : Option Nat) → (Chan : Type) → Machine (Streaming threshold Chan) :=
  streamMachine (fun _ => True) (fun _ => True)

/-- A client that polls in time: a run that has emitted events has been polled
to its end when it continues as new, and the run that follows is polled before
it emits any. -/
def timelyMachine : (threshold : Option Nat) → (Chan : Type) → Machine (Streaming threshold Chan) :=
  streamMachine Tail.ReadOut Tail.Synced

/-! ## The client reads the buffers through its cursor -/

theorem stopped_of_answers {s : Streaming threshold Chan} (answers : s.Answers) :
    ∃ w, stoppedAt s.workflow.outcome = some w := by
  refine stopped_of_accepted fun refused => ?_
  rcases answers with waits | closed
  · rw [Workflow.waits, refused] at waits
    cases waits
  · rw [Workflow.isOver, refused] at closed
    cases closed

theorem Streaming.tail_poll {s : Streaming threshold Chan} (answers : s.Answers) :
    s.poll.tail = s.tail.poll := by
  obtain ⟨w, stopped⟩ := stopped_of_answers answers
  simp only [Streaming.poll, Streaming.tail, Tail.poll, streamBuffer, getStreamBuffer, stopped]

theorem Streaming.poll_workflow (s : Streaming threshold Chan) : s.poll.workflow = s.workflow := by
  unfold Streaming.poll
  split
  · rfl
  · rfl

theorem Streaming.tail_log (s : Streaming threshold Chan) : s.tail.log = streamBuffer s.workflow := rfl

theorem Streaming.tail_act {s : Streaming threshold Chan} (action : Action Response Signal) :
    (s.act action).tail = s.tail.grow (streamBuffer (s.workflow.act action)) := rfl

theorem Streaming.tail_continueAsNew {s : Streaming threshold Chan} {S : Setting Chan}
    {rest : List (Action Response Signal)} {w : Execution Chan}
    (ended : s.workflow.outcome = .done (.continueAsNew S.input) rest w)
    (named : S.env.workflowId = s.workflow.current.env.workflowId) (uuids : Nat → String)
    (arrived : List Signal) :
    (s.continueAsNew ended named uuids arrived).tail =
      s.tail.replace (streamBuffer (s.workflow.continueAsNew ended named uuids arrived)) := rfl

theorem streamBuffer_done {wf : Workflow threshold Chan} {r : RunResult}
    {rest : List (Action Response Signal)} {w : Execution Chan} (done : wf.outcome = .done r rest w) :
    streamBuffer wf = w.self.streamBuffer := by
  rw [streamBuffer, done]
  rfl

/-- Whatever happens to a workflow that waits, its buffer is only appended to. -/
theorem streamBuffer_act {wf : Workflow threshold Chan} {action : Action Response Signal}
    (waits : wf.waits = true) (accepted : (wf.act action).outcome ≠ .refused) :
    streamBuffer wf <+: streamBuffer (wf.act action) := by
  obtain ⟨t, stopped⟩ := stopped_of_accepted accepted
  unfold Workflow.waits at waits
  cases outcome : wf.outcome with
  | blocked qs k w =>
      have longer := execution_streams outcome [action] stopped
      have here : stoppedAt wf.outcome = some w := by rw [outcome]; rfl
      simpa only [streamBuffer, stopped, here] using longer
  | _ =>
      rw [outcome] at waits
      cases waits

/-! ## Every event, once and in order -/

theorem current_act {s : Streaming threshold Chan} {action : Action Response Signal}
    (current : s.tail.Current) (waits : s.workflow.waits = true)
    (accepted : (s.workflow.act action).outcome ≠ .refused) : (s.act action).tail.Current :=
  current.grow (streamBuffer_act waits accepted)

theorem short_act {s : Streaming threshold Chan} {action : Action Response Signal}
    (short : s.tail.Short) (waits : s.workflow.waits = true)
    (accepted : (s.workflow.act action).outcome ≠ .refused) : (s.act action).tail.Short :=
  short.grow (streamBuffer_act waits accepted)

theorem start_current (wf : Workflow threshold Chan) : (Streaming.tail { workflow := wf }).Current :=
  ⟨Nat.zero_le _, rfl⟩

theorem start_synced (wf : Workflow threshold Chan) : (Streaming.tail { workflow := wf }).Synced :=
  .inr (.inl rfl)

theorem timely_current : (timelyMachine threshold Chan).Invariant fun s => s.tail.Current where
  init s initial := by
    obtain ⟨S, uuids, arrived, rfl⟩ := initial
    exact start_current _
  step s s' _ current step := by
    cases step with
    | act action waits accepted => exact current_act current waits accepted
    | continueAsNew ended named uuids arrived readOut => exact current.replace readOut _
    | poll answers synced =>
        rw [Streaming.tail_poll answers]
        exact current.poll synced

/-- A client that has not always polled in time is short of something. -/
theorem timely_or_short : (freeMachine threshold Chan).Invariant fun s =>
    (timelyMachine threshold Chan).Reachable s ∨ s.tail.Short where
  init s initial := .inl (.init initial)
  step s s' _ held step := by
    rcases held with timely | short
    · have current := timely_current.holds timely
      cases step with
      | act action waits accepted => exact .inl (.step timely (.act action waits accepted))
      | continueAsNew ended named uuids arrived =>
          by_cases readOut : s.tail.ReadOut
          · exact .inl (.step timely (.continueAsNew ended named uuids arrived readOut))
          · exact .inr (current.lost readOut _)
      | poll answers =>
          by_cases synced : s.tail.Synced
          · exact .inl (.step timely (.poll answers synced))
          · rw [Streaming.tail_poll answers]
            exact .inr (current.skipped synced)
    · cases step with
      | act action waits accepted => exact .inr (short_act short waits accepted)
      | continueAsNew => exact .inr (short.replace _)
      | poll answers =>
          rw [Streaming.tail_poll answers]
          exact .inr short.poll

/-- **After a poll, and so after the one that follows the end of the workflow,
the client has received the events of all runs, each once and in order, if and
only if it has always polled in time.** -/
theorem all_events_received_iff {s : Streaming threshold Chan}
    (reachable : (freeMachine threshold Chan).Reachable s) (answers : s.Answers) :
    s.poll.received = s.poll.emitted ↔ (timelyMachine threshold Chan).Reachable s.poll := by
  constructor
  · intro all
    rcases timely_or_short.holds (.step reachable (.poll answers trivial)) with timely | short
    · exact timely
    · exact absurd all short.received_ne
  · intro timely
    have current := timely_current.holds timely
    have received : s.poll.tail.received = s.poll.tail.written := by
      rw [Streaming.tail_poll answers] at current ⊢
      exact current.received_poll
    exact received

section Runs

open Reference

/-- A graph whose one node returns no writes, and so is executed again. -/
def idleGraph : Pregel Channel := graph [("a", ["in"])]

/-- The input of a run on it, from the start or from a restored state. -/
def idleInput (limit : Int) (restored : Option RestoredState) : WorkflowInput where
  graphDefinitionRef := "graph"
  inputData := if restored.isSome then none else some (.int 0)
  recursionLimit := limit
  restoredState := restored

def idleSetting (limit : Int) (restored : Option RestoredState) : Setting Channel where
  env := env idleGraph
  graph := idleGraph
  input := idleInput limit restored
  registered := rfl

/-- Its activity completes. -/
def idleAnswer : Action Response Signal := .answer 0 (.output (pulled "a" []))

def idleTasks : List PregelTask := [⟨"a", [.str "__pregel_pull", .str "a"]⟩]

/-- The workflow object while the run waits for the first time. -/
def idleStart : LangGraphWorkflow Channel :=
  ((stoppedAt (replayExecution (idleSetting 1 none) none (fun _ => "") [] [])).get rfl).self

/-- What a run comes to between two supersteps. -/
def idleExecution (values : Dict PyVal) (step : Nat) (buffer : List StreamEvent) (h : List Event) :
    Execution Channel where
  self :=
    { idleStart with
      checkpoint := { idleStart.checkpoint with channelValues := values }
      step := step
      streamBuffer := buffer }
  history := h
  uuids _ := ""

theorem idleExecution_buffer (values : Dict PyVal) (step : Nat) (buffer : List StreamEvent)
    (h : List Event) : (idleExecution values step buffer h).self.streamBuffer = buffer := rfl

def idleValues : Dict PyVal :=
  (Reference.createCheckpoint idleStart.checkpoint idleStart.channels 0).channelValues

def idleEvent (step : Nat) : StreamEvent := .values (getChannelValues reference idleStart.channels) step

/-- One superstep emits one event. -/
theorem idle_superstep {α : Type} (limit : Int) (restored : Option RestoredState)
    (values : Dict PyVal) (step : Nat) (buffer : List StreamEvent) (h : List Event)
    (script : List (Action Response Signal))
    (k : Unit → WorkflowM Channel α) :
    ∃ h', (workflowSystem (env idleGraph)).replay
        ((superstep (env idleGraph) idleGraph (idleInput limit restored) idleTasks).bind k)
        (idleAnswer :: script) (idleExecution values step buffer h) =
      (workflowSystem (env idleGraph)).replay (k ()) script
        (idleExecution idleValues (step + 1) (buffer ++ [idleEvent step] ++ []) h') :=
  ⟨_, rfl⟩

/-- What follows a superstep in the loop. -/
def afterSuperstep (env : Env Chan) (threshold : Option Nat) (graph : Pregel Chan)
    (input : WorkflowInput) (fuel n : Nat) : WorkflowM Chan RunResult :=
  if reached threshold (n + 1) then
    getSelf.bind fun self => .ret (.continueAsNew (continueInput env self input))
  else loop env threshold graph input fuel (n + 1)

/-- The loop enters a superstep. -/
theorem replay_loop {env : Env Chan} {graph : Pregel Chan} {input : WorkflowInput}
    {w : Execution Chan} {tasks : List PregelTask} (fuel n : Nat)
    (script : List (Action Response Signal)) (room : (w.self.step : Int) < input.recursionLimit)
    (scheduled : env.lg.prepareNextTasks w.self.checkpoint graph.nodes w.self.channels w.self.step
      input.recursionLimit w.self.triggerToNodes = tasks) (some : tasks.isEmpty = false) :
    (workflowSystem env).replay (loop env threshold graph input (fuel + 1) n) script w =
      (workflowSystem env).replay
        ((superstep env graph input tasks).bind fun _ => afterSuperstep env threshold graph input fuel n)
        script (w.log (.scheduled w.self.step tasks)) := by
  show (workflowSystem env).replay (if (w.self.step : Int) < input.recursionLimit then _ else _) _ _ = _
  rw [if_pos room, scheduled, some]
  rfl

/-- The loop ends. -/
theorem replay_loop_end (env : Env Chan) (threshold : Option Nat) (graph : Pregel Chan)
    (input : WorkflowInput) (w : Execution Chan) (fuel n : Nat) (script : List (Action Response Signal))
    (done : ¬(w.self.step : Int) < input.recursionLimit) :
    (workflowSystem env).replay (loop env threshold graph input (fuel + 1) n) script w =
      (workflowSystem env).replay (finish env) script w := by
  show (workflowSystem env).replay (if (w.self.step : Int) < input.recursionLimit then _ else _) _ _ = _
  rw [if_neg done]

theorem idle_loop (threshold : Option Nat) (limit : Int) (restored : Option RestoredState)
    (values : Dict PyVal) (step : Nat) (buffer : List StreamEvent) (h : List Event) (fuel n : Nat)
    (script : List (Action Response Signal))
    (room : (step : Int) < limit) :
    ∃ h', (workflowSystem (env idleGraph)).replay
        (loop (env idleGraph) threshold idleGraph (idleInput limit restored) (fuel + 1) n)
        script (idleExecution values step buffer h) =
      (workflowSystem (env idleGraph)).replay
        ((superstep (env idleGraph) idleGraph (idleInput limit restored) idleTasks).bind fun _ =>
          afterSuperstep (env idleGraph) threshold idleGraph (idleInput limit restored) fuel n)
        script (idleExecution values step buffer h') :=
  ⟨_, replay_loop fuel n script room rfl rfl⟩

/-- The events of `n` supersteps. -/
def idleEvents (n : Nat) : List StreamEvent := (List.range n).map idleEvent

theorem idleEvents_succ (n : Nat) : idleEvents (n + 1) = idleEvents n ++ [idleEvent n] := by
  simp [idleEvents, List.range_succ]

/-- The first run, after fewer supersteps than it takes to continue as new. -/
theorem idle_run (script : List (Action Response Signal)) :
    ∀ n fuel, n < continueAsNewThreshold →
      ∃ values h, (workflowSystem (env idleGraph)).replay
          (loop (env idleGraph) (some continueAsNewThreshold) idleGraph (idleInput 501 none) (n + fuel) 0)
          (List.replicate n idleAnswer ++ script)
          (idleExecution idleStart.checkpoint.channelValues 0 [] []) =
        (workflowSystem (env idleGraph)).replay
          (loop (env idleGraph) (some continueAsNewThreshold) idleGraph (idleInput 501 none) fuel n)
          script (idleExecution values n (idleEvents n) h)
  | 0, fuel, _ => ⟨_, _, by rw [Nat.zero_add]; rfl⟩
  | n + 1, fuel, below => by
      obtain ⟨values, h, here⟩ := idle_run (idleAnswer :: script) n (fuel + 1) (by omega)
      unfold continueAsNewThreshold at below
      obtain ⟨h', entered⟩ := idle_loop (some continueAsNewThreshold) 501 none values n
        (idleEvents n) h fuel n (idleAnswer :: script) (by omega)
      obtain ⟨h'', left⟩ := idle_superstep 501 none values n (idleEvents n) h' script fun _ =>
        afterSuperstep (env idleGraph) (some continueAsNewThreshold) idleGraph (idleInput 501 none) fuel n
      have early : reached (some continueAsNewThreshold) (n + 1) = false :=
        decide_eq_false (by unfold continueAsNewThreshold; omega)
      simp only [afterSuperstep, early, Bool.false_eq_true, if_false] at entered left
      rw [List.append_nil, ← idleEvents_succ] at left
      refine ⟨idleValues, h'', ?_⟩
      rw [List.replicate_succ', List.append_assoc, Nat.add_right_comm]
      exact here.trans (entered.trans left)

theorem idle_begins (limit : Int) (script : List (Action Response Signal)) :
    replayExecution (idleSetting limit none) threshold (fun _ => "") [] script =
      (workflowSystem (env idleGraph)).replay
        (loop (env idleGraph) threshold idleGraph (idleInput limit none) ((limit - (0 : Nat)).toNat + 1) 0)
        script (idleExecution idleStart.checkpoint.channelValues 0 [] []) := rfl

/-- The workflow after `n` supersteps of its first run. -/
def idleWorkflow (n : Nat) : Workflow (some continueAsNewThreshold) Channel :=
  { Workflow.begin (idleSetting 501 none) (fun _ => "") [] with script := List.replicate n idleAnswer }

theorem idleWorkflow_outcome (n : Nat) (below : n < continueAsNewThreshold) :
    ∃ values h, (idleWorkflow n).outcome = (workflowSystem (env idleGraph)).replay
      (loop (env idleGraph) (some continueAsNewThreshold) idleGraph (idleInput 501 none) (502 - n) n)
      [] (idleExecution values n (idleEvents n) h) := by
  obtain ⟨values, h, run⟩ := idle_run [] n (502 - n) below
  have fuel : n + (502 - n) = ((501 : Int) - (0 : Nat)).toNat + 1 := by
    unfold continueAsNewThreshold at below
    omega
  rw [fuel, List.append_nil] at run
  exact ⟨values, h, (idle_begins 501 _).trans run⟩

theorem idleWorkflow_waits (n : Nat) (below : n < continueAsNewThreshold) :
    (idleWorkflow n).waits = true ∧ streamBuffer (idleWorkflow n) = idleEvents n := by
  obtain ⟨values, h, outcome⟩ := idleWorkflow_outcome n below
  unfold continueAsNewThreshold at below
  obtain ⟨fuel, more⟩ : ∃ fuel, 502 - n = fuel + 1 := ⟨501 - n, by omega⟩
  obtain ⟨h', entered⟩ := idle_loop (some continueAsNewThreshold) 501 none values n
    (idleEvents n) h fuel n [] (by omega)
  rw [more, entered] at outcome
  unfold Workflow.waits streamBuffer
  rw [outcome]
  exact ⟨rfl, rfl⟩

theorem idleWorkflow_act (n : Nat) : (idleWorkflow n).act idleAnswer = idleWorkflow (n + 1) := by
  simp only [idleWorkflow, Workflow.act, Workflow.begin, List.replicate_succ']

theorem idleWorkflow_zero :
    idleWorkflow 0 = .begin (idleSetting 501 none) (fun _ => "") [] := rfl

theorem idleWorkflow_reachable : ∀ n, n < continueAsNewThreshold →
    (freeMachine (some continueAsNewThreshold) Channel).Reachable { workflow := idleWorkflow n }
  | 0, _ => by
      rw [idleWorkflow_zero]
      exact .init ⟨idleSetting 501 none, fun _ => "", [], rfl⟩
  | n + 1, below => by
      have before := idleWorkflow_reachable n (by omega)
      have waits := (idleWorkflow_waits n (by omega)).1
      have next := (idleWorkflow_waits (n + 1) below).1
      rw [← idleWorkflow_act] at next ⊢
      have accepted : ((idleWorkflow n).act idleAnswer).outcome ≠ .refused := by
        intro refused
        rw [Workflow.waits, refused] at next
        cases next
      have step : StreamStep (fun _ => True) (fun _ => True) { workflow := idleWorkflow n }
          (Streaming.act idleAnswer { workflow := idleWorkflow n }) := .act idleAnswer waits accepted
      exact .step before step

/-- The state that the second run is restored from. -/
def idleRestored : RestoredState where
  checkpoint := Reference.createCheckpoint { idleStart.checkpoint with channelValues := idleValues }
    idleStart.channels 500
  step := 500

/-- After the last superstep of the first run, it continues as new. -/
theorem idleWorkflow_ends : ∃ h, (idleWorkflow 500).outcome =
    .done (.continueAsNew (idleInput 501 (some idleRestored))) []
      (idleExecution idleValues 500 (idleEvents 500) h) := by
  obtain ⟨values, h, run⟩ := idle_run [idleAnswer] 499 3 (by decide)
  obtain ⟨h', entered⟩ := idle_loop (some continueAsNewThreshold) 501 none values 499
    (idleEvents 499) h 2 499 [idleAnswer] (by decide)
  obtain ⟨h'', left⟩ := idle_superstep 501 none values 499 (idleEvents 499) h' [] fun _ =>
    afterSuperstep (env idleGraph) (some continueAsNewThreshold) idleGraph (idleInput 501 none) 2 499
  have last : reached (some continueAsNewThreshold) (499 + 1) = true := rfl
  simp only [afterSuperstep, last, if_true] at entered left
  rw [List.append_nil, ← idleEvents_succ] at left
  have script : (List.replicate 499 idleAnswer ++ [idleAnswer]) = List.replicate 500 idleAnswer :=
    List.replicate_succ'.symm
  rw [script] at run
  exact ⟨h'', (idle_begins 501 _).trans (run.trans (entered.trans left))⟩

def idleEnd : Execution Channel :=
  (stoppedAt (idleWorkflow 500).outcome).getD (idleExecution idleValues 0 [] [])

theorem idleEnd_eq : ∃ h, idleEnd = idleExecution idleValues 500 (idleEvents 500) h := by
  obtain ⟨h, ends⟩ := idleWorkflow_ends
  refine ⟨h, ?_⟩
  rw [idleEnd, ends]
  rfl

theorem idleWorkflow_ended : (idleWorkflow 500).outcome =
    .done (.continueAsNew (idleSetting 501 (some idleRestored)).input) [] idleEnd := by
  obtain ⟨h, ends⟩ := idleWorkflow_ends
  have here : idleEnd = idleExecution idleValues 500 (idleEvents 500) h := by
    rw [idleEnd, ends]
    rfl
  rw [ends, here]
  rfl

theorem idleRestored_begins (limit : Int) (script : List (Action Response Signal)) :
    replayExecution (idleSetting limit (some idleRestored)) threshold (fun _ => "") [] script =
      (workflowSystem (env idleGraph)).replay
        (loop (env idleGraph) threshold idleGraph (idleInput limit (some idleRestored))
          ((limit - (500 : Nat)).toNat + 1) 0) script (idleExecution idleValues 500 [] []) := rfl

/-- The second run goes through one superstep. -/
theorem idleRestored_outcome (threshold : Option Nat) (script : List (Action Response Signal)) :
    ∃ h, replayExecution (idleSetting 501 (some idleRestored)) threshold (fun _ => "") [] script =
      (workflowSystem (env idleGraph)).replay
        ((superstep (env idleGraph) idleGraph (idleInput 501 (some idleRestored)) idleTasks).bind fun _ =>
          afterSuperstep (env idleGraph) threshold idleGraph (idleInput 501 (some idleRestored)) 1 0)
        script (idleExecution idleValues 500 [] h) := by
  obtain ⟨h, entered⟩ := idle_loop threshold 501 (some idleRestored) idleValues 500 [] [] 1 0
    script (by decide)
  exact ⟨h, (idleRestored_begins 501 script).trans entered⟩

/-- So it waits, and is over when the activity completes. -/
theorem secondRun_closed (wf : Workflow (some continueAsNewThreshold) Channel)
    (current : wf.current = idleSetting 501 (some idleRestored)) (uuids : wf.uuids = fun _ => "")
    (arrived : wf.arrived = []) (script : wf.script = []) :
    wf.waits = true ∧ (wf.act idleAnswer).closed = true := by
  obtain ⟨first, earlier, current, uuids, arrived, script, continued⟩ := wf
  subst current uuids arrived script
  constructor
  · obtain ⟨h, outcome⟩ := idleRestored_outcome (some continueAsNewThreshold) []
    unfold Workflow.waits Workflow.outcome
    dsimp only
    rw [outcome]
    rfl
  · obtain ⟨h, outcome⟩ := idleRestored_outcome (some continueAsNewThreshold) [idleAnswer]
    obtain ⟨h', left⟩ := idle_superstep 501 (some idleRestored) idleValues 500 [] h [] fun _ =>
      afterSuperstep (env idleGraph) (some continueAsNewThreshold) idleGraph
        (idleInput 501 (some idleRestored)) 1 0
    have early : reached (some continueAsNewThreshold) (0 + 1) = false := rfl
    have limit : ¬((501 : Nat) : Int) < 501 := by decide
    simp only [afterSuperstep, early, Bool.false_eq_true, if_false] at outcome left
    have ended := replay_loop_end (env idleGraph) (some continueAsNewThreshold) idleGraph
      (idleInput 501 (some idleRestored)) (idleExecution idleValues 501 ([] ++ [idleEvent 500] ++ []) h')
      0 1 [] limit
    unfold Workflow.closed Workflow.outcome
    dsimp only [Workflow.act, List.nil_append]
    rw [outcome.trans (left.trans ended)]
    rfl

/-- The client polls once, before the last superstep of the first run. -/
def polledOnce : Streaming (some continueAsNewThreshold) Channel :=
  Streaming.poll { workflow := idleWorkflow 499 }

theorem polledOnce_answers :
    ({ workflow := idleWorkflow 499 } : Streaming (some continueAsNewThreshold) Channel).Answers :=
  .inl (idleWorkflow_waits 499 (by decide)).1

theorem all_events_received_polledOnce :
    polledOnce.received = polledOnce.emitted ↔
      (timelyMachine (some continueAsNewThreshold) Channel).Reachable polledOnce :=
  all_events_received_iff (idleWorkflow_reachable 499 (by decide)) polledOnce_answers

theorem polledOnce_workflow : (polledOnce.act idleAnswer).workflow = idleWorkflow 500 := by
  have same : polledOnce.workflow = idleWorkflow 499 := Streaming.poll_workflow _
  show polledOnce.workflow.act idleAnswer = _
  rw [same, idleWorkflow_act]

theorem polledOnce_ended : (polledOnce.act idleAnswer).workflow.outcome =
    .done (.continueAsNew (idleSetting 501 (some idleRestored)).input) [] idleEnd := by
  rw [polledOnce_workflow]
  exact idleWorkflow_ended

theorem polledOnce_acts :
    polledOnce.workflow.waits = true ∧ (polledOnce.workflow.act idleAnswer).outcome ≠ .refused := by
  constructor
  · rw [polledOnce, Streaming.poll_workflow]
    exact (idleWorkflow_waits 499 (by decide)).1
  · intro refused
    have ended := polledOnce_ended
    rw [Streaming.act, refused] at ended
    cases ended

theorem polledOnce_named : (idleSetting 501 (some idleRestored)).env.workflowId =
    (polledOnce.act idleAnswer).workflow.current.env.workflowId := by
  rw [polledOnce_workflow]
  rfl

theorem idleWorkflow_unread : ¬(polledOnce.act idleAnswer).tail.ReadOut := by
  obtain ⟨h, last⟩ := idleEnd_eq
  have log : (polledOnce.act idleAnswer).tail.log = idleEvents 500 := by
    rw [Streaming.tail_log, polledOnce_workflow, streamBuffer_done idleWorkflow_ended, last,
      idleExecution_buffer]
  have cursor : (polledOnce.act idleAnswer).tail.cursor = (idleEvents 499).length := by
    rw [Streaming.tail_act, Tail.grow, polledOnce, Streaming.tail_poll polledOnce_answers, Tail.poll,
      Streaming.tail_log, (idleWorkflow_waits 499 (by decide)).2]
  unfold Tail.ReadOut
  rw [log, cursor]
  rintro (none | ⟨-, all⟩)
  · simp [idleEvents] at none
  · simp [idleEvents] at all

/-- The second run begins. -/
def secondRun : Streaming (some continueAsNewThreshold) Channel :=
  (polledOnce.act idleAnswer).continueAsNew polledOnce_ended polledOnce_named (fun _ => "") []

/-- **A cursor skips events of the next run**: a client that has polled the first
run up to its last superstep has not got the events of all runs when it polls
once more after the second run, and with it the workflow, has ended. -/
theorem cursor_skips_next_run :
    (freeMachine (some continueAsNewThreshold) Channel).Reachable (secondRun.act idleAnswer) ∧
      (secondRun.act idleAnswer).workflow.closed = true ∧
        (secondRun.act idleAnswer).poll.received ≠ (secondRun.act idleAnswer).poll.emitted := by
  obtain ⟨waits, closed⟩ := secondRun_closed secondRun.workflow rfl rfl rfl rfl
  have accepted : (secondRun.workflow.act idleAnswer).outcome ≠ .refused := by
    intro refused
    rw [Workflow.closed, refused] at closed
    cases closed
  have reached : (freeMachine (some continueAsNewThreshold) Channel).Reachable polledOnce :=
    .step (idleWorkflow_reachable 499 (by decide)) (.poll polledOnce_answers trivial)
  have completed : StreamStep (fun _ => True) (fun _ => True) polledOnce (polledOnce.act idleAnswer) :=
    .act idleAnswer polledOnce_acts.1 polledOnce_acts.2
  have again : StreamStep (fun _ => True) (fun _ => True) (polledOnce.act idleAnswer) secondRun :=
    .continueAsNew polledOnce_ended polledOnce_named _ _ trivial
  have last : StreamStep (fun _ => True) (fun _ => True) secondRun (secondRun.act idleAnswer) :=
    .act idleAnswer waits accepted
  refine ⟨((reached.step completed).step again).step last, closed, ?_⟩
  -- the client is short of the last event of the first run, which nobody could poll
  have current : polledOnce.tail.Current := by
    have start := start_current (idleWorkflow 499)
    have polled := start.poll (start_synced _)
    rwa [← Streaming.tail_poll polledOnce_answers] at polled
  have grown := current_act current polledOnce_acts.1 polledOnce_acts.2
  have short : secondRun.tail.Short := by
    rw [secondRun, Streaming.tail_continueAsNew]
    exact grown.lost idleWorkflow_unread _
  have later : (secondRun.act idleAnswer).poll.tail.Short := by
    rw [Streaming.tail_poll (.inr (Workflow.isOver_of_closed closed))]
    exact (short_act short waits accepted).poll
  exact later.received_ne

end Runs

end LanggraphTemporal.Properties
