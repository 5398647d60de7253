/-
# Machine.Transitions -- the workflow as a state machine over its history

The coroutines of `Model.Workflow` say how the workflow is computed; this
machine says what a run can look like.  A configuration is the history so far,
the place in the main loop (`Phase`) and the workflow object.  Every step adds
one entry to the history.  `Works` are the entries a phase may add any number of
times (activities dispatched, lost and found, signals received), `Moves` are
those that end a phase and begin the next one.

`Refinement` shows that every replay of `run` is a run of this machine, so what
holds of its reachable configurations holds of the workflow.
-/
import LanggraphTemporal.Model.Workflow
import LanggraphTemporal.Theory.History

namespace LanggraphTemporal.Machine

set_option autoImplicit false

open Theory Model Model.LangGraphWorkflow

/-! ## Configurations -/

/-- Where a superstep stands. -/
inductive Stage where
  /-- at the head of the loop -/
  | ready
  /-- scheduled, and about to pause before its nodes -/
  | before
  | pausedBefore
  /-- executing the scheduled nodes -/
  | executing
  /-- serving the child workflow requests -/
  | serving
  /-- some node was interrupted, and the workflow is about to pause for it -/
  | interrupted
  | pausedInside
  /-- executing the interrupted nodes again -/
  | resuming
  /-- executing the Sends -/
  | pushing
  /-- executing the goto targets -/
  | going
  | applying
  /-- applied, and about to pause after its nodes -/
  | after
  | pausedAfter
  /-- about to advance -/
  | closing
  deriving DecidableEq

/-- A stage with the data of its superstep: the scheduled tasks, the results so
far, and the channel values its executions are given. -/
structure Phase where
  stage : Stage
  tasks : List PregelTask := []
  results : List NodeActivityOutput := []
  state : Dict PyVal := ∅

structure Config (Chan : Type) where
  history : List Event
  phase : Phase
  self : LangGraphWorkflow Chan

/-- A run is of one graph, on one input that refers to it. -/
structure Setting (Chan : Type) where
  env : Env Chan
  graph : Pregel Chan
  input : WorkflowInput
  registered : env.registry input.graphDefinitionRef = some graph

namespace Stage

/-- The stages that execute node activities. -/
def executes : Stage → Bool
  | executing | resuming | pushing | going => true
  | _ => false

/-- The pause a stage is about to make. -/
def pause : Stage → Option Stage
  | before => some pausedBefore
  | interrupted => some pausedInside
  | after => some pausedAfter
  | _ => none

/-- Where the workflow goes on when a pause ends. -/
def resume : Stage → Option Stage
  | pausedBefore => some executing
  | pausedInside => some resuming
  | pausedAfter => some closing
  | _ => none

end Stage

/-- The route whose results a stage collects. -/
def Stage.route : Stage → Option Route
  | .executing => some .scheduled
  | .resuming => some .resumed
  | .pushing => some .push
  | .going => some .goto
  | _ => none

/-- The entries that end a phase. -/
def moves : Event → Bool
  | .scheduled _ _ | .paused _ | .resumed _ | .collected _ _ | .served _ | .skipped
  | .applied _ _ | .advanced => true
  | _ => false

/-- The entries of the phase that is going on. -/
def recent (h : List Event) : List Event := History.since moves h

/-- Every search for a worker has found one. -/
def FoundAll (h : List Event) : Prop :=
  History.After (fun e later => e = .discovering → ∃ queue, Event.discovered queue ∈ later) h

/-- The queue found last, else the one that was configured. -/
def lastQueue (configured : Option String) (h : List Event) : Option String :=
  h.foldl (fun queue e => match e with | .discovered found => some found | _ => queue) configured

/-! ## Steps within a phase -/

section Steps

variable {Chan : Type} (S : Setting Chan)

/-- An execution with this input was started in the phase that is going on. -/
def Started (h : List Event) (input : NodeActivityInput) : Prop :=
  ∃ call, Event.dispatched input call ∈ recent h

/-- The inputs that a stage may dispatch. -/
inductive Admits (ph : Phase) (h : List Event) (self : LangGraphWorkflow Chan) :
    NodeActivityInput → Prop
  | scheduled {t : PregelTask} (stage : ph.stage = .executing) (task : t ∈ ph.tasks)
      (plain : subgraphOf t.name S.graph = none) :
      Admits ph h self (taskInput self.graphRef ph.state t)
  /-- A re-execution is given all resume values received by then; one that is
  repeated because its worker was lost is given what it was given before. -/
  | resumed {r : NodeActivityOutput} {values : List PyVal} (stage : ph.stage = .resuming)
      (result : r ∈ ph.results) (interrupted : r.interrupted = true) (some : values ≠ [])
      (received : values <+: self.resumeValues)
      (latest : values = self.resumeValues ∨
        ∃ call, Event.lost (resumedInput self.graphRef ph.state values r) call ∈ recent h) :
      Admits ph h self (resumedInput self.graphRef ph.state values r)
  | push {send : SendRequest} (stage : ph.stage = .pushing)
      (extracted : send ∈ extractPushSends ph.results) :
      Admits ph h self (pushInput self.graphRef ph.state send)
  | goto {send : SendRequest} (stage : ph.stage = .going)
      (extracted : send ∈ extractCommandGotos ph.results) :
      Admits ph h self (pushInput self.graphRef ph.state send)

/-- The steps within a phase, with the entry each adds. -/
inductive Works (ph : Phase) (h : List Event) :
    LangGraphWorkflow Chan → Event → LangGraphWorkflow Chan → Prop
  /-- No signal is handled at the head of the loop, where the workflow never waits. -/
  | resume (self : LangGraphWorkflow Chan) (value : PyVal) (waits : ph.stage ≠ .ready) :
      Works ph h self (.received (.resume value)) (self.resumeSignal value)
  | update {self self' : LangGraphWorkflow Chan} {writes : List (String × PyVal)}
      (waits : ph.stage ≠ .ready) (updated : self.updateStateSignal S.env.lg writes = .ok self') :
      Works ph h self (.received (.updateState writes)) self'
  | dispatch {self : LangGraphWorkflow Chan} {input : NodeActivityInput}
      (admitted : Admits S ph h self input) (foundAll : FoundAll h) :
      Works ph h self (.dispatched input (self.activityCall input.nodeName)) self
  | lose {self : LangGraphWorkflow Chan} {input : NodeActivityInput} {call : ActivityCall}
      (executes : ph.stage.executes = true) (started : Event.dispatched input call ∈ recent h) :
      Works ph h self (.lost input call) self
  /-- A search follows a loss at once, and there is no other search. -/
  | discover (self : LangGraphWorkflow Chan) (executes : ph.stage.executes = true)
      (affinity : self.useWorkerAffinity = true) (foundAll : FoundAll h)
      (lost : ∃ a input call, h = a ++ [.lost input call]) :
      Works ph h self .discovering { self with stickyTaskQueue := none }
  | discovered (self : LangGraphWorkflow Chan) (queue : String)
      (executes : ph.stage.executes = true) (affinity : self.useWorkerAffinity = true)
      (named : queue ≠ "") :
      Works ph h self (.discovered queue) { self with stickyTaskQueue := some queue }
  | subgraph (self : LangGraphWorkflow Chan) {t : PregelTask} {name subRef : String}
      (stage : ph.stage = .executing) (task : t ∈ ph.tasks)
      (bound : subgraphOf t.name S.graph = some name) :
      Works ph h self (.subgraphStarted t.name
        (subgraphCall S.env t subRef (getChannelValues S.env.lg self.channels))) self
  | subagent (self : LangGraphWorkflow Chan) {r : NodeActivityOutput} {req : ChildRequest}
      {index : Nat} (stage : ph.stage = .serving) (result : r ∈ ph.results)
      (request : r.childWorkflowRequests[index]? = some req) :
      Works ph h self (.subagentStarted (childCall S.env self req S.input index)) self

/-! ## Steps between phases -/

/-- An interrupted output carries nothing but its interrupts. -/
def Bare (r : NodeActivityOutput) : Prop :=
  r.interrupted = true →
    r.writes = [] ∧ r.pushSends = [] ∧ r.command = none ∧ r.childWorkflowRequests = []

/-- `r` is the output of an execution with this input, started in this phase. -/
structure OutputOf (h : List Event) (input : NodeActivityInput) (r : NodeActivityOutput) : Prop where
  started : Started h input
  name : r.nodeName = input.nodeName
  path : r.taskPath = input.taskPath
  bare : Bare r

/-- `r` is the output of the scheduled task `t`. -/
def Executed (h : List Event) (ph : Phase) (self : LangGraphWorkflow Chan) (t : PregelTask)
    (r : NodeActivityOutput) : Prop :=
  match subgraphOf t.name S.graph with
  | none => OutputOf h (taskInput self.graphRef ph.state t) r
  | some _ =>
      (∃ call, Event.subgraphStarted t.name call ∈ recent h) ∧
        ∃ result, r = subgraphOutput t result

/-- `r` is the output of the re-execution of the interrupted result `q`. -/
def Reexecuted (h : List Event) (ph : Phase) (self : LangGraphWorkflow Chan)
    (q r : NodeActivityOutput) : Prop :=
  ∃ values, values ≠ [] ∧ values <+: self.resumeValues ∧
    OutputOf h (resumedInput self.graphRef ph.state values q) r

/-- `r` is the output of the task started for `send`. -/
def Sent (h : List Event) (ph : Phase) (self : LangGraphWorkflow Chan) (send : SendRequest)
    (r : NodeActivityOutput) : Prop :=
  OutputOf h (pushInput self.graphRef ph.state send) r

/-- The results that a stage has to execute again. -/
def interruptedOf (results : List NodeActivityOutput) : List NodeActivityOutput :=
  results.filter NodeActivityOutput.interrupted

/-- The results that stay as they are. -/
def settledOf (results : List NodeActivityOutput) : List NodeActivityOutput :=
  results.filter fun r => !r.interrupted

/-- The outputs of a stage, one for each thing it had to execute. -/
def Collects (h : List Event) (ph : Phase) (self : LangGraphWorkflow Chan)
    (outputs : List NodeActivityOutput) : Prop :=
  match ph.stage with
  | .executing => List.Forall₂ (Executed S h ph self) (sortTasks ph.tasks) outputs
  | .resuming => List.Forall₂ (Reexecuted h ph self) (interruptedOf ph.results) outputs
  | .pushing => List.Forall₂ (Sent h ph self) (extractPushSends ph.results) outputs
  | .going => List.Forall₂ (Sent h ph self) (extractCommandGotos ph.results) outputs
  | _ => False

/-- Serving child requests only appends writes. -/
def Serves (r r' : NodeActivityOutput) : Prop :=
  ∃ replies, r' = { r with writes := r.writes ++ replies } ∧
    (r.childWorkflowRequests = [] → replies = [])

/-- Enter a stage that executes tasks: it reads the channels once. -/
def enter (stage : Stage) (tasks : List PregelTask) (results : List NodeActivityOutput)
    (self : LangGraphWorkflow Chan) : Phase where
  stage := stage
  tasks := tasks
  results := results
  state := getChannelValues S.env.lg self.channels

/-- The phase after the outputs of a stage are collected. -/
def collected (ph : Phase) (outputs : List NodeActivityOutput) (self : LangGraphWorkflow Chan) :
    Phase :=
  match ph.stage with
  | .executing => { stage := .serving, tasks := ph.tasks, results := outputs }
  | .resuming => enter S .pushing ph.tasks (settledOf ph.results ++ outputs) self
  | .pushing => enter S .going ph.tasks (ph.results ++ outputs) self
  | _ => { stage := .applying, tasks := ph.tasks, results := ph.results ++ outputs }

/-- The phase after `prepare_next_tasks` scheduled `tasks`. -/
def opened (tasks : List PregelTask) (self : LangGraphWorkflow Chan) : Phase :=
  if interruptsAt S.input.interruptBefore tasks then { stage := .before, tasks := tasks }
  else enter S .executing tasks [] self

/-- The phase after the child requests are served. -/
def served (tasks : List PregelTask) (results : List NodeActivityOutput)
    (self : LangGraphWorkflow Chan) : Phase :=
  if (interruptedOf results).isEmpty then enter S .resuming tasks results self
  else { stage := .interrupted, tasks := tasks, results := results }

/-- The phase after the writes are applied. -/
def completed (ph : Phase) : Phase :=
  if interruptsAt S.input.interruptAfter ph.tasks then { ph with stage := .after }
  else { ph with stage := .closing }

/-- The entries of `interrupts` at a pause. -/
def pending (ph : Phase) : List PendingInterrupt :=
  match ph.stage with
  | .before | .pausedBefore => ph.tasks.map fun t => .before t.name
  | .after | .pausedAfter => ph.tasks.map fun t => .after t.name
  | _ => raisedInterrupts (interruptedOf ph.results)

/-- The steps from one phase to the next, with the entry each adds. -/
inductive Moves (h : List Event) :
    Phase → LangGraphWorkflow Chan → Event → Phase → LangGraphWorkflow Chan → Prop
  | schedule {ph : Phase} {self : LangGraphWorkflow Chan} {tasks : List PregelTask}
      (stage : ph.stage = .ready) (below : (self.step : Int) < S.input.recursionLimit)
      (prepared : tasks = S.env.lg.prepareNextTasks self.checkpoint S.graph.nodes self.channels
        self.step S.input.recursionLimit self.triggerToNodes)
      (some : tasks ≠ []) :
      Moves h ph self (.scheduled self.step tasks) (opened S tasks self) self
  | pause {ph : Phase} {self : LangGraphWorkflow Chan} {stage : Stage}
      (pause : ph.stage.pause = some stage) :
      Moves h ph self (.paused (pending ph)) { ph with stage := stage }
        (clearResume (interrupt (pending ph) self))
  | resume {ph : Phase} {self : LangGraphWorkflow Chan} {stage : Stage}
      (resume : ph.stage.resume = some stage) (event : self.resumeEvent = true) :
      Moves h ph self (.resumed self.resumeValues) (enter S stage ph.tasks ph.results self)
        (wake self)
  | collect {ph : Phase} {self : LangGraphWorkflow Chan} {route : Route}
      {outputs : List NodeActivityOutput} (route_eq : ph.stage.route = some route)
      (collects : Collects S h ph self outputs) (foundAll : FoundAll h) :
      Moves h ph self (.collected route outputs) (collected S ph outputs self) self
  | serve {ph : Phase} {self : LangGraphWorkflow Chan} {results : List NodeActivityOutput}
      (stage : ph.stage = .serving) (serves : List.Forall₂ Serves ph.results results) :
      Moves h ph self (.served results) (served S ph.tasks results self) self
  | skip {ph : Phase} {self : LangGraphWorkflow Chan} (stage : ph.stage = .applying)
      (silent : writesOf S.graph ph.results = []) :
      Moves h ph self .skipped (completed S ph) (emitStreamEvents S.env.lg ph.results self)
  | apply {ph : Phase} {self : LangGraphWorkflow Chan} {out : Applied Chan}
      (stage : ph.stage = .applying) (some : writesOf S.graph ph.results ≠ [])
      (applied : S.env.lg.applyWrites self.checkpoint self.channels (writesOf S.graph ph.results)
        increment self.triggerToNodes = .ok out) :
      Moves h ph self (.applied (writesOf S.graph ph.results) out.updated) (completed S ph)
        (emitStreamEvents S.env.lg ph.results (self.withApplied out))
  | advance {ph : Phase} {self : LangGraphWorkflow Chan} (stage : ph.stage = .closing) :
      Moves h ph self .advanced { stage := .ready } (advance S.env.lg self)

/-! ## The machine -/

inductive Step : Config Chan → Config Chan → Prop
  | work {h : List Event} {ph : Phase} {self self' : LangGraphWorkflow Chan} {e : Event}
      (works : Works S ph h self e self') : Step ⟨h, ph, self⟩ ⟨h ++ [e], ph, self'⟩
  | move {h : List Event} {ph ph' : Phase} {self self' : LangGraphWorkflow Chan} {e : Event}
      (moves : Moves S h ph self e ph' self') : Step ⟨h, ph, self⟩ ⟨h ++ [e], ph', self'⟩

/-- What happens before the main loop: the discovery of a worker, and signals. -/
def preliminary : Event → Bool
  | .discovering | .discovered _ | .received _ => true
  | _ => false

/-- The entries that signals add. -/
def isReceived : Event → Prop
  | .received _ => True
  | _ => False

/-- What `run` has made of the workflow object when the main loop starts. -/
structure Opened (start : LangGraphWorkflow Chan) : Prop where
  initialised : ∃ before opened, before.triggerToNodes = S.graph.triggerToNodes ∧
    initialise S.env S.graph S.input before = .ok opened ∧ start = { opened with status := .running }
  triggers : start.triggerToNodes = S.graph.triggerToNodes
  graphRef : start.graphRef = S.input.graphDefinitionRef
  event : start.resumeEvent = true → start.resumeValues ≠ []
  pinned : S.input.useWorkerAffinity = true → truthy start.stickyTaskQueue = true
  interrupts : start.interrupts = []

/-- `run` has read this configuration. -/
structure Configured (graph : Pregel Chan) (input : WorkflowInput) (wf : LangGraphWorkflow Chan) :
    Prop where
  graphRef : wf.graphRef = input.graphDefinitionRef
  triggers : wf.triggerToNodes = graph.triggerToNodes
  taskQueues : wf.nodeTaskQueues = input.nodeTaskQueues.getD ∅
  options : wf.nodeActivityOptions = input.nodeActivityOptions.getD ∅
  retries : wf.nodeRetryPolicies = input.nodeRetryPolicies.getD ∅
  affinity : wf.useWorkerAffinity = input.useWorkerAffinity
  subagents : wf.subagentConfig = input.subagentConfig

/-- The search that a run may begin with: nothing but signals comes before it. -/
def Needed (h : List Event) (e : Event) : Prop :=
  e = .discovering →
    S.input.useWorkerAffinity = true ∧ truthy S.input.stickyTaskQueue = false ∧ ∀ x ∈ h, isReceived x

/-- A history in which the main loop has not begun. -/
structure Early (h : List Event) : Prop where
  history : ∀ e ∈ h, preliminary e = true
  searches : History.Guarded (Needed S) h

structure Initial (c : Config Chan) : Prop extends Early S c.history where
  foundAll : FoundAll c.history
  phase : c.phase = { stage := .ready }
  opened : Opened S c.self
  configured : Configured S.graph S.input c.self
  sticky : c.self.stickyTaskQueue = lastQueue S.input.stickyTaskQueue c.history

/-- The workflow as a machine. -/
def workflowMachine : Machine (Config Chan) where
  Init := Initial S
  Step := Step S

end Steps

end LanggraphTemporal.Machine
