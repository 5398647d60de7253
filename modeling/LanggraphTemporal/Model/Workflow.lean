/-
# Model.Workflow -- `LangGraphWorkflow` of `workflow.py`

The workflow object is the shared state of coroutines: `run`, and the
activities and child workflows it awaits side by side.  A method that awaits is
a `WorkflowM`, a method that does not is a function; both keep their source
name.  What the workflow asks of Temporal is a `Request`, and a signal handler
is a step that may happen whenever every coroutine waits.

Beside the object, an `Execution` keeps a history.  It is not read by the
workflow: `record` writes down what the run does, in order, so that properties
of a run can be stated about it.
-/
import LanggraphTemporal.Theory.Coroutine
import LanggraphTemporal.Model.Langgraph
import Mathlib.Data.List.Sort

namespace LanggraphTemporal.Model

set_option autoImplicit false

open Theory

/-! ## State, requests and history -/

inductive Status where
  | pending
  | running
  | interrupted
  | done
  deriving DecidableEq

/-- The attributes of a `LangGraphWorkflow` object. -/
structure LangGraphWorkflow (Chan : Type) where
  channels : Dict Chan := ∅
  checkpoint : Checkpoint
  step : Nat := 0
  status : Status := .pending
  interrupts : List PendingInterrupt := []
  resumeValues : List PyVal := []
  streamBuffer : List StreamEvent := []
  resumeEvent : Bool := false
  graphRef : String := ""
  triggerToNodes : Dict (List String) := ∅
  nodeTaskQueues : Dict String := ∅
  nodeActivityOptions : Dict ActivityOptions := ∅
  nodeRetryPolicies : Dict RetryPolicyConfig := ∅
  stickyTaskQueue : Option String := none
  useWorkerAffinity : Bool := false
  subagentConfig : Option SubAgentConfig := none

/-- Temporal's `RetryPolicy`. -/
structure TemporalRetryPolicy where
  initialInterval : Rat
  backoffCoefficient : Rat
  maximumInterval : Rat
  maximumAttempts : Nat
  nonRetryableErrorTypes : List String
  deriving DecidableEq

/-- The keyword arguments of `workflow.execute_activity`. -/
structure ActivityCall where
  startToCloseTimeout : Rat
  heartbeatTimeout : Option Rat
  scheduleToCloseTimeout : Option Rat
  taskQueue : Option String
  retryPolicy : Option TemporalRetryPolicy
  deriving DecidableEq

/-- The arguments of `workflow.execute_child_workflow`. -/
structure ChildCall where
  input : WorkflowInput
  id : String
  taskQueue : Option String := none
  executionTimeout : Option Rat := none
  terminateOnClose : Bool := false

inductive Request where
  | executeActivity (name : String) (input : NodeActivityInput) (call : ActivityCall)
  | getAvailableTaskQueue
  | executeChildWorkflow (call : ChildCall)
  /-- `workflow.wait_condition` on the resume event -/
  | resumeEvent

inductive Response where
  | output (o : NodeActivityOutput)
  | activityError (message : String)
  | queue (name : String)
  | childOutput (o : WorkflowOutput)
  | childError (message : String)
  | woken

/-- What ends a coroutine other than its result. -/
inductive RunError where
  | activityError (message : String)
  | childWorkflowError (message : String)
  | runtimeError (message : String)
  | invalidUpdate (message : String)
  | keyError (key : String)
  | typeError
  /-- An answer of the wrong kind, which no request gets. -/
  | unexpectedAnswer
  /-- The loop counter ran out, which it never does. -/
  | outOfFuel

/-- Is it a `temporalio.exceptions.FailureError`? Only such an exception fails the
workflow that raises it. -/
def RunError.isFailureError : RunError → Bool
  | activityError _ | childWorkflowError _ => true
  | _ => false

/-- `str(exc)` -/
def RunError.message : RunError → String
  | activityError m => m
  | childWorkflowError m => m
  | runtimeError m => m
  | invalidUpdate m => m
  | keyError k => k
  | _ => ""

inductive Signal where
  | resume (value : PyVal)
  | updateState (writes : List (String × PyVal))

/-- How an execution was started: scheduled by `prepare_next_tasks`, executed
again after a resume, or started by a `Send` or a `Command.goto`. -/
inductive Route where
  | scheduled
  | resumed
  | push
  | goto
  deriving DecidableEq

/-- `StateQueryResult` -/
structure StateQueryResult where
  channelValues : Dict PyVal
  channelVersions : Dict Nat
  versionsSeen : Dict (Dict Nat)
  step : Nat
  status : Status
  interrupts : List PendingInterrupt

/-- One entry of the history. -/
inductive Event where
  | scheduled (step : Nat) (tasks : List PregelTask)
  | paused (interrupts : List PendingInterrupt)
  | resumed (values : List PyVal)
  | dispatched (input : NodeActivityInput) (call : ActivityCall)
  | lost (input : NodeActivityInput) (call : ActivityCall)
  | discovering
  | discovered (queue : String)
  | subgraphStarted (node : String) (call : ChildCall)
  | subagentStarted (call : ChildCall)
  | collected (route : Route) (outputs : List NodeActivityOutput)
  | served (results : List NodeActivityOutput)
  | skipped
  | applied (writes : List PregelTaskWrites) (updated : List String)
  | advanced
  | received (signal : Signal)

structure Execution (Chan : Type) where
  self : LangGraphWorkflow Chan
  history : List Event := []
  /-- The hex digits of the `uuid4` calls to come. -/
  uuids : Nat → String
  drawn : Nat := 0

/-- What a run finds around it: LangGraph, the graph registry of its process,
`str` of Python, and `workflow.info()`. -/
structure Env (Chan : Type) where
  lg : Langgraph Chan
  registry : String → Option (Pregel Chan)
  pyStr : PyVal → String
  workflowId : String
  taskQueue : String

abbrev WorkflowM (Chan : Type) := Coro (Execution Chan) Request Response RunError

/-- How a run ends. -/
inductive RunResult where
  | output (o : WorkflowOutput)
  | continueAsNew (input : WorkflowInput)

variable {Chan : Type}

namespace Execution

def mapSelf (f : LangGraphWorkflow Chan → LangGraphWorkflow Chan) (w : Execution Chan) :
    Execution Chan :=
  { w with self := f w.self }

def log (e : Event) (w : Execution Chan) : Execution Chan :=
  { w with history := w.history ++ [e] }

end Execution

def setSelf (f : LangGraphWorkflow Chan → LangGraphWorkflow Chan) : WorkflowM Chan Unit :=
  .modify (Execution.mapSelf f)

def record (e : Event) : WorkflowM Chan Unit := .modify (Execution.log e)

def getSelf : WorkflowM Chan (LangGraphWorkflow Chan) := do
  let w ← Coro.read
  return w.self

/-! ## Functions that do not await -/

/-- `_get_channel_values` -/
def getChannelValues (lg : Langgraph Chan) (channels : Dict Chan) : Dict PyVal :=
  channels.filterMap fun _ channel => lg.get channel

/-- `_to_temporal_retry_policy` -/
def toTemporalRetryPolicy (config : RetryPolicyConfig) : TemporalRetryPolicy where
  initialInterval := config.initialIntervalSeconds
  backoffCoefficient := config.backoffCoefficient
  maximumInterval := config.maxIntervalSeconds
  maximumAttempts := config.maxAttempts
  nonRetryableErrorTypes := config.nonRetryableErrorTypes.getD []

/-- Tuple comparison of task paths. A `str` and an `int` are not comparable in
Python; here the `int` comes first. -/
def pathLe : List PathPart → List PathPart → Bool
  | [], _ => true
  | _ :: _, [] => false
  | a :: as, b :: bs =>
      if a = b then pathLe as bs
      else match a, b with
        | .str s, .str t => decide (s ≤ t)
        | .int i, .int j => decide (i ≤ j)
        | .int _, .str _ => true
        | .str _, .int _ => false

/-- `sorted(tasks, key=lambda t: t.path)` -/
def sortTasks (tasks : List PregelTask) : List PregelTask :=
  tasks.insertionSort fun t u => pathLe t.path u.path

namespace NodeActivityOutput

/-- `if r.interrupts` -/
def interrupted (r : NodeActivityOutput) : Bool := !r.interrupts.isEmpty

end NodeActivityOutput

/-- `messages[-1]` -/
def lastItem : PyVal → Option PyVal
  | .list xs => xs.getLast?
  | .tuple xs => xs.getLast?
  | .str s => s.toList.getLast?.map fun c => .str (String.singleton c)
  | _ => none

/-- What `messages[-1]` raises where there is no such item: a dict has keys of
its own, and what is no container has no items. -/
def noLastItem : PyVal → RunError
  | .dict _ => .keyError "-1"
  | _ => .typeError

namespace LangGraphWorkflow

/-- `_should_interrupt_nodes` -/
def shouldInterruptNodes (tasks : List PregelTask) : InterruptNodes → Bool
  | .all => true
  | .names ns => tasks.any fun t => ns.contains t.name

/-- The guard of both interrupt checks: the setting is truthy and matches. -/
def interruptsAt (nodes : Option InterruptNodes) (tasks : List PregelTask) : Bool :=
  match nodes with
  | some nodes => nodes.truthy && shouldInterruptNodes tasks nodes
  | none => false

/-- `_task_queue_for_node` -/
def taskQueueForNode (self : LangGraphWorkflow Chan) (nodeName : String) : Option String :=
  if truthy self.stickyTaskQueue then self.stickyTaskQueue
  else self.nodeTaskQueues.get? nodeName

/-- `_activity_options_for_node` -/
def activityOptionsForNode (self : LangGraphWorkflow Chan) (nodeName : String) : ActivityOptions :=
  self.nodeActivityOptions.getD nodeName {}

/-- `_retry_policy_for_node` -/
def retryPolicyForNode (self : LangGraphWorkflow Chan) (nodeName : String) :
    Option TemporalRetryPolicy :=
  (self.nodeRetryPolicies.get? nodeName).map toTemporalRetryPolicy

/-- The keyword arguments `_dispatch_activity` passes on. -/
def activityCall (self : LangGraphWorkflow Chan) (nodeName : String) : ActivityCall where
  startToCloseTimeout := (self.activityOptionsForNode nodeName).startToCloseTimeout
  heartbeatTimeout := (self.activityOptionsForNode nodeName).heartbeatTimeout
  scheduleToCloseTimeout := (self.activityOptionsForNode nodeName).scheduleToCloseTimeout
  taskQueue := self.taskQueueForNode nodeName
  retryPolicy := self.retryPolicyForNode nodeName

/-- `_is_subgraph_node`: the compiled graph the node is bound to, if it is. -/
def subgraphOf (nodeName : String) (graph : Pregel Chan) : Option String :=
  match graph.nodes.get? nodeName with
  | some ⟨_, some (.pregel name)⟩ => some name
  | _ => none

/-- `_extract_push_sends` -/
def extractPushSends (results : List NodeActivityOutput) : List SendRequest :=
  results.flatMap fun r => r.pushSends

/-- One element of `goto_list`: a Send-style dict, or the name of a node. -/
def gotoTarget : PyVal → Option SendRequest
  | .dict kvs =>
      match kvs.lookup "node" with
      | some (.str node) => some ⟨node, (kvs.lookup "arg").getD .none⟩
      | _ => none
  | .str node => some ⟨node, .none⟩
  | _ => none

/-- `goto if isinstance(goto, list) else [goto]` -/
def gotoList : PyVal → List PyVal
  | .list xs => xs
  | v => [v]

/-- The goto targets of one result. -/
def commandGotos (r : NodeActivityOutput) : List SendRequest :=
  match r.command with
  | some c => if c.goto.truthy then (gotoList c.goto).filterMap gotoTarget else []
  | none => []

/-- `_extract_command_gotos` -/
def extractCommandGotos (results : List NodeActivityOutput) : List SendRequest :=
  results.flatMap commandGotos

/-- The events `_emit_stream_events` appends for one result. -/
def resultEvents (step : Nat) (r : NodeActivityOutput) : List StreamEvent :=
  (if r.writes.isEmpty then [] else [.updates (Dict.ofList r.writes) r.nodeName step]) ++
    r.customData.map fun data => .custom data r.nodeName step

/-- `_emit_stream_events` -/
def emitStreamEvents (lg : Langgraph Chan) (results : List NodeActivityOutput)
    (self : LangGraphWorkflow Chan) : LangGraphWorkflow Chan :=
  { self with
    streamBuffer := self.streamBuffer ++
      [.values (getChannelValues lg self.channels) self.step] ++
      results.flatMap (resultEvents self.step) }

/-- The `PregelTaskWrites` of one result. -/
def taskWrites (graph : Pregel Chan) (r : NodeActivityOutput) : PregelTaskWrites where
  path := if r.taskPath.isEmpty then [.str r.nodeName] else r.taskPath
  name := r.nodeName
  writes := r.writes
  triggers :=
    match graph.nodes.get? r.nodeName with
    | some node => node.triggers
    | none => r.triggers

/-- Where `run` sets the status and the interrupts of a pause. -/
def interrupt (entries : List PendingInterrupt) (self : LangGraphWorkflow Chan) :
    LangGraphWorkflow Chan :=
  { self with status := .interrupted, interrupts := entries }

/-- `_wait_for_resume`, up to its wait -/
def clearResume (self : LangGraphWorkflow Chan) : LangGraphWorkflow Chan :=
  { self with resumeEvent := false, resumeValues := [] }

/-- `_wait_for_resume`, after its wait -/
def wake (self : LangGraphWorkflow Chan) : LangGraphWorkflow Chan := { self with status := .running }

/-- `apply_writes` changes the checkpoint and the channels in place. -/
def withApplied (out : Applied Chan) (self : LangGraphWorkflow Chan) : LangGraphWorkflow Chan :=
  { self with checkpoint := out.checkpoint, channels := out.channels }

/-- Advance the checkpoint and the step. -/
def advance (lg : Langgraph Chan) (self : LangGraphWorkflow Chan) : LangGraphWorkflow Chan :=
  { self with
    checkpoint := lg.createCheckpoint self.checkpoint self.channels self.step
    step := self.step + 1 }

/-- `resume_signal` -/
def resumeSignal (value : PyVal) (self : LangGraphWorkflow Chan) : LangGraphWorkflow Chan :=
  { self with resumeValues := self.resumeValues ++ [value], resumeEvent := true }

/-- `update_state_signal` -/
def updateStateSignal (lg : Langgraph Chan) (writes : List (String × PyVal))
    (self : LangGraphWorkflow Chan) : Except RunError (LangGraphWorkflow Chan) :=
  let update : PregelTaskWrites := ⟨[.str "__update__"], "__update__", writes, []⟩
  match lg.applyWrites self.checkpoint self.channels [update] increment self.triggerToNodes with
  | .ok out => .ok (self.withApplied out)
  | .error message => .error (.invalidUpdate message)

/-- `get_current_state` -/
def getCurrentState (lg : Langgraph Chan) (self : LangGraphWorkflow Chan) : StateQueryResult where
  channelValues := getChannelValues lg self.channels
  channelVersions := self.checkpoint.channelVersions
  versionsSeen := self.checkpoint.versionsSeen
  step := self.step
  status := self.status
  interrupts := self.interrupts

/-- `get_stream_buffer`; a slice that begins past the end is empty. -/
def getStreamBuffer (cursor : Nat) (self : LangGraphWorkflow Chan) : StreamQueryResult where
  events := self.streamBuffer.drop cursor
  nextCursor := self.streamBuffer.length

end LangGraphWorkflow

/-! ## The environment of a run -/

/-- Signals run their handler; the wait for a resume ends when the event is
set; an activity returns an output for its own input, and an interrupted one
carries nothing else; the queue a worker names is its own, and never the empty
string (`_resolve_worker_queue`). -/
def workflowSystem (env : Env Chan) : System (Execution Chan) Request Response Signal RunError where
  handle signal w :=
    match signal with
    | .resume value =>
        .ok ((w.mapSelf (LangGraphWorkflow.resumeSignal value)).log (.received signal))
    | .updateState writes =>
        match w.self.updateStateSignal env.lg writes with
        | .ok self => .ok ({ w with self }.log (.received signal))
        | .error e => .error e
  ready request w :=
    match request with
    | .resumeEvent => if w.self.resumeEvent then some .woken else none
    | _ => none
  permits request response _ :=
    match request, response with
    | .executeActivity _ input _, .output o =>
        o.nodeName = input.nodeName && o.taskPath = input.taskPath && o.triggers = input.triggers &&
          (!o.interrupted || o.writes.isEmpty && o.pushSends.isEmpty && o.command.isNone &&
            o.customData.isEmpty && o.childWorkflowRequests.isEmpty)
    | .executeActivity _ _ _, .activityError _ => true
    | .getAvailableTaskQueue, .queue name => name != ""
    | .getAvailableTaskQueue, .activityError _ => true
    | .executeChildWorkflow _, .childOutput _ => true
    | .executeChildWorkflow _, .childError _ => true
    | _, _ => false

/-! ## Methods that await -/

namespace LangGraphWorkflow

variable (env : Env Chan)

/-- `workflow.execute_activity(get_available_task_queue)` -/
def getAvailableTaskQueue : WorkflowM Chan String := do
  record .discovering
  match ← Coro.request .getAvailableTaskQueue with
  | .queue name =>
      record (.discovered name)
      return name
  | .activityError message => .raise (.activityError message)
  | _ => .raise .unexpectedAnswer

/-- `_rediscover_worker` -/
def rediscoverWorker : WorkflowM Chan Unit := do
  setSelf fun self => { self with stickyTaskQueue := none }
  let queue ← getAvailableTaskQueue
  setSelf fun self => { self with stickyTaskQueue := some queue }

/-- `_dispatch_activity` -/
def dispatchActivity (input : NodeActivityInput) (nodeName : String) :
    WorkflowM Chan (Option NodeActivityOutput) := do
  let self ← getSelf
  let call := self.activityCall nodeName
  record (.dispatched input call)
  match ← Coro.request (.executeActivity nodeName input call) with
  | .output o => return some o
  | .activityError message =>
      record (.lost input call)
      let self ← getSelf
      -- Only fall back if worker affinity is active.
      if self.useWorkerAffinity && truthy self.stickyTaskQueue then return none
      else .raise (.activityError message)
  | _ => .raise .unexpectedAnswer

/-- `_execute_single_activity` -/
def executeSingleActivity (input : NodeActivityInput) (nodeName : String) :
    WorkflowM Chan NodeActivityOutput := do
  match ← dispatchActivity input nodeName with
  | some result => return result
  | none =>
      rediscoverWorker
      match ← dispatchActivity input nodeName with
      | some result => return result
      | none => .raise (.runtimeError s!"Activity '{nodeName}' failed after worker re-discovery")

/-- `GraphRegistry.register` -/
def registerGraph (name : String) : WorkflowM Chan String := do
  let w ← Coro.read
  Coro.modify fun w => { w with drawn := w.drawn + 1 }
  return name ++ "_" ++ (w.uuids w.drawn).take 8

/-- The child workflow call of a subgraph node. -/
def subgraphCall (task : PregelTask) (subRef : String) (channelValues : Dict PyVal) : ChildCall where
  input := { graphDefinitionRef := subRef, inputData := some (.ofDict channelValues) }
  id := env.workflowId ++ "/" ++ task.name

/-- The output made of a subgraph's result. -/
def subgraphOutput (task : PregelTask) (result : WorkflowOutput) : NodeActivityOutput :=
  { nodeName := task.name, writes := result.channelValues.entries, taskPath := task.path }

/-- `_execute_subgraph_as_child_workflow`, for a node bound to the graph `name` -/
def executeSubgraphAsChildWorkflow (task : PregelTask) (name : String) :
    WorkflowM Chan NodeActivityOutput := do
  let self ← getSelf
  let channelValues := getChannelValues env.lg self.channels
  let subRef ← registerGraph name
  let call := subgraphCall env task subRef channelValues
  record (.subgraphStarted task.name call)
  match ← Coro.request (.executeChildWorkflow call) with
  | .childOutput result => return subgraphOutput task result
  | .childError message => .raise (.childWorkflowError message)
  | _ => .raise .unexpectedAnswer

/-- One coroutine, or `asyncio.gather` of several. -/
def awaitAll (coroutines : List (WorkflowM Chan NodeActivityOutput)) :
    WorkflowM Chan (List NodeActivityOutput) :=
  match coroutines with
  | [coroutine] => do
      let result ← coroutine
      return [result]
  | _ => Coro.gather coroutines

/-- The activity input of a scheduled task. The `__start__` node reads its own
channel, not the whole state. -/
def taskInput (graphRef : String) (channelValues : Dict PyVal) (t : PregelTask) :
    NodeActivityInput :=
  { nodeName := t.name
    inputState :=
      if t.name = "__start__" then channelValues.getD "__start__" (.ofDict channelValues)
      else .ofDict channelValues
    graphDefinitionRef := graphRef
    taskPath := t.path }

/-- The coroutine `_execute_nodes` makes for one task. -/
def executeTask (graph : Pregel Chan) (graphRef : String) (channelValues : Dict PyVal)
    (t : PregelTask) : WorkflowM Chan NodeActivityOutput :=
  match subgraphOf t.name graph with
  | some name => executeSubgraphAsChildWorkflow env t name
  | none => executeSingleActivity (taskInput graphRef channelValues t) t.name

/-- `_execute_nodes` -/
def executeNodes (graph : Pregel Chan) (tasks : List PregelTask) :
    WorkflowM Chan (List NodeActivityOutput) := do
  let self ← getSelf
  let channelValues := getChannelValues env.lg self.channels
  awaitAll ((sortTasks tasks).map (executeTask env graph self.graphRef channelValues))

/-- The activity input of an interrupted node's re-execution. -/
def resumedInput (graphRef : String) (channelValues : Dict PyVal) (resumeValues : List PyVal)
    (r : NodeActivityOutput) : NodeActivityInput :=
  { nodeName := r.nodeName, inputState := .ofDict channelValues, graphDefinitionRef := graphRef,
    resumeValues := some resumeValues, taskPath := r.taskPath, triggers := r.triggers }

/-- The loop of `_execute_resumed_nodes`: one node after the other, each with
the resume values received by then. -/
def executeResumed (channelValues : Dict PyVal) :
    List NodeActivityOutput → WorkflowM Chan (List NodeActivityOutput)
  | [] => return []
  | r :: rs => do
      let self ← getSelf
      let result ← executeSingleActivity
        (resumedInput self.graphRef channelValues self.resumeValues r) r.nodeName
      let results ← executeResumed channelValues rs
      return result :: results

/-- `_execute_resumed_nodes` -/
def executeResumedNodes (interruptedResults : List NodeActivityOutput) :
    WorkflowM Chan (List NodeActivityOutput) := do
  let self ← getSelf
  executeResumed (getChannelValues env.lg self.channels) interruptedResults

/-- The activity input of one `Send`. -/
def pushInput (graphRef : String) (channelValues : Dict PyVal) (send : SendRequest) :
    NodeActivityInput :=
  { nodeName := send.node, inputState := .ofDict channelValues, graphDefinitionRef := graphRef,
    sendInput := send.arg, taskPath := [.str send.node, .str "push"] }

/-- `_execute_push_tasks` -/
def executePushTasks (pushSends : List SendRequest) : WorkflowM Chan (List NodeActivityOutput) := do
  let self ← getSelf
  let channelValues := getChannelValues env.lg self.channels
  awaitAll (pushSends.map fun send =>
    executeSingleActivity (pushInput self.graphRef channelValues send) send.node)

/-- The child workflow call of one sub-agent request. -/
def childCall (self : LangGraphWorkflow Chan) (req : ChildRequest) (input : WorkflowInput)
    (index : Nat) : ChildCall where
  input :=
    { graphDefinitionRef := req.graphDefinitionRef.getD input.graphDefinitionRef
      inputData := some (req.initialState.getD (.dict []))
      recursionLimit := input.recursionLimit
      stickyTaskQueue := self.subagentConfig.bind SubAgentConfig.stickyTaskQueue }
  id := env.workflowId ++ "/subagent/" ++ req.subagentType.getD "unknown" ++ "/" ++
    toString self.step ++ "_" ++ toString index
  taskQueue :=
    match self.subagentConfig with
    | some config => if truthy config.taskQueue then config.taskQueue else some env.taskQueue
    | none => some env.taskQueue
  executionTimeout :=
    match self.subagentConfig with
    | some config =>
        if config.executionTimeoutSeconds ≠ 0 then some config.executionTimeoutSeconds
        else some 1800
    | none => some 1800
  terminateOnClose := true

/-- `_dispatch_child_workflow` -/
def dispatchChildWorkflow (req : ChildRequest) (input : WorkflowInput) (index : Nat) :
    WorkflowM Chan WorkflowOutput := do
  let self ← getSelf
  let call := childCall env self req input index
  record (.subagentStarted call)
  match ← Coro.request (.executeChildWorkflow call) with
  | .childOutput output => return output
  | .childError message => .raise (.childWorkflowError message)
  | _ => .raise .unexpectedAnswer

/-- The tool reply of one sub-agent request, which raises where `messages[-1]`
does. -/
def toolReply (req : ChildRequest) (outcome : Except RunError WorkflowOutput) :
    Except RunError (String × PyVal) := do
  let content ←
    match outcome with
    | .error e =>
        .ok ("Sub-agent '" ++ req.subagentType.getD "unknown" ++ "' failed: " ++ e.message)
    | .ok output =>
        let messages := output.channelValues.getD "messages" (.list [])
        if messages.truthy then
          match lastItem messages with
          | some (.str m) => .ok m
          | some m => .ok (env.pyStr m)
          | none => .error (noLastItem messages)
        else .ok ""
  return ("messages", .dict [("type", .str "tool"), ("content", .str content),
    ("tool_call_id", .str (req.toolCallId.getD ""))])

/-- The requests of one result: dispatched side by side, with
`return_exceptions=True`, and their replies appended to its writes. -/
def serveRequests (input : WorkflowInput) (result : NodeActivityOutput) :
    WorkflowM Chan NodeActivityOutput :=
  if result.childWorkflowRequests.isEmpty then return result
  else do
    let outputs ← Coro.gather (result.childWorkflowRequests.zipIdx.map fun p =>
      (dispatchChildWorkflow env p.1 input p.2).attempt)
    match (result.childWorkflowRequests.zip outputs).mapM fun p => toolReply env p.1 p.2 with
    | .ok replies => return { result with writes := result.writes ++ replies }
    | .error e => .raise e

/-- `_process_child_workflow_requests`; the results come back with the writes
that the source appends in place. -/
def processChildWorkflowRequests (input : WorkflowInput) :
    List NodeActivityOutput → WorkflowM Chan (List NodeActivityOutput)
  | [] => return []
  | r :: rs => do
      let result ← serveRequests env input r
      let results ← processChildWorkflowRequests input rs
      return result :: results

/-- `_wait_for_resume` -/
def waitForResume : WorkflowM Chan Unit := do
  setSelf clearResume
  let self ← getSelf
  record (.paused self.interrupts)
  let _ ← Coro.request .resumeEvent
  setSelf wake
  let self ← getSelf
  record (.resumed self.resumeValues)

/-! ## The main loop -/

/-- The `interrupt_before` and the `interrupt_after` check of a superstep. -/
def interruptCheck (nodes : Option InterruptNodes) (entry : String → PendingInterrupt)
    (tasks : List PregelTask) : WorkflowM Chan Unit :=
  if interruptsAt nodes tasks then do
    setSelf (interrupt (tasks.map fun t => entry t.name))
    waitForResume
  else return ()

/-- The interrupts of the interrupted results. -/
def raisedInterrupts (interruptedResults : List NodeActivityOutput) : List PendingInterrupt :=
  interruptedResults.flatMap fun r => r.interrupts.map .raised

/-- Handle interrupted nodes: one pause, then one re-execution of each. -/
def handleInterrupted (results : List NodeActivityOutput) :
    WorkflowM Chan (List NodeActivityOutput) :=
  let interruptedResults := results.filter NodeActivityOutput.interrupted
  if interruptedResults.isEmpty then do
    record (.collected .resumed [])
    return results
  else do
    setSelf (interrupt (raisedInterrupts interruptedResults))
    waitForResume
    let nonInterrupted := results.filter fun r => !r.interrupted
    let resumed ← executeResumedNodes env interruptedResults
    record (.collected .resumed resumed)
    return nonInterrupted ++ resumed

/-- Execute the Sends extracted from the results, and add what they return. -/
def handleSends (route : Route) (sends : List SendRequest) (results : List NodeActivityOutput) :
    WorkflowM Chan (List NodeActivityOutput) :=
  if sends.isEmpty then do
    record (.collected route [])
    return results
  else do
    let sendResults ← executePushTasks env sends
    record (.collected route sendResults)
    return results ++ sendResults

/-- The results with writes, wrapped as `PregelTaskWrites`. -/
def writesOf (graph : Pregel Chan) (results : List NodeActivityOutput) : List PregelTaskWrites :=
  (results.filter fun r => !r.writes.isEmpty).map (taskWrites graph)

/-- Apply the writes of a superstep. -/
def applyResults (graph : Pregel Chan) (results : List NodeActivityOutput) : WorkflowM Chan Unit :=
  let writes := writesOf graph results
  if writes.isEmpty then record .skipped
  else do
    let self ← getSelf
    match env.lg.applyWrites self.checkpoint self.channels writes increment self.triggerToNodes with
    | .ok out =>
        setSelf (withApplied out)
        record (.applied writes out.updated)
    | .error message => .raise (.invalidUpdate message)

/-- The body of the loop, once `prepare_next_tasks` has scheduled tasks. -/
def superstep (graph : Pregel Chan) (input : WorkflowInput) (nextTasks : List PregelTask) :
    WorkflowM Chan Unit := do
  interruptCheck input.interruptBefore .before nextTasks
  let results ← executeNodes env graph nextTasks
  record (.collected .scheduled results)
  let results ← processChildWorkflowRequests env input results
  record (.served results)
  let results ← handleInterrupted env results
  let results ← handleSends env .push (extractPushSends results) results
  let results ← handleSends env .goto (extractCommandGotos results) results
  applyResults env graph results
  setSelf (emitStreamEvents env.lg results)
  interruptCheck input.interruptAfter .after nextTasks
  setSelf (advance env.lg)
  record .advanced

/-- The end of `run`. -/
def finish : WorkflowM Chan RunResult := do
  setSelf fun self => if self.status = .running then { self with status := .done } else self
  let self ← getSelf
  return .output ⟨getChannelValues env.lg self.channels, self.step⟩

/-- The input of the next run, in `workflow.continue_as_new`. -/
def continueInput (self : LangGraphWorkflow Chan) (input : WorkflowInput) : WorkflowInput :=
  { graphDefinitionRef := input.graphDefinitionRef
    inputData := none
    recursionLimit := input.recursionLimit
    interruptBefore := input.interruptBefore
    interruptAfter := input.interruptAfter
    restoredState := some
      { checkpoint := env.lg.createCheckpoint self.checkpoint self.channels self.step
        step := self.step
        stickyTaskQueue := self.stickyTaskQueue }
    nodeTaskQueues := input.nodeTaskQueues
    nodeActivityOptions := input.nodeActivityOptions
    nodeRetryPolicies := input.nodeRetryPolicies
    stickyTaskQueue := self.stickyTaskQueue
    useWorkerAffinity := input.useWorkerAffinity
    subagentConfig := self.subagentConfig }

/-- `CONTINUE_AS_NEW_THRESHOLD` -/
def continueAsNewThreshold : Nat := 500

/-- `steps_in_this_run >= threshold`; without a threshold the run never
continues as new. -/
def reached (threshold : Option Nat) (stepsInThisRun : Nat) : Bool :=
  match threshold with
  | some t => decide (t ≤ stepsInThisRun)
  | none => false

/-- `while self.step < max_steps`, with a counter that outlasts it. -/
def loop (threshold : Option Nat) (graph : Pregel Chan) (input : WorkflowInput) :
    Nat → Nat → WorkflowM Chan RunResult
  | 0, _ => .raise .outOfFuel
  | fuel + 1, stepsInThisRun => do
      let self ← getSelf
      if (self.step : Int) < input.recursionLimit then
        let nextTasks := env.lg.prepareNextTasks self.checkpoint graph.nodes self.channels self.step
          input.recursionLimit self.triggerToNodes
        if nextTasks.isEmpty then
          setSelf fun self => { self with status := .done }
          finish env
        else
          record (.scheduled self.step nextTasks)
          superstep env graph input nextTasks
          if reached threshold (stepsInThisRun + 1) then
            let self ← getSelf
            return .continueAsNew (continueInput env self input)
          else loop threshold graph input fuel (stepsInThisRun + 1)
      else finish env

/-- Restore the channels of a checkpoint. -/
def restore (graph : Pregel Chan) (checkpoint : Checkpoint) (step : Nat)
    (self : LangGraphWorkflow Chan) : LangGraphWorkflow Chan :=
  { self with
    checkpoint := checkpoint
    step := step
    channels := env.lg.channelsFromCheckpoint graph.channels checkpoint }

/-- Initialize or restore channels and checkpoint. -/
def initialise (graph : Pregel Chan) (input : WorkflowInput) (self : LangGraphWorkflow Chan) :
    Except RunError (LangGraphWorkflow Chan) :=
  match input.restoredState with
  | some restored => .ok (restore env graph restored.checkpoint restored.step self)
  | none =>
      let self := restore env graph env.lg.emptyCheckpoint 0 self
      match input.inputData with
      | none => .ok self
      | some data =>
          let inputWrites : PregelTaskWrites :=
            ⟨[.str "__input__"], "__input__", [(graph.inputChannels, data)], []⟩
          match env.lg.applyWrites self.checkpoint self.channels [inputWrites] increment
              self.triggerToNodes with
          | .ok out => .ok (self.withApplied out)
          | .error message => .error (.invalidUpdate message)

/-- The configuration `run` reads from its input. -/
def configure (graph : Pregel Chan) (input : WorkflowInput) (self : LangGraphWorkflow Chan) :
    LangGraphWorkflow Chan :=
  { self with
    triggerToNodes := graph.triggerToNodes
    nodeTaskQueues := input.nodeTaskQueues.getD ∅
    nodeActivityOptions := input.nodeActivityOptions.getD ∅
    nodeRetryPolicies := input.nodeRetryPolicies.getD ∅
    stickyTaskQueue := input.stickyTaskQueue
    useWorkerAffinity := input.useWorkerAffinity
    subagentConfig := input.subagentConfig }

/-- `run` -/
def run (threshold : Option Nat) (input : WorkflowInput) : WorkflowM Chan RunResult := do
  setSelf fun self => { self with graphRef := input.graphDefinitionRef }
  match env.registry input.graphDefinitionRef with
  | none => .raise (.keyError input.graphDefinitionRef)
  | some graph =>
      setSelf (configure graph input)
      if input.useWorkerAffinity && !truthy input.stickyTaskQueue then
        let queue ← getAvailableTaskQueue
        setSelf fun self => { self with stickyTaskQueue := some queue }
      let self ← getSelf
      match initialise env graph input self with
      | .error e => .raise e
      | .ok self =>
      setSelf fun _ => { self with status := .running }
      loop env threshold graph input ((input.recursionLimit - self.step).toNat + 1) 0

/-- `__init__` -/
def init : LangGraphWorkflow Chan := { checkpoint := env.lg.emptyCheckpoint }

end LangGraphWorkflow

end LanggraphTemporal.Model
