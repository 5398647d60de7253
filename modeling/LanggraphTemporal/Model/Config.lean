/-
# Model.Config -- the dataclasses of `config.py`

Durations are seconds.  `None` defaults are `none`; a field that the source
tests by truthiness keeps its `Option`, because an empty list and `None` are
told apart elsewhere.
-/
import LanggraphTemporal.Model.Value

namespace LanggraphTemporal.Model

set_option autoImplicit false

open Theory

/-- `ActivityOptions` -/
structure ActivityOptions where
  startToCloseTimeout : Rat := 300
  heartbeatTimeout : Option Rat := none
  scheduleToCloseTimeout : Option Rat := none
  deriving DecidableEq, Inhabited

/-- `SubAgentConfig` -/
structure SubAgentConfig where
  taskQueue : Option String := none
  stickyTaskQueue : Option String := none
  executionTimeoutSeconds : Rat := 1800
  deriving DecidableEq, Inhabited

/-- `RetryPolicyConfig` -/
structure RetryPolicyConfig where
  initialIntervalSeconds : Rat := 1
  backoffCoefficient : Rat := 2
  maxIntervalSeconds : Rat := 100
  maxAttempts : Nat := 0
  nonRetryableErrorTypes : Option (List String) := none
  deriving DecidableEq, Inhabited

/-- One part of a task path: `str | int`. -/
inductive PathPart where
  | str (s : String)
  | int (i : Int)
  deriving DecidableEq, Inhabited

/-- The `Checkpoint` TypedDict, less its id and time stamp. -/
structure Checkpoint where
  channelValues : Dict PyVal := ∅
  channelVersions : Dict Nat := ∅
  versionsSeen : Dict (Dict Nat) := ∅
  deriving Inhabited

/-- `RestoredState` -/
structure RestoredState where
  checkpoint : Checkpoint
  step : Nat
  stickyTaskQueue : Option String := none

/-- What `_should_interrupt_nodes` is typed for, `list[str] | All`: a list of
node names, or every node. The fields of `WorkflowInput` are `list[str] | None`,
which a client can set to `"*"` all the same (`WorkflowInput.decoded`). -/
inductive InterruptNodes where
  | all
  | names (ns : List String)
  deriving DecidableEq

namespace InterruptNodes

/-- `bool(interrupt_nodes)`: the empty list is falsy, `"*"` is not. -/
def truthy : InterruptNodes → Bool
  | all => true
  | names ns => !ns.isEmpty

end InterruptNodes

/-- `WorkflowInput` -/
structure WorkflowInput where
  graphDefinitionRef : String
  inputData : Option PyVal := none
  recursionLimit : Int := 25
  interruptBefore : Option InterruptNodes := none
  interruptAfter : Option InterruptNodes := none
  restoredState : Option RestoredState := none
  nodeTaskQueues : Option (Dict String) := none
  nodeActivityOptions : Option (Dict ActivityOptions) := none
  nodeRetryPolicies : Option (Dict RetryPolicyConfig) := none
  stickyTaskQueue : Option String := none
  useWorkerAffinity : Bool := false
  subagentConfig : Option SubAgentConfig := none

/-- `WorkflowOutput` -/
structure WorkflowOutput where
  channelValues : Dict PyVal
  step : Nat

/-- `NodeActivityInput` -/
structure NodeActivityInput where
  nodeName : String
  /-- The channel values, or for `__start__` the value of its channel. -/
  inputState : PyVal
  graphDefinitionRef : String
  resumeValues : Option (List PyVal) := none
  taskPath : List PathPart := []
  /-- `PyVal.none` is "no override". -/
  sendInput : PyVal := .none
  triggers : List String := []

/-- One dict of `NodeActivityOutput.push_sends`. -/
structure SendRequest where
  node : String
  arg : PyVal

/-- The `Command` metadata of an output. -/
structure CommandData where
  goto : PyVal
  update : PyVal
  graph : PyVal

/-- One dict of `NodeActivityOutput.interrupts`. -/
structure InterruptData where
  value : PyVal
  id : String

/-- One dict of `child_workflow_requests`; `none` is an absent key. -/
structure ChildRequest where
  subagentType : Option String := none
  graphDefinitionRef : Option String := none
  initialState : Option PyVal := none
  toolCallId : Option String := none

/-- `NodeActivityOutput`. The optional lists of the source are only tested by
truthiness, so `None` and `[]` are one value here. -/
structure NodeActivityOutput where
  nodeName : String
  writes : List (String × PyVal)
  triggers : List String := []
  taskPath : List PathPart := []
  interrupts : List InterruptData := []
  pushSends : List SendRequest := []
  command : Option CommandData := none
  customData : List PyVal := []
  childWorkflowRequests : List ChildRequest := []

/-- An entry of the workflow's `interrupts` list: an `interrupt()` of a node,
or a task at an `interrupt_before` / `interrupt_after` pause. -/
inductive PendingInterrupt where
  | raised (data : InterruptData)
  | before (node : String)
  | after (node : String)

/-- `StreamEvent`, with its mode as the constructor. -/
inductive StreamEvent where
  | values (data : Dict PyVal) (step : Nat)
  | updates (data : Dict PyVal) (nodeName : String) (step : Nat)
  | custom (data : PyVal) (nodeName : String) (step : Nat)

/-- `StreamQueryResult` -/
structure StreamQueryResult where
  events : List StreamEvent
  nextCursor : Nat

/-- `PregelTask`: what `prepare_next_tasks` schedules. -/
structure PregelTask where
  name : String
  path : List PathPart
  deriving DecidableEq, Inhabited

/-- `PregelTaskWrites`: what `apply_writes` is given. -/
structure PregelTaskWrites where
  path : List PathPart
  name : String
  writes : List (String × PyVal)
  triggers : List String

end LanggraphTemporal.Model
