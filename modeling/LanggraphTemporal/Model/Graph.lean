/-
# Model.Graph -- `TemporalGraph` of `graph.py`

The client side.  A `TemporalGraph` makes the input of a workflow out of the
arguments of `ainvoke`, `astart` or `astream` and the settings of its compiled
graph.
-/
import LanggraphTemporal.Model.Registry

namespace LanggraphTemporal.Model

set_option autoImplicit false

open Theory

/-- `langgraph.types.RetryPolicy`, as far as it is read; `none` is an attribute
that the object does not have. -/
structure RetryPolicy where
  initialInterval : Option Rat := none
  backoffFactor : Option Rat := none
  maxInterval : Option Rat := none
  maxAttempts : Option Nat := none

/-- What a `subagent_config` of the caller is: the dataclass, a dict with its
keys, or something that is ignored. -/
inductive RawSubAgent where
  | config (c : SubAgentConfig)
  | dict (taskQueue stickyTaskQueue : Option String) (executionTimeoutSeconds : Option Rat)
  | other

/-- `config["configurable"]` -/
structure Configurable where
  threadId : Option String := none
  recursionLimit : Option Int := none
  stickyTaskQueue : Option String := none
  useWorkerAffinity : PyVal := .bool false
  subagentConfig : RawSubAgent := .other

/-- The `config` argument. -/
structure RunnableConfig where
  configurable : Option Configurable := none
  recursionLimit : Option Int := none

/-- A `TemporalGraph` with all that it reads to start a workflow: its own
settings, and those of its compiled graph. -/
structure ClientGraph (Chan : Type) extends TemporalGraph Chan where
  interruptBeforeNodes : InterruptNodes := .names []
  interruptAfterNodes : InterruptNodes := .names []
  retryPolicies : Dict RetryPolicy := ∅
  nodeTaskQueues : Dict String := ∅
  nodeActivityOptions : Dict ActivityOptions := ∅

/-- `list(nodes)`: of the string `"*"` it is the list of its one character. -/
def InterruptNodes.toList : InterruptNodes → List String
  | .all => ["*"]
  | .names ns => ns

/-- The input that `run` gets of one that a client sends. It is decoded by the
types of its fields, for the two settings `list[str] | None`: of a string, too,
this makes the list of its items. -/
def WorkflowInput.decoded (input : WorkflowInput) : WorkflowInput :=
  { input with
    interruptBefore := input.interruptBefore.map fun nodes => .names nodes.toList
    interruptAfter := input.interruptAfter.map fun nodes => .names nodes.toList }

/-- `RetryPolicyConfig(...)` of a LangGraph policy -/
def RetryPolicy.toConfig (policy : RetryPolicy) : RetryPolicyConfig where
  initialIntervalSeconds := policy.initialInterval.getD 1
  backoffCoefficient := policy.backoffFactor.getD 2
  maxIntervalSeconds := policy.maxInterval.getD 100
  maxAttempts := policy.maxAttempts.getD 0

/-- What becomes of the caller's `subagent_config`. -/
def RawSubAgent.toConfig : RawSubAgent → Option SubAgentConfig
  | .config c => some c
  | .dict taskQueue stickyTaskQueue timeout => some
      { taskQueue, stickyTaskQueue, executionTimeoutSeconds := timeout.getD 1800 }
  | .other => none

/-- `d if d else None` -/
def truthyDict {α : Type} (d : Dict α) : Option (Dict α) :=
  if d.entries.isEmpty then none else some d

namespace ClientGraph

variable {Chan : Type}

/-- An interrupt argument, or else the setting of the graph. -/
def interruptNodes (override : Option InterruptNodes) (setting : InterruptNodes) :
    Option InterruptNodes :=
  match override with
  | some nodes => some nodes
  | none => if setting.truthy then some (.names setting.toList) else none

/-- `recursion_limit` of a config: its own entry, else that of its
`configurable`, else 25. -/
def recursionLimit (config : Option RunnableConfig) : Int :=
  let limit := ((config.bind RunnableConfig.configurable).bind Configurable.recursionLimit).getD 25
  (config.bind RunnableConfig.recursionLimit).getD limit

/-- `input if isinstance(input, dict) else {"__root__": input}` -/
def inputData : PyVal → PyVal
  | .dict kvs => .dict kvs
  | v => .dict [("__root__", v)]

/-- `_build_workflow_input` -/
def buildWorkflowInput (self : ClientGraph Chan) (input : PyVal) (config : Option RunnableConfig)
    (interruptBefore interruptAfter : Option InterruptNodes) : WorkflowInput :=
  let configurable := (config.bind RunnableConfig.configurable).getD {}
  { graphDefinitionRef := self.graphRef
    inputData := some (inputData input)
    recursionLimit := recursionLimit config
    interruptBefore := interruptNodes interruptBefore self.interruptBeforeNodes
    interruptAfter := interruptNodes interruptAfter self.interruptAfterNodes
    nodeTaskQueues := truthyDict self.nodeTaskQueues
    nodeActivityOptions := truthyDict self.nodeActivityOptions
    nodeRetryPolicies := truthyDict (self.retryPolicies.filterMap fun _ p => some p.toConfig)
    stickyTaskQueue := configurable.stickyTaskQueue
    useWorkerAffinity := configurable.useWorkerAffinity.truthy
    subagentConfig := configurable.subagentConfig.toConfig }

end ClientGraph

end LanggraphTemporal.Model
