/-
# Model.Activities -- `_execute_node_impl` of `activities.py`

An activity runs the code of one node.  What that code does while it runs is a
`NodeRun`: the writes and Sends it passes to `CONFIG_KEY_SEND`, the stream data
and child requests it leaves, and how it ends.  It may depend on everything the
activity hands to it: the node input, the state its reads see, and the resume
values in the scratchpad.  Writers run after the node and may read the node's
own writes on top of the state (`readHandler`).
-/
import LanggraphTemporal.Model.Workflow

namespace LanggraphTemporal.Model

set_option autoImplicit false

open Theory

/-- `langgraph._internal._constants.TASKS` -/
def TASKS : String := "__pregel_tasks"

/-- `langgraph.constants.END` -/
def END : String := "__end__"

/-- What a node returns: a `Command`, or any other value. -/
inductive NodeResult where
  | value (v : PyVal)
  | command (c : CommandData)

structure Exc where
  type : String
  message : String
  deriving DecidableEq

inductive NodeOutcome where
  | returned (r : NodeResult)
  | interrupted (interrupts : List InterruptData)
  | raised (exc : Exc)

/-- What `node.bound.ainvoke` does. -/
structure NodeRun where
  sent : List (String × PyVal) := []
  customData : List PyVal := []
  childRequests : List ChildRequest := []
  outcome : NodeOutcome

/-- `RetryPolicy.retry_on`. A class comes with what a call of it on an exception
comes to: the truth value of the instance, or what its constructor raises. -/
inductive RetryOn where
  | exceptionClass (name : String) (construct : Exc → Except Exc Bool)
  | exceptionClasses (names : List String)
  | predicate (p : Exc → Bool)

/-- What is kept as a retry policy: one `RetryPolicy`, or a sequence of them, as a
compiled graph keeps those of its nodes. -/
inductive KeptPolicy where
  | policy (retryOn : RetryOn)
  | sequence (retryOns : List RetryOn)

/-- `getattr(retry_policy, "retry_on", None)`: a sequence has no such attribute. -/
def KeptPolicy.retryOn : KeptPolicy → Option RetryOn
  | .policy retryOn => some retryOn
  | .sequence _ => none

/-- The code of a node: the callable it is bound to, its writers, and its
attribute `retry_policy`, which may be missing or `None`. -/
structure NodeCode where
  ainvoke : (nodeInput inputState : PyVal) → (resume : List PyVal) → NodeRun
  writers : List (NodeResult → (read : String → Option PyVal) → Except Exc (List (String × PyVal)))
  retryPolicy : Option KeptPolicy := none

/-- A graph, as an activity finds it: its nodes, and its attribute
`retry_policies`, which is empty where it is missing. -/
structure GraphCode where
  nodes : String → Option NodeCode
  retryPolicies : Dict KeptPolicy := ∅

/-- How an activity fails: an `ApplicationError` that is not retried, the
node's own exception, or one that is raised while that one is handled. -/
inductive NodeFailure where
  | nonRetryable (type message : String)
  | reraised (exc : Exc)
  | raisedInHandler (exc : Exc)

namespace Activities

/-- The Sends that `send_handler` captures. -/
def sendsOf (writes : List (String × PyVal)) : List SendRequest :=
  writes.filterMap fun w =>
    match w with
    | (chan, .send node arg) => if chan = TASKS then some ⟨node, arg⟩ else none
    | _ => none

/-- The other writes that `send_handler` captures. -/
def plainWrites (writes : List (String × PyVal)) : List (String × PyVal) :=
  writes.filter fun w => w.1 ≠ TASKS

/-- `read_handler` of one channel: the last write so far, else the input state. -/
def readHandler (inputState : PyVal) (writes : List (String × PyVal)) (chan : String) :
    Option PyVal :=
  match (plainWrites writes).reverse.lookup chan with
  | some v => some v
  | none =>
      match inputState with
      | .dict kvs => kvs.lookup chan
      | _ => none

/-- The `select` argument of `read_handler`: a channel, or a list of them. -/
inductive Select where
  | one (chan : String)
  | many (chans : List String)

/-- What a reading of channels gives for a selection: the value of one, or a dict
of the values; a channel without a value reads as `None`. -/
def Select.apply (read : String → Option PyVal) : Select → PyVal
  | .one chan => (read chan).getD .none
  | .many chans => .ofDict (Dict.ofList (chans.map fun chan => (chan, (read chan).getD .none)))

/-- `read_handler` -/
def readSelect (inputState : PyVal) (writes : List (String × PyVal)) (select : Select) : PyVal :=
  select.apply (readHandler inputState writes)

/-- Invoke the writers in turn; each sees the writes made before it. -/
def runWriters (inputState : PyVal) (result : NodeResult) :
    List (NodeResult → (String → Option PyVal) → Except Exc (List (String × PyVal))) →
      List (String × PyVal) → Except Exc (List (String × PyVal))
  | [], writes => .ok writes
  | writer :: writers, writes =>
      match writer result (readHandler inputState writes) with
      | .ok more => runWriters inputState result writers (writes ++ more)
      | .error exc => .error exc

/-- `{"node": s.node, "arg": s.arg} if isinstance(s, Send) else s` -/
def encodeTarget : PyVal → PyVal
  | .send node arg => .dict [("node", .str node), ("arg", arg)]
  | v => v

/-- `command_data["goto"]` -/
def encodeGoto : PyVal → PyVal
  | .list xs => .list (xs.map encodeTarget)
  | .tuple xs => .list (xs.map encodeTarget)
  | v => v

/-- `command_data` -/
def commandData : NodeResult → Option CommandData
  | .command c => some { c with goto := encodeGoto c.goto }
  | .value _ => none

/-- A `Command` without an update does not go through the writers. -/
def runsWriters : NodeResult → Bool
  | .command c => !c.update.isNone
  | .value _ => true

/-- `_filter_untracked_writes` -/
def filterUntrackedWrites {Chan : Type} (untracked : Chan → Bool) (channels : Dict Chan)
    (writes : List (String × PyVal)) : List (String × PyVal) :=
  writes.filter fun w =>
    match channels.get? w.1 with
    | some chan => !untracked chan
    | none => true

/-- `retry_on(exc)`, if `retry_on` is callable: a class is, and a sequence of
classes is not. -/
def shouldRetry (exc : Exc) : RetryOn → Option (Except Exc Bool)
  | .exceptionClass _ construct => some (construct exc)
  | .exceptionClasses _ => none
  | .predicate p => some (.ok (p exc))

/-- `_get_node_retry_policy` -/
def getNodeRetryPolicy (graph : GraphCode) (nodeName : String) : Option KeptPolicy :=
  match graph.retryPolicies.get? nodeName with
  | some policy => some policy
  | none =>
      match graph.nodes nodeName with
      | some node => node.retryPolicy
      | none => none

/-- The handler of any exception other than `GraphInterrupt`. -/
def failure (retryPolicy : Option KeptPolicy) (exc : Exc) : NodeFailure :=
  match (retryPolicy.bind KeptPolicy.retryOn).bind (shouldRetry exc) with
  | some (.ok true) => .reraised exc
  | some (.ok false) => .nonRetryable exc.type exc.message
  | some (.error raised) => .raisedInHandler raised
  | none => .reraised exc

/-- The node input: the `Send` argument, else the state. -/
def nodeInput (input : NodeActivityInput) : PyVal :=
  if input.sendInput.isNone then input.inputState else input.sendInput

/-- The output of a node that returned `result` after the writes `writes`. -/
def completed {Chan : Type} (untracked : Chan → Bool) (channels : Dict Chan)
    (input : NodeActivityInput) (run : NodeRun) (result : NodeResult)
    (writes : List (String × PyVal)) : NodeActivityOutput :=
  { nodeName := input.nodeName
    writes := filterUntrackedWrites untracked channels (plainWrites writes)
    triggers := input.triggers
    taskPath := input.taskPath
    pushSends := sendsOf writes
    command := commandData result
    customData := run.customData
    childWorkflowRequests := run.childRequests }

/-- `_execute_node_impl`, for the code of the graph. -/
def executeNodeImpl {Chan : Type} (untracked : Chan → Bool) (channels : Dict Chan)
    (graph : GraphCode) (input : NodeActivityInput) : Except NodeFailure NodeActivityOutput :=
  match graph.nodes input.nodeName with
  | none => .error (.reraised ⟨"KeyError", input.nodeName⟩)
  | some node =>
      let run := node.ainvoke (nodeInput input) input.inputState (input.resumeValues.getD [])
      match run.outcome with
      | .interrupted interrupts =>
          .ok { nodeName := input.nodeName, writes := [], triggers := input.triggers,
                taskPath := input.taskPath, interrupts := interrupts }
      | .raised exc => .error (failure (getNodeRetryPolicy graph input.nodeName) exc)
      | .returned result =>
          if runsWriters result then
            match runWriters input.inputState result node.writers run.sent with
            | .ok writes => .ok (completed untracked channels input run result writes)
            | .error exc => .error (failure (getNodeRetryPolicy graph input.nodeName) exc)
          else .ok (completed untracked channels input run result run.sent)

variable {Chan : Type} {untracked : Chan → Bool} {channels : Dict Chan}
  {graph : GraphCode} {input : NodeActivityInput} {output : NodeActivityOutput}

/-- The two shapes of an activity's output: an interrupted one, or a completed
one. -/
theorem executeNodeImpl_cases
    (executed : executeNodeImpl untracked channels graph input = .ok output) :
    (∃ interrupts, output =
      { nodeName := input.nodeName, writes := [], triggers := input.triggers,
        taskPath := input.taskPath, interrupts := interrupts }) ∨
    ∃ run result writes, output = completed untracked channels input run result writes := by
  unfold executeNodeImpl at executed
  split at executed
  · cases executed
  · dsimp only at executed
    split at executed
    · rename_i interrupts _
      cases executed
      exact .inl ⟨interrupts, rfl⟩
    · cases executed
    · split at executed
      · split at executed
        · cases executed
          exact .inr ⟨_, _, _, rfl⟩
        · cases executed
      · cases executed
        exact .inr ⟨_, _, _, rfl⟩

/-- **Every output of the activity is one that its request can get.** -/
theorem executeNodeImpl_permitted (env : Env Chan) (name : String) (call : ActivityCall)
    (w : Execution Chan)
    (executed : executeNodeImpl untracked channels graph input = .ok output) :
    (workflowSystem env).permits (.executeActivity name input call) (.output output) w = true := by
  rcases executeNodeImpl_cases executed with ⟨interrupts, rfl⟩ | ⟨run, result, writes, rfl⟩
  · simp [workflowSystem, NodeActivityOutput.interrupted]
  · simp [workflowSystem, completed, NodeActivityOutput.interrupted]

end Activities

end LanggraphTemporal.Model
