/-
# Model.Checkpoint -- reading checkpoints from workflows

The reads of `TemporalCheckpointSaver`.  Its client is a parameter: what the
query of a workflow's state comes to, and the time at which it is made.
-/
import LanggraphTemporal.Model.Graph

namespace LanggraphTemporal.Model

set_option autoImplicit false

open Theory

/-! ## Checkpoints -/

/-- The `Checkpoint` TypedDict, with its id and time stamp. -/
structure StampedCheckpoint extends Checkpoint where
  v : Nat
  id : String
  ts : String

structure CheckpointMetadata where
  source : String
  step : Nat
  parents : Dict PyVal

structure CheckpointTuple where
  config : RunnableConfig
  checkpoint : StampedCheckpoint
  metadata : CheckpointMetadata

/-! ## What can go wrong -/

inductive RPCStatusCode where
  | ok
  | cancelled
  | unknown
  | invalidArgument
  | deadlineExceeded
  | notFound
  | alreadyExists
  | permissionDenied
  | resourceExhausted
  | failedPrecondition
  | aborted
  | outOfRange
  | unimplemented
  | internal
  | unavailable
  | dataLoss
  | unauthenticated
  deriving DecidableEq

/-- An exception, by the classes that the `except` clauses tell apart. -/
inductive ReadError where
  | rpcError (status : RPCStatusCode)
  | runtimeError (message : String)
  /-- Any other `Exception`. -/
  | exception (name : String)
  /-- One that is no `Exception`, such as `CancelledError`. -/
  | baseException (name : String)
  deriving DecidableEq

/-- The event loop that `asyncio.get_event_loop()` gives to a caller. -/
inductive EventLoop where
  /-- There is none in this thread, and none is made. -/
  | missing
  | running
  | closed
  | idle
  deriving DecidableEq

/-- A Temporal client. -/
structure TemporalClient where
  queryState : String → Except ReadError StateQueryResult
  now : String

/-! ## The reads -/

namespace TemporalCheckpointSaver

variable (client : TemporalClient)

/-- `config["configurable"]["thread_id"]` -/
def threadId (config : RunnableConfig) : Except ReadError String :=
  match config.configurable.bind Configurable.threadId with
  | some threadId => .ok threadId
  | none => .error (.exception "KeyError")

/-- What `aget_tuple` makes of a state. -/
def checkpointTuple (config : RunnableConfig) (state : StateQueryResult) : CheckpointTuple where
  config := config
  checkpoint :=
    { v := 4
      id := toString state.step
      ts := client.now
      channelValues := state.channelValues
      channelVersions := state.channelVersions
      versionsSeen := state.versionsSeen }
  metadata := { source := "loop", step := state.step, parents := ∅ }

/-- The state that a config stands for. -/
def stateOf (config : RunnableConfig) : Except ReadError StateQueryResult := do
  let id ← threadId config
  client.queryState id

/-- `aget_tuple` -/
def agetTuple (config : RunnableConfig) : Except ReadError (Option CheckpointTuple) :=
  match stateOf client config with
  | .ok state => .ok (some (checkpointTuple client config state))
  | .error (.rpcError .notFound) => .ok none
  | .error e => .error e

/-- `loop.run_until_complete`, on a loop that the caller can run -/
def runUntilComplete {α : Type} (loop : EventLoop) (result : Except ReadError α) : Except ReadError α :=
  match loop with
  | .missing => .error (.runtimeError "There is no current event loop in thread")
  | .running => .error (.runtimeError "Use aget_tuple in async context")
  | .closed => .error (.runtimeError "Event loop is closed")
  | .idle => result

/-- `get_tuple`: its `except` clause also gets what it has raised itself. -/
def getTuple (loop : EventLoop) (config : RunnableConfig) : Except ReadError (Option CheckpointTuple) :=
  match runUntilComplete loop (agetTuple client config) with
  | .error (.runtimeError _) => .ok none
  | result => result

/-- Yield what has been read; `except Exception: return` -/
def yieldTuple (read : RunnableConfig → Except ReadError (Option CheckpointTuple)) :
    Option RunnableConfig → Except ReadError (List CheckpointTuple)
  | none => .ok []
  | some config =>
      match read config with
      | .ok result => .ok result.toList
      | .error (.baseException name) => .error (.baseException name)
      | .error _ => .ok []

/-- `list` -/
def list (loop : EventLoop) : Option RunnableConfig → Except ReadError (List CheckpointTuple) :=
  yieldTuple (getTuple client loop)

/-- `alist` -/
def alist : Option RunnableConfig → Except ReadError (List CheckpointTuple) := yieldTuple (agetTuple client)

end TemporalCheckpointSaver

end LanggraphTemporal.Model
