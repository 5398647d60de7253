/-
# Model.Streaming -- the client's side of a stream

`PollingStreamBackend.poll_stream` of `streaming.py`, without a timeout, and the
filter by mode that `TemporalGraph.astream` puts behind it.  The events of a query
result are `list[Any]`: a `StreamEvent` that has crossed the process boundary is
whatever Temporal's converter has made of it.
-/
import LanggraphTemporal.Model.Workflow

namespace LanggraphTemporal.Model

set_option autoImplicit false

/-! ## Polling -/

/-- What a query comes to. -/
inductive QueryOutcome where
  | answered (result : StreamQueryResult)
  | raised

/-- The loop of `poll_stream`. -/
structure PollLoop where
  cursor : Nat := 0
  yielded : List StreamEvent := []
  stopped : Bool := false

/-- One pass of the loop: any exception breaks it. -/
def PollLoop.iterate (loop : PollLoop) (outcome : QueryOutcome) : PollLoop :=
  if loop.stopped then loop
  else
    match outcome with
    | .answered result =>
        { loop with yielded := loop.yielded ++ result.events, cursor := result.nextCursor }
    | .raised => { loop with stopped := true }

/-- `poll_stream`, after these queries -/
def pollStream (outcomes : List QueryOutcome) : PollLoop := outcomes.foldl PollLoop.iterate {}

/-! ## Stream modes -/

namespace StreamEvent

def mode : StreamEvent → String
  | values _ _ => "values"
  | updates _ _ _ => "updates"
  | custom _ _ _ => "custom"

def data : StreamEvent → PyVal
  | values data _ => .ofDict data
  | updates data _ _ => .ofDict data
  | custom data _ _ => data

def nodeName : StreamEvent → PyVal
  | values _ _ => .none
  | updates _ nodeName _ => .str nodeName
  | custom _ nodeName _ => .str nodeName

def step : StreamEvent → Nat
  | values _ step => step
  | updates _ _ step => step
  | custom _ _ step => step

/-- The plain dict of an event; `convert` is what becomes of its data. -/
def toDict (convert : PyVal → PyVal) (e : StreamEvent) : PyVal :=
  .dict [("mode", .str e.mode), ("data", convert e.data), ("node_name", e.nodeName),
    ("step", .int e.step)]

end StreamEvent

/-- An element of `StreamQueryResult.events`: an object with a `mode`, or one
without. -/
inductive StreamObject where
  | event (e : StreamEvent)
  | plain (v : PyVal)

/-- What the client gets of an event: in a field typed `list[Any]` a dataclass
becomes a plain dict. -/
def received (convert : PyVal → PyVal) (e : StreamEvent) : StreamObject := .plain (e.toDict convert)

/-- The body of the loop in `astream`. -/
def selectEvent (streamMode : String) : StreamObject → Option PyVal
  | .event e => if e.mode = streamMode then some e.data else none
  | .plain v => some v

/-- What `astream` yields of the objects that `poll_stream` yields. -/
def astream (streamMode : String) (objects : List StreamObject) : List PyVal :=
  objects.filterMap (selectEvent streamMode)

end LanggraphTemporal.Model
