/-
# Model.Langgraph -- what the repository uses of LangGraph

`langgraph` is a third-party package: a compiled graph (`Pregel`) is read as
data, and the functions of `langgraph.pregel` that the workflow calls are the
fields of `Langgraph`, a parameter of everything that follows.  They work in
place on the checkpoint and the channels; here they return the new ones.

What is known of these functions is stated where it is used, as one proposition
for each documented fact (`SchedulesTriggered`, `RecordsSeen`, ...); no result
assumes more of LangGraph than it names.
-/
import LanggraphTemporal.Model.Config

namespace LanggraphTemporal.Model

set_option autoImplicit false

open Theory

/-- The runnable a node is bound to: a compiled graph of its own, or anything
else. -/
inductive Bound where
  | pregel (name : String)
  | runnable
  deriving DecidableEq

/-- `PregelNode`, as far as the workflow reads it. -/
structure PregelNode where
  triggers : List String
  bound : Option Bound := some .runnable
  deriving DecidableEq

/-- A compiled graph with channels of type `Chan`. -/
structure Pregel (Chan : Type) where
  name : String
  nodes : Dict PregelNode
  channels : Dict Chan
  triggerToNodes : Dict (List String) := ∅
  inputChannels : String := "__start__"

/-- What `apply_writes` leaves: the checkpoint and the channels it has changed
in place, and the set of updated channels it returns. -/
structure Applied (Chan : Type) where
  checkpoint : Checkpoint
  channels : Dict Chan
  updated : List String

/-- The functions of LangGraph that the workflow calls. -/
structure Langgraph (Chan : Type) where
  /-- `channel.get()`; `none` when it raises or the value is `MISSING`. -/
  get : Chan → Option PyVal
  /-- `channel.is_available()` -/
  isAvailable : Chan → Bool
  emptyCheckpoint : Checkpoint
  channelsFromCheckpoint : Dict Chan → Checkpoint → Dict Chan
  createCheckpoint : Checkpoint → Dict Chan → Nat → Checkpoint
  /-- With `for_execution=False`, no pending writes and no managed values. -/
  prepareNextTasks : Checkpoint → Dict PregelNode → Dict Chan → Nat → Int → Dict (List String) →
    List PregelTask
  /-- `apply_writes`; the error is the message of an `InvalidUpdateError`. -/
  applyWrites : Checkpoint → Dict Chan → List PregelTaskWrites → (Option Nat → Nat) →
    Dict (List String) → Except String (Applied Chan)

/-- `increment(current, channel)` -/
def increment (current : Option Nat) : Nat := current.getD 0 + 1

/-- `CHANNEL_BRANCH_TO`: the channel by which a `StateGraph` triggers a node. -/
def branchTo (node : String) : String := "branch:to:" ++ node

namespace Checkpoint

/-- The version of a channel; a channel that was never written has version 0. -/
def version (cp : Checkpoint) (chan : String) : Nat := cp.channelVersions.getD chan 0

/-- Is `chan` at a version above the one `node` has seen? A node without an
entry of its own has seen nothing. -/
def unseen (cp : Checkpoint) (node chan : String) : Prop :=
  match cp.versionsSeen.get? node with
  | none => True
  | some seen => seen.getD chan 0 < cp.version chan

/-- No node has seen a version above those of all channels. -/
def Consistent (cp : Checkpoint) : Prop :=
  ∀ node seen chan, cp.versionsSeen.get? node = some seen → ∃ top, seen.getD chan 0 ≤ cp.version top

/-- `chan` is at a version that no node has seen. -/
def Fresh (cp : Checkpoint) (chan : String) : Prop :=
  0 < cp.version chan ∧
    ∀ node seen, cp.versionsSeen.get? node = some seen → seen.getD chan 0 < cp.version chan

theorem Fresh.unseen {cp : Checkpoint} {chan : String} (fresh : cp.Fresh chan) (node : String) :
    cp.unseen node chan := by
  unfold Checkpoint.unseen
  cases seen : cp.versionsSeen.get? node with
  | none => trivial
  | some seen' => exact fresh.2 node seen' seen

end Checkpoint

namespace Langgraph

variable {Chan : Type} (lg : Langgraph Chan)

/-- `chan` is a channel of the graph that holds a value. -/
def available (channels : Dict Chan) (chan : String) : Prop :=
  ∃ c, channels.get? chan = some c ∧ lg.isAvailable c = true

/-- A trigger channel of `node` is available at a version it has not seen. -/
def Triggered (cp : Checkpoint) (channels : Dict Chan) (node : String) (triggers : List String) :
    Prop :=
  ∃ chan ∈ triggers, lg.available channels chan ∧ cp.unseen node chan

/-! ## Documented facts, each a hypothesis of the results that use it -/

/-- `prepare_next_tasks` schedules a node exactly when it is triggered. -/
def SchedulesTriggered : Prop :=
  ∀ cp nodes channels step stop ttn node,
    node ∈ (lg.prepareNextTasks cp nodes channels step stop ttn).map PregelTask.name ↔
      ∃ n, nodes.get? node = some n ∧ lg.Triggered cp channels node n.triggers

/-- `prepare_next_tasks` schedules a node once. -/
def SchedulesOnce : Prop :=
  ∀ cp nodes channels step stop ttn,
    ((lg.prepareNextTasks cp nodes channels step stop ttn).map PregelTask.name).Nodup

/-- `apply_writes` records, for exactly the tasks it is given, the versions
that their trigger channels have when it is called. -/
def RecordsSeen : Prop :=
  ∀ cp channels tasks inc ttn out, lg.applyWrites cp channels tasks inc ttn = .ok out →
    (∀ t ∈ tasks, ∃ seen, out.checkpoint.versionsSeen.get? t.name = some seen ∧
      ∀ chan ∈ t.triggers, cp.version chan ≤ seen.getD chan 0) ∧
    ∀ node ∉ tasks.map PregelTaskWrites.name,
      out.checkpoint.versionsSeen.get? node = cp.versionsSeen.get? node

/-- The version recorded of a trigger channel that has one is the one it has
when `apply_writes` is called. -/
def RecordsCurrent : Prop :=
  ∀ cp channels tasks inc ttn out, lg.applyWrites cp channels tasks inc ttn = .ok out →
    ∀ t ∈ tasks, ∀ chan ∈ t.triggers, ∀ v, cp.channelVersions.get? chan = some v →
      ∃ seen, out.checkpoint.versionsSeen.get? t.name = some seen ∧ seen.get? chan = some v

/-- Writes without triggers leave the versions of all channels that they do not
write to. -/
def KeepsVersions : Prop :=
  ∀ cp channels tasks ttn out, lg.applyWrites cp channels tasks increment ttn = .ok out →
    (∀ t ∈ tasks, t.triggers = []) → ∀ chan, (∀ t ∈ tasks, ∀ w ∈ t.writes, w.1 ≠ chan) →
      out.checkpoint.channelVersions.get? chan = cp.channelVersions.get? chan

/-- A channel that `apply_writes` does not report as updated is not made
available by it, and is not left available at another version. -/
def ReportsUpdated : Prop :=
  ∀ cp channels tasks inc ttn out, lg.applyWrites cp channels tasks inc ttn = .ok out →
    ∀ chan, chan ∉ out.updated → lg.available out.channels chan →
      lg.available channels chan ∧ out.checkpoint.version chan = cp.version chan

/-- `create_checkpoint` copies the versions and the versions seen. -/
def CopiesVersions : Prop :=
  ∀ cp channels step,
    (lg.createCheckpoint cp channels step).channelVersions = cp.channelVersions ∧
      (lg.createCheckpoint cp channels step).versionsSeen = cp.versionsSeen

/-- Checkpoints start and stay consistent. -/
structure KeepsConsistent : Prop where
  start : lg.emptyCheckpoint.Consistent
  applied : ∀ cp channels tasks ttn out, lg.applyWrites cp channels tasks increment ttn = .ok out →
    cp.Consistent → out.checkpoint.Consistent

/-- The channels of a graph are there from the start, and stay. -/
structure KeepsChannels : Prop where
  start : ∀ specs cp chan, (specs.get? chan).isSome = true →
    ((lg.channelsFromCheckpoint specs cp).get? chan).isSome = true
  applied : ∀ cp channels tasks ttn out, lg.applyWrites cp channels tasks increment ttn = .ok out →
    ∀ chan, (channels.get? chan).isSome = true → (out.channels.get? chan).isSome = true

/-- A write to a branch channel makes it available at a version that no node
has seen. -/
def WritesFresh : Prop :=
  ∀ cp channels tasks ttn out, lg.applyWrites cp channels tasks increment ttn = .ok out →
    cp.Consistent → ∀ t ∈ tasks, ∀ w ∈ t.writes, ∀ node, w.1 = branchTo node →
      (channels.get? w.1).isSome = true →
        lg.available out.channels w.1 ∧ out.checkpoint.Fresh w.1

/-- Writes without triggers, such as those of an update signal, expire nothing
and are seen by no node. -/
def KeepsFresh : Prop :=
  ∀ cp channels tasks ttn out, lg.applyWrites cp channels tasks increment ttn = .ok out →
    (∀ t ∈ tasks, t.triggers = []) → ∀ chan, lg.available channels chan → cp.Fresh chan →
      lg.available out.channels chan ∧ out.checkpoint.Fresh chan

/-- A branch channel of the graph that is available, and has a version, is available
when it is restored from a checkpoint. -/
def RestoresBranches : Prop :=
  ∀ specs cp channels step node, (specs.get? (branchTo node)).isSome = true →
    0 < cp.version (branchTo node) → lg.available channels (branchTo node) →
      lg.available (lg.channelsFromCheckpoint specs (lg.createCheckpoint cp channels step))
        (branchTo node)

/-- `alike` is an equivalence of checkpoints and channels that the functions of
LangGraph respect, and under which `channels_from_checkpoint` undoes
`create_checkpoint`. It need not hold of checkpoints that LangGraph does not
make, so it is not reflexive; `start` is the checkpoint of the first run. -/
structure Restores (specs : Dict Chan) (start : Checkpoint)
    (alike : Checkpoint → Dict Chan → Checkpoint → Dict Chan → Prop) : Prop where
  symm : ∀ cp channels cp' channels', alike cp channels cp' channels' → alike cp' channels' cp channels
  trans : ∀ cp channels cp' channels' cp'' channels'', alike cp channels cp' channels' →
    alike cp' channels' cp'' channels'' → alike cp channels cp'' channels''
  initial : alike start (lg.channelsFromCheckpoint specs start) start
    (lg.channelsFromCheckpoint specs start)
  values : ∀ cp channels cp' channels', alike cp channels cp' channels' →
    (channels.filterMap fun _ c => lg.get c) = channels'.filterMap fun _ c => lg.get c
  prepare : ∀ cp channels cp' channels', alike cp channels cp' channels' → ∀ nodes step stop ttn,
    lg.prepareNextTasks cp nodes channels step stop ttn =
      lg.prepareNextTasks cp' nodes channels' step stop ttn
  applied : ∀ cp channels cp' channels', alike cp channels cp' channels' → ∀ tasks ttn,
    (∃ out out', lg.applyWrites cp channels tasks increment ttn = .ok out ∧
      lg.applyWrites cp' channels' tasks increment ttn = .ok out' ∧ out.updated = out'.updated ∧
        alike out.checkpoint out.channels out'.checkpoint out'.channels) ∨
    ∃ message, lg.applyWrites cp channels tasks increment ttn = .error message ∧
      lg.applyWrites cp' channels' tasks increment ttn = .error message
  created : ∀ cp channels cp' channels', alike cp channels cp' channels' → ∀ step,
    alike (lg.createCheckpoint cp channels step) channels (lg.createCheckpoint cp' channels' step)
      channels'
  restored : ∀ cp channels step, alike cp channels cp channels →
    alike (lg.createCheckpoint cp channels step)
      (lg.channelsFromCheckpoint specs (lg.createCheckpoint cp channels step)) cp channels

/-- Channels stay what they are. An `UntrackedValue` is restored without a value,
and gets one only by a write. -/
structure Untracks (untracked : Chan → Bool) : Prop where
  restored : ∀ specs cp chan c, (lg.channelsFromCheckpoint specs cp).get? chan = some c →
    (∃ spec, specs.get? chan = some spec ∧ untracked c = untracked spec) ∧
      (untracked c = true → lg.get c = none)
  applied : ∀ cp channels tasks ttn out, lg.applyWrites cp channels tasks increment ttn = .ok out →
    ∀ chan c', out.channels.get? chan = some c' →
      ∃ c, channels.get? chan = some c ∧ untracked c' = untracked c ∧
        (untracked c = true → lg.get c = none → (∀ t ∈ tasks, ∀ w ∈ t.writes, w.1 ≠ chan) →
          lg.get c' = none)

/-- The value of an `EphemeralValue` is one that was written to it. -/
structure HoldsWritten (ephemeral : Chan → Bool) : Prop where
  empty : lg.emptyCheckpoint.channelValues = ∅
  restored : ∀ specs cp chan c, (lg.channelsFromCheckpoint specs cp).get? chan = some c →
    (∃ spec, specs.get? chan = some spec ∧ ephemeral c = ephemeral spec) ∧
      (ephemeral c = true → ∀ v, lg.get c = some v → cp.channelValues.get? chan = some v)
  applied : ∀ cp channels tasks ttn out, lg.applyWrites cp channels tasks increment ttn = .ok out →
    ∀ chan c', out.channels.get? chan = some c' →
      ∃ c, channels.get? chan = some c ∧ ephemeral c' = ephemeral c ∧
        (ephemeral c = true → ∀ v, lg.get c' = some v →
          lg.get c = some v ∨ ∃ t ∈ tasks, (chan, v) ∈ t.writes)
  created : ∀ cp channels step chan v,
    (lg.createCheckpoint cp channels step).channelValues.get? chan = some v →
      ∃ c, channels.get? chan = some c ∧ (ephemeral c = true → lg.get c = some v)

end Langgraph

end LanggraphTemporal.Model
