/-
# Properties.UpdateEvents -- what the `updates` stream says of the writes

The `updates` event of a result has its writes as a dict, which keeps one value
for each channel.  So the event of a result determines its writes exactly when no
channel is written twice (`updates_determine_iff`): the node's own message is not
in the event when a tool reply follows it (`own_message_lost`).
-/
import LanggraphTemporal.Model.Workflow

namespace LanggraphTemporal.Properties

set_option autoImplicit false

open Theory Model Model.LangGraphWorkflow

variable {step : Nat} {r r' : NodeActivityOutput}

def isUpdatesEvent : StreamEvent → Bool
  | .updates _ _ _ => true
  | _ => false

/-- The `updates` events that `_emit_stream_events` appends for a result. -/
def updatesEvents (step : Nat) (r : NodeActivityOutput) : List StreamEvent :=
  (resultEvents step r).filter isUpdatesEvent

/-- No channel is written twice. -/
def DistinctChannels (r : NodeActivityOutput) : Prop := (r.writes.map Prod.fst).Nodup

/-- The events of a result are not those of one that writes something else, and
no channel twice. -/
def Determined (step : Nat) (r : NodeActivityOutput) : Prop :=
  ∀ r', DistinctChannels r' → updatesEvents step r' = updatesEvents step r → r'.writes = r.writes

theorem updatesEvents_eq (step : Nat) (r : NodeActivityOutput) : updatesEvents step r =
    if r.writes.isEmpty then [] else [.updates (Dict.ofList r.writes) r.nodeName step] := by
  have others : (r.customData.map fun data => StreamEvent.custom data r.nodeName step).filter
      isUpdatesEvent = [] := by
    rw [List.filter_eq_nil_iff]
    intro e mem
    obtain ⟨data, -, rfl⟩ := List.mem_map.mp mem
    exact Bool.false_ne_true
  unfold updatesEvents resultEvents
  rw [List.filter_append, others, List.append_nil]
  split
  · rfl
  · rfl

/-- All events of a superstep, result by result. -/
theorem updatesEvents_emitted {Chan : Type} (lg : Langgraph Chan) (results : List NodeActivityOutput)
    (self : LangGraphWorkflow Chan) : (emitStreamEvents lg results self).streamBuffer.filter isUpdatesEvent =
      self.streamBuffer.filter isUpdatesEvent ++ results.flatMap (updatesEvents self.step) := by
  unfold emitStreamEvents
  dsimp only
  rw [List.filter_append, List.filter_append, List.filter_flatMap]
  have values : [StreamEvent.values (getChannelValues lg self.channels) self.step].filter isUpdatesEvent =
      [] := rfl
  rw [values, List.append_nil]
  rfl

/-- Of two results with the same events, both or neither write something, and
then the same dict. -/
theorem ofList_of_same_events (same : updatesEvents step r' = updatesEvents step r) :
    Dict.ofList r'.writes = Dict.ofList r.writes := by
  rw [updatesEvents_eq, updatesEvents_eq] at same
  by_cases none : r.writes.isEmpty = true
  · by_cases none' : r'.writes.isEmpty = true
    · rw [List.isEmpty_iff.mp none, List.isEmpty_iff.mp none']
    · rw [if_pos none, if_neg none'] at same
      cases same
  · by_cases none' : r'.writes.isEmpty = true
    · rw [if_neg none, if_pos none'] at same
      cases same
    · rw [if_neg none, if_neg none'] at same
      exact (StreamEvent.updates.inj (List.singleton_inj.mp same)).1

theorem determined_of_distinct (distinct : DistinctChannels r) : Determined step r := by
  intro r' distinct' same
  have dicts := congrArg Dict.entries (ofList_of_same_events same)
  rwa [Dict.entries_ofList distinct', Dict.entries_ofList distinct] at dicts

/-- The result that writes what is left of the writes in the event. -/
def collapsed (r : NodeActivityOutput) : NodeActivityOutput :=
  { r with writes := (Dict.ofList r.writes).entries }

theorem collapsed_distinct (r : NodeActivityOutput) : DistinctChannels (collapsed r) :=
  (Dict.ofList r.writes).nodup

theorem collapsed_events (r : NodeActivityOutput) :
    updatesEvents step (collapsed r) = updatesEvents step r := by
  have dict : Dict.ofList (collapsed r).writes = Dict.ofList r.writes :=
    Dict.ext (Dict.entries_ofList (collapsed_distinct r))
  have empty : (collapsed r).writes.isEmpty = r.writes.isEmpty := Dict.isEmpty_ofList r.writes
  rw [updatesEvents_eq, updatesEvents_eq, dict, empty]
  rfl

/-- **The `updates` events of the results of a superstep determine their writes,
if and only if no result writes a channel twice.** -/
theorem updates_determine_iff (step : Nat) (results : List NodeActivityOutput) :
    (∀ r ∈ results, Determined step r) ↔ ∀ r ∈ results, DistinctChannels r := by
  refine forall₂_congr fun r _ => ⟨fun determined => ?_, determined_of_distinct⟩
  have same : (collapsed r).writes = r.writes := determined _ (collapsed_distinct r) (collapsed_events r)
  rw [DistinctChannels, ← same]
  exact collapsed_distinct r

/-- A result with its own message and the tool reply that is appended to it. -/
def repliedResult : NodeActivityOutput where
  nodeName := "agent"
  writes := [("messages", .str "ask the researcher"), ("messages", .str "found")]

/-- **The node's own message is lost**: the events are those of a result that has
the tool reply only. -/
theorem own_message_lost :
    updatesEvents 0 repliedResult =
        updatesEvents 0 { nodeName := "agent", writes := [("messages", .str "found")] } ∧
      repliedResult.writes ≠ [("messages", .str "found")] := by
  refine ⟨rfl, fun same => ?_⟩
  have lengths := congrArg List.length same
  cases lengths

end LanggraphTemporal.Properties
