/-
# Properties.StreamModes -- stream modes over the wire

`astream` looks at the `mode` of what it is given, and takes an object without one
for data.  Events that have crossed the process boundary are plain dicts, which
have no attributes, so each of them is yielded as a whole, whatever its mode
(`astream_received`).  That is never what was asked for: the filter does what it
should only while there are no events (`mode_filtered_iff`).
-/
import LanggraphTemporal.Model.Streaming

namespace LanggraphTemporal.Properties

set_option autoImplicit false

open Theory Model

variable {convert : PyVal → PyVal} {streamMode : String}

/-- The data of the events of this mode, as it arrives. -/
def dataOf (convert : PyVal → PyVal) (streamMode : String) (events : List StreamEvent) : List PyVal :=
  (events.filter fun e => e.mode = streamMode).map fun e => convert e.data

/-- What `astream` yields for events from a workflow in another process. -/
def streamed (convert : PyVal → PyVal) (streamMode : String) (events : List StreamEvent) : List PyVal :=
  astream streamMode (events.map (received convert))

/-- All events come through, each as its dict. -/
theorem astream_received (events : List StreamEvent) :
    streamed convert streamMode events = events.map (StreamEvent.toDict convert) := by
  unfold streamed astream
  rw [List.filterMap_map]
  exact congrFun List.filterMap_eq_map' events

/-- A dict with a value in it is not that value. -/
theorem toDict_ne_data (e : StreamEvent) : e.toDict convert ≠ convert e.data := by
  intro same
  have sizes := congrArg sizeOf same
  simp only [StreamEvent.toDict, PyVal.dict.sizeOf_spec, List.cons.sizeOf_spec, Prod.mk.sizeOf_spec] at sizes
  omega

/-- **The events of the mode, and nothing else, come out of `astream` if and only
if there are no events at all.** -/
theorem mode_filtered_iff (convert : PyVal → PyVal) (streamMode : String) (events : List StreamEvent) :
    streamed convert streamMode events = dataOf convert streamMode events ↔ events = [] := by
  rw [astream_received]
  constructor
  · intro same
    unfold dataOf at same
    have lengths := congrArg List.length same
    rw [List.length_map, List.length_map] at lengths
    -- no event has been dropped, so the first one would have to be its own data
    have all := List.filter_sublist.eq_of_length lengths.symm
    rw [all] at same
    cases events with
    | nil => rfl
    | cons e events => exact absurd (List.cons.inj same).1 (toDict_ne_data e)
  · rintro rfl
    rfl

/-- **The wrong data is yielded**: a stream of values shows an update too, and each
event with its mode. -/
theorem other_modes_yielded :
    streamed id "values" [.values ∅ 0, .updates ∅ "agent" 0] =
        [.dict [("mode", .str "values"), ("data", .dict []), ("node_name", .none), ("step", .int 0)],
          .dict [("mode", .str "updates"), ("data", .dict []), ("node_name", .str "agent"), ("step", .int 0)]] ∧
      dataOf id "values" [.values ∅ 0, .updates ∅ "agent" 0] = [.dict []] :=
  ⟨rfl, rfl⟩

end LanggraphTemporal.Properties
