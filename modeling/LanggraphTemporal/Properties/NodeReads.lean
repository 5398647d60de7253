/-
# Properties.NodeReads -- what a node reads of its own writes

`read_handler` puts the last write to a channel in the place of its value.  What
LangGraph's `local_read` gives is the value of the channel after an update with
all writes of the node, through its reducer.  The two agree on a channel exactly
when the node has not written to it, or its last write replaces what the reducer
has made of the rest (`reads_updated_iff`).
-/
import LanggraphTemporal.Model.Activities

namespace LanggraphTemporal.Properties

set_option autoImplicit false

open Theory Model Model.Activities

/-! ## Reading through the reducers -/

/-- The values that a node has written to a channel. -/
def sentTo (writes : List (String × PyVal)) (chan : String) : List PyVal :=
  writes.filterMap fun w => if w.1 = chan then some w.2 else none

/-- The value of a channel after an update with these values, one after the other. -/
def folded (reduce : Option PyVal → PyVal → PyVal) (start : Option PyVal) (values : List PyVal) :
    Option PyVal :=
  values.foldl (fun value v => some (reduce value v)) start

variable (reduce : String → Option PyVal → PyVal → PyVal) (state : Dict PyVal)
  (writes : List (String × PyVal))

/-- A channel of the state, updated with the node's writes to it. -/
def updatedValue (chan : String) : Option PyVal :=
  folded (reduce chan) (state.get? chan) (sentTo writes chan)

/-- `local_read` of LangGraph -/
def localRead (select : Select) : PyVal := select.apply (updatedValue reduce state writes)

/-- The node's last write to the channel, if there is one, replaces what the
reducer has made of the others. The Sends it has sent leave the value of their
channel. -/
def Replaces (chan : String) : Prop :=
  if chan = TASKS then (updatedValue reduce state writes TASKS).getD .none = (state.get? TASKS).getD .none
  else ∀ front last, sentTo writes chan = front ++ [last] →
    reduce chan (folded (reduce chan) (state.get? chan) front) last = last

def selected : Select → List String
  | .one chan => [chan]
  | .many chans => chans

/-! ## The two readings -/

variable {reduce state writes}

/-- Two readings give the same for a selection, if and only if they agree on each
channel of it. -/
theorem apply_eq_iff {read read' : String → Option PyVal} (select : Select) :
    select.apply read = select.apply read' ↔
      ∀ chan ∈ selected select, (read chan).getD .none = (read' chan).getD .none := by
  cases select with
  | one chan => simp [Select.apply, selected]
  | many chans =>
      constructor
      · intro same chan mem
        have entries := PyVal.dict.inj same
        have found (read : String → Option PyVal) : (Dict.ofList
            (chans.map fun chan => (chan, (read chan).getD .none))).get? chan = some ((read chan).getD .none) := by
          rw [Dict.get?_ofList, ← List.map_reverse]
          exact List.lookup_graph (fun chan => (read chan).getD .none) (List.mem_reverse.mpr mem)
        have both := (found read).symm.trans ((congrArg (List.lookup chan) entries).trans (found read'))
        exact Option.some.inj both
      · intro same
        have graphs := List.map_congr_left fun chan mem => congrArg (Prod.mk chan) (same chan mem)
        exact congrArg (fun es => PyVal.ofDict (Dict.ofList es)) graphs

theorem lookup_reverse (writes : List (String × PyVal)) (chan : String) :
    writes.reverse.lookup chan = (sentTo writes chan).getLast? := by
  rw [sentTo, List.getLast?_filterMap, List.lookup_eq_findSome?]
  congr 1
  funext w
  by_cases same : chan = w.1
  · simp [same]
  · simp [same, Ne.symm same]

/-- `send_handler` keeps the writes to all channels but one. -/
theorem sentTo_plainWrites (writes : List (String × PyVal)) (chan : String) :
    sentTo (plainWrites writes) chan = if chan = TASKS then [] else sentTo writes chan := by
  unfold sentTo plainWrites
  rw [List.filterMap_filter]
  by_cases tasks : chan = TASKS
  · rw [if_pos tasks, List.filterMap_eq_nil_iff]
    intro w _
    by_cases same : w.1 = chan
    · simp [same, tasks]
    · simp [same]
  · rw [if_neg tasks]
    refine List.filterMap_congr fun w _ => ?_
    by_cases same : w.1 = chan
    · simp [same, tasks]
    · simp [same]

theorem readHandler_eq (state : Dict PyVal) (writes : List (String × PyVal)) (chan : String) :
    readHandler (.ofDict state) writes chan =
      ((sentTo (plainWrites writes) chan).getLast?).or (state.get? chan) := by
  unfold readHandler
  rw [lookup_reverse]
  cases (sentTo (plainWrites writes) chan).getLast? with
  | some v => rfl
  | none => rfl

theorem folded_snoc (reduce : Option PyVal → PyVal → PyVal) (start : Option PyVal)
    (front : List PyVal) (last : PyVal) :
    folded reduce start (front ++ [last]) = some (reduce (folded reduce start front) last) := by
  simp [folded]

/-- **One channel**: `read_handler` reads its updated value, if and only if the
last write to it replaces what is there. -/
theorem reads_channel_iff (chan : String) :
    (readHandler (.ofDict state) writes chan).getD .none = (updatedValue reduce state writes chan).getD .none ↔
      Replaces reduce state writes chan := by
  unfold Replaces
  rw [readHandler_eq, sentTo_plainWrites]
  by_cases tasks : chan = TASKS
  · rw [if_pos tasks, if_pos tasks, tasks]
    exact eq_comm
  · rw [if_neg tasks, if_neg tasks]
    rcases List.eq_nil_or_concat (sentTo writes chan) with none | ⟨front, last, sent⟩
    · refine iff_of_true ?_ ?_
      · rw [updatedValue, none]
        rfl
      · intro front last sent
        rw [none] at sent
        cases front <;> cases sent
    · rw [List.concat_eq_append] at sent
      rw [updatedValue, sent, folded_snoc, List.getLast?_concat]
      change last = reduce chan _ last ↔ _
      constructor
      · intro same front' last' split
        obtain ⟨rfl, one⟩ := List.append_inj' split rfl
        cases one
        exact same.symm
      · intro replaces
        exact (replaces front last rfl).symm

/-- A channel without a reducer is always read right. -/
theorem replaces_of_last {chan : String} (other : chan ≠ TASKS)
    (last : ∀ value v, reduce chan value v = v) : Replaces reduce state writes chan := by
  unfold Replaces
  rw [if_neg other]
  exact fun front v _ => last _ v

/-- **What a node, or the router after it, reads is the state updated with its own
writes, if and only if they replace what they update.** -/
theorem reads_updated_iff (reduce : String → Option PyVal → PyVal → PyVal) (state : Dict PyVal)
    (writes : List (String × PyVal)) (select : Select) :
    readSelect (.ofDict state) writes select = localRead reduce state writes select ↔
      ∀ chan ∈ selected select, Replaces reduce state writes chan := by
  rw [readSelect, localRead, apply_eq_iff]
  exact forall₂_congr fun chan _ => reads_channel_iff chan

/-- `operator.add` for `messages`; other channels keep the last value. -/
def addMessages (chan : String) : Option PyVal → PyVal → PyVal
  | some (.list old), .list new => if chan = "messages" then .list (old ++ new) else .list new
  | _, v => v

/-- **The router sees a state that never exists**: of a channel that accumulates
messages, `read_handler` shows the node's own message only. -/
theorem accumulated_messages_hidden :
    readSelect (.ofDict (Dict.ofList [("messages", .list [.str "hi"])])) [("messages", .list [.str "call"])]
      (.one "messages") = .list [.str "call"] ∧
    localRead addMessages (Dict.ofList [("messages", .list [.str "hi"])]) [("messages", .list [.str "call"])]
      (.one "messages") = .list [.str "hi", .str "call"] :=
  ⟨rfl, rfl⟩

end LanggraphTemporal.Properties
