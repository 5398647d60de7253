/-
# Properties.UntrackedValues -- what the event history has of untracked channels

`_filter_untracked_writes` keeps writes to `UntrackedValue` channels out of the
event history.  Nothing else does: the update of a `Command` is recorded as it
is, and once an untracked channel has a value, from a signal or from the result
of a subgraph, it is part of the input of every activity and every subgraph.

So an output is free of untracked values if and only if the update of its
`Command` is, and an execution is if nothing it is given has any
(`untracked_values_hidden`).
-/
import LanggraphTemporal.Machine.Channels
import LanggraphTemporal.Machine.Children
import LanggraphTemporal.Machine.Reference
import LanggraphTemporal.Model.Activities

namespace LanggraphTemporal.Properties

set_option autoImplicit false

open Theory Theory.System Theory.History Model Model.LangGraphWorkflow Model.Activities Machine

variable {Chan : Type} {untracked ephemeral : Chan → Bool} {G : Pregel Chan} {lg : Langgraph Chan}
  {S : Setting Chan}

/-! ## Entries of untracked channels -/

/-- `isinstance(graph.channels.get(chan), UntrackedValue)` -/
def isUntracked (untracked : Chan → Bool) (G : Pregel Chan) (chan : String) : Bool :=
  match G.channels.get? chan with
  | some c => untracked c
  | none => false

/-- No entry is for one of the hidden channels. -/
def hides (hidden : String → Bool) (entries : List (String × PyVal)) : Bool :=
  entries.all fun e => !hidden e.1

/-- Nor has the value one, if it is a dict. -/
def hidesValue (hidden : String → Bool) : PyVal → Bool
  | .dict kvs => hides hidden kvs
  | _ => true

/-- Nor does the output in its writes, or in the update of its `Command`. -/
def hidesOutput (hidden : String → Bool) (o : NodeActivityOutput) : Bool :=
  hides hidden o.writes &&
    match o.command with
    | some c => hidesValue hidden c.update
    | none => true

/-- What the event history has of an entry is free of hidden channels. -/
def Hides (hidden : String → Bool) : Event → Prop
  | .dispatched input _ => hidesValue hidden input.inputState = true
  | .subgraphStarted _ call | .subagentStarted call =>
      hidesValue hidden (call.input.inputData.getD .none) = true
  | .collected _ outputs | .served outputs => ∀ o ∈ outputs, hidesOutput hidden o = true
  | _ => True

/-! ## What comes from outside -/

/-- The node does not return a `Command` whose update has an untracked entry. -/
def HidingResult (hidden : String → Bool) (code : GraphCode) (input : NodeActivityInput) : Prop :=
  ∀ node, code.nodes input.nodeName = some node →
    ∀ c, (node.ainvoke (nodeInput input) input.inputState (input.resumeValues.getD [])).outcome =
      .returned (.command c) → hidesValue hidden c.update = true

/-- What is written to `__start__`, if the graph has it, becomes the input of that
node. -/
def HidingStart (untracked : Chan → Bool) (G : Pregel Chan) (writes : List (String × PyVal)) : Prop :=
  (G.channels.get? "__start__").isSome = true → ∀ v, ("__start__", v) ∈ writes →
    hidesValue (isUntracked untracked G) v = true

/-- An output that a workflow gets, of an activity or made of the result of a
subgraph, is made of no untracked values. Requests are looked at in the first
pass only. -/
structure HidingOutput (untracked : Chan → Bool) (G : Pregel Chan) (route : Route) (o : NodeActivityOutput) :
    Prop where
  origin :
    (∃ code input, executeNodeImpl untracked G.channels code input = .ok o ∧
      HidingResult (isUntracked untracked G) code input) ∨
    ∃ t result, o = subgraphOutput t result ∧ hides (isUntracked untracked G) result.channelValues.entries = true
  start : HidingStart untracked G o.writes
  requests : route = .scheduled → ∀ req ∈ o.childWorkflowRequests,
    isUntracked untracked G "messages" = false ∧
      hidesValue (isUntracked untracked G) (req.initialState.getD (.dict [])) = true

/-- The step brings no untracked values into the workflow. -/
def HidingStep (untracked : Chan → Bool) (G : Pregel Chan) : Event → Prop
  | .collected route outputs => ∀ o ∈ outputs, HidingOutput untracked G route o
  | .received (.updateState writes) =>
      hides (isUntracked untracked G) writes = true ∧ HidingStart untracked G writes
  | _ => True

/-- Nor does the input of the run. -/
structure HidingInput (untracked : Chan → Bool) (G : Pregel Chan) (input : WorkflowInput) : Prop where
  data : input.restoredState = none → ∀ data, input.inputData = some data →
    hides (isUntracked untracked G) [(G.inputChannels, data)] = true ∧
      HidingStart untracked G [(G.inputChannels, data)]
  restored : ∀ restored, input.restoredState = some restored →
    HidingStart untracked G restored.checkpoint.channelValues.entries

/-- No step brings in untracked values, once the main loop has begun. The updates
before that are lost: `run` reads its channels from its input. -/
def HidingSteps (untracked : Chan → Bool) (G : Pregel Chan) (h : List Event) : Prop :=
  Guarded (fun a e => scheduledTasks a ≠ [] → HidingStep untracked G e) h

/-- A run of this graph, none of whose steps brings in untracked values. -/
def HidingRun (lg : Langgraph Chan) (untracked : Chan → Bool) (G : Pregel Chan) (S : Setting Chan)
    (_ run : List Event) : Prop :=
  S.env.lg = lg ∧ S.graph = G ∧ HidingSteps untracked G run

/-! ## Activities -/

theorem hides_filterUntrackedWrites (writes : List (String × PyVal)) :
    hides (isUntracked untracked G) (filterUntrackedWrites untracked G.channels writes) = true := by
  unfold hides filterUntrackedWrites
  rw [List.all_eq_true]
  intro w mem
  obtain ⟨-, kept⟩ := List.mem_filter.mp mem
  unfold isUntracked
  cases found : G.channels.get? w.1 with
  | none => rfl
  | some c =>
      rw [found] at kept
      exact kept

/-- **The output hides what the update of the `Command` hides.** -/
theorem executeNodeImpl_hides {code : GraphCode} {input : NodeActivityInput} {output : NodeActivityOutput}
    (executed : executeNodeImpl untracked G.channels code input = .ok output) :
    hidesOutput (isUntracked untracked G) output = true ↔ HidingResult (isUntracked untracked G) code input := by
  unfold executeNodeImpl at executed
  unfold HidingResult
  cases found : code.nodes input.nodeName with
  | none =>
      rw [found] at executed
      cases executed
  | some node =>
      rw [found] at executed
      dsimp only at executed
      simp only [Option.some.injEq, forall_eq']
      cases ended : (node.ainvoke (nodeInput input) input.inputState (input.resumeValues.getD [])).outcome with
      | interrupted interrupts =>
          rw [ended] at executed
          cases executed
          refine iff_of_true rfl fun c same => ?_
          cases same
      | raised exc =>
          rw [ended] at executed
          cases executed
      | returned result =>
          rw [ended] at executed
          dsimp only at executed
          have completes : ∃ run writes,
              output = Activities.completed untracked G.channels input run result writes := by
            split at executed
            · split at executed
              · cases executed
                exact ⟨_, _, rfl⟩
              · cases executed
            · cases executed
              exact ⟨_, _, rfl⟩
          obtain ⟨run, writes, rfl⟩ := completes
          have filtered : hides (isUntracked untracked G)
              (filterUntrackedWrites untracked G.channels (plainWrites writes)) = true :=
            hides_filterUntrackedWrites _
          cases result with
          | value v => simp [hidesOutput, Activities.completed, filtered, commandData]
          | command c => simp [hidesOutput, Activities.completed, filtered, commandData]

/-! ## Channels -/

/-- In the graph, `__start__` is an `EphemeralValue`. -/
def Starts (ephemeral : Chan → Bool) (G : Pregel Chan) : Prop :=
  ∀ c, G.channels.get? "__start__" = some c → ephemeral c = true

/-- Untracked channels have no value, and that of `__start__` has no untracked
entries. -/
structure Veiled (lg : Langgraph Chan) (untracked ephemeral : Chan → Bool) (G : Pregel Chan)
    (channels : Dict Chan) : Prop where
  kinds : ∀ chan c, channels.get? chan = some c →
    ∃ spec, G.channels.get? chan = some spec ∧ untracked c = untracked spec
  empty : ∀ chan c, channels.get? chan = some c → untracked c = true → lg.get c = none
  start : ∀ c, channels.get? "__start__" = some c → ephemeral c = true ∧
    ∀ v, lg.get c = some v → hidesValue (isUntracked untracked G) v = true

/-- Values that an activity may be given. -/
structure HidingValues (hidden : String → Bool) (values : Dict PyVal) : Prop where
  entries : hides hidden values.entries = true
  start : ∀ v, values.get? "__start__" = some v → hidesValue hidden v = true

theorem hidingValues_empty (hidden : String → Bool) : HidingValues hidden ∅ := by
  refine ⟨rfl, fun v found => ?_⟩
  cases found

variable {channels : Dict Chan}

theorem Veiled.values (veiled : Veiled lg untracked ephemeral G channels) :
    HidingValues (isUntracked untracked G) (getChannelValues lg channels) := by
  have held (chan : String) (v : PyVal) (found : (getChannelValues lg channels).get? chan = some v) :
      ∃ c, channels.get? chan = some c ∧ lg.get c = some v := by
    unfold getChannelValues at found
    rw [Dict.get?_filterMap] at found
    exact Option.bind_eq_some_iff.mp found
  constructor
  · unfold hides
    rw [List.all_eq_true]
    rintro ⟨chan, v⟩ mem
    obtain ⟨c, there, value⟩ := held chan v (Dict.get?_eq_some.mpr mem)
    obtain ⟨spec, specified, kind⟩ := veiled.kinds chan c there
    have tracked : isUntracked untracked G chan = false := by
      unfold isUntracked
      rw [specified]
      by_contra hidden
      have none := veiled.empty chan c there (kind.trans (by simpa using hidden))
      rw [none] at value
      cases value
    show (!isUntracked untracked G chan) = true
    rw [tracked]
    rfl
  · intro v found
    obtain ⟨c, there, value⟩ := held "__start__" v found
    exact (veiled.start c there).2 v value

theorem veiled_restored (untracks : lg.Untracks untracked) (written : lg.HoldsWritten ephemeral)
    (starts : Starts ephemeral G) {cp : Checkpoint}
    (hidden : HidingStart untracked G cp.channelValues.entries) :
    Veiled lg untracked ephemeral G (lg.channelsFromCheckpoint G.channels cp) where
  kinds chan c there := (untracks.restored G.channels cp chan c there).1
  empty chan c there := (untracks.restored G.channels cp chan c there).2
  start c there := by
    obtain ⟨⟨spec, specified, same⟩, value⟩ := written.restored G.channels cp "__start__" c there
    have here : ephemeral c = true := same.trans (starts spec specified)
    refine ⟨here, fun v found => hidden ?_ v (Dict.get?_eq_some.mp (value here v found))⟩
    rw [specified]
    rfl

theorem not_isUntracked_of_hides {hidden : String → Bool} {entries : List (String × PyVal)} {w : String × PyVal}
    (hide : hides hidden entries = true) (mem : w ∈ entries) : hidden w.1 = false := by
  have here := List.all_eq_true.mp hide w mem
  simpa using here

theorem Veiled.applied (veiled : Veiled lg untracked ephemeral G channels) (untracks : lg.Untracks untracked)
    (written : lg.HoldsWritten ephemeral) {cp : Checkpoint} {tasks : List PregelTaskWrites}
    {ttn : Dict (List String)} {out : Applied Chan}
    (hidden : ∀ t ∈ tasks, hides (isUntracked untracked G) t.writes = true ∧
      HidingStart untracked G t.writes)
    (applied : lg.applyWrites cp channels tasks increment ttn = .ok out) :
    Veiled lg untracked ephemeral G out.channels where
  kinds chan c' there' := by
    obtain ⟨c, there, kind, -⟩ := untracks.applied _ _ _ _ _ applied chan c' there'
    obtain ⟨spec, specified, same⟩ := veiled.kinds chan c there
    exact ⟨spec, specified, kind.trans same⟩
  empty chan c' there' untracked' := by
    obtain ⟨c, there, kind, keeps⟩ := untracks.applied _ _ _ _ _ applied chan c' there'
    have here : untracked c = true := kind.symm.trans untracked'
    refine keeps here (veiled.empty chan c there here) fun t mem w write same => ?_
    obtain ⟨spec, specified, kinds⟩ := veiled.kinds chan c there
    have tracked := not_isUntracked_of_hides (hidden t mem).1 write
    unfold isUntracked at tracked
    rw [same, specified] at tracked
    dsimp only at tracked
    rw [← kinds, here] at tracked
    cases tracked
  start c' there' := by
    obtain ⟨c, there, same, value⟩ := written.applied _ _ _ _ _ applied "__start__" c' there'
    obtain ⟨here, before⟩ := veiled.start c there
    obtain ⟨spec, specified, -⟩ := veiled.kinds "__start__" c there
    refine ⟨same.trans here, fun v found => ?_⟩
    rcases value here v found with old | ⟨t, mem, write⟩
    · exact before v old
    · exact (hidden t mem).2 (by rw [specified]; rfl) v write

/-! ## One run -/

section Machine

/-- The results of a superstep bring nothing into it. -/
structure HidingResults (untracked : Chan → Bool) (G : Pregel Chan) (results : List NodeActivityOutput) :
    Prop where
  outputs : ∀ r ∈ results, hidesOutput (isUntracked untracked G) r = true
  starts : ∀ r ∈ results, HidingStart untracked G r.writes

/-- The requests that are served bring nothing to the sub-agents, and their
replies nothing back. -/
def HidingRequests (untracked : Chan → Bool) (G : Pregel Chan) (results : List NodeActivityOutput) : Prop :=
  ∀ r ∈ results, ∀ req ∈ r.childWorkflowRequests, isUntracked untracked G "messages" = false ∧
    hidesValue (isUntracked untracked G) (req.initialState.getD (.dict [])) = true

/-- Nothing that the workflow has or has recorded is for an untracked channel. -/
structure Sealed (untracked ephemeral : Chan → Bool) (S : Setting Chan) (c : Config Chan) : Prop where
  channels : Veiled S.env.lg untracked ephemeral S.graph c.self.channels
  state : HidingValues (isUntracked untracked S.graph) c.phase.state
  results : HidingResults untracked S.graph c.phase.results
  requests : c.phase.stage = .serving → HidingRequests untracked S.graph c.phase.results
  events : ∀ e ∈ c.history, Hides (isUntracked untracked S.graph) e

variable {h : List Event} {ph ph' : Phase} {self self' : LangGraphWorkflow Chan} {e : Event}
  {results outputs : List NodeActivityOutput}

theorem HidingOutput.hides {route : Route} {o : NodeActivityOutput} (conceals : HidingOutput untracked G route o) :
    hidesOutput (isUntracked untracked G) o = true := by
  rcases conceals.origin with ⟨code, input, executed, result⟩ | ⟨t, result, rfl, values⟩
  · exact (executeNodeImpl_hides executed).mpr result
  · unfold hidesOutput subgraphOutput
    rw [values]
    rfl

theorem hidingResults_of_outputs {route : Route} (conceals : ∀ o ∈ outputs, HidingOutput untracked G route o) :
    HidingResults untracked G outputs :=
  ⟨fun o mem => (conceals o mem).hides, fun o mem => (conceals o mem).start⟩

theorem HidingResults.append (conceals : HidingResults untracked G results)
    (more : HidingResults untracked G outputs) : HidingResults untracked G (results ++ outputs) := by
  constructor
  · intro r mem
    rcases List.mem_append.mp mem with old | new
    · exact conceals.outputs r old
    · exact more.outputs r new
  · intro r mem
    rcases List.mem_append.mp mem with old | new
    · exact conceals.starts r old
    · exact more.starts r new

theorem HidingResults.subset (conceals : HidingResults untracked G results) (fewer : outputs ⊆ results) :
    HidingResults untracked G outputs :=
  ⟨fun r mem => conceals.outputs r (fewer mem), fun r mem => conceals.starts r (fewer mem)⟩

theorem hidingResults_nil : HidingResults untracked G [] :=
  ⟨fun _ mem => absurd mem List.not_mem_nil, fun _ mem => absurd mem List.not_mem_nil⟩

/-- What is applied at the end of a superstep. -/
theorem HidingResults.writesOf (conceals : HidingResults untracked G results) :
    ∀ t ∈ writesOf G results, hides (isUntracked untracked G) t.writes = true ∧
      HidingStart untracked G t.writes := by
  intro t mem
  obtain ⟨r, kept, rfl⟩ := List.mem_map.mp mem
  have here : r ∈ results := List.mem_of_mem_filter kept
  refine ⟨?_, conceals.starts r here⟩
  have output := conceals.outputs r here
  unfold hidesOutput at output
  exact (Bool.and_eq_true_iff.mp output).1

/-! ### Inputs -/

theorem HidingValues.taskInput {hidden : String → Bool} {values : Dict PyVal} (conceals : HidingValues hidden values)
    (graphRef : String) (t : PregelTask) :
    hidesValue hidden (taskInput graphRef values t).inputState = true := by
  unfold LangGraphWorkflow.taskInput
  dsimp only
  split
  · unfold Dict.getD
    cases found : values.get? "__start__" with
    | none => exact conceals.entries
    | some v => exact conceals.start v found
  · exact conceals.entries

theorem Sealed.admits {c : Config Chan} {input : NodeActivityInput} (held : Sealed untracked ephemeral S c)
    (admitted : Admits S c.phase h self input) :
    hidesValue (isUntracked untracked S.graph) input.inputState = true := by
  cases admitted with
  | scheduled => exact held.state.taskInput _ _
  | resumed => exact held.state.entries
  | push => exact held.state.entries
  | goto => exact held.state.entries

/-! ### Replies -/

theorem toolReply_messages {env : Env Chan} {req : ChildRequest} {outcome : Except RunError WorkflowOutput}
    {reply : String × PyVal} (made : toolReply env req outcome = .ok reply) : reply.1 = "messages" := by
  unfold toolReply at made
  cases outcome with
  | error e =>
      cases made
      rfl
  | ok output =>
      dsimp only at made
      split at made
      · split at made
        · cases made
          rfl
        · cases made
          rfl
        · cases made
      · cases made
        rfl

theorem replied_hides {heard : Request → Response → Prop} {n : Nat} {r r' : NodeActivityOutput}
    (replied : Replied S heard n r r') (hide : hidesOutput (isUntracked untracked S.graph) r = true)
    (start : HidingStart untracked S.graph r.writes)
    (requests : ∀ req ∈ r.childWorkflowRequests, isUntracked untracked S.graph "messages" = false) :
    hidesOutput (isUntracked untracked S.graph) r' = true ∧
      HidingStart untracked S.graph r'.writes := by
  obtain ⟨replies, rfl, each⟩ := replied
  have messages : ∀ w ∈ replies, w.1 = "messages" ∧ isUntracked untracked S.graph "messages" = false := by
    intro w mem
    obtain ⟨p, request, response, -, made⟩ := forall₂_mem_right each mem
    have asked : p.1 ∈ r.childWorkflowRequests := by
      obtain ⟨req, index⟩ := p
      exact List.fst_mem_of_mem_zipIdx request
    exact ⟨toolReply_messages made, requests p.1 asked⟩
  constructor
  · unfold hidesOutput at hide ⊢
    obtain ⟨writes, update⟩ := Bool.and_eq_true_iff.mp hide
    refine Bool.and_eq_true_iff.mpr ⟨?_, update⟩
    unfold hides at writes ⊢
    rw [List.all_append, writes, Bool.true_and, List.all_eq_true]
    intro w mem
    obtain ⟨name, tracked⟩ := messages w mem
    rw [name, tracked]
    rfl
  · intro some v mem
    rcases List.mem_append.mp mem with old | new
    · exact start some v old
    · have name : "__start__" = "messages" := (messages _ new).1
      exact absurd name (by decide)

/-! ### Steps -/

theorem HidingValues.of_phase (veiled : Veiled S.env.lg untracked ephemeral S.graph self.channels)
    (read : ph'.state = ∅ ∨ ph'.state = getChannelValues S.env.lg self.channels) :
    HidingValues (isUntracked untracked S.graph) ph'.state := by
  rcases read with none | values
  · rw [none]
    exact hidingValues_empty _
  · rw [values]
    exact veiled.values

theorem opened_state (tasks : List PregelTask) (self : LangGraphWorkflow Chan) :
    (opened S tasks self).state = ∅ ∨ (opened S tasks self).state = getChannelValues S.env.lg self.channels := by
  rcases opened_cases S tasks self with ⟨-, phase⟩ | ⟨-, phase⟩
  · rw [phase]
    exact .inl rfl
  · rw [phase]
    exact .inr rfl

theorem served_state (tasks : List PregelTask) (results : List NodeActivityOutput)
    (self : LangGraphWorkflow Chan) : (served S tasks results self).state = ∅ ∨
      (served S tasks results self).state = getChannelValues S.env.lg self.channels := by
  rcases served_cases S tasks results self with ⟨-, phase⟩ | ⟨-, phase⟩
  · rw [phase]
    exact .inr rfl
  · rw [phase]
    exact .inl rfl

theorem collected_state (ph : Phase) (outputs : List NodeActivityOutput) (self : LangGraphWorkflow Chan) :
    (collected S ph outputs self).state = ∅ ∨
      (collected S ph outputs self).state = getChannelValues S.env.lg self.channels := by
  unfold collected
  split
  · exact .inl rfl
  · exact .inr rfl
  · exact .inr rfl
  · exact .inl rfl

theorem HidingResults.collected (conceals : HidingResults untracked G ph.results)
    (more : HidingResults untracked G outputs) :
    HidingResults untracked G (Machine.collected S ph outputs self).results := by
  unfold Machine.collected
  split
  · exact more
  · have settled : settledOf ph.results ⊆ ph.results := List.filter_subset_self _
    exact (conceals.subset settled).append more
  · exact conceals.append more
  · exact conceals.append more

theorem collected_serving (serving : (collected S ph outputs self).stage = .serving) :
    ph.stage = .executing ∧ (collected S ph outputs self).results = outputs := by
  unfold collected at serving ⊢
  split at serving
  · rename_i executing
    rw [executing]
    exact ⟨rfl, rfl⟩
  · cases serving
  · cases serving
  · cases serving

/-- A signal leaves the workflow as it was, but for the writes of an update. -/
theorem veiled_updateState (untracks : S.env.lg.Untracks untracked) (written : S.env.lg.HoldsWritten ephemeral)
    {writes : List (String × PyVal)} (veiled : Veiled S.env.lg untracked ephemeral S.graph self.channels)
    (conceals : HidingStep untracked S.graph (.received (.updateState writes)))
    (updated : self.updateStateSignal S.env.lg writes = .ok self') :
    Veiled S.env.lg untracked ephemeral S.graph self'.channels := by
  obtain ⟨out, applied, rfl⟩ := updateStateSignal_applied updated
  refine veiled.applied untracks written (fun t mem => ?_) applied
  rw [List.mem_singleton.mp mem]
  exact conceals

/-- The state in which `run` enters its loop. -/
theorem veiled_initialise (untracks : S.env.lg.Untracks untracked) (written : S.env.lg.HoldsWritten ephemeral)
    (starts : Starts ephemeral S.graph) (conceals : HidingInput untracked S.graph S.input)
    (initialised : initialise S.env S.graph S.input self = .ok self') :
    Veiled S.env.lg untracked ephemeral S.graph self'.channels := by
  unfold initialise at initialised
  cases origin : S.input.restoredState with
  | some restored =>
      rw [origin] at initialised
      cases initialised
      exact veiled_restored untracks written starts (conceals.restored restored origin)
  | none =>
      rw [origin] at initialised
      have empty : Veiled S.env.lg untracked ephemeral S.graph
          (S.env.lg.channelsFromCheckpoint S.graph.channels S.env.lg.emptyCheckpoint) := by
        refine veiled_restored untracks written starts fun _ v found => ?_
        rw [written.empty] at found
        cases found
      dsimp only at initialised
      split at initialised
      · cases initialised
        exact empty
      · rename_i data given
        split at initialised
        · rename_i out applied
          cases initialised
          refine Veiled.applied empty untracks written (fun t mem => ?_) applied
          rw [List.mem_singleton.mp mem]
          exact conceals.data origin data given
        · cases initialised

variable {heard : Request → Response → Prop}

theorem firstPass_of_serving (reachable : (workflowMachine S).Reachable ⟨h, ph, self⟩)
    (serving : ph.stage = .serving) : firstPass h = ph.results := by
  have busy : (Config.mk h ph self).phase.stage ≠ .ready := by
    show ph.stage ≠ .ready
    rw [serving]
    nofun
  obtain ⟨o, on⟩ := course_invariant.holds reachable busy
  have collected := on.course.collected
  have results := on.results
  dsimp only at collected results
  rw [serving] at collected results
  unfold firstPass
  rw [collected, results]
  rfl

theorem Sealed.events_snoc (held : Sealed untracked ephemeral S ⟨h, ph, self⟩)
    (hides : Hides (isUntracked untracked S.graph) e) :
    ∀ x ∈ h ++ [e], Hides (isUntracked untracked S.graph) x := by
  intro x mem
  rcases List.mem_append.mp mem with old | new
  · exact held.events x old
  · rw [List.mem_singleton.mp new]
    exact hides

theorem Sealed.work (untracks : S.env.lg.Untracks untracked) (written : S.env.lg.HoldsWritten ephemeral)
    (held : Sealed untracked ephemeral S ⟨h, ph, self⟩) (conceals : HidingStep untracked S.graph e)
    (works : Works S ph h self e self') : Sealed untracked ephemeral S ⟨h ++ [e], ph, self'⟩ := by
  have events := held.events_snoc (e := e)
  cases works with
  | resume => exact ⟨held.channels, held.state, held.results, held.requests, events trivial⟩
  | update waits updated =>
      exact ⟨veiled_updateState untracks written held.channels conceals updated, held.state, held.results,
        held.requests, events trivial⟩
  | dispatch admitted =>
      exact ⟨held.channels, held.state, held.results, held.requests, events (held.admits admitted)⟩
  | lose => exact ⟨held.channels, held.state, held.results, held.requests, events trivial⟩
  | discover => exact ⟨held.channels, held.state, held.results, held.requests, events trivial⟩
  | discovered => exact ⟨held.channels, held.state, held.results, held.requests, events trivial⟩
  | subgraph =>
      exact ⟨held.channels, held.state, held.results, held.requests, events held.channels.values.entries⟩
  | subagent stage result request =>
      have asked := held.requests stage _ result _ (List.mem_of_getElem? request)
      exact ⟨held.channels, held.state, held.results, held.requests, events asked.2⟩

/-- The writes of the superstep are applied. -/
theorem Sealed.complete (held : Sealed untracked ephemeral S ⟨h, ph, self⟩)
    (veiled : Veiled S.env.lg untracked ephemeral S.graph self'.channels)
    (events : ∀ x ∈ h ++ [e], Hides (isUntracked untracked S.graph) x) :
    Sealed untracked ephemeral S ⟨h ++ [e], completed S ph, self'⟩ := by
  rcases completed_cases S ph with ⟨-, phase⟩ | ⟨-, phase⟩
  · rw [phase]
    exact ⟨veiled, held.state, held.results, nofun, events⟩
  · rw [phase]
    exact ⟨veiled, held.state, held.results, nofun, events⟩

/-- The replies of the sub-agents hide what their requests have hidden. -/
theorem Sealed.serve {results : List NodeActivityOutput}
    (reachable : (workflowMachine S).Reachable ⟨h, ph, self⟩) (held : Sealed untracked ephemeral S ⟨h, ph, self⟩)
    (stage : ph.stage = .serving) (childwise : Childwise S heard h (.served results)) :
    Sealed untracked ephemeral S ⟨h ++ [.served results], served S ph.tasks results self, self⟩ := by
  have first := firstPass_of_serving reachable stage
  have replied : List.Forall₂ (Replied S heard (currentStep h)) ph.results results := by
    rw [← first]
    exact childwise
  have hides : ∀ r' ∈ results, hidesOutput (isUntracked untracked S.graph) r' = true ∧
      HidingStart untracked S.graph r'.writes := by
    intro r' mem
    obtain ⟨r, here, replies⟩ := forall₂_mem_right replied mem
    have asked : ∀ req ∈ r.childWorkflowRequests, isUntracked untracked S.graph "messages" = false :=
      fun req request => (held.requests stage r here req request).1
    exact replied_hides replies (held.results.outputs r here) (held.results.starts r here) asked
  have same : (served S ph.tasks results self).results = results := served_results _ _ _
  refine ⟨held.channels, .of_phase held.channels (served_state _ _ _), ?_, fun serving => ?_,
    held.events_snoc fun r mem => (hides r mem).1⟩
  · show HidingResults untracked S.graph (served S ph.tasks results self).results
    rw [same]
    exact ⟨fun r mem => (hides r mem).1, fun r mem => (hides r mem).2⟩
  · change (served S ph.tasks results self).stage = .serving at serving
    rcases served_cases S ph.tasks results self with ⟨-, phase⟩ | ⟨-, phase⟩
    · rw [phase] at serving
      cases serving
    · rw [phase] at serving
      cases serving

theorem Sealed.move (untracks : S.env.lg.Untracks untracked) (written : S.env.lg.HoldsWritten ephemeral)
    (reachable : (workflowMachine S).Reachable ⟨h, ph, self⟩) (held : Sealed untracked ephemeral S ⟨h, ph, self⟩)
    (conceals : HidingStep untracked S.graph e) (childwise : Childwise S heard h e)
    (moves : Moves S h ph self e ph' self') : Sealed untracked ephemeral S ⟨h ++ [e], ph', self'⟩ := by
  have events := held.events_snoc (e := e)
  have quiet (other : ph'.stage ≠ .serving) :
      ph'.stage = .serving → HidingRequests untracked S.graph ph'.results :=
    fun serving => absurd serving other
  cases moves with
  | @schedule tasks stage below prepared some =>
      have none : (opened S tasks self).results = [] := opened_results tasks self
      refine ⟨held.channels, .of_phase held.channels (opened_state tasks self), ?_, fun serving => ?_,
        events trivial⟩
      · show HidingResults untracked S.graph (opened S tasks self).results
        rw [none]
        exact hidingResults_nil
      · show HidingRequests untracked S.graph (opened S tasks self).results
        rw [none]
        exact fun r mem => absurd mem List.not_mem_nil
  | @pause stage pause =>
      have other : stage ≠ .serving := by
        rintro rfl
        cases here : ph.stage <;> rw [here] at pause <;> cases pause
      exact ⟨held.channels, held.state, held.results, quiet other, events trivial⟩
  | @resume stage resume event =>
      have other : stage ≠ .serving := by
        rintro rfl
        cases here : ph.stage <;> rw [here] at resume <;> cases resume
      exact ⟨held.channels, held.channels.values, held.results, quiet other, events trivial⟩
  | @collect route outputs route_eq collects foundAll =>
      have more : HidingResults untracked S.graph outputs := hidingResults_of_outputs conceals
      refine ⟨held.channels, .of_phase held.channels (collected_state _ _ _), held.results.collected more,
        fun serving => ?_, events more.outputs⟩
      obtain ⟨executing, same⟩ := collected_serving serving
      have first : route = .scheduled := by
        rw [executing] at route_eq
        exact (Option.some.inj route_eq).symm
      show HidingRequests untracked S.graph (collected S ph outputs self).results
      rw [same]
      exact fun r mem req asked => (conceals r mem).requests first req asked
  | serve stage serves => exact held.serve reachable stage childwise
  | skip stage silent => exact held.complete held.channels (events trivial)
  | apply stage some applied =>
      exact held.complete (held.channels.applied untracks written held.results.writesOf applied) (events trivial)
  | advance stage =>
      exact ⟨held.channels, hidingValues_empty _, hidingResults_nil, nofun, events trivial⟩

theorem hidingStep_of_busy (reachable : (workflowMachine S).Reachable ⟨h, ph, self⟩) (busy : ph.stage ≠ .ready)
    (step : scheduledTasks h ≠ [] → HidingStep untracked S.graph e) : HidingStep untracked S.graph e := by
  obtain ⟨some, same⟩ := tasks_invariant.holds reachable busy
  dsimp only at some same
  rw [← same] at some
  exact step some

/-- **A run that is given nothing for an untracked channel has nothing for one.** -/
theorem sealed_invariant (untracks : S.env.lg.Untracks untracked) (written : S.env.lg.HoldsWritten ephemeral)
    (starts : Starts ephemeral S.graph) (conceals : HidingInput untracked S.graph S.input) :
    (workflowMachine S).Invariant fun c =>
      HidingSteps untracked S.graph c.history → Guarded (Childwise S heard) c.history →
        Sealed untracked ephemeral S c where
  init c initial steps childwise := by
    obtain ⟨before, start, -, initialised, same⟩ := initial.opened.initialised
    have veiled : Veiled S.env.lg untracked ephemeral S.graph start.channels :=
      veiled_initialise untracks written starts conceals initialised
    refine ⟨?_, ?_, ?_, ?_, fun e mem => ?_⟩
    · rw [same]
      exact veiled
    · rw [initial.phase]
      exact hidingValues_empty _
    · rw [initial.phase]
      exact hidingResults_nil
    · rw [initial.phase]
      nofun
    · have early := initial.history e mem
      cases e with
      | discovering | discovered | received => trivial
      | _ => cases early
  step c d reachable held step steps childwise := by
    cases step with
    | @work h ph self self' e works =>
        have before := held steps.front childwise.front
        exact before.work untracks written (hidingStep_of_busy reachable works.waits steps.last) works
    | @move h ph ph' self self' e moves =>
        have before := held steps.front childwise.front
        have brings : HidingStep untracked S.graph e := by
          cases scheduled : isScheduled e with
          | true =>
              cases e with
              | scheduled => trivial
              | _ => cases scheduled
          | false => exact hidingStep_of_busy reachable (moves.busy scheduled) steps.last
        exact before.move untracks written reachable brings childwise.last moves

end Machine

/-! ## All runs of an execution -/

theorem executionHistory_hides (untracks : S.env.lg.Untracks untracked)
    (written : S.env.lg.HoldsWritten ephemeral) (starts : Starts ephemeral S.graph)
    (conceals : HidingInput untracked S.graph S.input) {threshold : Option Nat} {uuids : Nat → String}
    {arrived : List Signal} {script : List (Action Response Signal)}
    (steps : HidingSteps untracked S.graph (executionHistory S threshold uuids arrived script)) :
    ∀ e ∈ executionHistory S threshold uuids arrived script, Hides (isUntracked untracked S.graph) e := by
  have childwise := executionHistory_childwise S threshold uuids arrived script
  refine executionHistory_holds (S := S) (P := fun h => HidingSteps untracked S.graph h →
    Guarded (Childwise S _) h → ∀ e ∈ h, Hides (isUntracked untracked S.graph) e) ?_ ?_ threshold uuids arrived
      script steps childwise
  · intro h early _ _ e mem
    have before := early.history e mem
    cases e with
    | discovering | discovered | received => trivial
    | _ => cases before
  · intro c reachable steps childwise
    exact ((sealed_invariant untracks written starts conceals).holds reachable steps childwise).events

/-- A run that continues as new hands nothing over. -/
theorem hidingInput_continued (untracks : S.env.lg.Untracks untracked)
    (written : S.env.lg.HoldsWritten ephemeral) (starts : Starts ephemeral S.graph)
    (conceals : HidingInput untracked S.graph S.input) {heard : Request → Response → Prop}
    {next : WorkflowInput} {w : Execution Chan} (ends : Ends S (.continueAsNew next) w)
    (steps : HidingSteps untracked S.graph w.history) (childwise : Guarded (Childwise S heard) w.history) :
    HidingInput untracked S.graph next := by
  obtain ⟨n, here, rfl⟩ := ends
  have held := (sealed_invariant untracks written starts conceals).holds here.reachable steps childwise
  refine ⟨fun none => ?_, fun restored same => ?_⟩
  · cases none
  · cases same
    intro _ v found
    obtain ⟨c, there, value⟩ := written.created _ _ _ "__start__" v (Dict.get?_eq_some.mpr found)
    obtain ⟨here, before⟩ := held.channels.start c there
    exact before v (value here)

theorem hides_of_continuedWith {threshold : Option Nat} {first : Setting Chan} {h : List Event}
    (untracks : lg.Untracks untracked) (written : lg.HoldsWritten ephemeral) (starts : Starts ephemeral G)
    (runs : ContinuedWith threshold (HidingRun lg untracked G) first h S)
    (conceals : HidingInput untracked G first.input) :
    HidingInput untracked G S.input ∧ ∀ e ∈ h, Hides (isUntracked untracked G) e := by
  induction runs with
  | start => exact ⟨conceals, fun _ mem => absurd mem List.not_mem_nil⟩
  | @next S S' h uuids arrived script rest w before continued named meets ih =>
      obtain ⟨rfl, rfl, steps⟩ := meets
      obtain ⟨input, earlier⟩ := ih
      obtain ⟨history, ends⟩ := continued_ends continued
      have childwise := executionHistory_childwise S threshold uuids arrived script
      rw [history] at childwise
      refine ⟨hidingInput_continued untracks written starts input ends steps childwise, fun e mem => ?_⟩
      rcases List.mem_append.mp mem with old | new
      · exact earlier e old
      · rw [← history] at steps new
        exact executionHistory_hides untracks written starts input steps e new

/-- **What the event history has of untracked channels.** The output of an
activity has none of their values if and only if the node does not return a
`Command` with one in its update. And an execution that is given none, by its
input, its activities, its subgraphs, its sub-agent requests or its signals,
records none, over all its runs. -/
theorem untracked_values_hidden (lg : Langgraph Chan) (untracked ephemeral : Chan → Bool) (G : Pregel Chan)
    (untracks : lg.Untracks untracked) (written : lg.HoldsWritten ephemeral) (starts : Starts ephemeral G) :
    (∀ code input output, executeNodeImpl untracked G.channels code input = .ok output →
      (hidesOutput (isUntracked untracked G) output = true ↔
        HidingResult (isUntracked untracked G) code input)) ∧
    ∀ (threshold : Option Nat) (first S : Setting Chan) (h : List Event),
      ContinuedWith threshold (HidingRun lg untracked G) first h S → HidingInput untracked G first.input →
      ∀ (uuids : Nat → String) (arrived : List Signal) (script : List (Action Response Signal)),
        HidingRun lg untracked G S h (executionHistory S threshold uuids arrived script) →
        ∀ e ∈ h ++ executionHistory S threshold uuids arrived script, Hides (isUntracked untracked G) e := by
  refine ⟨fun code input output executed => executeNodeImpl_hides executed, ?_⟩
  intro threshold first S h runs conceals uuids arrived script meets e mem
  obtain ⟨input, earlier⟩ := hides_of_continuedWith untracks written starts runs conceals
  obtain ⟨rfl, rfl, steps⟩ := meets
  rcases List.mem_append.mp mem with old | new
  · exact earlier e old
  · exact executionHistory_hides untracks written starts input steps e new

section Runs

open Machine.Reference (pulled)

/-- A graph with an untracked channel. Its `__start__` starts `agent`. -/
def vault : Pregel AnyChannel where
  name := "graph"
  nodes := Dict.ofList [("__start__", { triggers := ["__start__"] }), ("agent", { triggers := [branchTo "agent"] })]
  channels := Dict.ofList [("__start__", .tracked (.ephemeral none)), ("x", .tracked (.lastValue none)),
    ("secret", .untrackedValue none), (branchTo "agent", .tracked (.ephemeral none))]

def vaultSetting : Setting AnyChannel where
  env :=
    { lg := untracking
      registry := fun ref => if ref = "graph" then some vault else none
      pyStr := fun _ => ""
      workflowId := "workflow"
      taskQueue := "queue" }
  graph := vault
  input := { graphDefinitionRef := "graph", inputData := some (.dict [("x", .int 0)]) }
  registered := rfl

/-- A node that makes these writes. -/
def writing (writes : List (String × PyVal)) : NodeCode where
  ainvoke input _ _ := { outcome := .returned (.value input) }
  writers := [fun _ _ => .ok writes]

/-- `agent` writes to the untracked channel as well. -/
def vaultCode : GraphCode where
  nodes node :=
    if node = "__start__" then some (writing [("x", .int 0), (branchTo "agent", .none)])
    else some (writing [("x", .int 1), ("secret", .str "key")])

/-- A node that returns its writes as a `Command`. -/
def commandCode : GraphCode where
  nodes _ := some
    { ainvoke := fun _ _ _ =>
        { outcome := .returned (.command ⟨.none, .dict [("x", .int 1), ("secret", .str "key")], .none⟩) }
      writers := [fun _ _ => .ok [("x", .int 1), ("secret", .str "key")]] }

def vaultInput (node : String) (state : PyVal) : NodeActivityInput where
  nodeName := node
  inputState := state
  graphDefinitionRef := "graph"
  taskPath := [.str "__pregel_pull", .str node]

def vaultScript : List (Action Response Signal) :=
  [.answer 0 (.output (pulled "__start__" [("x", .int 0), (branchTo "agent", .none)])),
    .answer 0 (.output (pulled "agent" [("x", .int 1)]))]

def vaultHistory : List Event := executionHistory vaultSetting none (fun _ => "") [] vaultScript

theorem vault_output {node : String} {writes : List (String × PyVal)} (route : Route) (state : PyVal)
    (executed : executeNodeImpl AnyChannel.isUntracked vault.channels vaultCode (vaultInput node state) =
      .ok (pulled node writes)) (others : ∀ v, ("__start__", v) ∉ writes) :
    HidingOutput AnyChannel.isUntracked vault route (pulled node writes) where
  origin := by
    refine .inl ⟨vaultCode, vaultInput node state, executed, fun code known c returned => ?_⟩
    simp only [vaultCode] at known
    split at known
    · cases known
      cases returned
    · cases known
      cases returned
  start _ v mem := absurd mem (others v)
  requests _ req mem := absurd mem List.not_mem_nil

def updatesState : Event → Bool
  | .received (.updateState _) => true
  | _ => false

/-- No entry brings in untracked values, if no output does and no signal updates
the state. -/
theorem hidingSteps_of_collected {h : List Event}
    (outputs : ∀ route outputs, (route, outputs) ∈ collectedIn h →
      ∀ o ∈ outputs, HidingOutput untracked G route o)
    (none : h.any updatesState = false) : HidingSteps untracked G h := by
  rintro a e b split -
  have mem : e ∈ h := by
    rw [split]
    simp
  cases e with
  | collected route os => exact outputs route os (mem_collectedIn.mpr mem)
  | received signal =>
      cases signal with
      | resume => trivial
      | updateState writes =>
          have some : h.any updatesState = true := List.any_eq_true.mpr ⟨_, mem, rfl⟩
          rw [none] at some
          cases some
  | _ => trivial

theorem untracked_values_hidden_vault :
    (.scheduled, [pulled "agent" [("x", .int 1)]]) ∈ collectedIn vaultHistory ∧
      ∀ e ∈ vaultHistory, Hides (isUntracked AnyChannel.isUntracked vault) e := by
  have starts : Starts AnyChannel.isEphemeral vault := by
    intro c found
    cases found
    rfl
  have input : HidingInput AnyChannel.isUntracked vault vaultSetting.input := by
    refine ⟨fun _ data given => ?_, nofun⟩
    cases given
    refine ⟨rfl, fun _ v mem => ?_⟩
    obtain ⟨-, rfl⟩ := Prod.mk.inj (List.mem_singleton.mp mem)
    rfl
  have first : HidingOutput AnyChannel.isUntracked vault .scheduled
      (pulled "__start__" [("x", .int 0), (branchTo "agent", .none)]) :=
    vault_output .scheduled (.dict [("x", .int 0)]) rfl (by simp [branchTo])
  have second : HidingOutput AnyChannel.isUntracked vault .scheduled (pulled "agent" [("x", .int 1)]) :=
    vault_output .scheduled .none rfl (by simp)
  have collected : collectedIn vaultHistory =
      [(.scheduled, [pulled "__start__" [("x", .int 0), (branchTo "agent", .none)]]), (.resumed, []),
        (.push, []), (.goto, []), (.scheduled, [pulled "agent" [("x", .int 1)]]), (.resumed, []), (.push, []),
        (.goto, [])] := rfl
  have steps : HidingSteps AnyChannel.isUntracked vault vaultHistory := by
    refine hidingSteps_of_collected (fun route outputs mem o output => ?_) rfl
    rw [collected] at mem
    simp only [List.mem_cons, List.not_mem_nil, or_false, Prod.mk.injEq] at mem
    rcases mem with ⟨rfl, rfl⟩ | ⟨-, rfl⟩ | ⟨-, rfl⟩ | ⟨-, rfl⟩ | ⟨rfl, rfl⟩ | ⟨-, rfl⟩ | ⟨-, rfl⟩ | ⟨-, rfl⟩
    · rw [List.mem_singleton.mp output]
      exact first
    · cases output
    · cases output
    · cases output
    · rw [List.mem_singleton.mp output]
      exact second
    · cases output
    · cases output
    · cases output
  have hidden := (untracked_values_hidden untracking AnyChannel.isUntracked AnyChannel.isEphemeral vault
    untracking_untracks untracking_holdsWritten starts).2 none vaultSetting vaultSetting [] .start input
      (fun _ => "") [] vaultScript ⟨rfl, rfl, steps⟩
  refine ⟨?_, hidden⟩
  rw [collected]
  simp

/-- A signal writes to the untracked channel before `agent` begins. -/
def signalledScript : List (Action Response Signal) :=
  [.signals [.updateState [("secret", .str "key")]],
    .answer 0 (.output (pulled "__start__" [("x", .int 0), (branchTo "agent", .none)]))]

def signalledHistory : List Event := executionHistory vaultSetting none (fun _ => "") [] signalledScript

/-- **Untracked values are recorded.** The output of a node that returns a
`Command` has the update, and an activity that begins after a signal has written
to an untracked channel is given the value. -/
theorem untracked_values_recorded :
    (∃ output, executeNodeImpl AnyChannel.isUntracked vault.channels commandCode (vaultInput "agent" .none) =
      .ok output ∧ hidesOutput (isUntracked AnyChannel.isUntracked vault) output = false) ∧
    ∃ e ∈ signalledHistory, ¬Hides (isUntracked AnyChannel.isUntracked vault) e := by
  refine ⟨⟨_, rfl, rfl⟩, signalledHistory[11], List.getElem_mem _, ?_⟩
  have input : signalledHistory[11] = .dispatched
      (vaultInput "agent" (.dict [("x", .int 0), ("secret", .str "key"), (branchTo "agent", .none)]))
      ((init vaultSetting.env).activityCall "agent") := rfl
  rw [input]
  intro hidden
  have exposed : hidesValue (isUntracked AnyChannel.isUntracked vault)
      (.dict [("x", .int 0), ("secret", .str "key"), (branchTo "agent", .none)]) = false := rfl
  have same : false = true := exposed.symm.trans hidden
  cases same

end Runs

end LanggraphTemporal.Properties
