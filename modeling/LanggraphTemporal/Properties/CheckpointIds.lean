/-
# Properties.CheckpointIds -- the order of checkpoint ids

The id of a checkpoint is the decimal string of its step.  Such strings are
ordered as their steps only while these have the same count of digits, or the
leading digits of the longer one are large enough; and the channel versions may
change within a step.  Two observations of a run have their ids in order exactly
when neither happens between them (`checkpoint_ids_iff`).
-/
import LanggraphTemporal.Model.Checkpoint
import LanggraphTemporal.Properties.Polling
import LanggraphTemporal.Theory.Decimal

namespace LanggraphTemporal.Properties

set_option autoImplicit false

open Theory Theory.System Model Model.LangGraphWorkflow Model.TemporalCheckpointSaver Machine

variable {Chan : Type} {threshold : Option Nat}

/-! ## Observing a run -/

/-- What happens to a workflow next, if anything. -/
inductive RunStep : Workflow threshold Chan → Workflow threshold Chan → Prop
  | act {wf : Workflow threshold Chan} (action : Action Response Signal) (waits : wf.waits = true)
      (accepted : (wf.act action).outcome ≠ .refused) : RunStep wf (wf.act action)
  | continueAsNew {wf : Workflow threshold Chan} {S : Setting Chan} {rest : List (Action Response Signal)}
      {w : Execution Chan} (ended : wf.outcome = .done (.continueAsNew S.input) rest w)
      (named : S.env.workflowId = wf.current.env.workflowId) (uuids : Nat → String)
      (arrived : List Signal) : RunStep wf (wf.continueAsNew ended named uuids arrived)
  | idle {wf : Workflow threshold Chan} : RunStep wf wf

/-- A workflow in the course of time, from its start on. -/
structure WorkflowRun (threshold : Option Nat) (Chan : Type) where
  state : Nat → Workflow threshold Chan
  start : ∃ S uuids arrived, state 0 = .begin S uuids arrived
  step : ∀ n, RunStep (state n) (state (n + 1))

/-- A client of the service that the workflow runs in. -/
def observer (wf : Workflow threshold Chan) (now : String) : TemporalClient where
  queryState id :=
    if wf.named id then
      match wf.query with
      | some state => .ok state
      | none => .error (.rpcError .failedPrecondition)
    else .error (.rpcError .notFound)
  now := now

/-- `aget_tuple` returns this checkpoint. -/
def Observes (wf : Workflow threshold Chan) (tuple : CheckpointTuple) : Prop :=
  ∃ now config, agetTuple (observer wf now) config = .ok (some tuple)

/-- The channels have the same versions. -/
def SameVersions (versions versions' : Dict Nat) : Prop := ∀ c, versions.get? c = versions'.get? c

/-- Of an earlier and a later checkpoint, the ids are in order. -/
structure OrderedIds (tuple tuple' : CheckpointTuple) : Prop where
  ordered : tuple.metadata.step < tuple'.metadata.step → tuple.checkpoint.id < tuple'.checkpoint.id
  distinct : ¬SameVersions tuple.checkpoint.channelVersions tuple'.checkpoint.channelVersions →
    tuple.checkpoint.id ≠ tuple'.checkpoint.id

/-- Checkpoint ids order the states of a run. -/
def IdsOrder (run : WorkflowRun threshold Chan) : Prop :=
  ∀ i j, i ≤ j → ∀ tuple tuple', Observes (run.state i) tuple → Observes (run.state j) tuple' →
    OrderedIds tuple tuple'

/-- The later state is in a step with leading digits that are not smaller, or in
the same step with the same versions. -/
structure Digitwise (state state' : StateQueryResult) : Prop where
  later : state.step < state'.step → state.step ≤ leadingDigits state.step state'.step
  still : state.step = state'.step → SameVersions state.channelVersions state'.channelVersions

section Ids

variable {wf : Workflow threshold Chan}

theorem observes_iff {tuple : CheckpointTuple} : Observes wf tuple ↔
    ∃ state now config, wf.query = some state ∧ tuple = checkpointTuple (observer wf now) config state ∧
      ∃ id, threadId config = .ok id ∧ wf.named id = true := by
  constructor
  · rintro ⟨now, config, asked⟩
    simp only [agetTuple, stateOf, bind, Except.bind] at asked
    cases thread : threadId config with
    | error e =>
        rw [thread] at asked
        unfold threadId at thread
        split at thread
        · cases thread
        · cases thread
          cases asked
    | ok id =>
        rw [thread] at asked
        dsimp only [observer] at asked
        by_cases named : wf.named id = true
        · rw [if_pos named] at asked
          cases state : wf.query with
          | none =>
              rw [state] at asked
              cases asked
          | some q =>
              rw [state] at asked
              cases asked
              exact ⟨q, now, config, rfl, rfl, id, thread, named⟩
        · rw [if_neg named] at asked
          cases asked
  · rintro ⟨state, now, config, answered, rfl, id, thread, named⟩
    refine ⟨now, config, ?_⟩
    simp only [agetTuple, stateOf, thread, bind, Except.bind]
    simp only [observer, if_pos named, answered]

/-- The config of the workflow's thread. -/
def threadConfig (wf : Workflow threshold Chan) : RunnableConfig where
  configurable := some { threadId := some wf.workflowId }

theorem observes_query {state : StateQueryResult} (answered : wf.query = some state) :
    Observes wf (checkpointTuple (observer wf "") (threadConfig wf) state) :=
  observes_iff.mpr ⟨state, "", threadConfig wf, answered, rfl, wf.workflowId, rfl, by simp [Workflow.named]⟩

/-- Two states, with the ids that `aget_tuple` gives them. -/
theorem orderedIds_iff {client client' : TemporalClient} {config config' : RunnableConfig}
    {state state' : StateQueryResult} :
    OrderedIds (checkpointTuple client config state) (checkpointTuple client' config' state') ↔
      Digitwise state state' := by
  constructor
  · rintro ⟨ordered, distinct⟩
    refine ⟨fun less => (toString_lt_toString_iff less).mp (ordered less), fun same => ?_⟩
    by_contra changed
    refine distinct changed ?_
    show toString state.step = toString state'.step
    rw [same]
  · rintro ⟨later, still⟩
    exact ⟨fun less => (toString_lt_toString_iff less).mpr (later less),
      fun changed same => changed (still (toString_nat_inj same))⟩

/-- **The ids order the states of a run if and only if, of every two states, the
later one is in a step with leading digits that are not smaller, or in the same
step with the same channel versions.** -/
theorem checkpoint_ids_iff (run : WorkflowRun threshold Chan) :
    IdsOrder run ↔ ∀ i j, i ≤ j → ∀ state state', (run.state i).query = some state →
      (run.state j).query = some state' → Digitwise state state' := by
  constructor
  · intro order i j le state state' answered answered'
    exact orderedIds_iff.mp (order i j le _ _ (observes_query answered) (observes_query answered'))
  · intro digitwise i j le tuple tuple' observed observed'
    obtain ⟨state, now, config, answered, rfl, -⟩ := observes_iff.mp observed
    obtain ⟨state', now', config', answered', rfl, -⟩ := observes_iff.mp observed'
    exact orderedIds_iff.mpr (digitwise i j le state state' answered answered')

end Ids

/-! ## Runs that keep the ids in order -/

/-- From one state to the next the step goes up with as many digits, or the
versions remain. -/
def Steady (state state' : StateQueryResult) : Prop :=
  state.step < state'.step ∧
      (Nat.toDigits 10 state.step).length = (Nat.toDigits 10 state'.step).length ∨
    state.step = state'.step ∧ SameVersions state.channelVersions state'.channelVersions

section Steady

variable {state state' state'' : StateQueryResult}

theorem Steady.refl (state : StateQueryResult) : Steady state state := .inr ⟨rfl, fun _ => rfl⟩

theorem Steady.trans (first : Steady state state') (next : Steady state' state'') : Steady state state'' := by
  rcases first with ⟨up, digits⟩ | ⟨same, versions⟩
  · rcases next with ⟨up', digits'⟩ | ⟨same', -⟩
    · exact .inl ⟨up.trans up', digits.trans digits'⟩
    · rw [same'] at up digits
      exact .inl ⟨up, digits⟩
  · rcases next with next | ⟨same', versions'⟩
    · rw [← same] at next
      exact .inl next
    · exact .inr ⟨same.trans same', fun c => (versions c).trans (versions' c)⟩

theorem Steady.digitwise (steady : Steady state state') : Digitwise state state' := by
  rcases steady with ⟨up, digits⟩ | ⟨same, versions⟩
  · refine ⟨fun _ => ?_, fun same => absurd same (Nat.ne_of_lt up)⟩
    rw [leadingDigits_of_length digits]
    exact Nat.le_of_lt up
  · exact ⟨fun up => absurd same (Nat.ne_of_lt up), fun _ => versions⟩

theorem query_of_accepted {wf : Workflow threshold Chan} (accepted : wf.outcome ≠ .refused) :
    ∃ state, wf.query = some state := by
  obtain ⟨w, stopped⟩ := stopped_of_accepted accepted
  exact ⟨_, by rw [Workflow.query, stopped]; rfl⟩

/-- A workflow that has just begun answers queries. -/
theorem query_of_unanswered {wf : Workflow threshold Chan} (fresh : wf.script = []) :
    ∃ state, wf.query = some state := by
  refine query_of_accepted ?_
  unfold Workflow.outcome replayExecution
  rw [fresh]
  cases (workflowSystem wf.current.env).deliver wf.arrived (created wf.current wf.uuids) with
  | ok start => exact replay_accepted _ _ _ rfl
  | error failure => exact nofun

theorem RunStep.answers {wf wf' : Workflow threshold Chan} (step : RunStep wf wf')
    (before : ∃ state, wf.query = some state) : ∃ state, wf'.query = some state := by
  cases step with
  | act action waits accepted => exact query_of_accepted accepted
  | continueAsNew ended named uuids arrived => exact query_of_unanswered rfl
  | idle => exact before

/-- At all times a run answers queries. -/
theorem WorkflowRun.answers (run : WorkflowRun threshold Chan) : ∀ n, ∃ state, (run.state n).query = some state
  | 0 => by
      obtain ⟨S, uuids, arrived, begins⟩ := run.start
      rw [begins]
      exact query_of_unanswered rfl
  | n + 1 => (run.step n).answers (run.answers n)

/-- Between two states of a run, if each step on the way is steady. -/
theorem WorkflowRun.steady (run : WorkflowRun threshold Chan) (steps : ∀ n state state',
    (run.state n).query = some state → (run.state (n + 1)).query = some state' → Steady state state')
    {i j : Nat} (le : i ≤ j) (answered : (run.state i).query = some state) :
    ∀ state', (run.state j).query = some state' → Steady state state' := by
  induction j, le using Nat.le_induction with
  | base =>
      intro state' answered'
      rw [answered] at answered'
      cases answered'
      exact .refl state
  | succ j le ih =>
      intro state'' answered''
      obtain ⟨state', answered'⟩ := run.answers j
      exact (ih state' answered').trans (steps j state' state'' answered' answered'')

/-- A run all of whose steps are steady has all its states in digitwise order. -/
theorem WorkflowRun.digitwise (run : WorkflowRun threshold Chan) (steps : ∀ n state state',
    (run.state n).query = some state → (run.state (n + 1)).query = some state' → Steady state state')
    (i j : Nat) (le : i ≤ j) (state state' : StateQueryResult) (answered : (run.state i).query = some state)
    (answered' : (run.state j).query = some state') : Digitwise state state' :=
  (run.steady steps le answered state' answered').digitwise

end Steady

section Runs

open Reference

theorem idleWorkflow_query (n : Nat) (below : n < continueAsNewThreshold) :
    ∃ state, (idleWorkflow n).query = some state ∧ state.step = n := by
  obtain ⟨values, h, outcome⟩ := idleWorkflow_outcome n below
  unfold continueAsNewThreshold at below
  obtain ⟨fuel, more⟩ : ∃ fuel, 502 - n = fuel + 1 := ⟨501 - n, by omega⟩
  obtain ⟨h', entered⟩ := idle_loop (some continueAsNewThreshold) 501 none values n
    (idleEvents n) h fuel n [] (by omega)
  rw [more, entered] at outcome
  refine ⟨_, by rw [Workflow.query, outcome]; rfl, rfl⟩

/-- A workflow of idle supersteps, until the tenth has been executed. -/
def idleUpToTen (n : Nat) : Workflow (some continueAsNewThreshold) Channel :=
  if n < 10 then idleWorkflow n else idleWorkflow 10

theorem idleUpToTen_step (n : Nat) : RunStep (idleUpToTen n) (idleUpToTen (n + 1)) := by
  unfold idleUpToTen
  by_cases running : n < 10
  · have next : (if n + 1 < 10 then idleWorkflow (n + 1) else idleWorkflow 10) = idleWorkflow (n + 1) := by
      by_cases last : n + 1 < 10
      · rw [if_pos last]
      · have ten : n + 1 = 10 := by omega
        rw [if_neg last, ten]
    have waits := (idleWorkflow_waits n (by unfold continueAsNewThreshold; omega)).1
    have waits' := (idleWorkflow_waits (n + 1) (by unfold continueAsNewThreshold; omega)).1
    rw [if_pos running, next, ← idleWorkflow_act]
    refine .act idleAnswer waits fun refused => ?_
    rw [← idleWorkflow_act, Workflow.waits, refused] at waits'
    cases waits'
  · rw [if_neg running, if_neg fun again => running (by omega)]
    exact .idle

/-- Ten supersteps. -/
def tenSteps : WorkflowRun (some continueAsNewThreshold) Channel where
  state := idleUpToTen
  start := ⟨idleSetting 501 none, fun _ => "", [], rfl⟩
  step := idleUpToTen_step

/-- An update signal, in the first superstep. -/
def updatedStep : WorkflowRun (some continueAsNewThreshold) Channel where
  state n := if n = 0 then singleStep else singleStep.act (.signals [.updateState [("x", .int 1)]])
  start := ⟨idleSetting 1 none, fun _ => "", [], rfl⟩
  step n := by
    cases n with
    | zero => exact .act _ rfl (by intro refused; cases refused)
    | succ n => exact .idle

/-- Step 10 comes before step 9. -/
theorem tenSteps_unordered : ¬IdsOrder tenSteps := by
  intro order
  obtain ⟨state, answered, nine⟩ := idleWorkflow_query 9 (by decide)
  obtain ⟨state', answered', ten⟩ := idleWorkflow_query 10 (by decide)
  have pair := orderedIds_iff.mp (order 9 10 (by decide) _ _ (observes_query answered) (observes_query answered'))
  have late := pair.later (by omega)
  rw [nine, ten] at late
  exact absurd late (by decide)

/-- A query of the channel versions. -/
def versionOf (wf : Workflow threshold Chan) (c : String) : Option Nat :=
  wf.query.bind fun state => state.channelVersions.get? c

/-- An observation within the step has the id of the one before it. -/
theorem updatedStep_repeats : ¬IdsOrder updatedStep := by
  intro order
  have answers : (updatedStep.state 0).query.isSome = true := rfl
  have answers' : (updatedStep.state 1).query.isSome = true := rfl
  obtain ⟨state, answered⟩ := Option.isSome_iff_exists.mp answers
  obtain ⟨state', answered'⟩ := Option.isSome_iff_exists.mp answers'
  have pair := orderedIds_iff.mp (order 0 1 (by decide) _ _ (observes_query answered) (observes_query answered'))
  have same : (updatedStep.state 0).query.map StateQueryResult.step =
    (updatedStep.state 1).query.map StateQueryResult.step := rfl
  rw [answered, answered'] at same
  have still : versionOf (updatedStep.state 0) "x" = versionOf (updatedStep.state 1) "x" := by
    rw [versionOf, versionOf, answered, answered']
    exact pair.still (Option.some.inj same) "x"
  exact absurd still (by decide)

/-- Ids are out of order from step 9 to step 10, and repeated within a step. -/
theorem ids_out_of_order : ¬IdsOrder tenSteps ∧ ¬IdsOrder updatedStep :=
  ⟨tenSteps_unordered, updatedStep_repeats⟩

end Runs

end LanggraphTemporal.Properties
