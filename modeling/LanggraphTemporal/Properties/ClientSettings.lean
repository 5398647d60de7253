/-
# Properties.ClientSettings -- the settings of the client, at every dispatch

A `TemporalGraph` is given its timeouts, retry policies and queues once.  From
there they go through the input of the workflow, the workflow object, the
keyword arguments of every dispatch, and the input of each run that follows by
continue-as-new.  Nothing is lost or changed on the way: every activity and
every sub-agent that any run of the chain starts is given what the client has
set, and no run goes past the client's recursion limit (`settings_honoured`).
-/
import LanggraphTemporal.Model.Graph
import LanggraphTemporal.Machine.Chains
import LanggraphTemporal.Machine.Reference

namespace LanggraphTemporal.Properties

set_option autoImplicit false

open Theory Theory.System Theory.History Model Model.LangGraphWorkflow Machine

variable {Chan : Type} {S S' last : Setting Chan} {threshold : Option Nat} {h : List Event}
  {outcome : RunOutcome Chan}

/-! ## Settings -/

/-- How a node is dispatched: these options, this sticky queue or else this queue
of its own, and this retry policy. -/
def callWith (options : Option ActivityOptions) (sticky queue : Option String)
    (retry : Option RetryPolicyConfig) : ActivityCall where
  startToCloseTimeout := (options.getD {}).startToCloseTimeout
  heartbeatTimeout := (options.getD {}).heartbeatTimeout
  scheduleToCloseTimeout := (options.getD {}).scheduleToCloseTimeout
  taskQueue := if truthy sticky then sticky else queue
  retryPolicy := retry.map toTemporalRetryPolicy

/-- How a sub-agent is started under these settings; where they name no queue,
it is that of the workflow. -/
structure Delegates (config : Option SubAgentConfig) (limit : Int) (call : ChildCall) : Prop where
  limit : call.input.recursionLimit = limit
  sticky : call.input.stickyTaskQueue = config.bind SubAgentConfig.stickyTaskQueue
  queue : truthy (config.bind SubAgentConfig.taskQueue) = true →
    call.taskQueue = config.bind SubAgentConfig.taskQueue
  timeout : ∀ seconds, config.map SubAgentConfig.executionTimeoutSeconds = some seconds → seconds ≠ 0 →
    call.executionTimeout = some seconds
  default : (∀ seconds, config.map SubAgentConfig.executionTimeoutSeconds = some seconds → seconds = 0) →
    call.executionTimeout = some 1800

/-- The entry keeps to the settings of this input. -/
structure KeepsTo (input : WorkflowInput) (a : List Event) (e : Event) : Prop where
  dispatched : ∀ node call, e = .dispatched node call →
    node.graphDefinitionRef = input.graphDefinitionRef ∧
      call = callWith ((input.nodeActivityOptions.getD ∅).get? node.nodeName)
        (lastQueue input.stickyTaskQueue a) ((input.nodeTaskQueues.getD ∅).get? node.nodeName)
        ((input.nodeRetryPolicies.getD ∅).get? node.nodeName)
  scheduled : ∀ step tasks, e = .scheduled step tasks → (step : Int) < input.recursionLimit
  subagent : ∀ call, e = .subagentStarted call → Delegates input.subagentConfig input.recursionLimit call

theorem keepsTo_of_preliminary {input : WorkflowInput} {a : List Event} {e : Event}
    (early : preliminary e = true) : KeepsTo input a e := by
  refine ⟨?_, ?_, ?_⟩
  · rintro node call rfl
    cases early
  · rintro step tasks rfl
    cases early
  · rintro call rfl
    cases early

/-! ## One run -/

variable {ph ph' : Phase} {self self' : LangGraphWorkflow Chan} {e : Event}

theorem graphRef_of_admits {input : NodeActivityInput} (admits : Admits S ph h self input) :
    input.graphDefinitionRef = self.graphRef := by
  cases admits <;> rfl

theorem activityCall_eq (configured : Configured S.graph S.input self) (node : String) :
    self.activityCall node = callWith ((S.input.nodeActivityOptions.getD ∅).get? node) self.stickyTaskQueue
      ((S.input.nodeTaskQueues.getD ∅).get? node) ((S.input.nodeRetryPolicies.getD ∅).get? node) := by
  unfold activityCall activityOptionsForNode taskQueueForNode retryPolicyForNode callWith Dict.getD
  rw [configured.options, configured.taskQueues, configured.retries]

theorem delegates_childCall (env : Env Chan) (self : LangGraphWorkflow Chan) (req : ChildRequest)
    (input : WorkflowInput) (index : Nat) :
    Delegates self.subagentConfig input.recursionLimit (childCall env self req input index) := by
  cases config : self.subagentConfig with
  | none =>
      refine ⟨rfl, ?_, fun named => ?_, fun seconds given => ?_, fun _ => ?_⟩
      · simp only [childCall, config]
      · cases named
      · cases given
      · simp only [childCall, config]
  | some c =>
      refine ⟨rfl, ?_, fun named => ?_, fun seconds given positive => ?_, fun zero => ?_⟩
      · simp only [childCall, config]
      · simp only [childCall, config]
        exact if_pos named
      · cases given
        simp only [childCall, config]
        exact if_pos positive
      · have none : c.executionTimeoutSeconds = 0 := zero _ rfl
        simp only [childCall, config]
        exact if_neg (not_not_intro none)

theorem keepsTo_of_works (reachable : (workflowMachine S).Reachable ⟨h, ph, self⟩)
    (works : Works S ph h self e self') : KeepsTo S.input h e := by
  have configured := configured_invariant.holds reachable
  refine ⟨?_, ?_, ?_⟩
  · rintro node call rfl
    cases works with
    | dispatch admitted foundAll =>
        refine ⟨(graphRef_of_admits admitted).trans configured.graphRef, ?_⟩
        rw [activityCall_eq configured, sticks_invariant.holds reachable foundAll]
  · rintro step tasks rfl
    cases works
  · rintro call rfl
    cases works with
    | subagent =>
        rw [← configured.subagents]
        exact delegates_childCall _ _ _ _ _

theorem keepsTo_of_moves (moves : Moves S h ph self e ph' self') : KeepsTo S.input h e := by
  refine ⟨?_, ?_, ?_⟩
  · rintro node call rfl
    cases moves
  · rintro step tasks rfl
    cases moves with
    | schedule stage below => exact below
  · rintro call rfl
    cases moves

theorem keepsTo_of_run (uuids : Nat → String) (arrived : List Signal)
    (script : List (Action Response Signal)) :
    Guarded (KeepsTo S.input) (executionHistory S threshold uuids arrived script) :=
  executionHistory_guarded (fun _ _ early => keepsTo_of_preliminary early)
    (fun _ _ _ _ _ reachable works => keepsTo_of_works reachable works)
    (fun _ _ _ _ _ _ _ moves => keepsTo_of_moves moves) threshold uuids arrived script

/-! ## The chain -/

/-- The next run is given the same settings, and the queue found last. -/
theorem KeepsTo.after {w : Execution Chan} {a : List Event} (ends : Ends S (.continueAsNew S'.input) w)
    (keeps : KeepsTo S'.input a e) : KeepsTo S.input (w.history ++ a) e := by
  obtain ⟨-, -, sticky, -⟩ := ends.handover
  obtain ⟨n, here, handed⟩ := ends
  have configured := configured_invariant.holds here.reachable
  have subagents : S'.input.subagentConfig = S.input.subagentConfig := by
    rw [handed]
    exact configured.subagents
  refine ⟨fun node call same => ?_, fun step tasks same => ?_, fun call same => ?_⟩
  · obtain ⟨ref, settings⟩ := keeps.dispatched node call same
    rw [sticky] at settings
    rw [lastQueue_append]
    rw [handed] at ref settings
    exact ⟨ref, settings⟩
  · have below := keeps.scheduled step tasks same
    rw [handed] at below
    exact below
  · have delegates := keeps.subagent call same
    rw [subagents] at delegates
    rw [handed] at delegates
    exact delegates

theorem keepsTo_of_chain (chained : Chained threshold S h last outcome) : Guarded (KeepsTo S.input) h := by
  refine chained.history_holds (P := fun S h => Guarded (KeepsTo S.input) h) ?_ ?_
  · exact fun S uuids arrived script => keepsTo_of_run uuids arrived script
  · intro S S' w h ends here later
    exact guarded_append.mpr ⟨here, later.mono fun a e keeps => keeps.after ends⟩

/-! ## The client -/

/-- `config["configurable"]`, or its defaults -/
def configurableOf (config : Option RunnableConfig) : Configurable :=
  (config.bind RunnableConfig.configurable).getD {}

/-- The entry keeps to the settings of this `TemporalGraph` and this `config`. -/
structure Honours (self : ClientGraph Chan) (config : Option RunnableConfig) (a : List Event) (e : Event) :
    Prop where
  dispatched : ∀ node call, e = .dispatched node call → node.graphDefinitionRef = self.graphRef ∧
    call = callWith (self.nodeActivityOptions.get? node.nodeName)
      (lastQueue (configurableOf config).stickyTaskQueue a) (self.nodeTaskQueues.get? node.nodeName)
      ((self.retryPolicies.get? node.nodeName).map RetryPolicy.toConfig)
  scheduled : ∀ step tasks, e = .scheduled step tasks → (step : Int) < ClientGraph.recursionLimit config
  subagent : ∀ call, e = .subagentStarted call →
    Delegates (configurableOf config).subagentConfig.toConfig (ClientGraph.recursionLimit config) call

theorem get?_truthyDict {α : Type} (d : Dict α) (k : String) :
    ((truthyDict d).getD ∅).get? k = d.get? k := by
  unfold truthyDict
  by_cases empty : d.entries.isEmpty = true
  · have none : d = ∅ := Dict.ext (List.isEmpty_iff.mp empty)
    rw [if_pos empty, none]
    rfl
  · rw [if_neg empty]
    rfl

theorem get?_retryPolicies (policies : Dict RetryPolicy) (k : String) :
    (policies.filterMap fun _ p => some p.toConfig).get? k = (policies.get? k).map RetryPolicy.toConfig := by
  rw [Dict.get?_filterMap]
  cases policies.get? k <;> rfl

/-- **Every dispatch of every run of a chain is given the settings of the client
that started it.** -/
theorem settings_honoured (self : ClientGraph Chan) (input : PyVal) (config : Option RunnableConfig)
    (before after : Option InterruptNodes)
    (made : S.input = self.buildWorkflowInput input config before after)
    (chained : Chained threshold S h last outcome) : Guarded (Honours self config) h := by
  refine (keepsTo_of_chain chained).mono fun a e keeps => ?_
  rw [made] at keeps
  refine ⟨fun node call same => ?_, keeps.scheduled, keeps.subagent⟩
  obtain ⟨ref, settings⟩ := keeps.dispatched node call same
  refine ⟨ref, settings.trans ?_⟩
  simp only [ClientGraph.buildWorkflowInput, get?_truthyDict, get?_retryPolicies]
  rfl

section Runs

open Reference

/-- A node that triggers itself, with a timeout, a queue and a retry policy. -/
def tunedGraph : ClientGraph Channel where
  graph := graph [("d", ["in", branchTo "d"])]
  graphRef := "graph"
  nodeTaskQueues := Dict.ofList [("d", "gpu")]
  nodeActivityOptions := Dict.ofList [("d", { startToCloseTimeout := 60 })]
  retryPolicies := Dict.ofList [("d", { maxAttempts := some 3 })]

/-- The chain that continues as new after every superstep, in its first run. -/
def tunedSetting : Setting Channel where
  env := env tunedGraph.graph
  graph := tunedGraph.graph
  input := tunedGraph.buildWorkflowInput (.int 0) none none none
  registered := rfl

/-- `d` asks for one more superstep. -/
def tunedScript : List (Action Response Signal) :=
  [.answer 0 (.output (pulled "d" [(branchTo "d", .none)]))]

/-- What the first run hands over. -/
def handedOn : WorkflowInput :=
  match replayExecution tunedSetting (some 1) (fun _ => "") [] tunedScript with
  | .done (.continueAsNew next) _ _ => next
  | _ => tunedSetting.input

def handedSetting : Setting Channel := { tunedSetting with input := handedOn, registered := rfl }

theorem settings_honoured_handedOn : ∃ h,
    (∃ a b, h = a ++ executionHistory handedSetting (some 1) (fun _ => "") [] [] ++ b ∧ a ≠ []) ∧
      Guarded (Honours tunedGraph none) h := by
  have continued : ∃ rest w, replayExecution tunedSetting (some 1) (fun _ => "") [] tunedScript =
      .done (.continueAsNew handedSetting.input) rest w ∧ w.history ≠ [] := ⟨_, _, rfl, nofun⟩
  obtain ⟨rest, w, first, begun⟩ := continued
  exact ⟨_, ⟨w.history, [], (List.append_nil _).symm, begun⟩,
    settings_honoured tunedGraph (.int 0) none none none rfl
      (Chained.next first (.run handedSetting (fun _ => "") [] []))⟩

end Runs

end LanggraphTemporal.Properties
