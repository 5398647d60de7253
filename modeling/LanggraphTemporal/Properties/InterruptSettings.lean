/-
# Properties.InterruptSettings -- interrupt settings on their way to the workflow

The client makes a list of the setting of the graph and sends an explicit argument
on as it is, and the input that `run` gets is decoded by types that know lists
only.  `"*"` becomes `["*"]` on either way, a list with the name of no node in it,
so a graph that is compiled to pause everywhere pauses nowhere
(`all_setting_lost`).  Every other setting pauses the workflow where it should
(`settings_survive_iff`).
-/
import LanggraphTemporal.Model.Graph

namespace LanggraphTemporal.Properties

set_option autoImplicit false

open Theory Model Model.LangGraphWorkflow

variable {Chan : Type} {tasks : List PregelTask} {setting : InterruptNodes}

/-- The setting is "all", or the name of a task is in it. -/
def Concerns (setting : InterruptNodes) (tasks : List PregelTask) : Prop :=
  setting = .all ∨ ∃ ns, setting = .names ns ∧ ∃ t ∈ tasks, t.name ∈ ns

/-- An interrupt check stops the run, waiting for a resume. -/
def Pauses (check : WorkflowM Chan Unit) (w : Execution Chan) : Prop :=
  ∃ k t, settle check w = .await [.resumeEvent] k t

/-- The setting that a start with this argument is meant to have. -/
def effective (argument : Option InterruptNodes) (setting : InterruptNodes) : InterruptNodes :=
  argument.getD setting

/-- A setting gets through: it is a list, or there is a node named `"*"`. -/
def Survives (setting : InterruptNodes) (tasks : List PregelTask) : Prop :=
  setting ≠ .all ∨ ∃ t ∈ tasks, t.name = "*"

/-- The settings that `run` gets from a client with this graph and arguments. -/
def inputOfRun (self : ClientGraph Chan) (input : PyVal) (config : Option RunnableConfig)
    (before after : Option InterruptNodes) : WorkflowInput :=
  (self.buildWorkflowInput input config before after).decoded

theorem pauses_iff (nodes : Option InterruptNodes) (entry : String → PendingInterrupt)
    (w : Execution Chan) : Pauses (interruptCheck nodes entry tasks) w ↔ interruptsAt nodes tasks = true := by
  unfold Pauses interruptCheck
  by_cases interrupts : interruptsAt nodes tasks = true
  · rw [if_pos interrupts]
    exact iff_of_true ⟨_, _, rfl⟩ interrupts
  · rw [if_neg interrupts]
    refine iff_of_false ?_ interrupts
    rintro ⟨k, t, stops⟩
    cases stops

/-- On a list the guard and the membership test are one test. -/
theorem interruptsAt_names (ns : List String) :
    interruptsAt (some (.names ns)) tasks = true ↔ ∃ t ∈ tasks, t.name ∈ ns := by
  have member : shouldInterruptNodes tasks (.names ns) = true ↔ ∃ t ∈ tasks, t.name ∈ ns := by
    simp [shouldInterruptNodes]
  constructor
  · intro interrupts
    exact member.mp (Bool.and_eq_true_iff.mp interrupts).2
  · rintro ⟨t, mem, named⟩
    have truthy : (InterruptNodes.names ns).truthy = true := by
      simp [InterruptNodes.truthy, List.ne_nil_of_mem named]
    exact Bool.and_eq_true_iff.mpr ⟨truthy, member.mpr ⟨t, mem, named⟩⟩

/-- Whatever the setting is, it arrives as a list, if it arrives at all. -/
theorem interruptsAt_arrived (argument : Option InterruptNodes) :
    interruptsAt ((ClientGraph.interruptNodes argument setting).map fun nodes => .names nodes.toList)
        tasks = true ↔
      ∃ t ∈ tasks, t.name ∈ (effective argument setting).toList := by
  cases argument with
  | some nodes => exact interruptsAt_names _
  | none =>
      unfold ClientGraph.interruptNodes effective
      by_cases truthy : setting.truthy = true
      · simp only [truthy, if_true]
        exact interruptsAt_names _
      · cases setting with
        | all => exact absurd rfl truthy
        | names ns =>
            have empty : ns = [] := by simpa [InterruptNodes.truthy] using truthy
            subst empty
            refine iff_of_false (by simp [InterruptNodes.truthy, interruptsAt]) ?_
            rintro ⟨t, -, named⟩
            cases named

theorem concerns_names (ns : List String) : Concerns (.names ns) tasks ↔ ∃ t ∈ tasks, t.name ∈ ns := by
  constructor
  · rintro (all | ⟨ns', same, named⟩)
    · cases all
    · cases same
      exact named
  · exact fun named => .inr ⟨ns, rfl, named⟩

/-- What arrives of a setting pauses where the setting should, if and only if it
survives. -/
theorem interruptNodes_iff (argument : Option InterruptNodes) (setting : InterruptNodes)
    (tasks : List PregelTask) :
    (interruptsAt ((ClientGraph.interruptNodes argument setting).map fun nodes => .names nodes.toList)
        tasks = true ↔ Concerns (effective argument setting) tasks) ↔
      Survives (effective argument setting) tasks := by
  rw [interruptsAt_arrived]
  cases effective argument setting with
  | names ns => exact iff_of_true (concerns_names ns).symm (.inl (by simp))
  | all =>
      have everywhere : Concerns .all tasks := .inl rfl
      have star : (∃ t ∈ tasks, t.name ∈ InterruptNodes.toList .all) ↔ ∃ t ∈ tasks, t.name = "*" := by
        simp [InterruptNodes.toList]
      rw [star, iff_true_right everywhere]
      constructor
      · exact fun named => .inr named
      · rintro (list | named)
        · exact absurd rfl list
        · exact named

/-- **A workflow pauses where its effective settings say, if and only if they
survive the way to it.** -/
theorem settings_survive_iff (self : ClientGraph Chan) (input : PyVal) (config : Option RunnableConfig)
    (before after : Option InterruptNodes) (tasks : List PregelTask) (w : Execution Chan) :
    ((Pauses (interruptCheck (inputOfRun self input config before after).interruptBefore .before tasks) w ↔
        Concerns (effective before self.interruptBeforeNodes) tasks) ↔
      Survives (effective before self.interruptBeforeNodes) tasks) ∧
    ((Pauses (interruptCheck (inputOfRun self input config before after).interruptAfter .after tasks) w ↔
        Concerns (effective after self.interruptAfterNodes) tasks) ↔
      Survives (effective after self.interruptAfterNodes) tasks) := by
  rw [pauses_iff, pauses_iff]
  exact ⟨interruptNodes_iff before self.interruptBeforeNodes tasks,
    interruptNodes_iff after self.interruptAfterNodes tasks⟩

/-- The graph is compiled with `interrupt_before="*"`. -/
def pausingGraph : ClientGraph Unit where
  graph := { name := "graph", nodes := ∅, channels := ∅ }
  graphRef := "graph_00000000"
  interruptBeforeNodes := .all

def agentTasks : List PregelTask := [⟨"agent", [.str "__pregel_pull", .str "agent"]⟩]

def blankExecution : Execution Unit where
  self := { checkpoint := {} }
  uuids _ := ""

/-- **A graph that is compiled to pause before every node does not pause.** -/
theorem all_setting_lost :
    Concerns (effective none pausingGraph.interruptBeforeNodes) agentTasks ∧
      ¬Pauses (interruptCheck (inputOfRun pausingGraph (.dict []) none none none).interruptBefore .before
        agentTasks) blankExecution := by
  refine ⟨.inl rfl, ?_⟩
  rw [pauses_iff]
  decide

end LanggraphTemporal.Properties
