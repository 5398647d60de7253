/-
# Properties.Completion -- a run that is done

A run ends as done in two ways: `prepare_next_tasks` has scheduled nothing, or
the step has reached the recursion limit.  In the second case nothing is looked
at, and nodes may be left to run: `limit_ends_done` is such a run.  A run that is
done is complete exactly when it has not reached its limit with a node triggered
(`complete_iff`), and a chain of runs likewise.
-/
import LanggraphTemporal.Machine.Chains
import LanggraphTemporal.Machine.Reference

namespace LanggraphTemporal.Properties

set_option autoImplicit false

open Theory Theory.System Model Model.LangGraphWorkflow Machine

variable {Chan : Type}

/-! ## The statement -/

/-- Nothing is left to schedule. -/
def Complete (S : Setting Chan) (wf : LangGraphWorkflow Chan) : Prop :=
  S.env.lg.prepareNextTasks wf.checkpoint S.graph.nodes wf.channels wf.step S.input.recursionLimit
    wf.triggerToNodes = []

/-- A run that has set its status to done and returned its output is complete. -/
def DoneIsComplete (S : Setting Chan) (outcome : RunOutcome Chan) : Prop :=
  ∀ o rest w, outcome = .done (.output o) rest w → w.self.status = .done → Complete S w.self

/-- No node of the graph has a trigger channel at a version that it has not
seen. -/
def Untriggered (S : Setting Chan) (wf : LangGraphWorkflow Chan) : Prop :=
  ∀ node n, S.graph.nodes.get? node = some n →
    ¬S.env.lg.Triggered wf.checkpoint wf.channels node n.triggers

/-- The run has not been cut off: it ends below its limit, or with no node
triggered. -/
def WithinLimit (S : Setting Chan) (outcome : RunOutcome Chan) : Prop :=
  ∀ o rest w, outcome = .done (.output o) rest w →
    (w.self.step : Int) < S.input.recursionLimit ∨ Untriggered S w.self

/-! ## When it holds -/

section Complete

variable {S last : Setting Chan} {wf : LangGraphWorkflow Chan} {w : Execution Chan}
  {o : WorkflowOutput} {threshold : Option Nat} {h : List Event} {outcome : RunOutcome Chan}

theorem complete_iff_untriggered (schedules : S.env.lg.SchedulesTriggered) :
    Complete S wf ↔ Untriggered S wf := by
  have scheduled := schedules wf.checkpoint S.graph.nodes wf.channels wf.step S.input.recursionLimit
    wf.triggerToNodes
  unfold Complete Untriggered
  constructor
  · intro none node n found triggered
    have mem := (scheduled node).mpr ⟨n, found, triggered⟩
    rw [none] at mem
    cases mem
  · intro untriggered
    refine List.eq_nil_iff_forall_not_mem.mpr fun t mem => ?_
    obtain ⟨n, found, triggered⟩ := (scheduled t.name).mp (List.mem_map_of_mem mem)
    exact untriggered t.name n found triggered

/-- A run that returns an output is done, and below its limit it is complete. -/
theorem ends_output (ends : Ends S (.output o) w) :
    w.self.status = .done ∧ ((w.self.step : Int) < S.input.recursionLimit → Complete S w.self) := by
  obtain ⟨n, u, -, rfl, -, stopped⟩ := ends
  refine ⟨rfl, fun below => ?_⟩
  rcases stopped with limit | none
  · change (u.self.step : Int) < S.input.recursionLimit at below
    omega
  · exact none

/-- **A chain of runs that is done is complete exactly when it has not been cut
off by its recursion limit.** -/
theorem complete_iff (schedules : last.env.lg.SchedulesTriggered)
    (chained : Chained threshold S h last outcome) :
    DoneIsComplete last outcome ↔ WithinLimit last outcome := by
  constructor
  · intro complete o rest w ended
    have ends := chained.ends
    rw [ended] at ends
    exact .inr ((complete_iff_untriggered schedules).mp
      (complete o rest w ended (ends_output ends).1))
  · intro within o rest w ended _
    have ends := chained.ends
    rw [ended] at ends
    rcases within o rest w ended with below | untriggered
    · exact (ends_output ends).2 below
    · exact (complete_iff_untriggered schedules).mpr untriggered

end Complete

section Runs

open Reference

/-- `d` triggers itself, for as many supersteps as it writes. -/
def loopUpTo (limit : Int) : Setting Channel where
  env := env (graph [("d", ["in", branchTo "d"])])
  graph := graph [("d", ["in", branchTo "d"])]
  input := { graphDefinitionRef := "graph", inputData := some (.int 0), recursionLimit := limit }
  registered := rfl

/-- `d` asks for one more superstep, which writes `x` and ends the run. -/
def twoStepsScript : List (Action Response Signal) :=
  [.answer 0 (.output (pulled "d" [(branchTo "d", .none)])), .answer 0 (.output (pulled "d" [("x", .int 1)]))]

/-- The step of a run that has ended. -/
def endStep : RunOutcome Channel → Option Nat
  | .done _ _ w => some w.self.step
  | _ => none

theorem complete_twoStepsScript :
    DoneIsComplete (loopUpTo 3) (replayExecution (loopUpTo 3) none (fun _ => "") [] twoStepsScript) := by
  refine (complete_iff reference_schedulesTriggered (.run (loopUpTo 3) _ _ _)).mpr fun o rest w ended => ?_
  have stopped : endStep (replayExecution (loopUpTo 3) none (fun _ => "") [] twoStepsScript) = some 2 := rfl
  rw [ended] at stopped
  have step : w.self.step = 2 := Option.some.inj stopped
  rw [step]
  exact .inl (by decide)

/-- **A run that is cut off by its limit ends as done.** -/
theorem limit_ends_done :
    ¬DoneIsComplete (loopUpTo 1) (replayExecution (loopUpTo 1) none (fun _ => "") [] twoStepsScript) := by
  intro complete
  have ended : ∃ o rest w,
      replayExecution (loopUpTo 1) none (fun _ => "") [] twoStepsScript = .done (.output o) rest w ∧
        w.self.status = .done ∧ ¬Complete (loopUpTo 1) w.self := ⟨_, _, _, rfl, rfl, nofun⟩
  obtain ⟨o, rest, w, ended, done, incomplete⟩ := ended
  exact incomplete (complete o rest w ended done)

end Runs

end LanggraphTemporal.Properties
