/-
# Machine.Chains -- executions that continue as new

A run that ends with `continue_as_new` is followed by a run of the input it
hands over: a new workflow object, possibly in another process, which reads its
state from that input.  `Chained` puts the runs of such a chain together, each
with the signals and answers it gets; its history is theirs, one after the
other.  What holds of every run, and is handed over, holds of every chain
(`Chained.history_holds`).
-/
import LanggraphTemporal.Machine.Refinement

namespace LanggraphTemporal.Machine

set_option autoImplicit false

open Theory Theory.System Model Model.LangGraphWorkflow

variable {Chan : Type}

/-- What a replay of the workflow comes to. -/
abbrev RunOutcome (Chan : Type) := Outcome (Execution Chan) Request Response Signal RunError RunResult

/-- A chain of runs that begins in one setting and is now in its last, with the
history of all of them and what the last one has come to. -/
inductive Chained (threshold : Option Nat) :
    Setting Chan → List Event → Setting Chan → RunOutcome Chan → Prop
  | run (S : Setting Chan) (uuids : Nat → String) (arrived : List Signal)
      (script : List (Action Response Signal)) :
      Chained threshold S (executionHistory S threshold uuids arrived script) S
        (replayExecution S threshold uuids arrived script)
  | next {S S' last : Setting Chan} {uuids : Nat → String} {arrived : List Signal}
      {script rest : List (Action Response Signal)} {w : Execution Chan} {h : List Event}
      {outcome : RunOutcome Chan}
      (continued : replayExecution S threshold uuids arrived script =
        .done (.continueAsNew S'.input) rest w)
      (later : Chained threshold S' h last outcome) :
      Chained threshold S (w.history ++ h) last outcome

variable {S S' last : Setting Chan} {threshold : Option Nat} {h : List Event} {outcome : RunOutcome Chan}

/-- The last run ends, fails or waits as every run does. -/
theorem Chained.ends (chained : Chained threshold S h last outcome) :
    Outcome.Holds (Ends last) (Stops last) (Idles last) outcome := by
  induction chained with
  | run S uuids arrived script => exact execution_refines S threshold uuids arrived script
  | next continued later ih => exact ih

/-- The history of a run that continues as new, and how it ends. -/
theorem continued_ends {uuids : Nat → String} {arrived : List Signal}
    {script rest : List (Action Response Signal)} {next : WorkflowInput} {w : Execution Chan}
    (continued : replayExecution S threshold uuids arrived script = .done (.continueAsNew next) rest w) :
    executionHistory S threshold uuids arrived script = w.history ∧ Ends S (.continueAsNew next) w := by
  have ends := execution_refines S threshold uuids arrived script
  rw [continued] at ends
  refine ⟨?_, ends⟩
  unfold executionHistory
  rw [continued]
  rfl

/-- What a run hands over: its sticky queue is the one found last. -/
theorem Ends.handover {w : Execution Chan} (ends : Ends S (.continueAsNew S'.input) w) :
    FoundAll w.history ∧ S'.input.useWorkerAffinity = S.input.useWorkerAffinity ∧
      S'.input.stickyTaskQueue = lastQueue S.input.stickyTaskQueue w.history ∧
        (S.input.useWorkerAffinity = true → truthy S'.input.stickyTaskQueue = true) := by
  obtain ⟨n, here, handed⟩ := ends
  have configured := configured_invariant.holds here.reachable
  have sticks := sticks_invariant.holds here.reachable here.foundAll
  rw [handed]
  refine ⟨here.foundAll, rfl, sticks, fun affinity => ?_⟩
  exact (here.pinned (configured.affinity.trans affinity)).mpr here.foundAll

/-- What holds of the history of every run, and passes from the history of a
run that continues as new to that of a chain it begins, holds of every chain. -/
theorem Chained.history_holds {P : Setting Chan → List Event → Prop}
    (run : ∀ (S : Setting Chan) uuids arrived script,
      P S (executionHistory S threshold uuids arrived script))
    (next : ∀ (S S' : Setting Chan) w h, Ends S (.continueAsNew S'.input) w → P S w.history → P S' h →
      P S (w.history ++ h))
    (chained : Chained threshold S h last outcome) : P S h := by
  induction chained with
  | run S uuids arrived script => exact run S uuids arrived script
  | @next S S' last uuids arrived script rest w h outcome continued later ih =>
      obtain ⟨history, ends⟩ := continued_ends continued
      have here := run S uuids arrived script
      rw [history] at here
      exact next S S' w h ends here ih

end LanggraphTemporal.Machine
