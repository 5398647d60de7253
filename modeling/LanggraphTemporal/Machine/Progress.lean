/-
# Machine.Progress -- the workflow goes on

`run` never waits for nothing (`run_attentive`), so an execution that is blocked
has a request to be answered.  Each answer brings it nearer to its end, and no
signal takes it away from there (`Workflow.distance_answered`,
`Workflow.distance_signalled`).  A run that continues as new has begun a superstep
(`began_of_continued`).
-/
import LanggraphTemporal.Theory.CoroutineProgress
import LanggraphTemporal.Theory.CoroutineInvariant
import LanggraphTemporal.Theory.Transcript
import LanggraphTemporal.Machine.Trees

namespace LanggraphTemporal.Machine

set_option autoImplicit false

open Theory Theory.System Theory.History Model Model.LangGraphWorkflow

variable {Chan α : Type} {env : Env Chan} {threshold : Option Nat}

/-! ## Waiting for something -/

section Attentive

variable {F : Footprint Chan}

theorem executeSubgraph_attentive (task : PregelTask) (name : String) :
    (executeSubgraphAsChildWorkflow env task name).Attentive := by
  refine fun _ _ _ _ => ⟨List.cons_ne_nil _ _, fun i r => ?_⟩
  cases r with
  | _ => trivial

theorem Built.attentive {c : WorkflowM Chan α} (built : Built env F c) : c.Attentive := by
  induction built with
  | ret a => trivial
  | raise e => trivial
  | bind first next ih ih' => exact ih.bind ih'
  | getSelf => exact fun _ => trivial
  | setSelf allowed => exact fun _ => trivial
  | record allowed => exact fun _ => trivial
  | request other => exact .request _
  | subgraph task name allowed => exact executeSubgraph_attentive task name
  | attempt built ih => exact ih.attempt
  | gather each xs ih => exact .gather ih xs

theorem Pausing.attentive {c : WorkflowM Chan α} (pausing : Pausing env F c) : c.Attentive := by
  induction pausing with
  | built built => exact built.attentive
  | bind first next ih ih' => exact ih.bind ih'
  | pause => exact fun _ _ _ => ⟨List.cons_ne_nil _ _, fun _ _ _ _ _ => trivial⟩
  | opening allowed graph input next ih =>
      refine Coro.Attentive.bind (fun _ => trivial) fun self => ?_
      split
      · trivial
      · exact fun _ => ih _

end Attentive

/-- **`run` never waits for nothing.** -/
theorem run_attentive (env : Env Chan) (threshold : Option Nat) (input : WorkflowInput) :
    (run env threshold input).Attentive :=
  (run_pausing (streaming_entire env) threshold input).attentive

/-! ## Continuing as new -/

/-- A superstep has begun. -/
def Began (w : Execution Chan) : Prop := ∃ step tasks, .scheduled step tasks ∈ w.history

theorem Began.grows {w t : Execution Chan} (began : Began w) (grows : Grows w t) : Began t := by
  obtain ⟨step, tasks, mem⟩ := began
  exact ⟨step, tasks, grows.subset mem⟩

/-- If it continues as new, a superstep has begun. -/
def ContinuesLater (result : RunResult) (w : Execution Chan) : Prop :=
  ∀ next, result = .continueAsNew next → Began w

/-- What began stays so. -/
theorem Pausing.began {F : Footprint Chan} {c : WorkflowM Chan α} (ordinary : Ordinary env F)
    (pausing : Pausing env F c) {w : Execution Chan} (began : Began w) :
    (workflowSystem env).wp (fun _ => Began) (fun _ _ => True) (fun _ _ => True) c w := by
  have steps := (pausing.steps ordinary w).weaken fun _ _ => Writes.grows
  refine wp_mono (fun _ _ => id) (fun _ _ _ => trivial) (fun _ _ _ => trivial) (steps.wp ?_ ?_ began)
  · exact fun _ _ => Began.grows
  · exact fun _ _ _ began handled => began.grows (grows_handle handled)

theorem finish_later (w : Execution Chan) :
    (workflowSystem env).wp ContinuesLater (fun _ _ => True) (fun _ _ => True) (finish env) w := by
  intro next output
  cases output

theorem loop_later (graph : Pregel Chan) (input : WorkflowInput) : ∀ (fuel steps : Nat) (w : Execution Chan),
    (workflowSystem env).wp ContinuesLater (fun _ _ => True) (fun _ _ => True)
      (loop env threshold graph input fuel steps) w
  | 0, _, _ => trivial
  | fuel + 1, steps, w => by
      unfold loop getSelf record
      simp only [Coro.bind_eq, wp_bind, wp_read, Coro.pure_eq, wp_ret]
      split
      · split
        · exact finish_later _
        · simp only [wp_bind, wp_modify]
          refine wp_mono (fun _ t began => ?_) (fun _ _ => id) (fun _ _ => id)
            ((superstep_pausing (streaming_entire env) graph input _).began
              (streaming_entire env).toOrdinary ⟨_, _, List.mem_append_right _ (List.mem_singleton_self _)⟩)
          split
          · exact fun _ _ => began
          · exact loop_later graph input fuel (steps + 1) t
      · exact finish_later w

theorem run_later (S : Setting Chan) (w : Execution Chan) :
    (workflowSystem S.env).wp ContinuesLater (fun _ _ => True) (fun _ _ => True)
      (run S.env threshold S.input) w := by
  have opens (t : Execution Chan) : (workflowSystem S.env).wp ContinuesLater (fun _ _ => True)
      (fun _ _ => True) (opening S threshold) t := by
    unfold opening getSelf setSelf
    simp only [Coro.bind_eq, wp_bind, wp_read, Coro.pure_eq, wp_ret]
    split
    · trivial
    · exact loop_later S.graph S.input _ _ _
  rw [run_eq]
  simp only [setSelf, wp_bind, wp_modify]
  split
  · simp only [wp_bind]
    have found := ((getAvailableTaskQueue_built (streaming_entire S.env).toOrdinary).steps
      (begun S w)).wp (S := workflowSystem S.env) (J := fun _ => True) (fun _ _ _ _ => trivial)
      (fun _ _ _ _ _ => trivial) trivial
    exact wp_mono (fun _ t _ => opens _) (fun _ _ => id) (fun _ _ => id) found
  · exact opens _

/-- **A run that continues as new has begun a superstep.** -/
theorem began_of_continued {S : Setting Chan} {uuids : Nat → String} {arrived : List Signal}
    {script rest : List (Action Response Signal)} {next : WorkflowInput} {w : Execution Chan}
    (continued : replayExecution S threshold uuids arrived script = .done (.continueAsNew next) rest w) :
    Began w := by
  unfold replayExecution at continued
  split at continued
  · rename_i start delivered
    have later := replay_holds _ (run S.env threshold S.input) script start (run_later S start)
    rw [continued] at later
    exact later next rfl
  · cases continued

/-! ## The workflows of a tree -/

namespace Workflow

variable {wf : Workflow threshold Chan}

/-- How far its current run is from its end. -/
noncomputable def distance (wf : Workflow threshold Chan) : Ordinal := wf.outcome.distance

/-- A run that is blocked waits for something. -/
theorem requests_ne_nil {qs : List Request} {k : Nat → Response → WorkflowM Chan RunResult}
    {w : Execution Chan} (blocked : wf.outcome = .blocked qs k w) : qs ≠ [] := by
  obtain ⟨start, replay⟩ := execution_replay blocked
  have here := replay wf.script
  rw [show replayExecution _ _ _ _ wf.script = _ from blocked] at here
  exact replay_attentive (run_attentive _ _ _) _ _ here.symm

/-- **An answer brings a workflow nearer to its end.** -/
theorem distance_answered (idle : wf.waits = true) (i : Nat) (r : Response) :
    (wf.act (.answer i r)).distance < wf.distance := by
  unfold waits at idle
  unfold distance
  cases blocked : wf.outcome with
  | blocked qs k w =>
      have next : (wf.act (.answer i r)).outcome =
          (workflowSystem wf.current.env).replay (.await qs k) [.answer i r] w :=
        execution_append blocked _
      rw [next]
      exact Theory.System.distance_answered (firstReady_of_asleep 0 (execution_asleep blocked))
  | _ =>
      rw [blocked] at idle
      cases idle

/-- Signals bring it nearer, or leave it waiting for the same. -/
theorem distance_signalled (idle : wf.waits = true) (signals : List Signal) :
    (wf.act (.signals signals)).distance < wf.distance ∨
      (wf.act (.signals signals)).distance = wf.distance ∧
        (wf.act (.signals signals)).requests = wf.requests := by
  unfold waits at idle
  unfold distance requests
  cases blocked : wf.outcome with
  | blocked qs k w =>
      have next : (wf.act (.signals signals)).outcome =
          (workflowSystem wf.current.env).replay (.await qs k) [.signals signals] w :=
        execution_append blocked _
      rw [next]
      have moved : ((workflowSystem wf.current.env).replay (.await qs k) [.signals signals] w).distance <
          (Outcome.blocked qs k w : RunOutcome Chan).distance ∨
            ∃ t, (workflowSystem wf.current.env).replay (.await qs k) [.signals signals] w =
              .blocked qs k t :=
        Theory.System.distance_signalled (firstReady_of_asleep 0 (execution_asleep blocked))
      rcases moved with nearer | ⟨t, same⟩
      · exact .inl nearer
      · rw [same]
        exact .inr ⟨rfl, rfl⟩
  | _ =>
      rw [blocked] at idle
      cases idle

end Workflow

end LanggraphTemporal.Machine
