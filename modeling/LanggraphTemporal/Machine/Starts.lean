/-
# Machine.Starts -- what the workflow starts before it waits

The activities and child workflows that a method awaits side by side are all
started before the first of them is answered: `_execute_push_tasks` asks for one
activity for each Send, in order (`executePushTasks_launches`).
-/
import LanggraphTemporal.Theory.CoroutineStarts
import LanggraphTemporal.Machine.Waits

namespace LanggraphTemporal.Machine

set_option autoImplicit false

open Theory Theory.System Theory.History Model Model.LangGraphWorkflow

variable {Chan α β : Type} {env : Env Chan}

/-- `awaitAll` starts like `gather`. -/
theorem awaitAll_launches {Rel : Execution Chan → Execution Chan → Prop} {q : Request} {ι : Type}
    {f : ι → WorkflowM Chan NodeActivityOutput} {asks : ι → Execution Chan → List Request}
    {enter : ι → Execution Chan → Execution Chan}
    (each : ∀ x w, Launches Rel q (f x) w (asks x w) (enter x w)) (x : ι) (xs : List ι)
    (w : Execution Chan) :
    Launches Rel q (awaitAll ((x :: xs).map f)) w (firstRequests asks enter (x :: xs) w)
      ((x :: xs).foldl (fun w x => enter x w) w) := by
  cases xs with
  | nil =>
      show Launches Rel q _ w (asks x w ++ []) (enter x w)
      rw [List.append_nil]
      exact (each x w).bind fun _ _ => trivial
  | cons y ys => exact gather_launches each x (y :: ys) w

/-- One activity is asked for at once. -/
theorem executeSingleActivity_asks {F : Footprint Chan} (ordinary : Ordinary env F)
    (input : NodeActivityInput) (node : String) (w : Execution Chan) :
    Launches (Writes env F) .resumeEvent (executeSingleActivity input node) w
      [.executeActivity node input (w.self.activityCall node)]
      (w.log (.dispatched input (w.self.activityCall node))) := by
  refine ⟨by simp, _, rfl, fun i r u => ?_⟩
  have steps := (executeSingleActivity_built ordinary input node).steps w
  exact steps.2.2 i r u

theorem executeSingleActivity_launches (env : Env Chan) (input : NodeActivityInput) (node : String)
    (w : Execution Chan) :
    Launches Grows .resumeEvent (executeSingleActivity input node) w
      [.executeActivity node input (w.self.activityCall node)]
      (w.log (.dispatched input (w.self.activityCall node))) :=
  (executeSingleActivity_asks (streaming_entire env).toOrdinary input node w).weaken
    fun _ _ writes => writes.grows

/-- The activity input of one Send, from the state `_execute_push_tasks` finds. -/
def sendInput (env : Env Chan) (w : Execution Chan) (send : SendRequest) : NodeActivityInput :=
  pushInput w.self.graphRef (getChannelValues env.lg w.self.channels) send

/-- **Every Send becomes one activity, in order.** -/
theorem executePushTasks_launches (env : Env Chan) (send : SendRequest) (sends : List SendRequest)
    (w : Execution Chan) :
    ∃ t, Launches Grows .resumeEvent (executePushTasks env (send :: sends)) w
      ((send :: sends).map fun send =>
        .executeActivity send.node (sendInput env w send) (w.self.activityCall send.node)) t := by
  have launches := awaitAll_launches
    (fun send v => executeSingleActivity_launches env (sendInput env w send) send.node v) send sends w
  rw [firstRequests_eq_flatMap, ← List.map_eq_flatMap] at launches
  · exact ⟨_, launches⟩
  · intro other this v
    rfl

end LanggraphTemporal.Machine
