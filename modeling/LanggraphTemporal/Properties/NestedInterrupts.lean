/-
# Properties.NestedInterrupts -- interrupts in nested graphs

A client knows the id of the root only.  `get_state` queries the workflow of
that id and `resume` signals it, and no workflow asks its children or passes a
signal on to them.  So an interrupt reaches the user exactly when it is the root
that waits (`reachesUser_iff`): a child that waits for a resume waits for ever,
and its parents with it.
-/
import LanggraphTemporal.Machine.Trees
import LanggraphTemporal.Machine.Reference

namespace LanggraphTemporal.Properties

set_option autoImplicit false

open Theory Theory.System Theory.History Model Model.LangGraphWorkflow Machine

variable {Chan : Type} {root : Setting Chan} {threshold : Option Nat}
  {tree : List (Workflow threshold Chan)} {wf wf' : Workflow threshold Chan}

/-- It is blocked in `_wait_for_resume`. -/
def WaitsForResume (wf : Workflow threshold Chan) : Prop := .resumeEvent ∈ wf.requests

/-- The workflow is in a pause for these interrupts. -/
def PausedFor (wf : Workflow threshold Chan) (entries : List PendingInterrupt) : Prop :=
  ∃ a, historyOf wf.outcome = a ++ .paused entries :: recent (historyOf wf.outcome)

/-- `wf'` is `wf` after it has been given a value and has left its pause. -/
def GoesOn (value : PyVal) (wf wf' : Workflow threshold Chan) : Prop :=
  ∃ values, value ∈ values ∧ wf.history ++ [.received (.resume value), .resumed values] <+: wf'.history

/-- The interrupt of `wf` reaches the user of a thread. -/
structure ReachesUser (tree : List (Workflow threshold Chan)) (threadId : String)
    (wf : Workflow threshold Chan) : Prop where
  reported : ∃ view, getState tree threadId = some view ∧ view.status = .interrupted ∧
    PausedFor wf view.interrupts
  resumed : ∀ value, GoesOn value wf (wf.signalled threadId value)

/-- The root reports its own pause. -/
theorem reported_of_root (reachable : (treeMachine threshold root).Reachable tree) (member : wf ∈ tree)
    (here : wf.named root.env.workflowId = true) (waits : WaitsForResume wf) :
    ∃ view, getState tree root.env.workflowId = some view ∧ view.status = .interrupted ∧
      PausedFor wf view.interrupts := by
  obtain ⟨k, w, blocked⟩ := Workflow.blocked_of_request waits
  obtain ⟨status, a, paused⟩ := reports_pause blocked waits
  have query : wf.query = some (getCurrentState wf.current.env.lg w.self) := by
    unfold Workflow.query
    rw [blocked]
    rfl
  refine ⟨.of (getCurrentState wf.current.env.lg w.self), ?_, status, a, ?_⟩
  · unfold getState
    rw [handle_root reachable member here]
    show wf.query.bind _ = _
    rw [query]
    rfl
  · rw [blocked]
    exact paused

/-- A resume signal to the workflow that waits makes it go on. -/
theorem goesOn_of_named {threadId : String} (here : wf.named threadId = true) (waits : WaitsForResume wf)
    (value : PyVal) : GoesOn value wf (wf.signalled threadId value) := by
  obtain ⟨k, w, blocked⟩ := Workflow.blocked_of_request waits
  have idle : wf.waits = true := by
    unfold Workflow.waits
    rw [blocked]
  obtain ⟨t, stopped, b, grown⟩ := resume_continues blocked waits value
  rw [Workflow.signalled_named here idle]
  refine ⟨w.self.resumeValues ++ [value], by simp, b, ?_⟩
  have next : historyOf (wf.act (.signals [.resume value])).outcome = t.history := by
    rw [historyOf_eq]
    exact congrArg (fun t => (t.map Execution.history).getD []) stopped
  unfold Workflow.history
  rw [next, ← grown, blocked]
  show (wf.earlier ++ w.history ++ _) ++ b = wf.earlier ++ (resumedBy value w ++ b)
  simp [resumedBy]

/-- A workflow that is not signalled does not go on. -/
theorem not_goesOn_self (value : PyVal) : ¬GoesOn value wf wf := by
  rintro ⟨values, -, longer⟩
  have lengths := longer.length_le
  rw [List.length_append, List.length_cons] at lengths
  omega

/-- **An interrupt reaches the user exactly when it is the root that waits.** -/
theorem reachesUser_iff (reachable : (treeMachine threshold root).Reachable tree) (member : wf ∈ tree)
    (waits : WaitsForResume wf) :
    ReachesUser tree root.env.workflowId wf ↔ wf.workflowId = root.env.workflowId := by
  constructor
  · intro reaches
    by_contra other
    have goesOn := reaches.resumed .none
    rw [Workflow.signalled_other fun here => other (of_decide_eq_true here)] at goesOn
    exact not_goesOn_self .none goesOn
  · intro same
    have here : wf.named root.env.workflowId = true := decide_eq_true same
    exact ⟨reported_of_root reachable member here waits, goesOn_of_named here waits⟩

section Runs

open Reference

/-- Its node has called `interrupt()`. -/
def asked (S : Setting Channel) : Workflow none Channel :=
  (launched S).act (.answer 0 (.output (asking "ok?" (pulled "ask" []))))

/-- The outer graph, with a pause after its node. -/
def pausingSetting : Setting Channel :=
  { outerSetting false with input := { (outerSetting false).input with interruptAfter := some .all } }

/-- The child has returned, and its parent waits for a resume. -/
def pausedOuter : Workflow none Channel :=
  (launched pausingSetting).act (.answer 0 (.childOutput ⟨Dict.ofList [("x", .int 1)], 1⟩))

theorem pausedOuter_reachable : (treeMachine none pausingSetting).Reachable [innerDone, pausedOuter] := by
  have start : (treeMachine none pausingSetting).Reachable [launched pausingSetting] := .init ⟨_, _, rfl⟩
  have child := inner_reachable start rfl (List.mem_of_getElem? (i := 1) rfl) (by decide)
  have inside : (treeMachine none pausingSetting).Reachable ([] ++ innerDone :: [launched pausingSetting]) :=
    act_reachable child rfl (fun call => nofun) rfl
  have waiting : (treeMachine none pausingSetting).Reachable ([innerDone] ++ launched pausingSetting :: []) :=
    inside
  refine .step waiting (.act _ rfl ?_ (Workflow.accepted_of_stopped rfl))
  intro call node asked started
  cases asked
  exact ⟨innerDone, List.mem_cons_self, rfl, rfl, .output _ _ _⟩

/-- The pause of a workflow that has had a child. -/
theorem reachesUser_pausedOuter : ReachesUser [innerDone, pausedOuter] "workflow" pausedOuter := by
  have waits : WaitsForResume pausedOuter := List.mem_of_getElem? (i := 0) rfl
  exact (reachesUser_iff pausedOuter_reachable (List.mem_cons_of_mem _ List.mem_cons_self) waits).mpr rfl

theorem asked_reachable {root S : Setting Channel} {back : List (Workflow none Channel)}
    (before : (treeMachine none root).Reachable (launched S :: back)) (waits : (launched S).waits = true)
    (asks : ((launched S).requests[0]?.any fun q => match q with | .executeActivity _ _ _ => true | _ => false) =
      true) (stopped : (stoppedAt (asked S).outcome).isSome = true) :
    (treeMachine none root).Reachable (asked S :: back) := by
  have start : (treeMachine none root).Reachable ([] ++ launched S :: back) := before
  have other (call : ChildCall) : (launched S).requests[0]? ≠ some (.executeChildWorkflow call) := by
    intro same
    rw [same] at asks
    cases asks
  exact act_reachable start waits other stopped

/-- The root waits for its child, and the child for a resume. -/
def askingTree : List (Workflow none Channel) := [asked innerSetting, launched (outerSetting false)]

theorem askingTree_reachable : (treeMachine none (outerSetting false)).Reachable askingTree := by
  have start : (treeMachine none (outerSetting false)).Reachable [launched (outerSetting false)] :=
    .init ⟨_, _, rfl⟩
  have child := inner_reachable start rfl (List.mem_of_getElem? (i := 1) rfl) (by decide)
  exact asked_reachable child rfl rfl rfl

/-- **The interrupt of a subgraph does not reach the user**: the root says that
it is running, and the child gets no signal. -/
theorem nested_interrupt_unseen : (treeMachine none (outerSetting false)).Reachable askingTree ∧
    (getState askingTree (outerSetting false).env.workflowId).map StateView.status = some .running ∧
      ¬∀ wf ∈ askingTree, WaitsForResume wf →
        ReachesUser askingTree (outerSetting false).env.workflowId wf := by
  refine ⟨askingTree_reachable, rfl, fun reach => ?_⟩
  have waits : WaitsForResume (asked innerSetting) := List.mem_of_getElem? (i := 0) rfl
  have goesOn := (reach _ List.mem_cons_self waits).resumed .none
  have apart : (asked innerSetting).named (outerSetting false).env.workflowId = false := rfl
  rw [Workflow.signalled_other (Bool.eq_false_iff.mp apart)] at goesOn
  exact not_goesOn_self .none goesOn

end Runs

end LanggraphTemporal.Properties
