/-
# Properties.NestedAffinity -- worker affinity in nested graphs

`_execute_subgraph_as_child_workflow` gives the child an input of its own: no
sticky queue, no `use_worker_affinity`, no queues for nodes.  So a child never
searches for a worker, and sends every node activity to the shared queue of the
workflows (`shared_of_chain`), where with worker affinity nobody executes nodes.

In a tree whose root has worker affinity, the activities of the root are on its
own queues, and those of every other workflow are not.
-/
import LanggraphTemporal.Machine.Trees
import LanggraphTemporal.Properties.StickyQueue

namespace LanggraphTemporal.Properties

set_option autoImplicit false

open Theory Theory.System Theory.History Model Model.LangGraphWorkflow Machine

variable {Chan : Type} {S last root : Setting Chan} {threshold : Option Nat} {h : List Event}
  {outcome : RunOutcome Chan} {tree : List (Workflow threshold Chan)}

/-- The activity is sent to the sticky queue of the root, or to one that some
workflow of the tree has discovered. -/
def OnTreeQueue (root : Setting Chan) (tree : List (Workflow threshold Chan)) (call : ActivityCall) : Prop :=
  ∃ queue, call.taskQueue = some queue ∧
    (root.input.stickyTaskQueue = some queue ∨ ∃ wf ∈ tree, .discovered queue ∈ wf.history)

/-- Every node activity of the tree is sent to one of these queues. -/
def KeepsAffinity (root : Setting Chan) (tree : List (Workflow threshold Chan)) : Prop :=
  ∀ wf ∈ tree, ∀ input call, .dispatched input call ∈ wf.history → OnTreeQueue root tree call

/-- No workflow of the tree other than the root executes a node activity. -/
def RootExecutes (root : Setting Chan) (tree : List (Workflow threshold Chan)) : Prop :=
  ∀ wf ∈ tree, ∀ input call, .dispatched input call ∈ wf.history →
    wf.workflowId = root.env.workflowId

/-! ## Workflows that nobody has routed -/

/-- Nothing says where the activities of the workflow go. -/
structure Unrouted (input : WorkflowInput) : Prop where
  sticky : input.stickyTaskQueue = none
  affinity : input.useWorkerAffinity = false
  taskQueues : input.nodeTaskQueues = none

theorem unrouted_of_descends (descends : Descends root S) : Unrouted S.input := by
  obtain ⟨env, task, subRef, values, input⟩ := descends.input
  rw [input]
  exact ⟨rfl, rfl, rfl⟩

/-- Such a workflow searches for no worker. -/
def Unsearched (_ : List Event) (e : Event) : Prop := e ≠ .discovering

theorem unsearched_of_run (unrouted : Unrouted S.input) (threshold : Option Nat) (uuids : Nat → String)
    (arrived : List Signal) (script : List (Action Response Signal)) :
    Guarded Unsearched (executionHistory S threshold uuids arrived script) := by
  have unset : S.input.useWorkerAffinity ≠ true := by
    rw [unrouted.affinity]
    nofun
  refine executionHistory_guarded_of_early ?_ ?_ ?_ threshold uuids arrived script
  · exact fun h early => early.searches.mono fun a e needed searching => unset (needed searching).1
  · rintro h ph self self' e reachable works rfl
    have configured := configured_invariant.holds reachable
    cases works with
    | discover executes affinity => exact unset (configured.affinity.symm.trans affinity)
  · rintro h ph ph' self self' e reachable moves rfl
    cases moves

/-- An activity goes to the queue found last, and to no queue of its own if none
was found. -/
def OnFound (a : List Event) (e : Event) : Prop :=
  ∀ input call, e = .dispatched input call →
    call.taskQueue = if truthy (lastQueue none a) then lastQueue none a else none

theorem onFound_of_run (unrouted : Unrouted S.input) (threshold : Option Nat) (uuids : Nat → String)
    (arrived : List Signal) (script : List (Action Response Signal)) :
    Guarded OnFound (executionHistory S threshold uuids arrived script) := by
  refine executionHistory_guarded ?_ ?_ ?_ threshold uuids arrived script
  · rintro a e early input call rfl
    cases early
  · rintro h ph self self' e reachable works input call rfl
    have configured := configured_invariant.holds reachable
    cases works with
    | dispatch admitted foundAll =>
        have sticks := sticks_invariant.holds reachable foundAll
        rw [unrouted.sticky] at sticks
        have queues : self.nodeTaskQueues.get? input.nodeName = none := by
          rw [configured.taskQueues, unrouted.taskQueues]
          rfl
        show self.taskQueueForNode input.nodeName = _
        unfold taskQueueForNode
        rw [queues, ← sticks]
  · rintro h ph ph' self self' e reachable moves input call rfl
    cases moves

/-- Every activity goes to the queue of the workflows. -/
structure Shared (h : List Event) : Prop where
  unfound : ∀ e ∈ h, isFind e = false
  shared : ∀ input call, .dispatched input call ∈ h → call.taskQueue = none

theorem lastQueue_of_unfound {configured : Option String} (unfound : ∀ e ∈ h, isFind e = false) :
    lastQueue configured h = configured := by
  refine lastQueue_of_quiet fun e mem queue found => ?_
  have here := unfound e mem
  rw [found] at here
  cases here

theorem shared_of_run (unrouted : Unrouted S.input) (uuids : Nat → String) (arrived : List Signal)
    (script : List (Action Response Signal)) :
    Shared (executionHistory S threshold uuids arrived script) := by
  have unsearched := unsearched_of_run unrouted threshold uuids arrived script
  have pairs := executionHistory_paired S threshold uuids arrived script _ List.prefix_rfl
  have unfound : ∀ e ∈ executionHistory S threshold uuids arrived script, isFind e = false := by
    have searches : (executionHistory S threshold uuids arrived script).countP isSearch = 0 := by
      refine List.countP_eq_zero.mpr fun e mem searches => ?_
      obtain ⟨a, quiet⟩ := unsearched.of_mem mem
      cases e with
      | discovering => exact quiet rfl
      | _ => cases searches
    rw [searches] at pairs
    intro e mem
    simpa using List.countP_eq_zero.mp (Nat.le_zero.mp pairs) e mem
  refine ⟨unfound, fun input call mem => ?_⟩
  obtain ⟨a, c, split⟩ := List.append_of_mem mem
  have queue := onFound_of_run unrouted threshold uuids arrived script a _ c split input call rfl
  rw [lastQueue_of_unfound fun e front => unfound e (by rw [split]; exact List.mem_append_left _ front)] at queue
  exact queue

/-- **A workflow that nobody has routed sends every activity to the shared
queue**, in all its runs. -/
theorem shared_of_chain (unrouted : Unrouted S.input) (chained : Chained threshold S h last outcome) :
    Shared h := by
  refine chained.history_holds (P := fun S h => Unrouted S.input → Shared h) ?_ ?_ unrouted
  · exact fun S uuids arrived script unrouted => shared_of_run unrouted uuids arrived script
  · intro S S' w h ends here later unrouted
    have front := here unrouted
    obtain ⟨found, handed, sticky, -⟩ := ends.handover
    have next : Unrouted S'.input := by
      refine ⟨?_, handed.trans unrouted.affinity, ?_⟩
      · rw [sticky, lastQueue_of_unfound front.unfound]
        exact unrouted.sticky
      · obtain ⟨n, -, same⟩ := ends
        rw [same]
        exact unrouted.taskQueues
    have back := later next
    refine ⟨fun e mem => ?_, fun input call mem => ?_⟩
    · exact (List.mem_append.mp mem).elim (front.unfound e) (back.unfound e)
    · exact (List.mem_append.mp mem).elim (front.shared input call) (back.shared input call)

/-! ## The tree -/

theorem found_of_lastQueue {configured : Option String} {queue : String}
    (found : lastQueue configured h = some queue) : configured = some queue ∨ .discovered queue ∈ h := by
  induction h using List.reverseRecOn with
  | nil => exact .inl found
  | append_singleton h e ih =>
      by_cases finds : ∃ other, e = .discovered other
      · obtain ⟨other, rfl⟩ := finds
        rw [lastQueue_discovered] at found
        cases found
        exact .inr (by simp)
      · rw [lastQueue_snoc fun other same => finds ⟨other, same⟩] at found
        exact (ih found).imp_right fun mem => List.mem_append_left _ mem

/-- The root sends its activities to its own queues. -/
theorem onTreeQueue_of_root {wf : Workflow threshold Chan} (affinity : root.input.useWorkerAffinity = true)
    (member : wf ∈ tree) (first : wf.first = root) {input : NodeActivityInput} {call : ActivityCall}
    (mem : .dispatched input call ∈ wf.history) : OnTreeQueue root tree call := by
  rw [← first] at affinity
  obtain ⟨a, c, split⟩ := List.append_of_mem mem
  obtain ⟨-, last, queue, -, named⟩ := onSticky_of_chain affinity wf.chained a _ c split input call rfl
  refine ⟨queue, named, ?_⟩
  rw [named, first] at last
  refine (found_of_lastQueue last.symm).imp_right fun found => ⟨wf, member, ?_⟩
  rw [split]
  exact List.mem_append_left _ found

/-- No other workflow of the tree does. -/
theorem not_onTreeQueue_of_descends {wf : Workflow threshold Chan} (descends : Descends root wf.first)
    {input : NodeActivityInput} {call : ActivityCall} (mem : .dispatched input call ∈ wf.history) :
    ¬OnTreeQueue root tree call := by
  rintro ⟨queue, named, -⟩
  rw [(shared_of_chain (unrouted_of_descends descends) wf.chained).shared input call mem] at named
  cases named

/-- **The activities of the tree are on the queues of the tree exactly when only
the root executes node activities.** -/
theorem keepsAffinity_iff (affinity : root.input.useWorkerAffinity = true)
    (reachable : (treeMachine threshold root).Reachable tree) :
    KeepsAffinity root tree ↔ RootExecutes root tree := by
  have members := (members_invariant root).holds reachable
  constructor
  · intro onTree wf member input call mem
    rcases members wf member with first | descends
    · exact congrArg (fun S => S.env.workflowId) first
    · exact absurd (onTree wf member input call mem) (not_onTreeQueue_of_descends descends mem)
  · intro rootOnly wf member input call mem
    rcases members wf member with first | descends
    · exact onTreeQueue_of_root affinity member first mem
    · exact absurd (rootOnly wf member input call mem) descends.ne_root

section Runs

open Reference

/-- A workflow whose worker has been found. -/
def found (S : Setting Channel) : Workflow none Channel := (launched S).act (.answer 0 (.queue "gpu"))

theorem found_reachable {S : Setting Channel} (waits : (launched S).waits = true)
    (asks : (launched S).requests[0]? = some .getAvailableTaskQueue)
    (stopped : (stoppedAt (found S).outcome).isSome = true) : (treeMachine none S).Reachable [found S] := by
  have start : (treeMachine none S).Reachable ([] ++ [launched S]) := .init ⟨_, _, rfl⟩
  have other (call : ChildCall) : (launched S).requests[0]? ≠ some (.executeChildWorkflow call) := by
    rw [asks]
    intro same
    cases same
  exact act_reachable start waits other stopped

/-- The root waits for its child, and the child for its node. -/
def nestedTree : List (Workflow none Channel) := [launched innerSetting, found (outerSetting true)]

theorem nestedTree_reachable : (treeMachine none (outerSetting true)).Reachable nestedTree :=
  inner_reachable (found_reachable rfl rfl rfl) rfl (List.mem_of_getElem? (i := 3) rfl) (by decide)

/-- An inner graph whose node is not triggered by the input. -/
def idleInner : Pregel Channel := { graph [("ask", ["x"])] with name := "inner" }

def untriggered : Setting Channel where
  env := { innerSetting.env with registry := fun ref => if ref = "inner_" then some idleInner else none }
  graph := idleInner
  input := innerCall.input
  registered := rfl

/-- The root waits for its child, and the child has nothing to execute. -/
def idleTree : List (Workflow none Channel) := [launched untriggered, found (outerSetting true)]

theorem idleTree_reachable : (treeMachine none (outerSetting true)).Reachable idleTree :=
  child_reachable (found_reachable rfl rfl rfl) (List.mem_of_getElem? (i := 0) rfl)
    (List.mem_of_getElem? (i := 3) rfl) (by decide) rfl rfl

/-- Of two trees with a child, the one keeps its affinity whose child executes
nothing. -/
theorem keepsAffinity_nested : KeepsAffinity (outerSetting true) idleTree ∧
    (KeepsAffinity (outerSetting true) nestedTree ↔ RootExecutes (outerSetting true) nestedTree) := by
  refine ⟨(keepsAffinity_iff rfl idleTree_reachable).mpr ?_, keepsAffinity_iff rfl nestedTree_reachable⟩
  intro wf member input call mem
  rcases List.mem_cons.mp member with rfl | last
  · have none : (launched untriggered).history = [] := rfl
    rw [none] at mem
    cases mem
  · rw [List.mem_singleton.mp last]
    rfl

/-- **The node of a subgraph is sent to the shared queue**, although the root has
worker affinity. -/
theorem nested_activity_shared : (treeMachine none (outerSetting true)).Reachable nestedTree ∧
    ¬KeepsAffinity (outerSetting true) nestedTree := by
  refine ⟨nestedTree_reachable, fun onTree => ?_⟩
  have asks : ∃ input call, .dispatched input call ∈
      (launched innerSetting).history ∧ call.taskQueue = none := ⟨_, _, List.mem_of_getElem? (i := 1) rfl, rfl⟩
  obtain ⟨input, call, mem, shared⟩ := asks
  obtain ⟨queue, named, -⟩ := onTree _ List.mem_cons_self input call mem
  rw [shared] at named
  cases named

end Runs

end LanggraphTemporal.Properties
