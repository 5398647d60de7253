/-
# Machine.Trees -- the workflows of one tree

A node bound to a compiled graph runs as a child workflow, with an id made of
its parent's.  `treeMachine` is the server's view of one root workflow: its list
of workflow executions, the latest first, each of which handles signals, gets
answers, continues as new, or starts a child.  What a child reports is what its
parent is answered.

Only the id and the input of a child come from its parent (`subgraphCall`).  So
every workflow of the tree other than the root has a longer id than the root and
an input that no caller has configured (`Descends`).
-/
import LanggraphTemporal.Machine.Waits

namespace LanggraphTemporal.Machine

set_option autoImplicit false

open Theory Theory.System Theory.History Model Model.LangGraphWorkflow

variable {Chan : Type} {threshold : Option Nat}

/-! ## One workflow -/

/-- The history of the runs that have continued as new, and the setting of the
run that follows them; each of them meets `P`, which is told the histories of
those before it and its own. -/
inductive ContinuedWith (threshold : Option Nat) (P : Setting Chan → List Event → List Event → Prop)
    (first : Setting Chan) : List Event → Setting Chan → Prop
  | start : ContinuedWith threshold P first [] first
  | next {S S' : Setting Chan} {h : List Event} {uuids : Nat → String} {arrived : List Signal}
      {script rest : List (Action Response Signal)} {w : Execution Chan}
      (before : ContinuedWith threshold P first h S)
      (continued : replayExecution S threshold uuids arrived script =
        .done (.continueAsNew S'.input) rest w)
      (named : S'.env.workflowId = S.env.workflowId)
      (meets : P S h w.history) :
      ContinuedWith threshold P first (h ++ w.history) S'

/-- Runs that need not meet anything. -/
abbrev Continued (threshold : Option Nat) (first : Setting Chan) : List Event → Setting Chan → Prop :=
  ContinuedWith threshold (fun _ _ _ => True) first

/-- What holds of every entry of every run of a chain, after those of the runs
before it, holds of every entry of the chain. -/
theorem ContinuedWith.guarded {P : Setting Chan → List Event → List Event → Prop} {first S : Setting Chan}
    {h : List Event} {Q : List Event → Event → Prop} (runs : ContinuedWith threshold P first h S)
    (each : ∀ {S h} uuids arrived script, ContinuedWith threshold P first h S →
      P S h (executionHistory S threshold uuids arrived script) →
        Guarded (fun a e => Q (h ++ a) e) (executionHistory S threshold uuids arrived script)) :
    Guarded Q h := by
  induction runs with
  | start => exact guarded_nil
  | @next S S' h uuids arrived script rest w before continued named meets ih =>
      obtain ⟨history, -⟩ := continued_ends continued
      rw [← history] at meets ⊢
      exact guarded_append.mpr ⟨ih, each uuids arrived script before meets⟩

/-- A workflow execution: the runs it has been through, and what has happened to
the one that is going on. -/
structure Workflow (threshold : Option Nat) (Chan : Type) where
  first : Setting Chan
  earlier : List Event
  current : Setting Chan
  uuids : Nat → String
  arrived : List Signal
  script : List (Action Response Signal)
  continued : Continued threshold first earlier current

namespace Workflow

def workflowId (wf : Workflow threshold Chan) : String := wf.first.env.workflowId

def named (workflowId : String) (wf : Workflow threshold Chan) : Bool := wf.workflowId = workflowId

/-- What its current run has come to. -/
def outcome (wf : Workflow threshold Chan) : RunOutcome Chan :=
  replayExecution wf.current threshold wf.uuids wf.arrived wf.script

/-- The history of all its runs. -/
def history (wf : Workflow threshold Chan) : List Event := wf.earlier ++ historyOf wf.outcome

/-- What it waits for. -/
def requests (wf : Workflow threshold Chan) : List Request :=
  match wf.outcome with
  | .blocked qs _ _ => qs
  | _ => []

theorem accepted_of_stopped {wf : Workflow threshold Chan} (stopped : (stoppedAt wf.outcome).isSome = true) :
    wf.outcome ≠ .refused := by
  intro refused
  rw [refused] at stopped
  cases stopped

theorem blocked_of_request {wf : Workflow threshold Chan} {q : Request} (mem : q ∈ wf.requests) :
    ∃ k w, wf.outcome = .blocked wf.requests k w := by
  unfold requests at mem ⊢
  cases outcome : wf.outcome with
  | blocked qs k w => exact ⟨k, w, rfl⟩
  | _ =>
      rw [outcome] at mem
      cases mem

def waits (wf : Workflow threshold Chan) : Bool :=
  match wf.outcome with
  | .blocked _ _ _ => true
  | _ => false

/-- Its run has returned a result, or raised. -/
def isOver (wf : Workflow threshold Chan) : Bool :=
  match wf.outcome with
  | .done (.output _) _ _ => true
  | .failed _ _ => true
  | _ => false

/-- It is closed: completed, or failed by a `FailureError`. -/
def closed (wf : Workflow threshold Chan) : Bool :=
  match wf.outcome with
  | .done (.output _) _ _ => true
  | .failed e _ => e.isFailureError
  | _ => false

/-- Its run has raised another exception. That fails the workflow task, which
Temporal retries, and which raises again; the workflow stays open. -/
def taskFails (wf : Workflow threshold Chan) : Bool :=
  match wf.outcome with
  | .failed e _ => !e.isFailureError
  | _ => false

theorem isOver_of_closed {wf : Workflow threshold Chan} (shut : wf.closed = true) : wf.isOver = true := by
  unfold closed at shut
  unfold isOver
  cases outcome : wf.outcome with
  | done result rest w =>
      rw [outcome] at shut
      cases result with
      | output o => rfl
      | continueAsNew next => cases shut
  | failed e w => rfl
  | _ =>
      rw [outcome] at shut
      cases shut

/-- A workflow that begins, up to its first wait. -/
def begin (S : Setting Chan) (uuids : Nat → String) (arrived : List Signal) : Workflow threshold Chan where
  first := S
  earlier := []
  current := S
  uuids := uuids
  arrived := arrived
  script := []
  continued := .start

/-- One more thing happens to it. -/
def act (wf : Workflow threshold Chan) (action : Action Response Signal) : Workflow threshold Chan :=
  { wf with script := wf.script ++ [action] }

/-- It continues as new. -/
def continueAsNew (wf : Workflow threshold Chan) {S : Setting Chan}
    {rest : List (Action Response Signal)} {w : Execution Chan}
    (ended : wf.outcome = .done (.continueAsNew S.input) rest w)
    (named : S.env.workflowId = wf.current.env.workflowId) (uuids : Nat → String)
    (arrived : List Signal) : Workflow threshold Chan where
  first := wf.first
  earlier := wf.earlier ++ w.history
  current := S
  uuids := uuids
  arrived := arrived
  script := []
  continued := .next wf.continued ended named trivial

theorem continued_chained {S first last : Setting Chan} {h b : List Event} {outcome : RunOutcome Chan}
    (continued : Continued threshold first h S) (chained : Chained threshold S b last outcome) :
    Chained threshold first (h ++ b) last outcome := by
  induction continued generalizing b with
  | start => exact chained
  | next before ended named _ ih =>
      rw [List.append_assoc]
      exact ih (.next ended chained)

theorem chained (wf : Workflow threshold Chan) :
    Chained threshold wf.first wf.history wf.current wf.outcome :=
  continued_chained wf.continued (.run wf.current wf.uuids wf.arrived wf.script)

theorem current_id (wf : Workflow threshold Chan) : wf.current.env.workflowId = wf.workflowId := by
  obtain ⟨first, earlier, current, uuids, arrived, script, continued⟩ := wf
  show current.env.workflowId = first.env.workflowId
  induction continued with
  | start => rfl
  | next before ended named _ ih => exact named.trans ih

end Workflow

/-! ## The tree -/

/-- What a closed workflow answers to its parent. -/
inductive Reports : RunOutcome Chan → Response → Prop
  | output (o : WorkflowOutput) (rest : List (Action Response Signal)) (w : Execution Chan) :
      Reports (.done (.output o) rest w) (.childOutput o)
  | failure (e : RunError) (w : Execution Chan) (message : String) (fails : e.isFailureError = true) :
      Reports (.failed e w) (.childError message)

/-- `call` is the call of a subgraph node that the workflow waits for. -/
def AwaitsChild (wf : Workflow threshold Chan) (call : ChildCall) : Prop :=
  .executeChildWorkflow call ∈ wf.requests ∧ ∃ node, .subgraphStarted node call ∈ historyOf wf.outcome

/-- What may happen to a workflow that waits: the answer to a subgraph node is
what the child has come to. -/
def Allowed (tree : List (Workflow threshold Chan)) (wf : Workflow threshold Chan) :
    Action Response Signal → Prop
  | .signals _ => True
  | .answer i r => ∀ call node, wf.requests[i]? = some (.executeChildWorkflow call) →
      .subgraphStarted node call ∈ historyOf wf.outcome →
        ∃ child ∈ tree, child.workflowId = call.id ∧ child.first.input = call.input ∧
          Reports child.outcome r

/-- The steps of the workflows of one tree, in any order. -/
inductive TreeStep : List (Workflow threshold Chan) → List (Workflow threshold Chan) → Prop
  | act {front back : List (Workflow threshold Chan)} {wf : Workflow threshold Chan}
      (action : Action Response Signal) (waits : wf.waits = true)
      (allowed : Allowed (front ++ wf :: back) wf action)
      (accepted : (wf.act action).outcome ≠ .refused) :
      TreeStep (front ++ wf :: back) (front ++ wf.act action :: back)
  | continueAsNew {front back : List (Workflow threshold Chan)} {wf : Workflow threshold Chan}
      {S : Setting Chan} {rest : List (Action Response Signal)} {w : Execution Chan}
      (ended : wf.outcome = .done (.continueAsNew S.input) rest w)
      (named : S.env.workflowId = wf.current.env.workflowId) (uuids : Nat → String)
      (arrived : List Signal) :
      TreeStep (front ++ wf :: back) (front ++ wf.continueAsNew ended named uuids arrived :: back)
  /-- The id of a workflow is free once it is closed. -/
  | child {tree : List (Workflow threshold Chan)} {parent : Workflow threshold Chan} {call : ChildCall}
      {S : Setting Chan} (member : parent ∈ tree) (awaits : AwaitsChild parent call)
      (input : S.input = call.input) (named : S.env.workflowId = call.id)
      (free : ∀ wf ∈ tree, wf.workflowId = call.id → wf.closed = true) (uuids : Nat → String)
      (arrived : List Signal) : TreeStep tree (.begin S uuids arrived :: tree)

/-- The workflows that come of one root. -/
def treeMachine (threshold : Option Nat) (root : Setting Chan) :
    Machine (List (Workflow threshold Chan)) where
  Init tree := ∃ uuids arrived, tree = [.begin root uuids arrived]
  Step := TreeStep

/-- An answer that is not a child's. -/
theorem act_reachable {root : Setting Chan} {front back : List (Workflow threshold Chan)}
    {wf : Workflow threshold Chan} {i : Nat} {r : Response}
    (before : (treeMachine threshold root).Reachable (front ++ wf :: back)) (waits : wf.waits = true)
    (other : ∀ call, wf.requests[i]? ≠ some (.executeChildWorkflow call))
    (stopped : (stoppedAt (wf.act (.answer i r)).outcome).isSome = true) :
    (treeMachine threshold root).Reachable (front ++ wf.act (.answer i r) :: back) := by
  refine .step before (.act _ waits ?_ (Workflow.accepted_of_stopped stopped))
  exact fun call node child => absurd child (other call)

/-! ## Children -/

/-- What a subgraph node starts: a child with an input of its own, under the id
of its parent. -/
def StartsChild (S : Setting Chan) (_ : List Event) (e : Event) : Prop :=
  ∀ node call, e = .subgraphStarted node call →
    ∃ task subRef values, call = subgraphCall S.env task subRef values

theorem executionHistory_startsChild (S : Setting Chan) (threshold : Option Nat) (uuids : Nat → String)
    (arrived : List Signal) (script : List (Action Response Signal)) :
    Guarded (StartsChild S) (executionHistory S threshold uuids arrived script) := by
  refine executionHistory_guarded ?_ ?_ ?_ threshold uuids arrived script
  · rintro a e early node call rfl
    cases early
  · rintro h ph self self' e reachable works node call rfl
    cases works with
    | subgraph => exact ⟨_, _, _, rfl⟩
  · rintro h ph ph' self self' e reachable moves node call rfl
    cases moves

theorem AwaitsChild.call_eq {wf : Workflow threshold Chan} {call : ChildCall}
    (awaits : AwaitsChild wf call) :
    ∃ task subRef values, call = subgraphCall wf.current.env task subRef values := by
  obtain ⟨-, node, mem⟩ := awaits
  obtain ⟨a, starts⟩ := (executionHistory_startsChild wf.current threshold wf.uuids wf.arrived
    wf.script).of_mem mem
  exact starts node call rfl

/-- The setting is that of a workflow started for a subgraph node below the
root: no caller has configured it. -/
structure Descends (root first : Setting Chan) : Prop where
  input : ∃ (env : Env Chan) (task : PregelTask) (subRef : String) (values : Dict PyVal),
    first.input = (subgraphCall env task subRef values).input
  longer : root.env.workflowId.length < first.env.workflowId.length

theorem Descends.ne_root {root first : Setting Chan} (descends : Descends root first) :
    first.env.workflowId ≠ root.env.workflowId := by
  intro same
  have longer := descends.longer
  rw [same] at longer
  exact Nat.lt_irrefl _ longer

/-- A workflow goes on in place. -/
theorem forall_replaced {front back : List (Workflow threshold Chan)} {wf wf' : Workflow threshold Chan}
    {P : Setting Chan → Prop} (held : ∀ x ∈ front ++ wf :: back, P x.first)
    (same : wf'.first = wf.first) : ∀ x ∈ front ++ wf' :: back, P x.first := by
  intro x mem
  rcases List.mem_append.mp mem with inFront | rest
  · exact held x (List.mem_append_left _ inFront)
  rcases List.mem_cons.mp rest with rfl | inBack
  · rw [same]
    exact held wf (by simp)
  · exact held x (List.mem_append_right _ (List.mem_cons_of_mem _ inBack))

/-- What a child of the tree is started with. -/
theorem AwaitsChild.descends {root S : Setting Chan} {parent : Workflow threshold Chan} {call : ChildCall}
    (awaits : AwaitsChild parent call) (member : parent.first = root ∨ Descends root parent.first)
    (input : S.input = call.input) (named : S.env.workflowId = call.id) : Descends root S := by
  obtain ⟨task, subRef, values, same⟩ := awaits.call_eq
  have below : root.env.workflowId.length ≤ parent.workflowId.length := by
    rcases member with here | descends
    · exact (congrArg (fun S => S.env.workflowId.length) here).ge
    · exact descends.longer.le
  have longer : parent.workflowId.length < call.id.length := by
    rw [same, ← parent.current_id]
    simp only [subgraphCall, String.length_append]
    have slash : "/".length = 1 := rfl
    omega
  refine ⟨⟨_, task, subRef, values, by rw [← same]; exact input⟩, ?_⟩
  rw [named]
  omega

/-- Every workflow of the tree is the root, or was started for a subgraph node. -/
theorem members_invariant (root : Setting Chan) : (treeMachine threshold root).Invariant fun tree =>
    ∀ wf ∈ tree, wf.first = root ∨ Descends root wf.first where
  init tree initial wf mem := by
    obtain ⟨uuids, arrived, rfl⟩ := initial
    rw [List.mem_singleton.mp mem]
    exact .inl rfl
  step tree tree' _ held step := by
    cases step with
    | act action => exact forall_replaced (P := fun first => first = root ∨ Descends root first) held rfl
    | continueAsNew ended named uuids arrived =>
        exact forall_replaced (P := fun first => first = root ∨ Descends root first) held rfl
    | @child _ parent _ _ member awaits input named =>
        intro wf mem
        rcases List.mem_cons.mp mem with rfl | old
        · exact .inr (awaits.descends (held parent member) input named)
        · exact held wf old

/-- There is one workflow under the id of the root. -/
theorem root_once (root : Setting Chan) : (treeMachine threshold root).Invariant fun tree =>
    tree.countP (Workflow.named root.env.workflowId) = 1 where
  init tree initial := by
    obtain ⟨uuids, arrived, rfl⟩ := initial
    simp [Workflow.named, Workflow.workflowId, Workflow.begin]
  step tree tree' reachable held step := by
    cases step with
    | act action =>
        rw [List.countP_append, List.countP_cons] at held ⊢
        exact held
    | continueAsNew ended named uuids arrived =>
        rw [List.countP_append, List.countP_cons] at held ⊢
        exact held
    | @child _ parent _ _ member awaits input named =>
        have descends := awaits.descends ((members_invariant root).holds reachable parent member) input named
        rw [List.countP_cons_of_neg]
        · exact held
        · exact fun same => descends.ne_root (of_decide_eq_true same)

/-! ## The client -/

/-- What `TemporalGraph.get_state` returns. -/
structure StateView where
  values : Dict PyVal
  step : Nat
  status : Status
  interrupts : List PendingInterrupt

def StateView.of (result : StateQueryResult) : StateView where
  values := result.channelValues
  step := result.step
  status := result.status
  interrupts := result.interrupts

/-- The query of a workflow. -/
def Workflow.query (wf : Workflow threshold Chan) : Option StateQueryResult :=
  (stoppedAt wf.outcome).map fun w => getCurrentState wf.current.env.lg w.self

/-- The resume signal to the workflow of an id; one that is closed gets none. -/
def Workflow.signalled (workflowId : String) (value : PyVal) (wf : Workflow threshold Chan) :
    Workflow threshold Chan :=
  if wf.named workflowId && wf.waits then wf.act (.signals [.resume value]) else wf

/-- `client.get_workflow_handle`: the latest workflow of the id. -/
def getWorkflowHandle (tree : List (Workflow threshold Chan)) (workflowId : String) :
    Option (Workflow threshold Chan) :=
  tree.find? (Workflow.named workflowId)

/-- `TemporalGraph.get_state` -/
def getState (tree : List (Workflow threshold Chan)) (threadId : String) : Option StateView := do
  let handle ← getWorkflowHandle tree threadId
  let result ← handle.query
  return .of result

/-- `TemporalGraph.resume` -/
def resume (tree : List (Workflow threshold Chan)) (threadId : String) (value : PyVal) :
    List (Workflow threshold Chan) :=
  tree.map (Workflow.signalled threadId value)

theorem Workflow.signalled_other {workflowId : String} {value : PyVal} {wf : Workflow threshold Chan}
    (other : ¬wf.named workflowId = true) : wf.signalled workflowId value = wf := by
  unfold signalled
  rw [Bool.eq_false_iff.mpr other]
  rfl

theorem Workflow.signalled_named {workflowId : String} {value : PyVal} {wf : Workflow threshold Chan}
    (here : wf.named workflowId = true) (waits : wf.waits = true) :
    wf.signalled workflowId value = wf.act (.signals [.resume value]) := by
  unfold signalled
  rw [here, waits]
  rfl

/-- A signal can always be sent to a workflow that waits. -/
theorem Workflow.signals_accepted {wf : Workflow threshold Chan} (idle : wf.waits = true)
    (signals : List Signal) : (wf.act (.signals signals)).outcome ≠ .refused := by
  unfold waits at idle
  cases outcome : wf.outcome with
  | blocked qs k w =>
      have next : (wf.act (.signals signals)).outcome =
          (workflowSystem wf.current.env).replay (.await qs k) [.signals signals] w :=
        execution_append outcome _
      rw [next]
      exact replay_accepted _ _ _ rfl
  | _ =>
      rw [outcome] at idle
      cases idle

/-- What holds once in a list holds nowhere else. -/
theorem others_of_once {α : Type} {p : α → Bool} {front back : List α} {x : α}
    (once : (front ++ x :: back).countP p = 1) (holds : p x = true) :
    (∀ y ∈ front, ¬p y = true) ∧ ∀ y ∈ back, ¬p y = true := by
  rw [List.countP_append, List.countP_cons_of_pos holds] at once
  exact ⟨List.countP_eq_zero.mp (by omega), List.countP_eq_zero.mp (by omega)⟩

section Root

variable {root : Setting Chan} {tree : List (Workflow threshold Chan)} {wf : Workflow threshold Chan}

/-- The handle of the root's id is the root. -/
theorem handle_root (reachable : (treeMachine threshold root).Reachable tree) (member : wf ∈ tree)
    (here : wf.named root.env.workflowId = true) :
    getWorkflowHandle tree root.env.workflowId = some wf := by
  have once := (root_once root).holds reachable
  obtain ⟨front, back, rfl⟩ := List.append_of_mem member
  obtain ⟨before, -⟩ := others_of_once once here
  unfold getWorkflowHandle
  rw [List.find?_append, List.find?_eq_none.mpr before, List.find?_cons_of_pos here]
  rfl

theorem map_signalled_others {workflowId : String} {value : PyVal}
    (others : ∀ x ∈ tree, ¬x.named workflowId = true) : tree.map (Workflow.signalled workflowId value) = tree := by
  rw [List.map_congr_left fun x mem => Workflow.signalled_other (others x mem), List.map_id']

/-- A resume signal to the root is a step of the tree. -/
theorem resume_reachable (reachable : (treeMachine threshold root).Reachable tree) (member : wf ∈ tree)
    (here : wf.named root.env.workflowId = true) (waits : wf.waits = true) (value : PyVal) :
    (treeMachine threshold root).Reachable (resume tree root.env.workflowId value) := by
  have once := (root_once root).holds reachable
  obtain ⟨front, back, rfl⟩ := List.append_of_mem member
  obtain ⟨before, after⟩ := others_of_once once here
  unfold resume
  rw [List.map_append, List.map_cons, map_signalled_others before, map_signalled_others after,
    Workflow.signalled_named here waits]
  exact .step reachable (.act _ waits trivial (Workflow.signals_accepted waits _))

end Root

end LanggraphTemporal.Machine
