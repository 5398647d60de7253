/-
# Properties.InterruptedAttempts -- an attempt that is interrupted

While a node runs, the activity collects what the node sends, streams and asks
of sub-agents; when the node raises `GraphInterrupt`, all of it is dropped, and
the output holds the interrupts and nothing else.  So what a node did before it
was interrupted is not in the output (`executeNodeImpl_upToInterrupt`), and a
workflow cannot tell two behaviours apart that differ in nothing else
(`interrupted_attempt_leaves_no_trace`).

`Ran` is a workflow together with the workers that execute its activities: an
attempt is given by the code of the nodes at that time, and the answer that the
workflow gets is what the activity makes of it.
-/
import LanggraphTemporal.Machine.Reference
import LanggraphTemporal.Model.Activities

namespace LanggraphTemporal.Properties

set_option autoImplicit false

open Theory Theory.System Model Machine

variable {Chan : Type} {threshold : Option Nat}

/-! ## Behaviours of nodes -/

/-- Two runs of a node that raise the same interrupts, or are the same. -/
inductive RunsUpToInterrupt : NodeRun → NodeRun → Prop
  | same (run : NodeRun) : RunsUpToInterrupt run run
  | interrupted {run run' : NodeRun} (interrupts : List InterruptData)
      (left : run.outcome = .interrupted interrupts)
      (right : run'.outcome = .interrupted interrupts) : RunsUpToInterrupt run run'

/-- The code of a node, given two behaviours that differ in nothing but what
they do before an interrupt. -/
structure CodesUpToInterrupt (code code' : NodeCode) : Prop where
  ainvoke : ∀ nodeInput inputState resume,
    RunsUpToInterrupt (code.ainvoke nodeInput inputState resume) (code'.ainvoke nodeInput inputState resume)
  writers : code.writers = code'.writers
  retryPolicy : code.retryPolicy = code'.retryPolicy

/-- What a worker has of the graph when it executes an activity. -/
structure Worker (Chan : Type) where
  untracked : Chan → Bool
  channels : Dict Chan
  code : GraphCode

structure WorkersUpToInterrupt (worker worker' : Worker Chan) : Prop where
  untracked : worker.untracked = worker'.untracked
  channels : worker.channels = worker'.channels
  nodes : ∀ name, Option.Rel CodesUpToInterrupt (worker.code.nodes name) (worker'.code.nodes name)
  retryPolicies : worker.code.retryPolicies = worker'.code.retryPolicies

/-- `_execute_node_impl` on a worker. -/
def Worker.execute (worker : Worker Chan) (input : NodeActivityInput) :
    Except NodeFailure NodeActivityOutput :=
  Activities.executeNodeImpl worker.untracked worker.channels worker.code input

/-- **What precedes an interrupt is not in the output.** -/
theorem executeNodeImpl_upToInterrupt {worker worker' : Worker Chan}
    (alike : WorkersUpToInterrupt worker worker') (input : NodeActivityInput) :
    worker.execute input = worker'.execute input := by
  obtain ⟨untracked, channels, nodes, policies⟩ := worker
  obtain ⟨untracked', channels', nodes', policies'⟩ := worker'
  obtain ⟨rfl, rfl, codes, rfl⟩ := alike
  show Activities.executeNodeImpl untracked channels ⟨nodes, policies⟩ input =
    Activities.executeNodeImpl untracked channels ⟨nodes', policies⟩ input
  unfold Activities.executeNodeImpl Activities.getNodeRetryPolicy
  dsimp only
  have found : Option.Rel CodesUpToInterrupt (nodes input.nodeName) (nodes' input.nodeName) :=
    codes input.nodeName
  generalize nodes input.nodeName = code at found ⊢
  generalize nodes' input.nodeName = code' at found ⊢
  cases found with
  | none => rfl
  | some same =>
      obtain ⟨ainvoke, writers, retryPolicy⟩ := same
      dsimp only
      rw [writers, retryPolicy]
      have runs := ainvoke (Activities.nodeInput input) input.inputState (input.resumeValues.getD [])
      generalize NodeCode.ainvoke _ _ _ _ = run at runs ⊢
      generalize NodeCode.ainvoke _ _ _ _ = run' at runs ⊢
      cases runs with
      | same => rfl
      | interrupted interrupts left right => rw [left, right]

/-! ## Workflows and their workers -/

/-- What happens to a workflow. -/
inductive Happening (Chan : Type) where
  | signals (gs : List Signal)
  /-- A worker executes the activity of the `i`-th request. -/
  | attempt (i : Nat) (worker : Worker Chan)
  /-- The `i`-th request is answered otherwise: by a queue, by a child, or by an
  activity that has failed for good. -/
  | answer (i : Nat) (r : Response)
  | nextRun (S : Setting Chan) (uuids : Nat → String) (arrived : List Signal)

/-- What becomes of a workflow. -/
inductive Happens : Workflow threshold Chan → Happening Chan → Workflow threshold Chan → Prop
  | signals {wf : Workflow threshold Chan} (gs : List Signal) (waits : wf.waits = true) :
      Happens wf (.signals gs) (wf.act (.signals gs))
  | completed {wf : Workflow threshold Chan} {i : Nat} {worker : Worker Chan} {name : String}
      {input : NodeActivityInput} {call : ActivityCall} {output : NodeActivityOutput}
      (asked : wf.requests[i]? = some (.executeActivity name input call))
      (executed : worker.execute input = .ok output) :
      Happens wf (.attempt i worker) (wf.act (.answer i (.output output)))
  /-- Temporal may attempt it again. -/
  | failed {wf : Workflow threshold Chan} {i : Nat} {worker : Worker Chan} {name : String}
      {input : NodeActivityInput} {call : ActivityCall} {failure : NodeFailure}
      (asked : wf.requests[i]? = some (.executeActivity name input call))
      (executed : worker.execute input = .error failure) : Happens wf (.attempt i worker) wf
  | answer {wf : Workflow threshold Chan} {i : Nat} {r : Response} (waits : wf.waits = true)
      (accepted : (wf.act (.answer i r)).outcome ≠ .refused) :
      Happens wf (.answer i r) (wf.act (.answer i r))
  | nextRun {wf : Workflow threshold Chan} {S : Setting Chan} {rest : List (Action Response Signal)}
      {w : Execution Chan} (ended : wf.outcome = .done (.continueAsNew S.input) rest w)
      (named : S.env.workflowId = wf.current.env.workflowId) (uuids : Nat → String)
      (arrived : List Signal) :
      Happens wf (.nextRun S uuids arrived) (wf.continueAsNew ended named uuids arrived)

/-- One thing after the other. -/
inductive Ran : Workflow threshold Chan → List (Happening Chan) → Workflow threshold Chan → Prop
  | nil (wf : Workflow threshold Chan) : Ran wf [] wf
  | cons {wf wf' wf'' : Workflow threshold Chan} {h : Happening Chan} {hs : List (Happening Chan)}
      (first : Happens wf h wf') (rest : Ran wf' hs wf'') : Ran wf (h :: hs) wf''

/-- The same happens, by workers that differ in nothing but what their nodes do
before an interrupt. -/
inductive HappeningsUpToInterrupt : Happening Chan → Happening Chan → Prop
  | same (h : Happening Chan) : HappeningsUpToInterrupt h h
  | attempt {worker worker' : Worker Chan} (i : Nat) (alike : WorkersUpToInterrupt worker worker') :
      HappeningsUpToInterrupt (.attempt i worker) (.attempt i worker')

theorem Happens.unique {wf wf' wf'' : Workflow threshold Chan} {h : Happening Chan}
    (happens : Happens wf h wf') (other : Happens wf h wf'') : wf'' = wf' := by
  cases happens with
  | signals gs waits =>
      cases other
      rfl
  | completed asked executed =>
      cases other with
      | completed asked' executed' =>
          rw [asked] at asked'
          cases asked'
          rw [executed] at executed'
          cases executed'
          rfl
      | failed asked' executed' =>
          rw [asked] at asked'
          cases asked'
          rw [executed] at executed'
          cases executed'
  | failed asked executed =>
      cases other with
      | completed asked' executed' =>
          rw [asked] at asked'
          cases asked'
          rw [executed] at executed'
          cases executed'
      | failed asked' executed' => rfl
  | answer waits accepted =>
      cases other
      rfl
  | nextRun ended named uuids arrived =>
      cases other with
      | nextRun ended' named' =>
          have same := ended.symm.trans ended'
          cases same
          rfl

theorem Happens.upToInterrupt {wf wf' : Workflow threshold Chan} {h h' : Happening Chan}
    (happens : Happens wf h wf') (alike : HappeningsUpToInterrupt h h') : Happens wf h' wf' := by
  cases alike with
  | same => exact happens
  | attempt i alike =>
      cases happens with
      | completed asked executed =>
          exact .completed asked ((executeNodeImpl_upToInterrupt alike _).symm.trans executed)
      | failed asked executed =>
          exact .failed asked ((executeNodeImpl_upToInterrupt alike _).symm.trans executed)

theorem Ran.unique {wf wf' wf'' : Workflow threshold Chan} {hs : List (Happening Chan)}
    (ran : Ran wf hs wf') (other : Ran wf hs wf'') : wf'' = wf' := by
  induction ran with
  | nil wf =>
      cases other
      rfl
  | cons first rest ih =>
      cases other with
      | cons first' rest' =>
          obtain rfl := first.unique first'
          exact ih rest'

theorem Ran.upToInterrupt {wf wf' : Workflow threshold Chan} {hs hs' : List (Happening Chan)}
    (ran : Ran wf hs wf') (alike : List.Forall₂ HappeningsUpToInterrupt hs hs') : Ran wf hs' wf' := by
  induction alike generalizing wf with
  | nil => exact ran
  | cons here later ih =>
      cases ran with
      | cons first rest => exact .cons (first.upToInterrupt here) (ih rest)

/-- **An interrupted attempt leaves no trace**: with the same signals, the same
answers and attempts that differ in nothing but what a node does before it
raises its interrupts, a workflow comes to be the same, with all its runs: its
history and its object, the channels, the checkpoint and the stream buffer. -/
theorem interrupted_attempt_leaves_no_trace {wf wf' wf'' : Workflow threshold Chan}
    {hs hs' : List (Happening Chan)} (alike : List.Forall₂ HappeningsUpToInterrupt hs hs')
    (ran : Ran wf hs wf') : Ran wf hs' wf'' ↔ wf'' = wf' := by
  constructor
  · exact fun other => (ran.upToInterrupt alike).unique other
  · rintro rfl
    exact ran.upToInterrupt alike

section Runs

open Reference

/-- A graph whose one node asks. -/
def questionSetting : Setting Channel := setting [("d", ["in"])] none none

/-- A node that asks once, after whatever `before` does. -/
def questionCode (before : NodeRun) : NodeCode where
  ainvoke _ _ resume :=
    if resume.isEmpty then { before with outcome := .interrupted [⟨.str "ok?", "ok?"⟩] }
    else { outcome := .returned (.value .none) }
  writers := []

def questionWorker (before : NodeRun) : Worker Channel where
  untracked _ := false
  channels := (graph [("d", ["in"])]).channels
  code := { nodes := fun name => if name = "d" then some (questionCode before) else none }

/-- It asks at once. -/
def atOnce : NodeRun where
  outcome := .returned (.value .none)

/-- It writes, sends, streams and requests a sub-agent before it asks. -/
def afterEffects : NodeRun where
  sent := [("x", .int 1), (TASKS, .send "d" .none)]
  customData := [.int 2]
  childRequests := [{}]
  outcome := .returned (.value .none)

theorem questionWorker_upToInterrupt :
    WorkersUpToInterrupt (questionWorker afterEffects) (questionWorker atOnce) where
  untracked := rfl
  channels := rfl
  retryPolicies := rfl
  nodes name := by
    unfold questionWorker
    dsimp only
    split
    · refine .some ⟨fun nodeInput inputState resume => ?_, rfl, rfl⟩
      cases resume with
      | nil => exact .interrupted _ rfl rfl
      | cons value rest => exact .same _
    · exact .none

def questionHappenings (before : NodeRun) : List (Happening Channel) :=
  [.attempt 0 (questionWorker before), .signals [.resume (.str "yes")], .attempt 0 (questionWorker before)]

/-- The workflow, once it has been answered. -/
def answeredWorkflow : Workflow none Channel :=
  (((launched questionSetting).act (.answer 0 (.output (asking "ok?" (pulled "d" []))))).act
    (.signals [.resume (.str "yes")])).act (.answer 0 (.output (pulled "d" [])))

theorem answeredWorkflow_ran :
    Ran (launched questionSetting) (questionHappenings afterEffects) answeredWorkflow :=
  .cons (.completed rfl rfl) (.cons (.signals _ rfl) (.cons (.completed rfl rfl) (.nil _)))

theorem interrupted_attempt_leaves_no_trace_question :
    Ran (launched questionSetting) (questionHappenings atOnce) answeredWorkflow :=
  (interrupted_attempt_leaves_no_trace
    (.cons (.attempt 0 questionWorker_upToInterrupt) (.cons (.same _)
      (.cons (.attempt 0 questionWorker_upToInterrupt) .nil))) answeredWorkflow_ran).mpr rfl

end Runs

end LanggraphTemporal.Properties
