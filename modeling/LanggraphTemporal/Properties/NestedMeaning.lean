/-
# Properties.NestedMeaning -- a tree of workflows computes nested meanings

The workflows of a tree take their steps in any order, and a parent is answered
with what the workflow of its child has come to.  So the order is invisible in the
whole tree: every workflow of it has the meaning of its graph in which each
subgraph is answered by its own meaning (`tree_meaning`).

The induction is on the levels below a workflow: the id of a child is longer than
that of its parent, so there are no more of them than characters.
-/
import LanggraphTemporal.Model.NestedMeaning
import LanggraphTemporal.Machine.Trees
import LanggraphTemporal.Properties.BulkSynchronous
import LanggraphTemporal.Properties.InFlight

namespace LanggraphTemporal.Properties

set_option autoImplicit false

open Theory Theory.System Theory.History Model Model.LangGraphWorkflow Machine

variable {Chan : Type} {threshold : Option Nat} {root : Setting Chan} {tree : List (Workflow threshold Chan)}

/-- What the current run of a workflow has heard. -/
def heardBy (wf : Workflow threshold Chan) : List (Request × Response) :=
  executionTranscript wf.current threshold wf.uuids wf.arrived wf.script

/-- The request starts the workflow of a subgraph. -/
def startsSubgraph : Request → Bool
  | .executeChildWorkflow call => !call.terminateOnClose
  | _ => false

/-- The tree is one of this world. None of its workflows has continued as new, and
all answers that do not come from subgraphs are those of the world. Below the root,
none has failed and none has been resumed. -/
structure MadeOf (W : World Chan) (root : Setting Chan) (tree : List (Workflow threshold Chan)) : Prop where
  graph : ∀ wf ∈ tree, wf.first.graph = W.graph wf.workflowId
  env : ∀ wf ∈ tree, ∃ registry, wf.first.env = Meaning.within registry (W.env wf.workflowId)
  current : ∀ wf ∈ tree, wf.current = wf.first
  arrived : ∀ wf ∈ tree, wf.arrived = []
  inPauses : ∀ wf ∈ tree, SignalledInPauses wf.current threshold wf.uuids wf.script
  told : ∀ wf ∈ tree, ∀ p ∈ heardBy wf, startsSubgraph p.1 = false →
    ∀ subgraph, (W.behaviour wf.workflowId subgraph).Answers p.1 p.2
  unfailed : ∀ wf ∈ tree, wf.workflowId ≠ root.env.workflowId → ∀ e w, wf.outcome ≠ .failed e w
  unresumed : ∀ wf ∈ tree, wf.workflowId ≠ root.env.workflowId →
    ∀ values, .resumed values ∉ historyOf wf.outcome

/-! ## What the parents hear -/

/-- The answer to the call of a subgraph is what a workflow of the tree has come
to, which was started by that call. -/
def AnsweredBy (tree : List (Workflow threshold Chan)) (wf : Workflow threshold Chan)
    (p : Request × Response) : Prop :=
  ∀ call, p.1 = .executeChildWorkflow call → call.terminateOnClose = false →
    (∃ task subRef values, call = subgraphCall wf.current.env task subRef values) ∧
      ∃ child ∈ tree, child.workflowId = call.id ∧ child.first.input = call.input ∧
        Reports child.outcome p.2

theorem not_waits_of_reports {wf : Workflow threshold Chan} {r : Response} (reports : Reports wf.outcome r) :
    wf.waits = false := by
  unfold Workflow.waits
  cases reported : wf.outcome with
  | blocked qs k w =>
      rw [reported] at reports
      cases reports
  | _ => rfl

/-- A workflow that has reported stays in the tree as it is. -/
theorem reports_kept {tree tree' : List (Workflow threshold Chan)} {child : Workflow threshold Chan}
    {r : Response} (step : TreeStep tree tree') (member : child ∈ tree) (reports : Reports child.outcome r) :
    child ∈ tree' := by
  have replaced {front back : List (Workflow threshold Chan)} {wf wf' : Workflow threshold Chan}
      (member : child ∈ front ++ wf :: back) (other : child ≠ wf) : child ∈ front ++ wf' :: back := by
    rcases List.mem_append.mp member with inFront | rest
    · exact List.mem_append_left _ inFront
    · rcases List.mem_cons.mp rest with same | inBack
      · exact absurd same other
      · exact List.mem_append_right _ (List.mem_cons_of_mem _ inBack)
  cases step with
  | act action waits =>
      refine replaced member ?_
      rintro rfl
      rw [not_waits_of_reports reports] at waits
      cases waits
  | continueAsNew ended =>
      refine replaced member ?_
      rintro rfl
      rw [ended] at reports
      cases reports
  | child => exact List.mem_cons_of_mem _ member

theorem AnsweredBy.step {tree tree' : List (Workflow threshold Chan)} {wf : Workflow threshold Chan}
    {p : Request × Response} (answered : AnsweredBy tree wf p) (step : TreeStep tree tree') :
    AnsweredBy tree' wf p := by
  intro call asked subgraph
  obtain ⟨made, child, member, id, input, reports⟩ := answered call asked subgraph
  exact ⟨made, child, reports_kept step member reports, id, input, reports⟩

/-- A sub-agent's workflow is terminated on close. -/
theorem executionHistory_terminates (S : Setting Chan) (threshold : Option Nat) (uuids : Nat → String)
    (arrived : List Signal) (script : List (Action Response Signal)) :
    Guarded (fun _ e => ∀ call, e = .subagentStarted call → call.terminateOnClose = true)
      (executionHistory S threshold uuids arrived script) := by
  refine executionHistory_guarded ?_ ?_ ?_ threshold uuids arrived script
  · rintro a e early call rfl
    cases early
  · rintro h ph self self' e reachable works call rfl
    cases works with
    | subagent => rfl
  · rintro h ph ph' self self' e reachable moves call rfl
    cases moves

/-- The call of a subgraph that a workflow waits for has been recorded. -/
theorem started_of_request {wf : Workflow threshold Chan} {call : ChildCall}
    (asked : .executeChildWorkflow call ∈ wf.requests) (subgraph : call.terminateOnClose = false) :
    ∃ node, .subgraphStarted node call ∈ historyOf wf.outcome := by
  obtain ⟨k, w, blocked⟩ := Workflow.blocked_of_request asked
  have waited : Errand.child call ∈ waitedFor wf.requests := List.mem_filterMap.mpr ⟨_, asked, rfl⟩
  have begun : Errand.child call ∈ begunIn w.history := begun_of_waits blocked waited
  obtain ⟨e, mem, same⟩ := List.mem_filterMap.mp begun
  have here : e ∈ historyOf wf.outcome := by
    rw [blocked]
    exact mem
  cases e with
  | subgraphStarted node other =>
      cases same
      exact ⟨node, here⟩
  | subagentStarted other =>
      cases same
      obtain ⟨a, terminates⟩ := (executionHistory_terminates wf.current threshold wf.uuids wf.arrived
        wf.script).of_mem here
      rw [terminates call rfl] at subgraph
      cases subgraph
  | _ => cases same

/-- What an execution hears next comes behind what it has heard. -/
theorem executionTranscript_append {S : Setting Chan} {uuids : Nat → String} {arrived : List Signal}
    {script : List (Action Response Signal)} {qs : List Request}
    {k : Nat → Response → WorkflowM Chan RunResult} {w : Execution Chan}
    (blocked : replayExecution S threshold uuids arrived script = .blocked qs k w)
    (more : List (Action Response Signal)) :
    executionTranscript S threshold uuids arrived (script ++ more) =
      executionTranscript S threshold uuids arrived script ++
        (workflowSystem S.env).transcript (.await qs k) more w := by
  unfold replayExecution at blocked
  unfold executionTranscript
  cases delivered : (workflowSystem S.env).deliver arrived (created S uuids) with
  | ok start =>
      rw [delivered] at blocked
      exact transcript_append _ more script start blocked
  | error failure =>
      rw [delivered] at blocked
      cases blocked

theorem blocked_of_waits {wf : Workflow threshold Chan} (waits : wf.waits = true) :
    ∃ k w, wf.outcome = .blocked wf.requests k w := by
  unfold Workflow.waits at waits
  unfold Workflow.requests
  cases outcome : wf.outcome with
  | blocked qs k w => exact ⟨k, w, rfl⟩
  | _ =>
      rw [outcome] at waits
      cases waits

theorem heardBy_signals {wf : Workflow threshold Chan} (waits : wf.waits = true) (signals : List Signal) :
    heardBy (wf.act (.signals signals)) = heardBy wf := by
  obtain ⟨k, w, blocked⟩ := blocked_of_waits waits
  have none : (workflowSystem wf.current.env).transcript (.await wf.requests k) [.signals signals] w = [] :=
    transcript_silent _ _ _ rfl
  have all : heardBy (wf.act (.signals signals)) = heardBy wf ++ _ := executionTranscript_append blocked _
  rw [all, none, List.append_nil]

/-- One more answer is heard, if it is one to a request of the workflow. -/
theorem heardBy_answer {wf : Workflow threshold Chan} (waits : wf.waits = true) {i : Nat} {r : Response} :
    ∀ p ∈ heardBy (wf.act (.answer i r)), p ∈ heardBy wf ∨ wf.requests[i]? = some p.1 ∧ p.2 = r := by
  obtain ⟨k, w, blocked⟩ := blocked_of_waits waits
  have all : heardBy (wf.act (.answer i r)) = heardBy wf ++ _ := executionTranscript_append blocked _
  intro p mem
  rw [all] at mem
  rcases List.mem_append.mp mem with before | now
  · exact .inl before
  · exact .inr (transcript_answer (execution_asleep blocked) p now)

/-- A workflow that begins has heard nothing. -/
theorem heardBy_begin {wf : Workflow threshold Chan} (fresh : wf.script = []) : heardBy wf = [] := by
  unfold heardBy executionTranscript
  rw [fresh]
  split
  · exact transcript_silent _ _ _ rfl
  · rfl

/-- **A parent hears of its children what they have come to.** -/
theorem answeredBy_invariant (root : Setting Chan) : (treeMachine threshold root).Invariant fun tree =>
    ∀ wf ∈ tree, ∀ p ∈ heardBy wf, AnsweredBy tree wf p where
  init tree initial wf mem p heard := by
    obtain ⟨uuids, arrived, rfl⟩ := initial
    rw [List.mem_singleton.mp mem, heardBy_begin rfl] at heard
    cases heard
  step tree tree' _ held step := by
    intro wf mem p heard
    -- a workflow that does not move has heard what it had
    have still (member : wf ∈ tree) : AnsweredBy tree' wf p := (held wf member p heard).step step
    cases step with
    | @act front back moved action waits allowed accepted =>
        rcases List.mem_append.mp mem with inFront | rest
        · exact still (List.mem_append_left _ inFront)
        rcases List.mem_cons.mp rest with rfl | inBack
        · have member : moved ∈ front ++ moved :: back := by simp
          have before (old : p ∈ heardBy moved) : AnsweredBy (front ++ moved.act action :: back) moved p :=
            (held moved member p old).step (.act action waits allowed accepted)
          cases action with
          | signals gs =>
              rw [heardBy_signals waits] at heard
              exact before heard
          | answer i r =>
              rcases heardBy_answer waits p heard with old | ⟨asked, same⟩
              · exact before old
              intro call request subgraph
              rw [request] at asked
              obtain ⟨node, started⟩ := started_of_request (List.mem_of_getElem? asked) subgraph
              obtain ⟨child, known, id, input, reports⟩ := allowed call node asked started
              obtain ⟨a, starts⟩ := (executionHistory_startsChild moved.current threshold moved.uuids
                moved.arrived moved.script).of_mem started
              have kept := reports_kept (.act (.answer i r) waits allowed accepted) known reports
              rw [same]
              exact ⟨starts node call rfl, child, kept, id, input, reports⟩
        · exact still (List.mem_append_right _ (List.mem_cons_of_mem _ inBack))
    | @continueAsNew front back moved S rest w ended named uuids arrived =>
        rcases List.mem_append.mp mem with inFront | rest
        · exact still (List.mem_append_left _ inFront)
        rcases List.mem_cons.mp rest with rfl | inBack
        · rw [heardBy_begin rfl] at heard
          cases heard
        · exact still (List.mem_append_right _ (List.mem_cons_of_mem _ inBack))
    | child member awaits input named free uuids arrived =>
        rcases List.mem_cons.mp mem with rfl | old
        · rw [heardBy_begin rfl] at heard
          cases heard
        · exact still old

/-! ## Levels -/

/-- A workflow that is never resumed has no pauses behind it. -/
theorem batchesOf_of_unresumed {h : List Event} (unresumed : ∀ values, .resumed values ∉ h) :
    batchesOf h = [] := by
  induction h using List.reverseRecOn with
  | nil => rfl
  | append_singleton h e ih =>
      have before := ih fun values mem => unresumed values (List.mem_append_left _ mem)
      unfold batchesOf at before ⊢
      rw [heardIn_snoc]
      cases e with
      | resumed values => exact absurd (by simp) (unresumed values)
      | _ => exact before

/-- A workflow that a subgraph started returns the meaning of its graph. -/
theorem subgraph_of_meaning {W : World Chan} {S : Setting Chan} {id : String} {depth : Nat}
    {task : PregelTask} {subRef : String} {values : Dict PyVal} {env : Env Chan}
    {registry : String → Option (Pregel Chan)} {o : WorkflowOutput} {self : LangGraphWorkflow Chan}
    (graph : S.graph = W.graph id) (within : S.env = Meaning.within registry (W.env id))
    (input : S.input = (subgraphCall env task subRef values).input)
    (meaning : meaningOf S (W.behaviour id (W.subgraph threshold depth)) threshold [] =
      .ok (.output o, ⟨self, []⟩)) :
    W.subgraph threshold (depth + 1) id (some (.ofDict values)) = o := by
  have under : S.input = Meaning.under subRef (World.subgraphInput (some (.ofDict values))) := input
  have renamed : Meaning.run (W.behaviour id (W.subgraph threshold depth))
      (Meaning.within registry (W.env id)) (W.graph id)
      (Meaning.under subRef (World.subgraphInput (some (.ofDict values)))) threshold
      ⟨init (W.env id), []⟩ = _ :=
    Meaning.run_renames (W.blind id (W.subgraph threshold depth)) threshold ⟨init (W.env id), []⟩
  have same : init S.env = init (W.env id) := by
    rw [within]
    rfl
  unfold meaningOf at meaning
  rw [same, graph, within, under, renamed] at meaning
  unfold World.subgraph
  cases ran : Meaning.run (W.behaviour id (W.subgraph threshold depth)) (W.env id) (W.graph id)
      (World.subgraphInput (some (.ofDict values))) threshold ⟨init (W.env id), []⟩ with
  | error halt =>
      rw [ran] at meaning
      cases meaning
  | ok p =>
      obtain ⟨result, s⟩ := p
      rw [ran] at meaning
      cases result with
      | output o' =>
          simp only [Meaning.outcomeUnder, Meaning.resultUnder, Except.ok.injEq, Prod.mk.injEq,
            RunResult.output.injEq] at meaning
          exact meaning.1
      | continueAsNew next => cases meaning

theorem length_of_member {wf : Workflow threshold Chan}
    (reachable : (treeMachine threshold root).Reachable tree) (member : wf ∈ tree) :
    root.env.workflowId.length ≤ wf.workflowId.length := by
  rcases (members_invariant root).holds reachable wf member with here | descends
  · exact (congrArg (fun S => S.env.workflowId.length) here).ge
  · exact descends.longer.le

/-- A child that reports its meaning reports what its parent is to be answered. -/
theorem reported_meaning {W : World Chan} {child : Workflow threshold Chan} {depth : Nat}
    {task : PregelTask} {subRef : String} {values : Dict PyVal} {env : Env Chan} {response : Response}
    (made : MadeOf W root tree) (known : child ∈ tree) (below : child.workflowId ≠ root.env.workflowId)
    (input : child.first.input = (subgraphCall env task subRef values).input)
    (meaning : HasMeaning child.current (W.behaviour child.workflowId (W.subgraph threshold depth)) threshold
      child.outcome) (reports : Reports child.outcome response) :
    response = .childOutput (W.subgraph threshold (depth + 1) child.workflowId (some (.ofDict values))) := by
  have unfailed := made.unfailed child known below
  have unresumed := made.unresumed child known below
  cases outcome : child.outcome with
  | done result rest w =>
      rw [outcome] at meaning reports unresumed
      cases reports with
      | output o =>
          have silent : batchesOf w.history = [] := batchesOf_of_unresumed unresumed
          have computed : meaningOf child.current _ threshold (batchesOf w.history) = _ := meaning
          rw [silent, made.current child known] at computed
          obtain ⟨registry, within⟩ := made.env child known
          rw [subgraph_of_meaning (made.graph child known) within input computed]
  | failed e w => exact absurd outcome (unfailed e w)
  | _ =>
      rw [outcome] at reports
      cases reports

/-- **Every workflow of a tree computes the meaning of its graph**, with its
subgraphs answered by theirs, whatever the order of the steps in the tree. -/
theorem tree_meaning (W : World Chan) (reachable : (treeMachine threshold root).Reachable tree)
    (made : MadeOf W root tree) (depth : Nat) :
    ∀ wf ∈ tree, (∀ other ∈ tree, other.workflowId.length < wf.workflowId.length + depth) →
      HasMeaning wf.current (W.behaviour wf.workflowId (W.subgraph threshold depth)) threshold wf.outcome := by
  induction depth with
  | zero => exact fun wf member bound => absurd (bound wf member) (Nat.lt_irrefl _)
  | succ depth ih =>
      intro wf member bound
      have told : ∀ p ∈ heardBy wf,
          (W.behaviour wf.workflowId (W.subgraph threshold (depth + 1))).Answers p.1 p.2 := by
        intro p heard
        by_cases subgraph : startsSubgraph p.1 = true
        · obtain ⟨request, response⟩ := p
          cases request with
          | executeChildWorkflow call =>
              have stays : call.terminateOnClose = false := by simpa [startsSubgraph] using subgraph
              obtain ⟨⟨task, subRef, values, calls⟩, child, known, id, input, reports⟩ :=
                (answeredBy_invariant root).holds reachable wf member _ heard call rfl stays
              have longer : wf.workflowId.length < child.workflowId.length := by
                rw [id, calls, ← wf.current_id]
                simp only [subgraphCall, String.length_append]
                have slash : "/".length = 1 := rfl
                omega
              have below : child.workflowId ≠ root.env.workflowId := by
                intro same
                have rootLength := length_of_member reachable member
                rw [same] at longer
                omega
              have meaning := ih child known fun other mem => by
                have far := bound other mem
                omega
              have started : child.first.input = (subgraphCall wf.current.env task subRef values).input := by
                rw [input, calls]
              have data : call.input.inputData = some (.ofDict values) := by
                rw [calls]
                rfl
              show response = (W.behaviour wf.workflowId (W.subgraph threshold (depth + 1))).child call
              unfold Behaviour.child
              rw [stays, if_neg Bool.false_ne_true, data, ← id]
              exact reported_meaning made known below started meaning reports
          | _ => cases subgraph
        · exact made.told wf member p heard (Bool.eq_false_iff.mpr subgraph) _
      have arrived := made.arrived wf member
      show HasMeaning wf.current _ threshold
        (replayExecution wf.current threshold wf.uuids wf.arrived wf.script)
      rw [arrived]
      unfold heardBy at told
      rw [arrived] at told
      exact hasMeaning_of_told wf.current _ threshold wf.uuids wf.script (made.inPauses wf member) told

section Runs

open Reference

/-- Every node writes `x`. -/
def flatWorld : World Channel where
  env id := { env outer with workflowId := id }
  graph id := if id = "workflow" then outer else inner
  node _ input := { nodeName := input.nodeName, taskPath := input.taskPath, writes := [("x", .int 1)] }
  subagent _ _ := .error ""
  queue _ := "worker"
  nodeBlind _ _ _ := rfl
  subagentBlind _ _ _ := rfl

/-- What the inner graph returns for it. -/
example : flatWorld.subgraph none 1 "workflow/sub" (some (.dict [("in", .int 0)])) =
    ⟨Dict.ofList [("x", .int 1)], 1⟩ := rfl

/-- The child has returned, and its parent after it. -/
def outerDone : Workflow none Channel :=
  (launched (outerSetting false)).act (.answer 0 (.childOutput ⟨Dict.ofList [("x", .int 1)], 1⟩))

def returnedTree : List (Workflow none Channel) := [innerDone, outerDone]

theorem returnedTree_reachable : (treeMachine none (outerSetting false)).Reachable returnedTree := by
  have start : (treeMachine none (outerSetting false)).Reachable [launched (outerSetting false)] :=
    .init ⟨_, _, rfl⟩
  have child := inner_reachable start rfl (List.mem_of_getElem? (i := 1) rfl) (by decide)
  have inside : (treeMachine none (outerSetting false)).Reachable
      ([] ++ innerDone :: [launched (outerSetting false)]) :=
    act_reachable child rfl (fun call => nofun) rfl
  have waiting : (treeMachine none (outerSetting false)).Reachable
      ([innerDone] ++ launched (outerSetting false) :: []) := inside
  refine .step waiting (.act _ rfl ?_ ?_)
  · intro call node asked started
    cases asked
    exact ⟨innerDone, List.mem_cons_self, rfl, rfl, .output _ _ _⟩
  · exact Workflow.accepted_of_stopped rfl

theorem returnedTree_madeOf : MadeOf flatWorld (outerSetting false) returnedTree := by
  have both {P : Workflow none Channel → Prop} (inner : P innerDone) (outer : P outerDone) :
      ∀ wf ∈ returnedTree, P wf := by
    intro wf mem
    rcases List.mem_cons.mp mem with rfl | mem
    · exact inner
    · rw [List.mem_singleton.mp mem]
      exact outer
  have unsignalled (S : Setting Channel) (r : Response) :
      SignalledInPauses S none (fun _ => "") [.answer 0 r] := by
    intro a signals b split
    rcases a with _ | ⟨_, a⟩
    · cases split
    · simp at split
  refine ⟨both rfl rfl, both ⟨_, rfl⟩ ⟨_, rfl⟩, both rfl rfl, both rfl rfl,
    both (unsignalled _ _) (unsignalled _ _), both ?_ ?_, both ?_ ?_, both ?_ ?_⟩
  · intro p heard _ subgraph
    rcases List.mem_cons.mp heard with rfl | mem
    · rfl
    · cases mem
  · intro p heard other
    rcases List.mem_cons.mp heard with rfl | mem
    · cases other
    · cases mem
  · exact fun _ e w => nofun
  · exact fun other => absurd rfl other
  · intro _ values mem
    have quiet : (historyOf innerDone.outcome).all (fun e => !isTalk e) = true := rfl
    have resumed := List.all_eq_true.mp quiet _ mem
    cases resumed
  · exact fun other => absurd rfl other

theorem tree_meaning_returnedTree :
    HasMeaning innerDone.current (flatWorld.behaviour innerDone.workflowId (flatWorld.subgraph none 5)) none
        innerDone.outcome ∧
      HasMeaning outerDone.current (flatWorld.behaviour outerDone.workflowId (flatWorld.subgraph none 5)) none
        outerDone.outcome := by
  have short : ∀ wf ∈ returnedTree, 8 ≤ wf.workflowId.length ∧ wf.workflowId.length ≤ 12 := by
    have inner : innerDone.workflowId.length = 12 := rfl
    have outer : outerDone.workflowId.length = 8 := rfl
    simp [returnedTree, inner, outer]
  have within {wf : Workflow none Channel} (member : wf ∈ returnedTree) :
      ∀ other ∈ returnedTree, other.workflowId.length < wf.workflowId.length + 5 := by
    intro other mem
    have least := (short wf member).1
    have most := (short other mem).2
    omega
  have here : innerDone ∈ returnedTree := List.mem_cons_self
  have there : outerDone ∈ returnedTree := List.mem_cons_of_mem _ List.mem_cons_self
  exact ⟨tree_meaning flatWorld returnedTree_reachable returnedTree_madeOf 5 innerDone here (within here),
    tree_meaning flatWorld returnedTree_reachable returnedTree_madeOf 5 outerDone there (within there)⟩

end Runs

end LanggraphTemporal.Properties
