/-
# Properties.TreeProgress -- a tree of workflows comes to rest

A workflow is closed, its workflow task fails, it waits for a resume, or it waits
for something that can happen: a worker can answer an activity, a child that is
closed reports, and a child that has not been started can be started.  So a tree
in which nothing can happen consists of closed workflows, of workflows that wait
for a resume or raise whenever their task is retried, and of parents of these
(`rests_of_stuck`).

Nor can things happen for ever.  An answer brings a run nearer to its end, a run
that continues as new leaves fewer supersteps to the next one, and a child is
started once, one level below its parent.  As long as the levels are bounded, a
tree comes to rest whatever signals arrive (`tree_comes_to_rest`).
-/
import LanggraphTemporal.Theory.Descent
import LanggraphTemporal.Machine.Progress
import LanggraphTemporal.Properties.ContinueAsNew
import LanggraphTemporal.Properties.NestedInterrupts
import LanggraphTemporal.Properties.NestedMeaning
import Mathlib.Algebra.Order.BigOperators.Group.List

namespace LanggraphTemporal.Properties

set_option autoImplicit false

open Theory Theory.System Theory.History Model Model.LangGraphWorkflow Machine

variable {Chan : Type} {threshold : Option Nat} {root : Setting Chan}
  {tree tree' : List (Workflow threshold Chan)} {wf : Workflow threshold Chan}

/-! ## What happens in a tree -/

/-- No workflow has been started for the call. -/
def Unstarted (tree : List (Workflow threshold Chan)) (call : ChildCall) : Prop :=
  ∀ wf ∈ tree, wf.workflowId = call.id → wf.first.input ≠ call.input

/-- The tree goes on by itself: a workflow gets an answer, it continues as new, or
one is started for a call. -/
inductive Advances : List (Workflow threshold Chan) → List (Workflow threshold Chan) → Prop
  | answer {front back : List (Workflow threshold Chan)} {wf : Workflow threshold Chan} (i : Nat)
      (r : Response) (waits : wf.waits = true) (allowed : Allowed (front ++ wf :: back) wf (.answer i r))
      (accepted : (wf.act (.answer i r)).outcome ≠ .refused) :
      Advances (front ++ wf :: back) (front ++ wf.act (.answer i r) :: back)
  | continueAsNew {front back : List (Workflow threshold Chan)} {wf : Workflow threshold Chan}
      {S : Setting Chan} {rest : List (Action Response Signal)} {w : Execution Chan}
      (ended : wf.outcome = .done (.continueAsNew S.input) rest w)
      (named : S.env.workflowId = wf.current.env.workflowId) (uuids : Nat → String)
      (arrived : List Signal) :
      Advances (front ++ wf :: back) (front ++ wf.continueAsNew ended named uuids arrived :: back)
  | child {tree : List (Workflow threshold Chan)} {parent : Workflow threshold Chan} {call : ChildCall}
      {S : Setting Chan} (member : parent ∈ tree) (awaits : AwaitsChild parent call)
      (input : S.input = call.input) (named : S.env.workflowId = call.id)
      (free : ∀ wf ∈ tree, wf.workflowId = call.id → wf.closed = true)
      (unstarted : Unstarted tree call) (uuids : Nat → String) (arrived : List Signal) :
      Advances tree (.begin S uuids arrived :: tree)

/-- Signals arrive at a workflow that waits. -/
inductive Signals : List (Workflow threshold Chan) → List (Workflow threshold Chan) → Prop
  | signals {front back : List (Workflow threshold Chan)} {wf : Workflow threshold Chan}
      (waits : wf.waits = true) (signals : List Signal) :
      Signals (front ++ wf :: back) (front ++ wf.act (.signals signals) :: back)

theorem Advances.step (advances : Advances tree tree') : TreeStep tree tree' := by
  cases advances with
  | answer i r waits allowed accepted => exact .act _ waits allowed accepted
  | continueAsNew ended named uuids arrived => exact .continueAsNew ended named uuids arrived
  | child member awaits input named free unstarted uuids arrived =>
      exact .child member awaits input named free uuids arrived

theorem Signals.step (signals : Signals tree tree') : TreeStep tree tree' := by
  obtain ⟨waits, signals⟩ := signals
  exact .act _ waits trivial (Workflow.signals_accepted waits signals)

/-! ## Never stuck -/

/-- A run that begins is not refused. -/
theorem begin_accepted {wf : Workflow threshold Chan} (fresh : wf.script = []) : wf.outcome ≠ .refused := by
  unfold Workflow.outcome replayExecution
  rw [fresh]
  split
  · exact replay_accepted _ [] _ rfl
  · nofun

/-- No workflow has been given an answer that its request cannot get. -/
theorem accepted_invariant (root : Setting Chan) : (treeMachine threshold root).Invariant fun tree =>
    ∀ wf ∈ tree, wf.outcome ≠ .refused where
  init tree initial wf mem := by
    obtain ⟨uuids, arrived, rfl⟩ := initial
    rw [List.mem_singleton.mp mem]
    exact begin_accepted rfl
  step tree tree' _ held step := by
    intro wf mem
    cases step with
    | act action waits allowed accepted =>
        rcases mem_replaced mem with rfl | old
        · exact accepted
        · exact held wf old
    | continueAsNew ended named uuids arrived =>
        rcases mem_replaced mem with rfl | old
        · exact begin_accepted rfl
        · exact held wf old
    | child member awaits input named free uuids arrived =>
        rcases List.mem_cons.mp mem with rfl | old
        · exact begin_accepted rfl
        · exact held wf old

/-- What an answer needs: a request that permits it, and a child that reports it
where the request is the call of a subgraph. -/
theorem advances_of_answer {i : Nat} {q : Request} {r : Response} (member : wf ∈ tree)
    (asked : wf.requests[i]? = some q) (permitted : ∀ w, (workflowSystem wf.current.env).permits q r w = true)
    (reported : ∀ call, q = .executeChildWorkflow call → call.terminateOnClose = false →
      ∃ child ∈ tree, child.workflowId = call.id ∧ child.first.input = call.input ∧
        Reports child.outcome r) : ∃ tree', Advances tree tree' := by
  obtain ⟨k, w, blocked⟩ := Workflow.blocked_of_request (List.mem_of_getElem? asked)
  have waits : wf.waits = true := by
    unfold Workflow.waits
    rw [blocked]
  obtain ⟨front, back, rfl⟩ := List.append_of_mem member
  refine ⟨_, .answer i r waits ?_ ?_⟩
  · intro call node request started
    rw [asked] at request
    cases request
    refine reported call rfl ?_
    obtain ⟨a, starts⟩ := (executionHistory_startsChild wf.current threshold wf.uuids wf.arrived
      wf.script).of_mem started
    obtain ⟨task, subRef, values, same⟩ := starts node call rfl
    rw [same]
    rfl
  · have next : (wf.act (.answer i r)).outcome =
        (workflowSystem wf.current.env).replay (.await wf.requests k) [.answer i r] w :=
      execution_append blocked _
    rw [next]
    exact answer_accepted (firstReady_of_asleep 0 (execution_asleep blocked)) asked (permitted w)

/-- What a workflow of the tree does when the tree does not go on by itself: it is
closed, its workflow task is retried in vain, it waits for a resume, or it waits
for children that are open. -/
inductive Rests (tree : List (Workflow threshold Chan)) (wf : Workflow threshold Chan) : Prop
  | closed (closed : wf.closed = true)
  | retried (fails : wf.taskFails = true)
  | paused (waits : WaitsForResume wf)
  | parent (child : Workflow threshold Chan) (member : child ∈ tree) (stays : child.closed = false)
      (below : wf.workflowId.length < child.workflowId.length)

theorem reports_of_closed (shut : wf.closed = true) : ∃ r, Reports wf.outcome r := by
  unfold Workflow.closed at shut
  cases outcome : wf.outcome with
  | done result rest w =>
      rw [outcome] at shut
      cases result with
      | output o => exact ⟨_, .output o rest w⟩
      | continueAsNew next => cases shut
  | failed e w =>
      rw [outcome] at shut
      exact ⟨_, .failure e w "" shut⟩
  | _ =>
      rw [outcome] at shut
      cases shut

/-- The id of a child is longer than that of its parent. -/
theorem length_lt_of_awaits {call : ChildCall} (awaits : AwaitsChild wf call) :
    wf.workflowId.length < call.id.length := by
  obtain ⟨task, subRef, values, same⟩ := awaits.call_eq
  rw [same, ← wf.current_id]
  simp only [subgraphCall, String.length_append]
  have slash : "/".length = 1 := rfl
  omega

/-- A process that knows a graph under every reference. -/
def settingOf (S : Setting Chan) (workflowId : String) (input : WorkflowInput) : Setting Chan where
  env := { S.env with workflowId := workflowId, registry := fun _ => some S.graph }
  graph := S.graph
  input := input
  registered := rfl

/-- A node that writes nothing. -/
def plainOutput (input : NodeActivityInput) : NodeActivityOutput where
  nodeName := input.nodeName
  writes := []
  taskPath := input.taskPath
  triggers := input.triggers

/-- The call of a subgraph is answered or started, unless a workflow of its id is
still open. -/
theorem rests_of_call {call : ChildCall} {i : Nat} (stuck : ∀ tree', ¬Advances tree tree')
    (member : wf ∈ tree) (asked : wf.requests[i]? = some (.executeChildWorkflow call))
    (subgraph : call.terminateOnClose = false) : Rests tree wf := by
  have request := List.mem_of_getElem? asked
  have awaits : AwaitsChild wf call := ⟨request, started_of_request request subgraph⟩
  by_cases free : ∀ x ∈ tree, x.workflowId = call.id → x.closed = true
  · exfalso
    by_cases unstarted : Unstarted tree call
    · exact stuck _ (.child (S := settingOf wf.current call.id call.input) member awaits rfl rfl free
        unstarted (fun _ => "") [])
    · unfold Unstarted at unstarted
      push Not at unstarted
      obtain ⟨child, known, id, input⟩ := unstarted
      obtain ⟨r, reports⟩ := reports_of_closed (free child known id)
      have permitted (w : Execution Chan) :
          (workflowSystem wf.current.env).permits (.executeChildWorkflow call) r w = true := by
        cases outcome : child.outcome with
        | done result rest w =>
            rw [outcome] at reports
            cases reports
            rfl
        | failed e w =>
            rw [outcome] at reports
            cases reports
            rfl
        | _ =>
            rw [outcome] at reports
            cases reports
      obtain ⟨next, advances⟩ := advances_of_answer member asked permitted fun other same _ => by
        cases same
        exact ⟨child, known, id, input, reports⟩
      exact stuck next advances
  · push Not at free
    obtain ⟨child, known, id, stays⟩ := free
    exact .parent child known (Bool.eq_false_iff.mpr stays) (id ▸ length_lt_of_awaits awaits)

/-- A workflow that waits for a request rests: an activity, a search and a
sub-agent can always be answered. -/
theorem rests_of_request {q : Request} {i : Nat} (stuck : ∀ tree', ¬Advances tree tree')
    (member : wf ∈ tree) (asked : wf.requests[i]? = some q) : Rests tree wf := by
  have going {P : Prop} (advances : ∃ tree', Advances tree tree') : P := by
    obtain ⟨next, advances⟩ := advances
    exact absurd advances (stuck next)
  cases q with
  | executeActivity name input call =>
      refine going (advances_of_answer (r := .output (plainOutput input)) member asked
        (fun _ => ?_) fun _ other => by cases other)
      simp [workflowSystem, plainOutput]
  | getAvailableTaskQueue =>
      exact going (advances_of_answer (r := .queue "worker") member asked (fun _ => rfl)
        fun _ other => by cases other)
  | executeChildWorkflow call =>
      by_cases subgraph : call.terminateOnClose = false
      · exact rests_of_call stuck member asked subgraph
      · refine going (advances_of_answer (r := .childOutput ⟨∅, 0⟩) member asked (fun _ => rfl)
          fun other same stays => ?_)
        cases same
        exact absurd stays subgraph
  | resumeEvent => exact .paused (List.mem_of_getElem? asked)

/-- **A tree that does not go on by itself rests.** -/
theorem rests_of_stuck (reachable : (treeMachine threshold root).Reachable tree)
    (stuck : ∀ tree', ¬Advances tree tree') : ∀ wf ∈ tree, Rests tree wf := by
  intro wf member
  cases outcome : wf.outcome with
  | done result rest w =>
      cases result with
      | output o =>
          refine .closed ?_
          unfold Workflow.closed
          rw [outcome]
      | continueAsNew next =>
          obtain ⟨front, back, rfl⟩ := List.append_of_mem member
          exact absurd (.continueAsNew (S := settingOf wf.current wf.current.env.workflowId next) outcome
            rfl (fun _ => "") []) (stuck _)
  | failed e w =>
      cases failure : e.isFailureError with
      | true =>
          refine .closed ?_
          unfold Workflow.closed
          rw [outcome]
          exact failure
      | false =>
          refine .retried ?_
          unfold Workflow.taskFails
          rw [outcome]
          exact congrArg not failure
  | refused => exact absurd outcome ((accepted_invariant root).holds reachable wf member)
  | blocked qs k w =>
      have some := Workflow.requests_ne_nil outcome
      have requests : wf.requests = qs := by
        unfold Workflow.requests
        rw [outcome]
      cases qs with
      | nil => exact absurd rfl some
      | cons q qs =>
          have asked : wf.requests[0]? = .some q := by
            rw [requests]
            rfl
          exact rests_of_request stuck member asked

/-- Only someone outside the tree can make it go on: a client that resumes it, or
an operator who mends what raises. -/
def NeedsHelp (wf : Workflow threshold Chan) : Prop := WaitsForResume wf ∨ wf.taskFails = true

/-- Below every open workflow one needs help. -/
theorem paused_below (rests : ∀ wf ∈ tree, Rests tree wf) {bound : Nat}
    (short : ∀ wf ∈ tree, wf.workflowId.length ≤ bound) : ∀ levels, ∀ wf ∈ tree,
    wf.closed = false → bound < wf.workflowId.length + levels → ∃ below ∈ tree, NeedsHelp below
  | 0, wf, member, _, deep => absurd (short wf member) (by omega)
  | levels + 1, wf, member, stays, deep => by
      cases rests wf member with
      | closed shut =>
          rw [shut] at stays
          cases stays
      | retried fails => exact ⟨wf, member, .inr fails⟩
      | paused waits => exact ⟨wf, member, .inl waits⟩
      | parent child known opened below => exact paused_below rests short levels child known opened (by omega)

/-- All workflows are closed, or one needs help. -/
theorem closed_or_paused (rests : ∀ wf ∈ tree, Rests tree wf) :
    (∀ wf ∈ tree, wf.closed = true) ∨ ∃ wf ∈ tree, NeedsHelp wf := by
  by_cases shut : ∀ wf ∈ tree, wf.closed = true
  · exact .inl shut
  · push Not at shut
    obtain ⟨wf, member, stays⟩ := shut
    have short : ∀ x ∈ tree, x.workflowId.length ≤ (tree.map fun x => x.workflowId.length).sum :=
      fun x mem => List.le_sum_of_mem (List.mem_map_of_mem mem)
    exact .inr (paused_below rests short _ wf member (Bool.eq_false_iff.mpr stays)
      (Nat.lt_add_left _ (Nat.lt_succ_self _)))

/-! ## Not for ever -/

/-- Where a workflow goes on in place, the same calls are unstarted. -/
theorem unstarted_replaced {front back : List (Workflow threshold Chan)} {x y : Workflow threshold Chan}
    (same : y.first = x.first) (call : ChildCall) :
    Unstarted (front ++ y :: back) call ↔ Unstarted (front ++ x :: back) call := by
  let P := fun first : Setting Chan => first.env.workflowId = call.id → first.input ≠ call.input
  exact ⟨fun held => forall_replaced (P := P) held same.symm, fun held => forall_replaced (P := P) held same⟩

/-- The request is a call that no workflow has been started for. -/
def ToStart (tree : List (Workflow threshold Chan)) (q : Request) : Prop :=
  ∃ call, q = .executeChildWorkflow call ∧ Unstarted tree call

open Classical in
/-- How many workflows are still to be started for a workflow. -/
noncomputable def toStart (tree : List (Workflow threshold Chan)) (wf : Workflow threshold Chan) : Nat :=
  wf.requests.countP fun q => decide (ToStart tree q)

/-- How many supersteps a run may begin. -/
def superstepsLeft (input : WorkflowInput) : Nat := (input.recursionLimit - startStep input).toNat

/-- What is left for a workflow: the levels below it, the supersteps, the answers
of its run, and the children to be started for it. -/
noncomputable def weight (levels : Nat) (tree : List (Workflow threshold Chan))
    (wf : Workflow threshold Chan) : Nat ×ₗ Nat ×ₗ Ordinal ×ₗ Nat :=
  toLex (levels - wf.workflowId.length,
    toLex (superstepsLeft wf.current.input, toLex (wf.distance, toStart tree wf)))

section Weights

variable {levels : Nat} {front back : List (Workflow threshold Chan)}

theorem toStart_mono (fewer : ∀ call, Unstarted tree' call → Unstarted tree call) :
    toStart tree' wf ≤ toStart tree wf := by
  classical
  refine List.countP_mono_left fun q _ unstarted => ?_
  obtain ⟨call, child, unstarted⟩ := of_decide_eq_true unstarted
  exact decide_eq_true ⟨call, child, fewer call unstarted⟩

theorem weight_mono (fewer : ∀ call, Unstarted tree' call → Unstarted tree call) :
    weight levels tree' wf ≤ weight levels tree wf := by
  unfold weight
  simp only [Prod.Lex.toLex_le_toLex, lt_irrefl, false_or, true_and]
  exact toStart_mono fewer

/-- The others are as far as they were when one goes on in place. -/
theorem weight_replaced {x y : Workflow threshold Chan} (same : y.first = x.first) :
    weight levels (front ++ y :: back) wf = weight levels (front ++ x :: back) wf :=
  le_antisymm (weight_mono fun call => (unstarted_replaced same call).mp)
    (weight_mono fun call => (unstarted_replaced same call).mpr)

/-- A run nearer to its end is lighter. -/
theorem weight_of_distance {action : Action Response Signal}
    (nearer : (wf.act action).distance < wf.distance) :
    weight levels tree' (wf.act action) < weight levels tree wf := by
  unfold weight
  simp only [Prod.Lex.toLex_lt_toLex]
  exact .inr ⟨rfl, .inr ⟨rfl, .inl nearer⟩⟩

/-- A run that continues as new leaves fewer supersteps to the next one. -/
theorem superstepsLeft_continued {S : Setting Chan} {uuids : Nat → String} {arrived : List Signal}
    {script rest : List (Action Response Signal)} {next : WorkflowInput} {w : Execution Chan}
    (continued : replayExecution S threshold uuids arrived script = .done (.continueAsNew next) rest w) :
    superstepsLeft next < superstepsLeft S.input := by
  obtain ⟨history, ends⟩ := continued_ends continued
  obtain ⟨count, within, numbered⟩ := executionHistory_numbered (S := S) threshold uuids arrived script
  obtain ⟨count', numbered', starts⟩ := startStep_continued ends
  obtain ⟨step, tasks, begun⟩ := began_of_continued continued
  have limit : next.recursionLimit = S.input.recursionLimit := by
    obtain ⟨n, here, rfl⟩ := ends
    rfl
  have same : count = count' := by
    rw [history, numbered'] at numbered
    simpa using (congrArg List.length numbered).symm
  have some : 0 < count' := by
    have mem : step ∈ stepsOf w.history := List.mem_filterMap.mpr ⟨_, begun, rfl⟩
    rw [numbered', List.mem_range'_1] at mem
    omega
  unfold superstepsLeft
  rw [limit, starts]
  omega

theorem weight_continued {S : Setting Chan} {rest : List (Action Response Signal)} {w : Execution Chan}
    (ended : wf.outcome = .done (.continueAsNew S.input) rest w)
    (named : S.env.workflowId = wf.current.env.workflowId) (uuids : Nat → String) (arrived : List Signal) :
    weight levels tree' (wf.continueAsNew ended named uuids arrived) < weight levels tree wf := by
  unfold weight
  simp only [Prod.Lex.toLex_lt_toLex]
  exact .inr ⟨rfl, .inl (superstepsLeft_continued ended)⟩

/-- **Whatever happens makes what is left less.** -/
theorem advances_sinks (bounded : ∀ wf ∈ tree', wf.workflowId.length ≤ levels)
    (advances : Advances tree tree') :
    (weights (weight levels tree') tree').IsDershowitzMannaLT (weights (weight levels tree) tree) := by
  classical
  cases advances with
  | answer i r waits =>
      exact replaced_lt (weight_of_distance (Workflow.distance_answered waits i r)) fun _ _ =>
        weight_replaced rfl
  | continueAsNew ended named uuids arrived =>
      exact replaced_lt (weight_continued ended named uuids arrived) fun _ _ => weight_replaced rfl
  | @child _ parent call S member awaits input named free unstarted uuids arrived =>
      have fewer (other : ChildCall) : Unstarted (.begin S uuids arrived :: tree) other → Unstarted tree other :=
        fun held x mem => held x (List.mem_cons_of_mem _ mem)
      have started : ¬Unstarted (.begin S uuids arrived :: tree) call :=
        fun held => held _ List.mem_cons_self named input
      refine added_lt member ?_ (fun _ _ => weight_mono fewer) ?_
      · unfold weight
        simp only [Prod.Lex.toLex_lt_toLex]
        refine .inr ⟨trivial, .inr ⟨trivial, .inr ⟨trivial, ?_⟩⟩⟩
        refine countP_lt awaits.1 (fun q _ held => ?_) (fun held => ?_) (decide_eq_true ⟨call, rfl, unstarted⟩)
        · obtain ⟨other, same, held⟩ := of_decide_eq_true held
          exact decide_eq_true ⟨other, same, fewer other held⟩
        · obtain ⟨other, same, held⟩ := of_decide_eq_true held
          cases same
          exact started held
      · have below : parent.workflowId.length < call.id.length := length_lt_of_awaits awaits
        have short := bounded _ List.mem_cons_self
        change S.env.workflowId.length ≤ levels at short
        rw [named] at short
        unfold weight
        simp only [Prod.Lex.toLex_lt_toLex]
        refine .inl ?_
        show levels - S.env.workflowId.length < levels - parent.workflowId.length
        rw [named]
        omega

/-- A signal leaves no more to do. -/
theorem signals_sink (signals : Signals tree tree') :
    weights (weight levels tree') tree' = weights (weight levels tree) tree ∨
      (weights (weight levels tree') tree').IsDershowitzMannaLT (weights (weight levels tree) tree) := by
  obtain ⟨waits, signals⟩ := signals
  rename_i front back wf
  rcases Workflow.distance_signalled waits signals with nearer | ⟨same, requests⟩
  · exact .inr (replaced_lt (weight_of_distance nearer) fun _ _ => weight_replaced rfl)
  · refine .inl (replaced_eq ?_ fun _ _ => weight_replaced rfl)
    have here : weight levels (front ++ wf.act (.signals signals) :: back) (wf.act (.signals signals)) =
        weight levels (front ++ wf.act (.signals signals) :: back) wf := by
      unfold weight toStart
      rw [same, requests]
      rfl
    rw [here]
    exact weight_replaced rfl

end Weights

/-! ## Coming to rest -/

/-- The moments of a tree, one after the other: it goes on by itself, signals
arrive, or nothing happens. As long as it can go on by itself, it some time does,
and its graphs are nested to a bounded depth. -/
structure TreeRun (threshold : Option Nat) (root : Setting Chan)
    (run : Nat → List (Workflow threshold Chan)) : Prop where
  start : (treeMachine threshold root).Reachable (run 0)
  moves : ∀ n, Advances (run n) (run (n + 1)) ∨ Signals (run n) (run (n + 1)) ∨ run (n + 1) = run n
  goesOn : ∀ n, (∃ next, Advances (run n) next) → ∃ m ≥ n, Advances (run m) (run (m + 1))
  levels : ∃ bound, ∀ n, ∀ wf ∈ run n, wf.workflowId.length ≤ bound

theorem TreeRun.reachable {run : Nat → List (Workflow threshold Chan)} (goes : TreeRun threshold root run)
    (n : Nat) : (treeMachine threshold root).Reachable (run n) := by
  induction n with
  | zero => exact goes.start
  | succ n ih =>
      rcases goes.moves n with advances | signals | still
      · exact .step ih advances.step
      · exact .step ih signals.step
      · rw [still]
        exact ih

/-- From some moment on, nothing more can happen. -/
theorem TreeRun.stuck {run : Nat → List (Workflow threshold Chan)} (goes : TreeRun threshold root run) :
    ∃ n, ∀ m ≥ n, ∀ next, ¬Advances (run m) next := by
  obtain ⟨bound, short⟩ := goes.levels
  let left := fun n => weights (weight bound (run n)) (run n)
  have sinks (n : Nat) : left (n + 1) = left n ∨ (left (n + 1)).IsDershowitzMannaLT (left n) := by
    rcases goes.moves n with advances | signals | still
    · exact .inr (advances_sinks (short (n + 1)) advances)
    · exact signals_sink signals
    · simp only [left, still, true_or]
  obtain ⟨n, settled⟩ := settles Multiset.wellFounded_isDershowitzMannaLT left sinks
  refine ⟨n, fun m later next advances => ?_⟩
  obtain ⟨last, after, advances⟩ := goes.goesOn m ⟨next, advances⟩
  have lower : (left (last + 1)).IsDershowitzMannaLT (left last) := advances_sinks (short (last + 1)) advances
  rw [settled last (by omega), settled (last + 1) (by omega)] at lower
  exact Multiset.wellFounded_isDershowitzMannaLT.irrefl.irrefl _ lower

/-- Nothing happens to closed workflows. -/
theorem not_advances_of_closed (shut : ∀ wf ∈ tree, wf.closed = true) : ¬Advances tree tree' := by
  intro advances
  cases advances with
  | @answer front back wf i r waits =>
      have closed := shut wf (List.mem_append_right _ List.mem_cons_self)
      unfold Workflow.closed at closed
      unfold Workflow.waits at waits
      cases outcome : wf.outcome with
      | blocked qs k w =>
          rw [outcome] at closed
          cases closed
      | _ =>
          rw [outcome] at waits
          cases waits
  | @continueAsNew front back wf S rest w ended =>
      have closed := shut wf (List.mem_append_right _ List.mem_cons_self)
      unfold Workflow.closed at closed
      rw [ended] at closed
      cases closed
  | @child _ parent call S member awaits =>
      have closed := shut parent member
      obtain ⟨k, w, blocked⟩ := Workflow.blocked_of_request awaits.1
      unfold Workflow.closed at closed
      rw [blocked] at closed
      cases closed

section Runs

open Reference

/-- The root waits for its child, the child returns, and then the root. -/
def returning : Nat → List (Workflow none Channel)
  | 0 => [launched innerSetting, launched (outerSetting false)]
  | 1 => [innerDone, launched (outerSetting false)]
  | _ => returnedTree

theorem returning_run : TreeRun none (outerSetting false) returning := by
  have inside : Advances (returning 0) (returning 1) := by
    show Advances ([] ++ launched innerSetting :: [launched (outerSetting false)])
      ([] ++ innerDone :: [launched (outerSetting false)])
    refine .answer 0 _ rfl ?_ (Workflow.accepted_of_stopped rfl)
    exact fun call node asked => by cases asked
  have outside : Advances (returning 1) (returning 2) := by
    show Advances ([innerDone] ++ launched (outerSetting false) :: []) ([innerDone] ++ outerDone :: [])
    refine .answer 0 _ rfl ?_ (Workflow.accepted_of_stopped rfl)
    intro call node asked started
    cases asked
    exact ⟨innerDone, List.mem_cons_self, rfl, rfl, .output _ _ _⟩
  have done (n : Nat) : returning (n + 2) = returnedTree := rfl
  have shut : ∀ wf ∈ returnedTree, wf.closed = true := by
    intro wf mem
    rcases List.mem_cons.mp mem with rfl | mem
    · rfl
    · rw [List.mem_singleton.mp mem]
      rfl
  refine ⟨?_, ?_, ?_, 12, ?_⟩
  · exact inner_reachable (.init ⟨_, _, rfl⟩) rfl (List.mem_of_getElem? (i := 1) rfl) (by decide)
  · intro n
    rcases n with _ | _ | n
    · exact .inl inside
    · exact .inl outside
    · exact .inr (.inr rfl)
  · intro n more
    rcases n with _ | _ | n
    · exact ⟨0, le_rfl, inside⟩
    · exact ⟨1, le_rfl, outside⟩
    · obtain ⟨next, advances⟩ := more
      exact absurd advances (not_advances_of_closed shut)
  · have inner : innerDone.workflowId.length = 12 := rfl
    have child : (launched innerSetting).workflowId.length = 12 := rfl
    have outer : outerDone.workflowId.length = 8 := rfl
    have parent : (launched (outerSetting false)).workflowId.length = 8 := rfl
    intro n
    rcases n with _ | _ | n
    · simp [returning, child, parent]
    · simp [returning, inner, parent]
    · simp [done, returnedTree, inner, outer]

end Runs

end LanggraphTemporal.Properties
