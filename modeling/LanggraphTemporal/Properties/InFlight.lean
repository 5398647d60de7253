/-
# Properties.InFlight -- what is begun, answered and waited for

An execution begins activities, child workflows and searches for a worker, many
of them side by side, and the answers come in any order.  Whenever it waits, what it
has begun is, counted, what has been answered and what it waits for
(`execution_accounted`): as many activities of a kind are waited for as were
dispatched and have not been answered.  So nothing is in flight when the workflow
ends or continues as new, nor while it is paused; only a failure abandons what
was begun beside it.
-/
import LanggraphTemporal.Theory.CoroutineAccounts
import LanggraphTemporal.Machine.Children
import Mathlib.Algebra.Order.Group.Multiset

namespace LanggraphTemporal.Properties

set_option autoImplicit false

open Theory Theory.System Theory.History Model Model.LangGraphWorkflow Machine

variable {Chan α : Type}

/-! ## Errands -/

/-- What an execution asks Temporal to do. -/
inductive Errand where
  | activity (input : NodeActivityInput) (call : ActivityCall)
  | child (call : ChildCall)
  | search

/-- The errand that an entry begins. -/
def Errand.ofEvent : Event → Option Errand
  | .dispatched input call => some (.activity input call)
  | .subgraphStarted _ call => some (.child call)
  | .subagentStarted call => some (.child call)
  | .discovering => some .search
  | _ => none

/-- The errand that a request waits for. -/
def Errand.ofRequest : Request → Option Errand
  | .executeActivity _ input call => some (.activity input call)
  | .executeChildWorkflow call => some (.child call)
  | .getAvailableTaskQueue => some .search
  | .resumeEvent => none

def begunIn (h : List Event) : List Errand := h.filterMap Errand.ofEvent

def waitedFor (qs : List Request) : List Errand := qs.filterMap Errand.ofRequest

/-- The errands that these answers are of. -/
def answeredIn (told : List (Request × Response)) : List Errand := waitedFor (told.map Prod.fst)

/-- The errands begun are those answered, and those waited for. An error abandons
the ones beside it, and a pause waits for none. -/
def Accounted (told : List (Request × Response)) : RunOutcome Chan → Prop :=
  fun outcome =>
    match outcome with
    | .done _ _ w => (begunIn w.history).Perm (answeredIn told)
    | .failed _ w => (answeredIn told).Subperm (begunIn w.history)
    | .blocked qs _ w => (begunIn w.history).Perm (answeredIn told ++ waitedFor qs) ∧
        (inPause w.history → waitedFor qs = [])
    | .refused => True

/-! ## The methods -/

def begunBy (w : Execution Chan) : Multiset Errand := begunIn w.history

def weighs (q : Request) : Multiset Errand := waitedFor [q]

theorem sum_weighs (qs : List Request) : (qs.map weighs).sum = waitedFor qs := by
  induction qs with
  | nil => rfl
  | cons q qs ih =>
      have split : waitedFor (q :: qs) = waitedFor [q] ++ waitedFor qs := by
        unfold waitedFor
        rw [← List.filterMap_append]
        rfl
      rw [List.map_cons, List.sum_cons, ih, split]
      rfl

theorem answered_weighs (told : List (Request × Response)) :
    answered weighs told = answeredIn told := by
  have map : told.map (fun p => weighs p.1) = (told.map Prod.fst).map weighs := by simp
  unfold answered answeredIn
  rw [map, sum_weighs]

theorem begunBy_log (w : Execution Chan) (e : Event) :
    begunBy (w.log e) = begunBy w + ((begunIn [e] : List Errand) : Multiset Errand) := by
  show ((begunIn (w.history ++ [e]) : List Errand) : Multiset Errand) = _
  unfold begunIn
  rw [List.filterMap_append]
  rfl

section Methods

variable {env : Env Chan} {w : Execution Chan} {Fails : Multiset Errand → Prop}

abbrev ClearsErrands (c : WorkflowM Chan α) : Prop := ∀ w, Clears begunBy weighs 0 c w

abbrev BalancesErrands (c : WorkflowM Chan α) : Prop := ∀ w, Balances begunBy weighs 0 c w

theorem ClearsErrands.balances {c : WorkflowM Chan α} (clears : ClearsErrands c) : BalancesErrands c :=
  fun w => (clears w).mono fun _ _ => trivial

theorem setSelf_accounts (f : LangGraphWorkflow Chan → LangGraphWorkflow Chan) :
    Accounts begunBy weighs Fails 0 (setSelf f) w := .modify fun _ => rfl

/-- An entry that begins nothing. -/
theorem record_accounts {e : Event} (begins : Errand.ofEvent e = none) :
    Accounts begunBy weighs Fails 0 (record e) w := by
  refine .modify fun t => ?_
  rw [begunBy_log, begunIn, List.filterMap_cons_none begins]
  exact add_zero _

/-- A job is begun and asked for. -/
theorem job_accounts {e : Event} {q : Request} {f : Response → WorkflowM Chan α}
    (same : Errand.ofEvent e = Errand.ofRequest q) (next : ∀ r t, Accounts begunBy weighs Fails 0 (f r) t) :
    Accounts begunBy weighs Fails 0 ((record e).bind fun _ => (Coro.request q).bind f) w := by
  refine .ask (fun t => ?_) next
  rw [begunBy_log]
  unfold begunIn weighs waitedFor
  rw [List.filterMap_cons, List.filterMap_cons, same]
  rfl

theorem getAvailableTaskQueue_clears : ClearsErrands (getAvailableTaskQueue : WorkflowM Chan String) := by
  refine fun w => job_accounts rfl fun r t => ?_
  cases r with
  | queue name => exact (record_accounts rfl).bind fun _ _ => rfl
  | _ => exact rfl

theorem rediscoverWorker_clears : ClearsErrands (rediscoverWorker : WorkflowM Chan Unit) :=
  fun _ => (setSelf_accounts _).bind fun _ t => (getAvailableTaskQueue_clears t).bind fun _ _ =>
    setSelf_accounts _

theorem dispatchActivity_clears (input : NodeActivityInput) (nodeName : String) :
    ClearsErrands (dispatchActivity input nodeName : WorkflowM Chan _) := by
  refine fun _ => job_accounts rfl fun r t => ?_
  cases r with
  | activityError message =>
      refine (record_accounts rfl).bind fun _ u => ?_
      show Accounts _ _ _ 0 (ite _ _ _) u
      split
      · exact rfl
      · exact rfl
  | _ => exact rfl

theorem executeSingleActivity_clears (input : NodeActivityInput) (nodeName : String) :
    ClearsErrands (executeSingleActivity input nodeName : WorkflowM Chan _) := by
  refine fun w => (dispatchActivity_clears input nodeName w).bind fun first t => ?_
  cases first with
  | some result => exact rfl
  | none =>
      refine (rediscoverWorker_clears t).bind fun _ u => (dispatchActivity_clears _ _ u).bind fun second v => ?_
      cases second with
      | some result => exact rfl
      | none => exact rfl

theorem executeSubgraph_clears (t : PregelTask) (name : String) :
    ClearsErrands (executeSubgraphAsChildWorkflow env t name) := by
  intro w
  refine ⟨0, (add_zero _).symm, ?_⟩
  rw [add_zero]
  refine job_accounts rfl fun r t => ?_
  cases r with
  | _ => exact rfl

theorem executeTask_clears (graph : Pregel Chan) (graphRef : String) (values : Dict PyVal) (t : PregelTask) :
    ClearsErrands (executeTask env graph graphRef values t) := by
  unfold executeTask
  split
  · exact executeSubgraph_clears t _
  · exact executeSingleActivity_clears _ _

theorem awaitAll_balances {ι : Type} {f : ι → WorkflowM Chan NodeActivityOutput}
    (each : ∀ x, ClearsErrands (f x)) : ∀ xs : List ι, BalancesErrands (awaitAll (xs.map f))
  | [], _ => rfl
  | [x], w => ((each x).balances w).bind fun _ _ => rfl
  | x :: y :: xs, _ => .gather (fun x t => (each x).balances t) (x :: y :: xs)

theorem executeNodes_balances (graph : Pregel Chan) (tasks : List PregelTask) :
    BalancesErrands (executeNodes env graph tasks) :=
  fun w => awaitAll_balances (executeTask_clears graph _ _) _ w

theorem executeResumed_clears (values : Dict PyVal) :
    ∀ rs : List NodeActivityOutput, ClearsErrands (executeResumed values rs : WorkflowM Chan _)
  | [], _ => rfl
  | _ :: rs, w => (executeSingleActivity_clears _ _ w).bind fun _ t =>
      (executeResumed_clears values rs t).bind fun _ _ => rfl

theorem executePushTasks_balances (sends : List SendRequest) : BalancesErrands (executePushTasks env sends) :=
  fun w => awaitAll_balances (fun _ => executeSingleActivity_clears _ _) sends w

theorem dispatchChildWorkflow_clears (req : ChildRequest) (input : WorkflowInput) (index : Nat) :
    ClearsErrands (dispatchChildWorkflow env req input index) := by
  refine fun w => job_accounts rfl fun r t => ?_
  cases r with
  | _ => exact rfl

theorem serveRequests_balances (input : WorkflowInput) (result : NodeActivityOutput) :
    BalancesErrands (serveRequests env input result) := by
  unfold serveRequests
  intro w
  split
  · exact rfl
  · refine Accounts.bind (.gather (fun p t => ?_) _) fun outputs t => ?_
    · exact .attempt (dispatchChildWorkflow_clears p.1 input p.2 t)
    · split
      · exact rfl
      · trivial

theorem processChildWorkflowRequests_balances (input : WorkflowInput) :
    ∀ rs, BalancesErrands (processChildWorkflowRequests env input rs)
  | [], _ => rfl
  | r :: rs, w => (serveRequests_balances input r w).bind fun _ t =>
      (processChildWorkflowRequests_balances input rs t).bind fun _ _ => rfl

theorem getSelf_accounts {f : LangGraphWorkflow Chan → WorkflowM Chan α}
    (next : Accounts begunBy weighs Fails 0 (f w.self) w) :
    Accounts begunBy weighs Fails 0 (getSelf.bind f) w :=
  next

theorem waitForResume_balances : BalancesErrands (waitForResume : WorkflowM Chan Unit) := by
  refine fun _ => (setSelf_accounts _).bind fun _ t => getSelf_accounts ?_
  refine (record_accounts rfl).bind fun _ u => Accounts.bind (.request rfl) fun _ v => ?_
  exact (setSelf_accounts _).bind fun _ _ => getSelf_accounts (record_accounts rfl)

theorem interruptCheck_balances (nodes : Option InterruptNodes) (entry : String → PendingInterrupt)
    (tasks : List PregelTask) : BalancesErrands (interruptCheck nodes entry tasks : WorkflowM Chan Unit) := by
  intro w
  unfold interruptCheck
  split
  · exact (setSelf_accounts _).bind fun _ t => waitForResume_balances t
  · exact rfl

theorem handleInterrupted_balances (results : List NodeActivityOutput) :
    BalancesErrands (handleInterrupted env results) := by
  intro w
  unfold handleInterrupted
  dsimp only
  split
  · exact (record_accounts rfl).bind fun _ _ => rfl
  · refine (setSelf_accounts _).bind fun _ t => (waitForResume_balances t).bind fun _ u => ?_
    refine Accounts.bind (getSelf_accounts ((executeResumed_clears _ _).balances u)) fun resumed v => ?_
    exact (record_accounts rfl).bind fun _ _ => rfl

theorem handleSends_balances (route : Route) (sends : List SendRequest) (results : List NodeActivityOutput) :
    BalancesErrands (handleSends env route sends results) := by
  intro w
  unfold handleSends
  split
  · exact (record_accounts rfl).bind fun _ _ => rfl
  · refine (executePushTasks_balances sends w).bind fun outputs t => ?_
    exact (record_accounts rfl).bind fun _ _ => rfl

theorem applyResults_balances (graph : Pregel Chan) (results : List NodeActivityOutput) :
    BalancesErrands (applyResults env graph results) := by
  intro w
  unfold applyResults
  dsimp only
  split
  · exact record_accounts rfl
  · refine getSelf_accounts ?_
    split
    · exact (setSelf_accounts _).bind fun _ t => record_accounts rfl
    · trivial

theorem superstep_balances (graph : Pregel Chan) (input : WorkflowInput) (tasks : List PregelTask) :
    BalancesErrands (superstep env graph input tasks) := by
  refine fun w => (interruptCheck_balances _ _ _ w).bind fun _ t => ?_
  refine (executeNodes_balances graph tasks t).bind fun outputs t => (record_accounts rfl).bind fun _ t => ?_
  refine (processChildWorkflowRequests_balances input outputs t).bind fun results t => ?_
  refine (record_accounts rfl).bind fun _ t => ?_
  refine (handleInterrupted_balances results t).bind fun results t => ?_
  refine (handleSends_balances .push _ results t).bind fun results t => ?_
  refine (handleSends_balances .goto _ results t).bind fun results t => ?_
  refine (applyResults_balances graph results t).bind fun _ t => (setSelf_accounts _).bind fun _ t => ?_
  refine (interruptCheck_balances _ _ _ t).bind fun _ t => (setSelf_accounts _).bind fun _ t => ?_
  exact record_accounts rfl

theorem finish_balances : BalancesErrands (finish env) :=
  fun _ => (setSelf_accounts _).bind fun _ _ => getSelf_accounts rfl

theorem loop_balances (threshold : Option Nat) (graph : Pregel Chan) (input : WorkflowInput) :
    ∀ fuel steps, BalancesErrands (loop env threshold graph input fuel steps)
  | 0, _, _ => trivial
  | fuel + 1, steps, w => by
      unfold loop
      refine getSelf_accounts ?_
      split
      · dsimp only
        split
        · exact (setSelf_accounts _).bind fun _ t => finish_balances t
        · refine (record_accounts rfl).bind fun _ t => (superstep_balances graph input _ t).bind fun _ t => ?_
          split
          · exact getSelf_accounts rfl
          · exact loop_balances threshold graph input fuel (steps + 1) t
      · exact finish_balances w

theorem opening_balances (S : Setting Chan) (threshold : Option Nat) :
    BalancesErrands (opening S threshold) := by
  intro w
  unfold opening
  refine getSelf_accounts ?_
  split
  · trivial
  · exact (setSelf_accounts _).bind fun _ t => loop_balances threshold S.graph S.input _ 0 t

theorem run_balances (S : Setting Chan) (threshold : Option Nat) :
    BalancesErrands (run S.env threshold S.input) := by
  intro w
  rw [run_eq]
  refine (setSelf_accounts _).bind fun _ t => (setSelf_accounts _).bind fun _ t => ?_
  split
  · refine (getAvailableTaskQueue_clears.balances t).bind fun queue t => ?_
    exact (setSelf_accounts _).bind fun _ t => opening_balances S threshold t
  · exact opening_balances S threshold t

end Methods

/-! ## Executions -/

theorem begunBy_handle {env : Env Chan} {w w' : Execution Chan} {signal : Signal}
    (handled : (workflowSystem env).handle signal w = .ok w') : begunBy w' = begunBy w := by
  show ((begunIn w'.history : List Errand) : Multiset Errand) = _
  rw [handle_history handled]
  unfold begunIn
  rw [List.filterMap_append]
  exact congrArg _ (List.append_nil _)

theorem weighs_ready {env : Env Chan} {q : Request} {w : Execution Chan} {r : Response}
    (ready : (workflowSystem env).ready q w = some r) : weighs q = 0 := by
  cases q with
  | resumeEvent => rfl
  | _ => cases ready

theorem accounted_of_balanced {outcome : RunOutcome Chan} {start : Execution Chan}
    {told : List (Request × Response)} (fresh : begunBy start = 0)
    (balanced : Balanced begunBy weighs 0 start told outcome)
    (idle : ∀ qs k w, outcome = .blocked qs k w → inPause w.history → qs = [.resumeEvent]) :
    Accounted told outcome := by
  cases outcome with
  | done result rest w =>
      have equal : begunBy w + 0 = begunBy start + answered weighs told := balanced
      rw [fresh, answered_weighs, add_zero, zero_add] at equal
      exact Multiset.coe_eq_coe.mp equal
  | failed e w =>
      obtain ⟨abandoned, equal⟩ := balanced
      rw [fresh, answered_weighs, add_zero, zero_add] at equal
      refine Multiset.coe_le.mp ?_
      show _ ≤ begunBy w
      rw [equal]
      exact Multiset.le_add_right _ _
  | blocked qs k w =>
      have equal : begunBy w + 0 = begunBy start + answered weighs told + (qs.map weighs).sum := balanced
      rw [fresh, answered_weighs, sum_weighs, add_zero, zero_add] at equal
      refine ⟨Multiset.coe_eq_coe.mp equal, fun paused => ?_⟩
      rw [idle qs k w rfl paused]
      rfl
  | refused => trivial

theorem accounted_of_execution (S : Setting Chan) (threshold : Option Nat) (uuids : Nat → String)
    (arrived : List Signal) (script : List (Action Response Signal)) :
    Accounted (executionTranscript S threshold uuids arrived script)
      (replayExecution S threshold uuids arrived script) := by
  have holds := execution_refines S threshold uuids arrived script
  have idle : ∀ qs k w, replayExecution S threshold uuids arrived script = .blocked qs k w →
      inPause w.history → qs = [.resumeEvent] := by
    intro qs k w blocked paused
    rw [blocked] at holds
    exact (holds.pause paused).1
  revert idle
  unfold replayExecution executionTranscript
  cases delivered : (workflowSystem S.env).deliver arrived (created S uuids) with
  | ok start =>
      intro idle
      have fresh : begunBy start = begunBy (created S uuids) :=
        total_signalled (fun _ _ _ => begunBy_handle) ((workflowSystem S.env).deliver_signalled delivered)
      refine accounted_of_balanced fresh ?_ idle
      exact replay_balanced (fun _ _ _ => begunBy_handle) (fun _ _ _ => weighs_ready) _ 0 script start
        (run_balances S threshold start)
  | error failure =>
      intro idle
      exact List.nil_subperm

/-- **What an execution has begun is what has been answered, and what it waits
for**, whatever the order of the answers, the signals and the child workflows. -/
theorem execution_accounted (S : Setting Chan) (threshold : Option Nat) (uuids : Nat → String)
    (arrived : List Signal) (script : List (Action Response Signal)) :
    Accounted (executionTranscript S threshold uuids arrived script)
      (replayExecution S threshold uuids arrived script) :=
  accounted_of_execution S threshold uuids arrived script

/-- What an execution waits for, it has begun. -/
theorem begun_of_waits {S : Setting Chan} {threshold : Option Nat} {uuids : Nat → String}
    {arrived : List Signal} {script : List (Action Response Signal)} {qs : List Request}
    {k : Nat → Response → WorkflowM Chan RunResult} {w : Execution Chan} {errand : Errand}
    (blocked : replayExecution S threshold uuids arrived script = .blocked qs k w)
    (waits : errand ∈ waitedFor qs) : errand ∈ begunIn w.history := by
  have accounted := accounted_of_execution S threshold uuids arrived script
  rw [blocked] at accounted
  exact accounted.1.mem_iff.mpr (List.mem_append_right _ waits)

end LanggraphTemporal.Properties
