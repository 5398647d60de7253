/-
# Properties.Retries -- which failures are retried

Three layers decide whether a node is executed again.  The activity evaluates
`retry_on`, and asks it whether it is callable: a class is, and a sequence is
not, so neither is matched against the exception.  A compiled graph keeps a
sequence of policies for its nodes, and that has no `retry_on` at all
(`retryOn_honoured_iff`).
Temporal retries what the activity re-raises, and an attempt whose worker is
lost, up to the policy of the node.  And the workflow falls back to another
worker on any failure at all: the node may then fail twice as often as its
policy allows, and its own error is replaced (`retries_within_policy_iff`).
-/
import LanggraphTemporal.Theory.Attempts
import LanggraphTemporal.Machine.Reference
import LanggraphTemporal.Model.Activities

namespace LanggraphTemporal.Properties

set_option autoImplicit false

open Theory Model Model.LangGraphWorkflow

variable {Chan : Type}

/-! ## `retry_on` -/

/-- `isinstance(exc, cls)`, for the `__mro__` of each exception class. -/
def IsInstance (mro : String → List String) (exc : Exc) (cls : String) : Prop := cls ∈ mro exc.type

/-- What `retry_on` says of an exception. -/
def RetriedOn (mro : String → List String) (exc : Exc) : RetryOn → Prop
  | .exceptionClass cls _ => IsInstance mro exc cls
  | .exceptionClasses classes => ∃ cls ∈ classes, IsInstance mro exc cls
  | .predicate p => p exc = true

/-- What a retry policy says of an exception; of a sequence, any may match it. -/
def Matches (mro : String → List String) (exc : Exc) : KeptPolicy → Prop
  | .policy retryOn => RetriedOn mro exc retryOn
  | .sequence retryOns => ∃ retryOn ∈ retryOns, RetriedOn mro exc retryOn

/-- The policy of a node: the graph's `retry_policies` come before what the node
itself keeps. -/
def HasPolicy (graph : GraphCode) (nodeName : String) (code : NodeCode) (policy : KeptPolicy) :
    Prop :=
  graph.retryPolicies.get? nodeName = some policy ∨
    (graph.retryPolicies.get? nodeName = none ∧ code.retryPolicy = some policy)

/-- The node of this input raises an exception, or one of its writers does. -/
def Raises (code : NodeCode) (input : NodeActivityInput) (exc : Exc) : Prop :=
  let run := code.ainvoke (Activities.nodeInput input) input.inputState (input.resumeValues.getD [])
  run.outcome = .raised exc ∨
    ∃ result, run.outcome = .returned result ∧ Activities.runsWriters result = true ∧
      Activities.runWriters input.inputState result code.writers run.sent = .error exc

/-- The activity re-raises an exception that the policy matches, and fails with a
non-retryable error on any other. -/
def HonoursRetryOn (mro : String → List String) (exc : Exc) (policy : KeptPolicy)
    (result : Except NodeFailure NodeActivityOutput) : Prop :=
  (result = .error (.reraised exc) ↔ Matches mro exc policy) ∧
    (¬Matches mro exc policy → ∃ type message, result = .error (.nonRetryable type message))

/-- A single policy that has a predicate, or a class whose call on the exception
tells whether it matches; and any other that does match. -/
def Answers (mro : String → List String) (exc : Exc) : KeptPolicy → Prop
  | .policy (.exceptionClass cls construct) =>
      (IsInstance mro exc cls ∧ construct exc = .ok true) ∨
        (¬IsInstance mro exc cls ∧ construct exc = .ok false)
  | .policy (.exceptionClasses classes) => ∃ cls ∈ classes, IsInstance mro exc cls
  | .policy (.predicate _) => True
  | .sequence retryOns => ∃ retryOn ∈ retryOns, RetriedOn mro exc retryOn

theorem getNodeRetryPolicy_of_hasPolicy {graph : GraphCode} {nodeName : String} {code : NodeCode}
    {policy : KeptPolicy} (found : graph.nodes nodeName = some code)
    (configured : HasPolicy graph nodeName code policy) :
    Activities.getNodeRetryPolicy graph nodeName = some policy := by
  unfold Activities.getNodeRetryPolicy
  rcases configured with here | ⟨missing, here⟩
  · rw [here]
  · rw [missing, found]
    exact here

theorem executeNodeImpl_of_raises {untracked : Chan → Bool} {channels : Dict Chan}
    {graph : GraphCode} {input : NodeActivityInput} {code : NodeCode} {exc : Exc}
    (found : graph.nodes input.nodeName = some code) (raises : Raises code input exc) :
    Activities.executeNodeImpl untracked channels graph input =
      .error (Activities.failure (Activities.getNodeRetryPolicy graph input.nodeName) exc) := by
  rcases raises with raised | ⟨result, returned, runs, raised⟩
  · simp [Activities.executeNodeImpl, found, raised]
  · simp [Activities.executeNodeImpl, found, returned, runs, raised]

theorem honoursRetryOn_iff {mro : String → List String} {exc : Exc} {policy : KeptPolicy}
    {failure : NodeFailure} :
    HonoursRetryOn mro exc policy (.error failure) ↔
      (Matches mro exc policy ∧ failure = .reraised exc) ∨
        (¬Matches mro exc policy ∧ ∃ type message, failure = .nonRetryable type message) := by
  unfold HonoursRetryOn
  simp only [Except.error.injEq]
  constructor
  · rintro ⟨reraised, otherwise⟩
    by_cases matched : Matches mro exc policy
    · exact .inl ⟨matched, reraised.mpr matched⟩
    · exact .inr ⟨matched, otherwise matched⟩
  · rintro (⟨matched, rfl⟩ | ⟨unmatched, type, message, rfl⟩)
    · exact ⟨iff_of_true rfl matched, fun unmatched => absurd matched unmatched⟩
    · exact ⟨iff_of_false nofun unmatched, fun _ => ⟨type, message, rfl⟩⟩

/-- What is not asked is as good as matched. -/
theorem honoursRetryOn_reraised {mro : String → List String} {exc : Exc} {policy : KeptPolicy} :
    HonoursRetryOn mro exc policy (.error (.reraised exc)) ↔ Matches mro exc policy := by
  rw [honoursRetryOn_iff]
  constructor
  · rintro (⟨matched, -⟩ | ⟨-, type, message, same⟩)
    · exact matched
    · cases same
  · exact fun matched => .inl ⟨matched, rfl⟩

/-- **`retry_on` is honoured if and only if the policy kept is a single one with a
predicate, or with a class whose call on the exception is truthy just when it
matches, or else matches**. -/
theorem retryOn_honoured_iff (mro : String → List String) (untracked : Chan → Bool)
    (channels : Dict Chan) {graph : GraphCode} {input : NodeActivityInput} {code : NodeCode}
    {exc : Exc} {policy : KeptPolicy} (found : graph.nodes input.nodeName = some code)
    (configured : HasPolicy graph input.nodeName code policy) (raises : Raises code input exc) :
    HonoursRetryOn mro exc policy (Activities.executeNodeImpl untracked channels graph input) ↔
      Answers mro exc policy := by
  rw [executeNodeImpl_of_raises found raises, getNodeRetryPolicy_of_hasPolicy found configured]
  cases policy with
  | sequence retryOns => exact honoursRetryOn_reraised
  | policy retryOn =>
      cases retryOn with
      | exceptionClasses classes => exact honoursRetryOn_reraised
      | predicate p =>
          rw [honoursRetryOn_iff]
          cases satisfied : p exc with
          | true =>
              simp [Matches, RetriedOn, Answers, Activities.failure, KeptPolicy.retryOn,
                Activities.shouldRetry, satisfied]
          | false =>
              simp [Matches, RetriedOn, Answers, Activities.failure, KeptPolicy.retryOn,
                Activities.shouldRetry, satisfied]
      | exceptionClass cls construct =>
          -- calling the class makes an instance of it, whatever the exception is
          rw [honoursRetryOn_iff]
          show (IsInstance mro exc cls ∧ _) ∨ (¬IsInstance mro exc cls ∧ _) ↔ _
          cases called : construct exc with
          | error raised =>
              simp [Answers, Activities.failure, KeptPolicy.retryOn, Activities.shouldRetry, called]
          | ok truthy =>
              cases truthy with
              | true =>
                  simp [Answers, Activities.failure, KeptPolicy.retryOn, Activities.shouldRetry, called]
              | false =>
                  simp [Answers, Activities.failure, KeptPolicy.retryOn, Activities.shouldRetry, called]

section Runs

/-- `ValueError` and `KeyError`, and what they derive from. -/
def builtinMro (cls : String) : List String :=
  if cls = "KeyError" then ["KeyError", "LookupError", "Exception"] else [cls, "Exception"]

/-- A node that raises a `KeyError`, and what it keeps as its retry policy. -/
def failingNode (retryPolicy : Option KeptPolicy) : NodeCode where
  ainvoke _ _ _ := { outcome := .raised ⟨"KeyError", "x"⟩ }
  writers := []
  retryPolicy := retryPolicy

/-- That node in a graph whose attribute `retry_policies` has a policy for it. -/
def configuredGraph (retryOn : RetryOn) : GraphCode where
  nodes _ := some (failingNode none)
  retryPolicies := Dict.ofList [("a", .policy retryOn)]

/-- That node in a compiled graph: the node keeps a sequence of policies. -/
def compiledGraph (retryOn : RetryOn) : GraphCode where
  nodes _ := some (failingNode (some (.sequence [retryOn])))

def executeFailing (graph : GraphCode) : Except NodeFailure NodeActivityOutput :=
  Activities.executeNodeImpl (fun _ => false) (∅ : Dict Unit) graph (taskInput "graph" ∅ ⟨"a", []⟩)

theorem retryOn_honoured_sequence :
    HonoursRetryOn builtinMro ⟨"KeyError", "x"⟩ (.policy (.exceptionClasses ["ValueError", "LookupError"]))
        (executeFailing (configuredGraph (.exceptionClasses ["ValueError", "LookupError"]))) ↔
      Answers builtinMro ⟨"KeyError", "x"⟩ (.policy (.exceptionClasses ["ValueError", "LookupError"])) :=
  retryOn_honoured_iff builtinMro _ _ rfl (.inl rfl) (.inl rfl)

/-- **A class that the exception is no instance of gets it retried, and so does a
predicate that is false of it, where the graph is compiled.** -/
theorem class_retries_everything :
    ¬HonoursRetryOn builtinMro ⟨"KeyError", "x"⟩
        (.policy (.exceptionClass "ValueError" fun _ => .ok true))
        (executeFailing (configuredGraph (.exceptionClass "ValueError" fun _ => .ok true))) ∧
      ¬HonoursRetryOn builtinMro ⟨"KeyError", "x"⟩ (.sequence [.predicate fun _ => false])
        (executeFailing (compiledGraph (.predicate fun _ => false))) := by
  constructor
  · intro honours
    have isInstance : "ValueError" ∈ builtinMro "KeyError" := honours.1.mp rfl
    revert isInstance
    decide
  · intro honours
    obtain ⟨retryOn, mem, matched⟩ := honours.1.mp rfl
    cases List.mem_singleton.mp mem
    cases matched

end Runs

/-! ## Attempts, dispatches and the fallback -/

/-- How one attempt at an activity ends: by itself, with the loss of its worker,
or when the time for all attempts together is over, which is the
schedule-to-close timeout. -/
inductive Ending where
  | success (r : NodeActivityOutput)
  | applicationError (exc : Exc)
  | nonRetryable (type message : String)
  | workerLost
  | timedOut

namespace Ending

/-- What the activity returns or raises. -/
def ofActivity : Except NodeFailure NodeActivityOutput → Ending
  | .ok r => .success r
  | .error (.nonRetryable type message) => .nonRetryable type message
  | .error (.reraised exc) => .applicationError exc
  | .error (.raisedInHandler exc) => .applicationError exc

/-- The result of a dispatch that ends so, or the message of its `ActivityError`. -/
def result : Ending → Except String NodeActivityOutput
  | .success r => .ok r
  | .applicationError exc => .error exc.message
  | .nonRetryable _ message => .error message
  | .workerLost => .error "activity Heartbeat timeout"
  | .timedOut => .error "activity ScheduleToClose timeout"

def response (ending : Ending) : Response :=
  match ending.result with
  | .ok r => .output r
  | .error message => .activityError message

def isApplicationError : Ending → Bool
  | .applicationError _ => true
  | .nonRetryable _ _ => true
  | _ => false

/-- The pinned worker was unavailable. -/
def isLoss : Ending → Bool
  | .workerLost => true
  | .timedOut => true
  | _ => false

/-- An application error that is not to be retried, by itself or by its type. -/
def final (types : List String) : Ending → Bool
  | .nonRetryable _ _ => true
  | .applicationError exc => types.contains exc.type
  | _ => false

/-- Temporal makes another attempt after an application error that is not final,
and after the loss of the worker, as long as the limit allows one; 0 is none. -/
def retried (types : List String) (limit made : Nat) (ending : Ending) : Bool :=
  match ending with
  | .applicationError exc => !types.contains exc.type && decide (limit = 0 ∨ made < limit)
  | .workerLost => decide (limit = 0 ∨ made < limit)
  | _ => false

end Ending

/-- The attempts of one dispatch; without a policy there is no limit. -/
def dispatch (policy : Option TemporalRetryPolicy) (tape : List Ending) : Attempts Ending :=
  match policy with
  | some policy => attempts (Ending.retried policy.nonRetryableErrorTypes policy.maximumAttempts) 0 tape
  | none => attempts (Ending.retried [] 0) 0 tape

/-- What one node meets: how its attempts end, what the search for another worker
comes to, and what the other tasks make of the sticky queue while it waits for
the `n`-th time. -/
structure Encounter where
  endings : List Ending
  search : Except String String
  others : Nat → Option String → Option String

/-- What has come of a node: its outcome, unless it still waits, and the attempts
made, dispatch by dispatch. -/
structure NodeResults where
  outcome : Option (Except RunError NodeActivityOutput)
  dispatches : List (List Ending)

/-- With the attempts of an earlier dispatch. -/
def NodeResults.after (made : List Ending) (results : NodeResults) : NodeResults :=
  { results with dispatches := made :: results.dispatches }

/-- The other tasks' part in the `n`-th wait. -/
def Encounter.meanwhile (T : Encounter) (n : Nat) (w : Execution Chan) : Execution Chan :=
  w.mapSelf fun self => { self with stickyTaskQueue := T.others n self.stickyTaskQueue }

/-- Run the coroutine of a node, which has waited `n` times. -/
def carryOut (T : Encounter) : WorkflowM Chan NodeActivityOutput → Nat → List Ending →
    Execution Chan → NodeResults
  | .ret r, _, _, _ => ⟨some (.ok r), []⟩
  | .raise e, _, _, _ => ⟨some (.error e), []⟩
  | .get k, n, tape, w => carryOut T (k w) n tape w
  | .put w k, n, tape, _ => carryOut T k n tape w
  | .await requests k, n, tape, w =>
      match requests with
      | [.executeActivity _ _ call] =>
          let tries := dispatch call.retryPolicy tape
          match tries.last with
          | none => ⟨none, [tries.made]⟩
          | some ending =>
              (carryOut T (k 0 ending.response) (n + 1) tries.rest (T.meanwhile n w)).after tries.made
      | [.getAvailableTaskQueue] =>
          match T.search with
          | .ok queue => carryOut T (k 0 (.queue queue)) (n + 1) tape (T.meanwhile n w)
          | .error message => carryOut T (k 0 (.activityError message)) (n + 1) tape (T.meanwhile n w)
      | _ => ⟨none, []⟩

/-- `max_attempts` of a node, which may have no policy. -/
def maxAttempts : Option RetryPolicyConfig → Nat
  | some config => config.maxAttempts
  | none => 0

/-- `non_retryable_error_types` of a node. -/
def nonRetryableErrorTypes : Option RetryPolicyConfig → List String
  | some config => config.nonRetryableErrorTypes.getD []
  | none => []

/-- A final error ends the node and reaches the workflow, the errors are no more
than the policy allows, and the node is dispatched again only when its worker was
lost. -/
structure WithinPolicy (config : Option RetryPolicyConfig) (results : NodeResults) : Prop where
  final : ∀ front ending back, results.dispatches.flatten = front ++ ending :: back →
    ending.final (nonRetryableErrorTypes config) = true → back = [] ∧
      ∃ message, ending.result = .error message ∧
        results.outcome = some (.error (.activityError message))
  bounded : 0 < maxAttempts config →
    results.dispatches.flatten.countP Ending.isApplicationError ≤ maxAttempts config
  fallback : ∀ first second more, results.dispatches = first :: second :: more →
    ∃ ending, first.getLast? = some ending ∧ ending.isLoss = true

/-- Worker affinity is active: the fallback is taken. -/
def pinned (w : Execution Chan) (stickyTaskQueue : Option String) : Bool :=
  w.self.useWorkerAffinity && truthy stickyTaskQueue

/-- How the node fails on its second dispatch. -/
def secondError (w : Execution Chan) (T : Encounter) (node queue message : String) : RunError :=
  if pinned w (T.others 2 (some queue)) then
    .runtimeError s!"Activity '{node}' failed after worker re-discovery"
  else .activityError message

section CarryOut

variable {T : Encounter} {w : Execution Chan} {input : NodeActivityInput} {node : String} {n : Nat}
  {tape : List Ending} {f : Option NodeActivityOutput → WorkflowM Chan NodeActivityOutput}

/-- `_dispatch_activity`, once its activity has been answered. -/
def dispatchAnswered (input : NodeActivityInput) (call : ActivityCall) :
    Response → WorkflowM Chan (Option NodeActivityOutput)
  | .output r => .ret (some r)
  | .activityError message => do
      record (.lost input call)
      let self ← getSelf
      if self.useWorkerAffinity && truthy self.stickyTaskQueue then return none
      else .raise (.activityError message)
  | _ => .raise .unexpectedAnswer

theorem carryOut_dispatch :
    carryOut T ((dispatchActivity input node).bind f) n tape w =
      match (dispatch (w.self.retryPolicyForNode node) tape).last with
      | none => ⟨none, [(dispatch (w.self.retryPolicyForNode node) tape).made]⟩
      | some ending =>
          (carryOut T ((dispatchAnswered input (w.self.activityCall node) ending.response).bind f) (n + 1)
            (dispatch (w.self.retryPolicyForNode node) tape).rest
            (T.meanwhile n (w.log (.dispatched input (w.self.activityCall node))))).after
              (dispatch (w.self.retryPolicyForNode node) tape).made := by
  have unfolded : carryOut T ((dispatchActivity input node).bind f) n tape w =
      carryOut T (.await [.executeActivity node input (w.self.activityCall node)] fun _ r =>
        (dispatchAnswered input (w.self.activityCall node) r).bind f) n tape
        (w.log (.dispatched input (w.self.activityCall node))) := rfl
  rw [unfolded]
  simp only [carryOut]
  rfl

theorem carryOut_answered {call : ActivityCall} (result : Except String NodeActivityOutput) :
    carryOut T ((dispatchAnswered input call
        (match result with
        | .ok r => .output r
        | .error message => .activityError message)).bind f) n tape w =
      match result with
      | .ok r => carryOut T (f (some r)) n tape w
      | .error message =>
          if pinned w w.self.stickyTaskQueue then carryOut T (f none) n tape (w.log (.lost input call))
          else ⟨some (.error (.activityError message)), []⟩ := by
  cases result with
  | ok r => rfl
  | error message =>
      show carryOut T ((if pinned w w.self.stickyTaskQueue then Coro.ret none
        else .raise (.activityError message)).bind f) n tape (w.log (.lost input call)) = _
      by_cases active : pinned w w.self.stickyTaskQueue = true
      · simp only [active, if_true]
        rfl
      · simp only [active]
        rfl

theorem carryOut_search {queue : String} {g : Unit → WorkflowM Chan NodeActivityOutput}
    (found : T.search = .ok queue) :
    carryOut T (rediscoverWorker.bind g) n tape w =
      carryOut T (g ()) (n + 1) tape
        (((T.meanwhile n ((w.mapSelf fun self => { self with stickyTaskQueue := none }).log
          .discovering)).log (.discovered queue)).mapSelf fun self =>
            { self with stickyTaskQueue := some queue }) := by
  unfold rediscoverWorker getAvailableTaskQueue record setSelf
  simp only [Coro.bind_eq, Coro.request, Coro.modify, Coro.bind, carryOut, found]
  rfl

theorem carryOut_search_failed {message : String} {g : Unit → WorkflowM Chan NodeActivityOutput}
    (failed : T.search = .error message) :
    carryOut T (rediscoverWorker.bind g) n tape w = ⟨some (.error (.activityError message)), []⟩ := by
  unfold rediscoverWorker getAvailableTaskQueue record setSelf
  simp only [Coro.bind_eq, Coro.request, Coro.modify, Coro.bind, carryOut, failed]

/-- What a second dispatch comes to. -/
def secondOutcome (T : Encounter) (w : Execution Chan) (node queue : String)
    (second : Attempts Ending) : Option (Except RunError NodeActivityOutput) :=
  second.last.map fun ending =>
    match ending.result with
    | .ok r => .ok r
    | .error message => .error (secondError w T node queue message)

theorem carryOut_second {v : Execution Chan} {queue : String} {second : Attempts Ending}
    (dispatched : dispatch (v.self.retryPolicyForNode node) tape = second)
    (affinity : v.self.useWorkerAffinity = w.self.useWorkerAffinity)
    (sticky : v.self.stickyTaskQueue = some queue) :
    carryOut T ((dispatchActivity input node).bind fun result =>
        match result with
        | some result => .ret result
        | none => .raise (.runtimeError s!"Activity '{node}' failed after worker re-discovery")) 2 tape v =
      ⟨secondOutcome T w node queue second, [second.made]⟩ := by
  rw [carryOut_dispatch, dispatched, secondOutcome]
  cases second.last with
  | none => rfl
  | some ending =>
      dsimp only
      unfold Ending.response
      rw [carryOut_answered]
      cases failed : ending.result with
      | ok r => simp [NodeResults.after, carryOut, failed]
      | error message =>
          have same : pinned (T.meanwhile 2 (v.log (.dispatched input (v.self.activityCall node))))
              (T.others 2 v.self.stickyTaskQueue) = pinned w (T.others 2 (some queue)) := by
            rw [sticky]
            exact congrArg (fun b => b && truthy (T.others 2 (some queue))) affinity
          show NodeResults.after _ (if pinned _ (T.others 2 v.self.stickyTaskQueue) then _ else _) = _
          rw [same]
          by_cases active : pinned w (T.others 2 (some queue)) = true
          · simp [NodeResults.after, carryOut, secondError, failed, active]
          · simp [NodeResults.after, secondError, failed, active]

/-- What the fallback comes to, from the state in which the first dispatch failed. -/
def fallbackResults (T : Encounter) (w : Execution Chan) (node : String) (tape : List Ending) :
    NodeResults :=
  match T.search with
  | .ok queue =>
      let second := dispatch (w.self.retryPolicyForNode node) tape
      ⟨secondOutcome T w node queue second, [second.made]⟩
  | .error message => ⟨some (.error (.activityError message)), []⟩

theorem carryOut_fallback :
    carryOut T (rediscoverWorker.bind fun _ => (dispatchActivity input node).bind fun result =>
        match result with
        | some result => .ret result
        | none => .raise (.runtimeError s!"Activity '{node}' failed after worker re-discovery")) 1 tape w =
      fallbackResults T w node tape := by
  unfold fallbackResults
  cases search : T.search with
  | error message => rw [carryOut_search_failed search]
  | ok queue =>
      rw [carryOut_search search]
      exact carryOut_second rfl rfl rfl

/-- The results of `_execute_single_activity`, from its attempts. -/
def nodeResults (T : Encounter) (w : Execution Chan) (node : String) (first : Attempts Ending) :
    NodeResults :=
  match first.last with
  | none => ⟨none, [first.made]⟩
  | some ending =>
      match ending.result with
      | .ok r => ⟨some (.ok r), [first.made]⟩
      | .error message =>
          if pinned w (T.others 0 w.self.stickyTaskQueue) then
            (fallbackResults T w node first.rest).after first.made
          else ⟨some (.error (.activityError message)), [first.made]⟩

theorem carryOut_executeSingleActivity :
    carryOut T (executeSingleActivity input node) 0 T.endings w =
      nodeResults T w node (dispatch (w.self.retryPolicyForNode node) T.endings) := by
  unfold executeSingleActivity nodeResults
  rw [Coro.bind_eq, carryOut_dispatch]
  cases (dispatch (w.self.retryPolicyForNode node) T.endings).last with
  | none => rfl
  | some ending =>
      dsimp only
      unfold Ending.response
      rw [carryOut_answered]
      cases ending.result with
      | ok r => rfl
      | error message =>
          show NodeResults.after _ (if pinned w (T.others 0 w.self.stickyTaskQueue) then _ else _) =
            if pinned w (T.others 0 w.self.stickyTaskQueue) then _ else _
          by_cases active : pinned w (T.others 0 w.self.stickyTaskQueue) = true
          · rw [if_pos active, if_pos active]
            exact congrArg (NodeResults.after _) carryOut_fallback
          · rw [if_neg active, if_neg active]
            rfl

end CarryOut

/-- After which attempts of a node there is another one. -/
def again (config : Option RetryPolicyConfig) : Nat → Ending → Bool :=
  Ending.retried (nonRetryableErrorTypes config) (maxAttempts config)

theorem dispatch_retryPolicyForNode (w : Execution Chan) (node : String) (tape : List Ending) :
    dispatch (w.self.retryPolicyForNode node) tape =
      attempts (again (w.self.nodeRetryPolicies.get? node)) 0 tape := by
  unfold retryPolicyForNode
  cases w.self.nodeRetryPolicies.get? node with
  | none => rfl
  | some config => rfl

section Within

variable {config : Option RetryPolicyConfig}
  {outcome : Option (Except RunError NodeActivityOutput)} {front front' : List Ending}
  {ending ending' : Ending} {tape rest : List Ending}

/-- How a final error has to reach the workflow. -/
def Reported (outcome : Option (Except RunError NodeActivityOutput)) (ending : Ending) : Prop :=
  ∃ message, ending.result = .error message ∧ outcome = some (.error (.activityError message))

theorem not_final_of_again {made : Nat} (asks : again config made ending = true) :
    ending.final (nonRetryableErrorTypes config) = false := by
  cases ending with
  | applicationError exc =>
      have both := (Bool.and_eq_true _ _).mp asks
      simpa [Ending.final] using both.1
  | nonRetryable type message => cases asks
  | _ => rfl

theorem not_final_of_goesOn (goesOn : Attempts.GoesOn (again config) 0 front) :
    ∀ ending ∈ front, ending.final (nonRetryableErrorTypes config) = false := by
  intro ending mem
  obtain ⟨n, asks⟩ := goesOn.asks ending mem
  exact not_final_of_again asks

theorem not_final_of_isLoss {types : List String} (loss : ending.isLoss = true) :
    ending.final types = false := by
  cases ending with
  | workerLost => rfl
  | timedOut => rfl
  | _ => cases loss

theorem not_application_of_isLoss (loss : ending.isLoss = true) :
    ending.isApplicationError = false := by
  cases ending with
  | workerLost => rfl
  | timedOut => rfl
  | _ => cases loss

/-- Where only the last attempt may be final, that one is to be reported. -/
theorem final_iff {types : List String} {last : Option Ending} {P : Ending → Prop}
    (retried : ∀ ending ∈ front, ending.final types = false) :
    (∀ before ending back, front ++ last.toList = before ++ ending :: back →
      ending.final types = true → back = [] ∧ P ending) ↔
        ∀ ending, last = some ending → ending.final types = true → P ending := by
  constructor
  · rintro all ending rfl final
    exact (all front ending [] rfl final).2
  · intro here before ending back split final
    -- a final attempt is none of the front
    have elsewhere : ∀ more, front ≠ before ++ ending :: more := by
      intro more same
      have not := retried ending (by rw [same]; simp)
      rw [final] at not
      cases not
    cases last with
    | none => exact absurd (by simpa using split) (elsewhere back)
    | some other =>
        rcases List.eq_nil_or_concat back with rfl | ⟨more, x, rfl⟩
        · have same := List.append_inj_right' split rfl
          cases same
          exact ⟨rfl, here _ rfl final⟩
        · rw [List.concat_eq_append, ← List.cons_append, ← List.append_assoc] at split
          exact absurd (List.append_inj_left' split rfl) (elsewhere more)

/-- One dispatch keeps the limit. -/
theorem count_le (limited : 0 < maxAttempts config) (tape : List Ending) :
    (attempts (again config) 0 tape).made.countP Ending.isApplicationError ≤ maxAttempts config := by
  have stops : ∀ made ending, maxAttempts config ≤ made → again config made ending = false := by
    intro made ending reached
    have spent : ¬(maxAttempts config = 0 ∨ made < maxAttempts config) := by omega
    cases ending with
    | applicationError exc => simp [again, Ending.retried, spent]
    | workerLost => simp [again, Ending.retried, spent]
    | _ => rfl
  have bound := Attempts.length_made_le stops limited tape
  exact List.countP_le_length.trans (by omega)

/-- A node that still waits for its first dispatch. -/
theorem withinPolicy_waiting (goesOn : Attempts.GoesOn (again config) 0 tape) :
    WithinPolicy config ⟨none, [(attempts (again config) 0 tape).made]⟩ := by
  have flat : [(attempts (again config) 0 tape).made].flatten = tape ++ (none : Option Ending).toList := by
    simp [Attempts.of_goesOn goesOn]
  have nothing : ∀ ending, (none : Option Ending) = some ending →
      ending.final (nonRetryableErrorTypes config) = true → Reported none ending := nofun
  refine ⟨fun before ending back split final => ?_, fun limited => ?_, nofun⟩
  · exact (final_iff (not_final_of_goesOn goesOn)).mpr nothing before ending back
      (flat.symm.trans split) final
  · simpa using count_le limited tape

theorem withinPolicy_single (stop : Attempts.StopsAt (again config) tape front ending rest) :
    WithinPolicy config ⟨outcome, [(attempts (again config) 0 tape).made]⟩ ↔
      (ending.final (nonRetryableErrorTypes config) = true → Reported outcome ending) := by
  have flat : [(attempts (again config) 0 tape).made].flatten = front ++ (some ending).toList := by
    simp [stop.attempts_eq]
  constructor
  · intro within isFinal
    refine (final_iff (P := Reported outcome) (not_final_of_goesOn stop.goesOn)).mp
      (fun before other back split => ?_) ending rfl isFinal
    exact within.final before other back (flat.trans split)
  · intro reported
    refine ⟨fun before other back split => ?_, fun limited => ?_, nofun⟩
    · refine (final_iff (P := Reported outcome) (not_final_of_goesOn stop.goesOn)).mpr ?_ before other
        back (flat.symm.trans split)
      rintro other ⟨⟩
      exact reported
    · simpa using count_le limited tape

/-- What the second dispatch meets has room within the limit: an application
error comes in it only while fewer than `max_attempts` have come, those of the
first dispatch among them. -/
def Room (config : Option RetryPolicyConfig) (front rest : List Ending) : Prop :=
  0 < maxAttempts config → ∀ before error after, rest = before ++ error :: after →
    Attempts.GoesOn (again config) 0 before → error.isApplicationError = true →
      front.countP Ending.isApplicationError + before.countP Ending.isApplicationError <
        maxAttempts config

/-- Of the attempts of a dispatch only the last may be final. -/
theorem made_retried (config : Option RetryPolicyConfig) (tape : List Ending) :
    ∃ front last, (∀ other ∈ front, other.final (nonRetryableErrorTypes config) = false) ∧
      (attempts (again config) 0 tape).made = front ++ last.toList ∧
        ∀ other, last = some other ↔
          ∃ front' rest, Attempts.StopsAt (again config) tape front' other rest := by
  rcases Attempts.goesOn_or_stopsAt (again config) tape with goesOn | ⟨front, ending, rest, stop⟩
  · refine ⟨tape, none, not_final_of_goesOn goesOn, by simp [Attempts.of_goesOn goesOn], ?_⟩
    refine fun other => iff_of_false nofun ?_
    rintro ⟨_, _, stop⟩
    exact stop.not_goesOn goesOn
  · refine ⟨front, some ending, not_final_of_goesOn stop.goesOn, by simp [stop.attempts_eq], ?_⟩
    refine fun other => ⟨?_, ?_⟩
    · rintro ⟨⟩
      exact ⟨front, rest, stop⟩
    · rintro ⟨_, _, stop'⟩
      exact congrArg some (stop.unique stop').2.1

theorem withinPolicy_double (stop : Attempts.StopsAt (again config) tape front ending rest) :
    WithinPolicy config ⟨outcome, [(attempts (again config) 0 tape).made,
        (attempts (again config) 0 rest).made]⟩ ↔
      ending.isLoss = true ∧ Room config front rest ∧
        ∀ front' ending' rest', Attempts.StopsAt (again config) rest front' ending' rest' →
          ending'.final (nonRetryableErrorTypes config) = true → Reported outcome ending' := by
  have made : (attempts (again config) 0 tape).made = front ++ [ending] := by rw [stop.attempts_eq]
  obtain ⟨front', last, retried', made', stops'⟩ := made_retried config rest
  have all : ending.isLoss = true →
      ∀ other ∈ front ++ ending :: front', other.final (nonRetryableErrorTypes config) = false := by
    intro loss other mem
    rcases List.mem_append.mp mem with mem | mem
    · exact not_final_of_goesOn stop.goesOn other mem
    · rcases List.mem_cons.mp mem with rfl | mem
      · exact not_final_of_isLoss loss
      · exact retried' other mem
  have both : [(attempts (again config) 0 tape).made, (attempts (again config) 0 rest).made].flatten =
      (front ++ ending :: front') ++ last.toList := by simp [made, made']
  have counts : ending.isLoss = true →
      ([(attempts (again config) 0 tape).made, (attempts (again config) 0 rest).made].flatten.countP
        Ending.isApplicationError) = front.countP Ending.isApplicationError +
          (attempts (again config) 0 rest).made.countP Ending.isApplicationError := by
    intro loss
    simp [made, not_application_of_isLoss loss]
  have within : 0 < maxAttempts config →
      front.countP Ending.isApplicationError ≤ maxAttempts config := by
    intro limited
    have first := count_le limited tape
    rw [made, List.countP_append] at first
    omega
  constructor
  · intro policy
    have loss : ending.isLoss = true := by
      obtain ⟨other, ends, loss⟩ := policy.fallback _ _ _ rfl
      rw [made, List.getLast?_concat] at ends
      cases ends
      exact loss
    refine ⟨loss, fun limited => ?_, fun front'' ending' rest' stop' => ?_⟩
    · exact (Attempts.countP_made_le_iff (within limited) rest).mp (counts loss ▸ policy.bounded limited)
    · refine (final_iff (P := Reported outcome) (all loss)).mp (fun before other back split => ?_)
        ending' ((stops' ending').mpr ⟨front'', rest', stop'⟩)
      exact policy.final before other back (both.trans split)
  · rintro ⟨loss, room, reported⟩
    refine ⟨fun before other back split => ?_, fun limited => ?_, ?_⟩
    · refine (final_iff (P := Reported outcome) (all loss)).mpr (fun other last => ?_) before other back
        (both.symm.trans split)
      obtain ⟨front'', rest', stop'⟩ := (stops' other).mp last
      exact reported front'' other rest' stop'
    · exact counts loss ▸ (Attempts.countP_made_le_iff (within limited) rest).mpr (room limited)
    · rintro _ _ _ ⟨⟩
      exact ⟨ending, by rw [made, List.getLast?_concat], loss⟩

end Within

/-- The first dispatch of the node ends without a failure, or with one that the
fallback does no harm after.  That is a loss of the worker, with room for the
application errors that come next; and the error that ends the second dispatch
is not final, or affinity is no longer active.  A search that fails hides the
error that it was made for. -/
def FallbackHarmless (T : Encounter) (w : Execution Chan) (node : String) : Prop :=
  let config := w.self.nodeRetryPolicies.get? node
  ∀ front ending rest message, Attempts.StopsAt (again config) T.endings front ending rest →
    ending.result = .error message → pinned w (T.others 0 w.self.stickyTaskQueue) = true →
      match T.search with
      | .error reason => ending.final (nonRetryableErrorTypes config) = true → reason = message
      | .ok queue =>
          ending.isLoss = true ∧ Room config front rest ∧
            ∀ front' ending' rest', Attempts.StopsAt (again config) rest front' ending' rest' →
              ending'.final (nonRetryableErrorTypes config) = true →
                pinned w (T.others 2 (some queue)) = false

theorem reported_activityError {ending : Ending} {message reason : String}
    (failed : ending.result = .error message) :
    Reported (some (.error (.activityError reason))) ending ↔ reason = message := by
  constructor
  · rintro ⟨message', result, same⟩
    rw [failed] at result
    cases result
    cases same
    rfl
  · rintro rfl
    exact ⟨reason, failed, rfl⟩

theorem not_final_of_ok {ending : Ending} {types : List String} {r : NodeActivityOutput}
    (succeeded : ending.result = .ok r) : ending.final types = false := by
  cases ending with
  | success r => rfl
  | _ => cases succeeded

theorem reported_second {T : Encounter} {w : Execution Chan} {node queue : String}
    {second : Attempts Ending} {ending : Ending} {types : List String}
    (last : second.last = some ending) (final : ending.final types = true) :
    Reported (secondOutcome T w node queue second) ending ↔
      pinned w (T.others 2 (some queue)) = false := by
  cases failed : ending.result with
  | ok r =>
      rw [not_final_of_ok failed] at final
      cases final
  | error message =>
      have outcome : secondOutcome T w node queue second =
          some (.error (secondError w T node queue message)) := by
        simp [secondOutcome, last, failed]
      rw [outcome, secondError]
      cases active : pinned w (T.others 2 (some queue)) with
      | false => simpa using (reported_activityError failed).mpr rfl
      | true =>
          simp only [if_true, Bool.true_eq_false, iff_false]
          rintro ⟨message', -, same⟩
          cases same

/-- A fallback that dispatches the node again, to the worker of this queue. -/
theorem withinPolicy_second {T : Encounter} {w : Execution Chan} {node queue : String}
    {config : Option RetryPolicyConfig} {tape front rest : List Ending} {ending : Ending}
    (stop : Attempts.StopsAt (again config) tape front ending rest) :
    WithinPolicy config ⟨secondOutcome T w node queue (attempts (again config) 0 rest),
        [(attempts (again config) 0 tape).made, (attempts (again config) 0 rest).made]⟩ ↔
      ending.isLoss = true ∧ Room config front rest ∧
        ∀ front' ending' rest', Attempts.StopsAt (again config) rest front' ending' rest' →
          ending'.final (nonRetryableErrorTypes config) = true →
            pinned w (T.others 2 (some queue)) = false := by
  rw [withinPolicy_double stop]
  have reported : ∀ {front' ending' rest'}, Attempts.StopsAt (again config) rest front' ending' rest' →
      ending'.final (nonRetryableErrorTypes config) = true →
        (Reported (secondOutcome T w node queue (attempts (again config) 0 rest)) ending' ↔
          pinned w (T.others 2 (some queue)) = false) := by
    intro front' ending' rest' stop' final
    exact reported_second (by rw [stop'.attempts_eq]) final
  refine and_congr_right fun _ => and_congr_right fun _ => ?_
  exact forall_congr' fun _ => forall_congr' fun _ => forall_congr' fun _ => forall_congr' fun stop' =>
    forall_congr' fun final => reported stop' final

/-- **A node is retried no more than its policy allows if and only if the fallback
to another worker is not taken or does no harm.** -/
theorem retries_within_policy_iff (T : Encounter) (w : Execution Chan) (input : NodeActivityInput)
    (node : String) :
    WithinPolicy (w.self.nodeRetryPolicies.get? node)
        (carryOut T (executeSingleActivity input node) 0 T.endings w) ↔
      FallbackHarmless T w node := by
  rw [carryOut_executeSingleActivity]
  unfold nodeResults fallbackResults FallbackHarmless
  simp only [dispatch_retryPolicyForNode]
  generalize w.self.nodeRetryPolicies.get? node = config
  rcases Attempts.goesOn_or_stopsAt (again config) T.endings with goesOn | ⟨front, ending, rest, stop⟩
  · have last : (attempts (again config) 0 T.endings).last = none := by rw [Attempts.of_goesOn goesOn]
    simp only [last]
    refine iff_of_true (withinPolicy_waiting goesOn) ?_
    exact fun front ending rest message stop => absurd goesOn stop.not_goesOn
  have last : (attempts (again config) 0 T.endings).last = some ending := by rw [stop.attempts_eq]
  have later : (attempts (again config) 0 T.endings).rest = rest := by rw [stop.attempts_eq]
  simp only [last, later]
  cases result : ending.result with
  | ok r =>
      refine iff_of_true ((withinPolicy_single stop).mpr fun final => ?_) ?_
      · rw [not_final_of_ok result] at final
        cases final
      · intro front' ending' rest' message stop' failed
        obtain ⟨-, rfl, -⟩ := stop.unique stop'
        rw [result] at failed
        cases failed
  | error message =>
      dsimp only
      cases active : pinned w (T.others 0 w.self.stickyTaskQueue) with
      | false =>
          refine iff_of_true ((withinPolicy_single stop).mpr fun _ => ?_) ?_
          · exact (reported_activityError result).mpr rfl
          · rintro front' ending' rest' message' - - ⟨⟩
      | true =>
          simp only [if_true]
          cases T.search with
          | error reason =>
              simp only [NodeResults.after]
              rw [withinPolicy_single stop]
              constructor
              · rintro reported front' ending' rest' message' stop' failed - final
                obtain ⟨-, rfl, -⟩ := stop.unique stop'
                exact (reported_activityError failed).mp (reported final)
              · intro same final
                exact (reported_activityError result).mpr
                  (same front ending rest message stop result trivial final)
          | ok queue =>
              simp only [NodeResults.after]
              rw [withinPolicy_second stop]
              constructor
              · rintro harmless front' ending' rest' message' stop' - -
                obtain ⟨rfl, rfl, rfl⟩ := stop.unique stop'
                exact harmless
              · exact fun harmless => harmless front ending rest message stop result trivial

section Runs

/-- A node that fails with an error its `retry_on` does not match, twice. -/
def finalEncounter : Encounter where
  endings := [.ofActivity (executeFailing (configuredGraph (.predicate fun _ => false))),
    .ofActivity (executeFailing (configuredGraph (.predicate fun _ => false)))]
  search := .ok "other"
  others _ queue := queue

/-- A workflow with worker affinity, pinned to a worker; the policy of its node
allows three attempts. -/
def pinnedExecution : Execution Unit where
  self :=
    { checkpoint := {}, useWorkerAffinity := true, stickyTaskQueue := some "worker",
      nodeRetryPolicies := Dict.ofList [("a", { maxAttempts := 3 })] }
  uuids _ := ""

/-- **An error that is not to be retried is, and does not reach the workflow.** -/
theorem final_error_retried :
    ¬WithinPolicy (pinnedExecution.self.nodeRetryPolicies.get? "a") (carryOut finalEncounter
      (executeSingleActivity (taskInput "graph" ∅ ⟨"a", []⟩) "a") 0 finalEncounter.endings
      pinnedExecution) := by
  intro within
  rw [carryOut_executeSingleActivity] at within
  have once := within.final [] (.nonRetryable "KeyError" "x") [.nonRetryable "KeyError" "x"] rfl rfl
  cases once.1

end Runs

end LanggraphTemporal.Properties
