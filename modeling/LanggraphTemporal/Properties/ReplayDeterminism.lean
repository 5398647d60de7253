/-
# Properties.ReplayDeterminism -- random digits in a replay

A replay has to come to the same commands as the run it replays, whatever random
numbers it draws.  The workflow draws digits for each subgraph it starts, and
they are in the reference that the child is given.  Nothing else depends on
them: two executions that draw differently are in lockstep, but for these
references (`run_uniform`).  So their commands are the same if and only if the
digits are, for all subgraphs that are started (`commands_agree_iff`).
-/
import LanggraphTemporal.Theory.CoroutineRequests
import LanggraphTemporal.Theory.CoroutineSim
import LanggraphTemporal.Machine.Reference

namespace LanggraphTemporal.Properties

set_option autoImplicit false

open Theory Theory.System Model Model.LangGraphWorkflow Machine

variable {Chan : Type} {env : Env Chan} {uuids uuids' : Nat → String}

/-! ## Commands -/

/-- What an entry asks of Temporal. -/
def command : Event → Option Request
  | .dispatched input call => some (.executeActivity input.nodeName input call)
  | .discovering => some .getAvailableTaskQueue
  | .subgraphStarted _ call => some (.executeChildWorkflow call)
  | .subagentStarted call => some (.executeChildWorkflow call)
  | _ => none

/-- The commands of a run, with their arguments. -/
def commandsOf (h : List Event) : List Request := h.filterMap command

def isSubgraphStarted : Event → Bool
  | .subgraphStarted _ _ => true
  | _ => false

/-- The digits that `register` takes of a random id. -/
def hexDigits (uuid : String) : String := (uuid.take 8).copy

/-! ## Executions that draw differently -/

/-- Two histories in which the `k`-th subgraph was registered under the `k`-th
digits of each. -/
inductive Redrawn (env : Env Chan) (uuids uuids' : Nat → String) : Nat → List Event → List Event → Prop
  | nil : Redrawn env uuids uuids' 0 [] []
  | same {n : Nat} {h h' : List Event} {e : Event} (before : Redrawn env uuids uuids' n h h')
      (other : isSubgraphStarted e = false) : Redrawn env uuids uuids' n (h ++ [e]) (h' ++ [e])
  | drawn {n : Nat} {h h' : List Event} (task : PregelTask) (name : String) (values : Dict PyVal)
      (before : Redrawn env uuids uuids' n h h') :
      Redrawn env uuids uuids' (n + 1)
        (h ++ [.subgraphStarted task.name
          (subgraphCall env task (name ++ "_" ++ hexDigits (uuids n)) values)])
        (h' ++ [.subgraphStarted task.name
          (subgraphCall env task (name ++ "_" ++ hexDigits (uuids' n)) values)])

/-- Two executions that differ in nothing but their random digits. -/
structure Redraws (env : Env Chan) (uuids uuids' : Nat → String) (w v : Execution Chan) : Prop where
  self : w.self = v.self
  drawn : w.drawn = v.drawn
  left : w.uuids = uuids
  right : v.uuids = uuids'
  history : Redrawn env uuids uuids' w.drawn w.history v.history

/-- A request, less the reference of a child. -/
def eraseRef : Request → Request
  | .executeChildWorkflow call =>
      .executeChildWorkflow { call with input := { call.input with graphDefinitionRef := "" } }
  | q => q

theorem eraseRef_subgraphCall (task : PregelTask) (ref ref' : String) (values : Dict PyVal) :
    eraseRef (.executeChildWorkflow (subgraphCall env task ref values)) =
      eraseRef (.executeChildWorkflow (subgraphCall env task ref' values)) := rfl

theorem eraseRef_invisible (env : Env Chan) : (workflowSystem env).Invisible eraseRef where
  ready q w := by cases q <;> rfl
  permits q r w := by
    cases q with
    | executeChildWorkflow call => cases r <;> rfl
    | _ => rfl

variable {w v : Execution Chan}

namespace Redraws

theorem set (same : Redraws env uuids uuids' w v)
    (f : LangGraphWorkflow Chan → LangGraphWorkflow Chan) :
    Redraws env uuids uuids' (w.mapSelf f) (v.mapSelf f) :=
  { same with self := congrArg f same.self }

theorem log (same : Redraws env uuids uuids' w v) {e : Event} (other : isSubgraphStarted e = false) :
    Redraws env uuids uuids' (w.log e) (v.log e) :=
  { same with history := same.history.same other }

theorem lockstep (env : Env Chan) (uuids uuids' : Nat → String) (qs : List Request) :
    (workflowSystem env).Lockstep (Redraws env uuids uuids') (Redraws env uuids uuids') qs where
  link _ _ := id
  signal w v same signal := by
    cases signal with
    | resume value => exact (same.set (resumeSignal value)).log rfl
    | updateState writes =>
        simp only [workflowSystem, ← same.self]
        cases w.self.updateStateSignal env.lg writes with
        | ok self => exact (same.set fun _ => self).log rfl
        | error e => exact ⟨rfl, same⟩
  ready w v same q _ := by
    cases q with
    | resumeEvent => simp only [workflowSystem, same.self]
    | _ => rfl
  permits _ _ _ _ _ _ := rfl

end Redraws

/-- The call of a subgraph, under the next digits. -/
def drawnCall (env : Env Chan) (task : PregelTask) (name : String) (w : Execution Chan) : ChildCall :=
  subgraphCall env task (name ++ "_" ++ hexDigits (w.uuids w.drawn)) (getChannelValues env.lg w.self.channels)

/-- Where a subgraph has been started. -/
def startedSubgraph (env : Env Chan) (task : PregelTask) (name : String) (w : Execution Chan) :
    Execution Chan :=
  ({ w with drawn := w.drawn + 1 } : Execution Chan).log
    (.subgraphStarted task.name (drawnCall env task name w))

theorem subgraph_settles (env : Env Chan) (task : PregelTask) (name : String) (w : Execution Chan) :
    settle ((executeSubgraphAsChildWorkflow env task name).mapRequests eraseRef) w =
      settle (.await [eraseRef (.executeChildWorkflow (drawnCall env task name w))] fun _ r =>
        Coro.mapRequests eraseRef (match r with
          | .childOutput result => .ret (subgraphOutput task result)
          | .childError message => .raise (.childWorkflowError message)
          | _ => .raise .unexpectedAnswer : WorkflowM Chan NodeActivityOutput))
        (startedSubgraph env task name w) := by
  unfold executeSubgraphAsChildWorkflow registerGraph
  rfl

/-- Whatever digits are drawn, the coroutine does the same, but for the
references it gives to its children. -/
def Uniform (env : Env Chan) (uuids uuids' : Nat → String) {α : Type} (c : WorkflowM Chan α) : Prop :=
  ∀ w v, Redraws env uuids uuids' w v →
    (workflowSystem env).Mirror (Only (Redraws env uuids uuids')) (Redraws env uuids uuids')
      (Same (Redraws env uuids uuids')) (c.mapRequests eraseRef) w (c.mapRequests eraseRef) v

namespace Uniform

variable {α β ι : Type}

theorem ret (a : α) : Uniform env uuids uuids' (.ret a) := fun _ v same => ⟨a, v, rfl, rfl, same⟩

theorem raise (e : RunError) : Uniform env uuids uuids' (.raise e : WorkflowM Chan α) :=
  fun _ v same => ⟨v, rfl, same⟩

theorem bind {c : WorkflowM Chan α} {f : α → WorkflowM Chan β} (uniform : Uniform env uuids uuids' c)
    (next : ∀ a, Uniform env uuids uuids' (f a)) : Uniform env uuids uuids' (c.bind f) := by
  intro w v same
  rw [Coro.mapRequests_bind]
  refine (uniform w v same).bind ?_
  rintro a _ w v ⟨rfl, same⟩
  exact next a w v same

theorem read : Uniform env uuids uuids' (getSelf : WorkflowM Chan (LangGraphWorkflow Chan)) :=
  fun _ v same => ⟨v.self, v, rfl, same.self, same⟩

theorem setSelf (f : LangGraphWorkflow Chan → LangGraphWorkflow Chan) :
    Uniform env uuids uuids' (setSelf f) := fun _ _ same => ⟨(), _, rfl, rfl, same.set f⟩

theorem record {e : Event} (other : isSubgraphStarted e = false) :
    Uniform env uuids uuids' (record e : WorkflowM Chan Unit) :=
  fun _ _ same => ⟨(), _, rfl, rfl, same.log other⟩

theorem request (q : Request) : Uniform env uuids uuids' (Coro.request q : WorkflowM Chan Response) :=
  fun _ v same => ⟨_, v, rfl, _, rfl, Redraws.lockstep env uuids uuids' _, same,
    fun _ v same _ _ r _ _ => ⟨r, v, rfl, rfl, same⟩⟩

/-- A subgraph is started under the digits of each side. -/
theorem subgraph (task : PregelTask) (name : String) :
    Uniform env uuids uuids' (executeSubgraphAsChildWorkflow env task name) := by
  intro w v same
  have started : Redraws env uuids uuids' (startedSubgraph env task name w)
      (startedSubgraph env task name v) := by
    refine ⟨same.self, congrArg (· + 1) same.drawn, same.left, same.right, ?_⟩
    unfold startedSubgraph drawnCall
    rw [← same.self, ← same.drawn, same.left, same.right]
    exact same.history.drawn task name _
  have asked : eraseRef (.executeChildWorkflow (drawnCall env task name v)) =
      eraseRef (.executeChildWorkflow (drawnCall env task name w)) := by
    unfold drawnCall
    rw [same.self]
    exact eraseRef_subgraphCall _ _ _ _
  refine .of_settle (subgraph_settles env task name w) ?_
  have stop := subgraph_settles env task name v
  rw [asked] at stop
  refine ⟨_, _, stop, Redraws env uuids uuids', rfl, Redraws.lockstep env uuids uuids' _, started, ?_⟩
  intro u u' same i q r at_i answer
  cases r with
  | childOutput result => exact Uniform.ret _ u u' same
  | _ => exact Uniform.raise _ u u' same

theorem attempt {c : WorkflowM Chan α} (uniform : Uniform env uuids uuids' c) :
    Uniform env uuids uuids' c.attempt := by
  intro w v same
  rw [Coro.mapRequests_attempt]
  exact (uniform w v same).attempt

theorem gather {f : ι → WorkflowM Chan α} (each : ∀ x, Uniform env uuids uuids' (f x)) (xs : List ι) :
    Uniform env uuids uuids' (Coro.gather (xs.map f)) := by
  intro w v same
  rw [Coro.mapRequests_gather]
  exact .gather xs (fun x _ => each x) same

end Uniform

/-- Subgraphs are the only ones to be given random digits. -/
def plain : Footprint Chan where
  sets _ := True
  logs e := isSubgraphStarted e = false
  draws := True
  opens := True

theorem plain_entire (env : Env Chan) : Entire env plain where
  stickyTaskQueue _ := trivial
  interrupt _ := trivial
  clearResume := trivial
  wake := trivial
  withApplied _ := trivial
  emitStreamEvents _ := trivial
  dispatched _ _ := rfl
  lost _ _ := rfl
  discovering := rfl
  discovered _ := rfl
  paused _ := rfl
  resumed _ := rfl
  collected _ _ _ := rfl
  skipped := rfl
  applied _ _ := rfl
  graphRef _ := trivial
  configure _ _ := trivial
  advance := trivial
  done := trivial
  finish := trivial
  scheduled _ _ := rfl
  collectedScheduled _ := rfl
  served _ := rfl
  advanced := rfl
  draws := trivial
  opens := trivial
  subagentStarted _ := rfl

theorem uniform_of_built {α : Type} {c : WorkflowM Chan α} (built : Built env plain c) :
    Uniform env uuids uuids' c := by
  induction built with
  | ret a => exact .ret a
  | raise e => exact .raise e
  | bind first next ih ih' => exact ih.bind ih'
  | getSelf => exact .read
  | setSelf allowed => exact .setSelf _
  | record allowed => exact .record allowed
  | request other => exact .request _
  | subgraph task name allowed => exact .subgraph task name
  | attempt built ih => exact ih.attempt
  | gather each xs ih => exact .gather ih xs

theorem waitForResume_uniform :
    Uniform env uuids uuids' (waitForResume : WorkflowM Chan Unit) := by
  refine (Uniform.setSelf clearResume).bind fun _ => Uniform.read.bind fun self => ?_
  refine (Uniform.record rfl).bind fun _ => (Uniform.request .resumeEvent).bind fun _ => ?_
  refine (Uniform.setSelf wake).bind fun _ => Uniform.read.bind fun self => ?_
  exact .record rfl

theorem uniform_of_pausing {α : Type} {c : WorkflowM Chan α} (pausing : Pausing env plain c) :
    Uniform env uuids uuids' c := by
  induction pausing with
  | built built => exact uniform_of_built built
  | bind first next ih ih' => exact ih.bind ih'
  | pause => exact waitForResume_uniform
  | opening allowed graph input next ih =>
      refine Uniform.read.bind fun self => ?_
      split
      · exact .raise _
      · exact (Uniform.setSelf _).bind fun _ => ih _

/-- **A run does the same whatever digits it draws**, but for the references it
gives to its children. -/
theorem run_uniform (env : Env Chan) (uuids uuids' : Nat → String) (threshold : Option Nat)
    (input : WorkflowInput) : Uniform env uuids uuids' (run env threshold input) :=
  uniform_of_pausing (run_pausing (plain_entire env) threshold input)

/-! ## Commands of two executions -/

/-- The two outcomes have these histories. -/
theorem redrawn_of_agree {outcome outcome' : Outcome (Execution Chan) Request Response Signal RunError RunResult}
    (agree : Outcome.Agree (Same (Redraws env uuids uuids')) (Redraws env uuids uuids')
      (Outcome.mapRequests eraseRef outcome) (Outcome.mapRequests eraseRef outcome')) :
    ∃ n, Redrawn env uuids uuids' n (historyOf outcome) (historyOf outcome') := by
  cases outcome with
  | done a rest w =>
      cases outcome' with
      | done b rest' v => exact ⟨_, agree.2.2.history⟩
      | _ => cases agree
  | failed e w =>
      cases outcome' with
      | failed e' v => exact ⟨_, agree.2.history⟩
      | _ => cases agree
  | blocked qs k w =>
      cases outcome' with
      | blocked qs' k' v => exact ⟨_, agree.2.history⟩
      | _ => cases agree
  | refused =>
      cases outcome' with
      | refused => exact ⟨0, .nil⟩
      | _ => cases agree

theorem executionHistory_redrawn (S : Setting Chan) (threshold : Option Nat) (uuids uuids' : Nat → String)
    (arrived : List Signal) (script : List (Action Response Signal)) :
    ∃ n, Redrawn S.env uuids uuids' n (executionHistory S threshold uuids arrived script)
      (executionHistory S threshold uuids' arrived script) := by
  have begun : Redraws S.env uuids uuids' (created S uuids) (created S uuids') :=
    ⟨rfl, rfl, rfl, rfl, .nil⟩
  have delivered := (Redraws.lockstep S.env uuids uuids' []).deliver arrived _ _ begun
  unfold executionHistory replayExecution
  cases left : (workflowSystem S.env).deliver arrived (created S uuids) with
  | error failure =>
      cases right : (workflowSystem S.env).deliver arrived (created S uuids') with
      | error failure' =>
          rw [left, right] at delivered
          exact ⟨_, delivered.2.history⟩
      | ok v => rw [left, right] at delivered; cases delivered
  | ok w =>
      cases right : (workflowSystem S.env).deliver arrived (created S uuids') with
      | error failure => rw [left, right] at delivered; cases delivered
      | ok v =>
          rw [left, right] at delivered
          have mirror := run_uniform S.env uuids uuids' threshold S.input w v delivered
          have agree := (workflowSystem S.env).replay_agrees _ _ script w v mirror
          rw [replay_mapRequests (eraseRef_invisible S.env),
            replay_mapRequests (eraseRef_invisible S.env)] at agree
          exact redrawn_of_agree agree

theorem commandsOf_snoc (h : List Event) (e : Event) :
    commandsOf (h ++ [e]) = commandsOf h ++ (command e).toList := by
  unfold commandsOf
  rw [List.filterMap_append]
  cases found : command e with
  | none => simp [found]
  | some q => simp [found]

theorem commandsOf_subgraph (h : List Event) (node : String) (call : ChildCall) :
    commandsOf (h ++ [.subgraphStarted node call]) = commandsOf h ++ [.executeChildWorkflow call] :=
  commandsOf_snoc h _

theorem snoc_inj {h h' : List Request} {call call' : ChildCall} :
    h ++ [.executeChildWorkflow call] = h' ++ [.executeChildWorkflow call'] ↔ h = h' ∧ call = call' := by
  constructor
  · intro same
    obtain ⟨front, last⟩ := List.append_inj' same rfl
    injection last with last
    injection last with last
    exact ⟨front, last⟩
  · rintro ⟨rfl, rfl⟩
    rfl

/-- Two subgraphs are started by the same command if their digits are the same. -/
theorem subgraphCall_inj {task : PregelTask} {name uuid uuid' : String} {values : Dict PyVal} :
    subgraphCall env task (name ++ "_" ++ hexDigits uuid) values =
        subgraphCall env task (name ++ "_" ++ hexDigits uuid') values ↔
      hexDigits uuid = hexDigits uuid' := by
  constructor
  · intro same
    have ref := congrArg (fun call => call.input.graphDefinitionRef) same
    exact (String.append_right_inj _).mp ref
  · intro same
    rw [same]

namespace Redrawn

variable {n : Nat} {h h' : List Event}

theorem count (redrawn : Redrawn env uuids uuids' n h h') : h.countP isSubgraphStarted = n := by
  induction redrawn with
  | nil => rfl
  | same before other ih => simp [ih, other]
  | drawn task name values before ih => simp [ih, isSubgraphStarted]

/-- The commands are the same if and only if the digits are. -/
theorem commandsOf_eq_iff (redrawn : Redrawn env uuids uuids' n h h') :
    commandsOf h = commandsOf h' ↔ ∀ k < n, hexDigits (uuids k) = hexDigits (uuids' k) := by
  induction redrawn with
  | nil => exact ⟨fun _ k below => absurd below (Nat.not_lt_zero k), fun _ => rfl⟩
  | same before other ih => rw [← ih, commandsOf_snoc, commandsOf_snoc, List.append_left_inj]
  | @drawn n h h' task name values before ih =>
      rw [commandsOf_subgraph, commandsOf_subgraph, snoc_inj, subgraphCall_inj, ih]
      constructor
      · rintro ⟨earlier, here⟩ k below
        rcases Nat.lt_succ_iff_lt_or_eq.mp below with before | rfl
        · exact earlier k before
        · exact here
      · intro all
        exact ⟨fun k below => all k (Nat.lt_succ_of_lt below), all n (Nat.lt_succ_self n)⟩

end Redrawn

/-- **The commands depend on the digits of the subgraphs, and on no others.** -/
theorem commands_agree_iff (S : Setting Chan) (threshold : Option Nat) (uuids uuids' : Nat → String)
    (arrived : List Signal) (script : List (Action Response Signal)) :
    commandsOf (executionHistory S threshold uuids arrived script) =
        commandsOf (executionHistory S threshold uuids' arrived script) ↔
      ∀ k < (executionHistory S threshold uuids arrived script).countP isSubgraphStarted,
        hexDigits (uuids k) = hexDigits (uuids' k) := by
  obtain ⟨n, redrawn⟩ := executionHistory_redrawn S threshold uuids uuids' arrived script
  rw [redrawn.count]
  exact redrawn.commandsOf_eq_iff

/-- A graph in a graph: its only command is not the same twice. -/
theorem subgraph_command_differs :
    commandsOf (executionHistory (Reference.outerSetting false) none (fun _ => "aaaaaaaa") [] []) ≠
      commandsOf (executionHistory (Reference.outerSetting false) none (fun _ => "bbbbbbbb") [] []) := by
  obtain ⟨n, redrawn⟩ := executionHistory_redrawn (Reference.outerSetting false) none
    (fun _ => "aaaaaaaa") (fun _ => "bbbbbbbb") [] []
  have started : n = 1 := by
    rw [← redrawn.count]
    rfl
  have digits : hexDigits "aaaaaaaa" ≠ hexDigits "bbbbbbbb" := by decide
  intro same
  exact digits (redrawn.commandsOf_eq_iff.mp same 0 (by omega))

end LanggraphTemporal.Properties
