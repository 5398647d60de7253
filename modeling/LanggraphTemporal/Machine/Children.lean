/-
# Machine.Children -- which children a workflow starts, and what serves a request

The machine of `Transitions` allows a phase to start its children any number of
times.  The coroutines do better: all subgraphs of a superstep are started
before the first of its tasks is answered, in task order; so are the requests of
one result, and those of the next result after them.  `Childwise` says so of
every entry of a history: each start is the next one that is due, and when a
superstep completes, all requests of its first pass have been started, and each
reply is made of an answer that its child has given (`ServedOnce`).  It holds of
every execution (`executionHistory_childwise`).
-/
import LanggraphTemporal.Theory.CoroutineInvariant
import LanggraphTemporal.Theory.Transcript
import LanggraphTemporal.Machine.Starts

namespace LanggraphTemporal.Machine

set_option autoImplicit false

open Theory Theory.System Theory.History Model Model.LangGraphWorkflow

variable {Chan α β : Type} {S : Setting Chan}

/-! ## Starts in a history -/

/-- The subgraph nodes that are started, in order. -/
def subgraphsIn (h : List Event) : List String :=
  h.filterMap fun e => match e with | .subgraphStarted node _ => some node | _ => none

/-- The sub-agents that are started, in order. -/
def subagentsIn (h : List Event) : List ChildCall :=
  h.filterMap fun e => match e with | .subagentStarted call => some call | _ => none

/-- The step scheduled last. -/
def currentStep (h : List Event) : Nat :=
  h.foldl (fun step e => match e with | .scheduled n _ => n | _ => step) 0

/-- What the scheduled tasks of the superstep have returned. -/
def firstPass (h : List Event) : List NodeActivityOutput :=
  (collectedIn (superstepOf h)).foldl (fun outputs c => if c.1 = .scheduled then c.2 else outputs) []

/-- The subgraph nodes among tasks, as `_execute_nodes` starts them. -/
def subgraphNodes (graph : Pregel Chan) (tasks : List PregelTask) : List String :=
  (tasks.filter fun t => (subgraphOf t.name graph).isSome).map PregelTask.name

/-- The child that serves a request, the `p.2`-th of its result, in this step. -/
def subagentCall (S : Setting Chan) (step : Nat) (p : ChildRequest × Nat) : ChildCall :=
  childCall S.env { init S.env with step, subagentConfig := S.input.subagentConfig } p.1 S.input p.2

/-- The children that serve the requests of one result. -/
def requestCalls (S : Setting Chan) (step : Nat) (r : NodeActivityOutput) : List ChildCall :=
  r.childWorkflowRequests.zipIdx.map (subagentCall S step)

/-- A reply made of an answer to the call that serves the request. -/
def Replies (S : Setting Chan) (heard : Request → Response → Prop) (step : Nat) (p : ChildRequest × Nat)
    (reply : String × PyVal) : Prop :=
  ∃ response, heard (.executeChildWorkflow (subagentCall S step p)) response ∧
    toolReply S.env p.1 (childResult response) = .ok reply

/-- `r'` is `r` with the replies to its requests appended to its writes. -/
def Replied (S : Setting Chan) (heard : Request → Response → Prop) (step : Nat)
    (r r' : NodeActivityOutput) : Prop :=
  ∃ replies, r' = { r with writes := r.writes ++ replies } ∧
    List.Forall₂ (Replies S heard step) r.childWorkflowRequests.zipIdx replies

/-- When a superstep completes, all requests of its first pass have been started
and replied to. -/
def ServedOnce (S : Setting Chan) (heard : Request → Response → Prop) (a : List Event) : Prop :=
  ∀ results, Event.served results ∈ superstepOf a →
    subagentsIn (superstepOf a) = (firstPass a).flatMap (requestCalls S (currentStep a)) ∧
      List.Forall₂ (Replied S heard (currentStep a)) (firstPass a) results

/-- Each child that is started is the next one due, and replies are appended to
what the first pass has returned. -/
def Childwise (S : Setting Chan) (heard : Request → Response → Prop) (a : List Event) : Event → Prop
  | .subgraphStarted node _ =>
      subgraphsIn (superstepOf a) ++ [node] <+: subgraphNodes S.graph (sortTasks (scheduledTasks a))
  | .subagentStarted call =>
      subagentsIn (superstepOf a) ++ [call] <+: (firstPass a).flatMap (requestCalls S (currentStep a))
  | .served results => List.Forall₂ (Replied S heard (currentStep a)) (firstPass a) results
  | .skipped | .applied _ _ => ServedOnce S heard a
  | _ => True

/-! ### One more entry -/

/-- An entry that neither schedules nor starts nor serves. -/
def calm : Event → Bool
  | .scheduled _ _ | .subgraphStarted _ _ | .subagentStarted _ | .served _ | .collected .scheduled _ => false
  | _ => true

theorem subgraphsIn_append (a b : List Event) : subgraphsIn (a ++ b) = subgraphsIn a ++ subgraphsIn b :=
  List.filterMap_append

theorem subagentsIn_append (a b : List Event) : subagentsIn (a ++ b) = subagentsIn a ++ subagentsIn b :=
  List.filterMap_append

theorem currentStep_snoc {h : List Event} {e : Event} (stays : isScheduled e = false) :
    currentStep (h ++ [e]) = currentStep h := by
  unfold currentStep
  rw [List.foldl_append]
  cases e with
  | scheduled => cases stays
  | _ => rfl

@[simp] theorem currentStep_scheduled (h : List Event) (step : Nat) (tasks : List PregelTask) :
    currentStep (h ++ [.scheduled step tasks]) = step := by
  simp [currentStep]

theorem firstPass_snoc {h : List Event} {e : Event} (stays : isScheduled e = false)
    (other : ∀ outputs, e ≠ .collected .scheduled outputs) : firstPass (h ++ [e]) = firstPass h := by
  unfold firstPass
  rw [superstepOf_snoc stays]
  cases e with
  | collected route outputs =>
      have late : route ≠ .scheduled := by
        rintro rfl
        exact other outputs rfl
      rw [collectedIn_collected, List.foldl_append]
      simp [late]
  | _ => rw [collectedIn_snoc (by intro route outputs same; cases same)]

@[simp] theorem firstPass_collected (h : List Event) (outputs : List NodeActivityOutput) :
    firstPass (h ++ [.collected .scheduled outputs]) = outputs := by
  have inside : superstepOf (h ++ [.collected .scheduled outputs]) =
      superstepOf h ++ [.collected .scheduled outputs] := superstepOf_snoc rfl
  simp [firstPass, inside]

/-- What the two histories agree on: what is due, and what has been started. -/
structure SameBook (h h' : List Event) : Prop where
  step : currentStep h' = currentStep h
  tasks : scheduledTasks h' = scheduledTasks h
  subgraphs : subgraphsIn (superstepOf h') = subgraphsIn (superstepOf h)
  subagents : subagentsIn (superstepOf h') = subagentsIn (superstepOf h)
  firstPass : firstPass h' = firstPass h
  served : ∀ results, Event.served results ∈ superstepOf h' ↔ Event.served results ∈ superstepOf h

theorem SameBook.trans {h h' h'' : List Event} (first : SameBook h h') (second : SameBook h' h'') :
    SameBook h h'' where
  step := second.step.trans first.step
  tasks := second.tasks.trans first.tasks
  subgraphs := second.subgraphs.trans first.subgraphs
  subagents := second.subagents.trans first.subagents
  firstPass := second.firstPass.trans first.firstPass
  served results := (second.served results).trans (first.served results)

theorem sameBook_snoc {h : List Event} {e : Event} (quiet : calm e = true) : SameBook h (h ++ [e]) := by
  have stays : isScheduled e = false := by
    cases e with
    | scheduled => cases quiet
    | _ => rfl
  have subgraphs : subgraphsIn [e] = [] := by
    cases e with
    | subgraphStarted => cases quiet
    | _ => rfl
  have subagents : subagentsIn [e] = [] := by
    cases e with
    | subagentStarted => cases quiet
    | _ => rfl
  refine ⟨currentStep_snoc stays, scheduledTasks_snoc stays, ?_, ?_, firstPass_snoc stays ?_, ?_⟩
  · rw [superstepOf_snoc stays, subgraphsIn_append, subgraphs, List.append_nil]
  · rw [superstepOf_snoc stays, subagentsIn_append, subagents, List.append_nil]
  · rintro outputs rfl
    cases quiet
  · intro results
    rw [superstepOf_snoc stays, List.mem_append, List.mem_singleton]
    constructor
    · rintro (before | rfl)
      · exact before
      · cases quiet
    · exact .inl

theorem childwise_of_calm {heard : Request → Response → Prop} {a : List Event} {e : Event}
    (quiet : calm e = true) (once : ServedOnce S heard a) : Childwise S heard a e := by
  cases e with
  | scheduled | subgraphStarted | subagentStarted | served => cases quiet
  | skipped => exact once
  | applied => exact once
  | _ => trivial

/-- The call is made of what the workflow has read from its input, and its step. -/
theorem childCall_eq {self : LangGraphWorkflow Chan} {step : Nat} (steps : self.step = step)
    (configured : self.subagentConfig = S.input.subagentConfig) (p : ChildRequest × Nat) :
    childCall S.env self p.1 S.input p.2 = subagentCall S step p := by
  unfold subagentCall childCall
  rw [steps, configured]

/-! ## Steps that start nothing -/

/-- The workflow has got on without scheduling, starting or serving anything. -/
structure Calmly (w w' : Execution Chan) : Prop where
  step : w'.self.step = w.self.step
  config : w'.self.subagentConfig = w.self.subagentConfig
  history : w'.history = w.history ∨ ∃ e, calm e = true ∧ w'.history = w.history ++ [e]

/-- What is written between two starts. -/
def steady : Footprint Chan where
  sets f := ∀ self, (f self).step = self.step ∧ (f self).subagentConfig = self.subagentConfig
  logs e := calm e = true
  draws := False
  opens := False

theorem steady_ordinary (env : Env Chan) : Ordinary env steady where
  stickyTaskQueue _ _ := ⟨rfl, rfl⟩
  interrupt _ _ := ⟨rfl, rfl⟩
  clearResume _ := ⟨rfl, rfl⟩
  wake _ := ⟨rfl, rfl⟩
  withApplied _ _ := ⟨rfl, rfl⟩
  emitStreamEvents _ _ := ⟨rfl, rfl⟩
  dispatched _ _ := rfl
  lost _ _ := rfl
  discovering := rfl
  discovered _ := rfl
  paused _ := rfl
  resumed _ := rfl
  collected route _ late := by
    cases route with
    | scheduled => exact absurd rfl late
    | _ => rfl
  skipped := rfl
  applied _ _ := rfl

variable {env : Env Chan} {w w' : Execution Chan}

theorem Writes.calmly (writes : Writes env steady w w') : Calmly w w' := by
  cases writes with
  | set allowed =>
      obtain ⟨step, config⟩ := allowed w.self
      exact ⟨step, config, .inl rfl⟩
  | log allowed => exact ⟨rfl, rfl, .inr ⟨_, allowed, rfl⟩⟩
  | draw allowed => cases allowed
  | subgraph allowed => cases allowed
  | opening allowed => cases allowed

theorem calmly_handle {signal : Signal} (handled : (workflowSystem env).handle signal w = .ok w') :
    Calmly w w' := by
  have received : w'.history = w.history ++ [.received signal] := handle_history handled
  cases signal with
  | resume value =>
      cases handled
      exact ⟨rfl, rfl, .inr ⟨_, rfl, rfl⟩⟩
  | updateState writes =>
      simp only [workflowSystem] at handled
      split at handled
      · rename_i self updated
        obtain ⟨out, rfl⟩ := updateStateSignal_eq updated
        cases handled
        exact ⟨rfl, rfl, .inr ⟨_, rfl, received⟩⟩
      · cases handled

/-! ## States of a superstep -/

variable {heard : Request → Response → Prop} {n : Nat}

/-- The workflow has started what it had to. -/
structure Fine (S : Setting Chan) (heard : Request → Response → Prop) (w : Execution Chan) : Prop where
  guarded : Guarded (Childwise S heard) w.history
  config : w.self.subagentConfig = S.input.subagentConfig

/-- And it is in superstep `n`. -/
structure Stands (S : Setting Chan) (heard : Request → Response → Prop) (n : Nat) (w : Execution Chan) :
    Prop extends Fine S heard w where
  step : w.self.step = n
  current : currentStep w.history = n

/-- Requests have not been served, and of those of the first pass, those for
`calls` have been started. -/
structure Serving (S : Setting Chan) (heard : Request → Response → Prop) (n : Nat)
    (calls : List ChildCall) (w : Execution Chan) : Prop extends Stands S heard n w where
  unserved : ∀ results, Event.served results ∉ superstepOf w.history
  started : subagentsIn (superstepOf w.history) = calls

/-- And the first pass has returned these outputs. -/
structure Passing (S : Setting Chan) (heard : Request → Response → Prop) (n : Nat)
    (outputs : List NodeActivityOutput) (calls : List ChildCall) (w : Execution Chan) : Prop
    extends Serving S heard n calls w where
  outputs : firstPass w.history = outputs

/-- Of the scheduled tasks, these have been started. -/
structure Launching (S : Setting Chan) (heard : Request → Response → Prop) (n : Nat)
    (tasks begun : List PregelTask) (w : Execution Chan) : Prop extends Serving S heard n [] w where
  tasks : scheduledTasks w.history = tasks
  launched : subgraphsIn (superstepOf w.history) = subgraphNodes S.graph begun

/-- The requests of the first pass have been served. -/
structure Served (S : Setting Chan) (heard : Request → Response → Prop) (n : Nat) (w : Execution Chan) :
    Prop extends Stands S heard n w where
  once : ServedOnce S heard w.history

theorem Stands.calmly (stands : Stands S heard n w) (once : ServedOnce S heard w.history)
    (calmly : Calmly w w') : Stands S heard n w' ∧ SameBook w.history w'.history := by
  have step : w'.self.step = n := calmly.step.trans stands.step
  have config := calmly.config.trans stands.config
  rcases calmly.history with same | ⟨e, quiet, logged⟩
  · rw [same]
    refine ⟨⟨⟨?_, config⟩, step, ?_⟩, rfl, rfl, rfl, rfl, rfl, fun _ => Iff.rfl⟩
    · rw [same]
      exact stands.guarded
    · rw [same]
      exact stands.current
  · have book : SameBook w.history (w.history ++ [e]) := sameBook_snoc quiet
    rw [logged]
    refine ⟨⟨⟨?_, config⟩, step, ?_⟩, book⟩
    · rw [logged]
      exact stands.guarded.snoc (childwise_of_calm quiet once)
    · rw [logged, book.step]
      exact stands.current

theorem Serving.once {calls : List ChildCall} (serving : Serving S heard n calls w) :
    ServedOnce S heard w.history := fun results mem => absurd mem (serving.unserved results)

theorem Serving.calmly {calls : List ChildCall} (serving : Serving S heard n calls w)
    (calmly : Calmly w w') : Serving S heard n calls w' ∧ SameBook w.history w'.history := by
  obtain ⟨stands, book⟩ := serving.toStands.calmly serving.once calmly
  refine ⟨⟨stands, fun results mem => ?_, book.subagents.trans serving.started⟩, book⟩
  exact serving.unserved results ((book.served results).mp mem)

theorem Passing.calmly {outputs : List NodeActivityOutput} {calls : List ChildCall}
    (passing : Passing S heard n outputs calls w) (calmly : Calmly w w') :
    Passing S heard n outputs calls w' := by
  obtain ⟨serving, book⟩ := passing.toServing.calmly calmly
  exact ⟨serving, book.firstPass.trans passing.outputs⟩

theorem Launching.calmly {tasks begun : List PregelTask} (launching : Launching S heard n tasks begun w)
    (calmly : Calmly w w') : Launching S heard n tasks begun w' := by
  obtain ⟨serving, book⟩ := launching.toServing.calmly calmly
  exact ⟨serving, book.tasks.trans launching.tasks, book.subgraphs.trans launching.launched⟩

theorem Served.calmly (served : Served S heard n w) (calmly : Calmly w w') : Served S heard n w' := by
  obtain ⟨stands, book⟩ := served.toStands.calmly served.once calmly
  refine ⟨stands, fun results mem => ?_⟩
  rw [book.subagents, book.firstPass, book.step]
  exact served.once results ((book.served results).mp mem)

/-- A run of the coroutine, with answers that have been heard, starts children
as they are due, wherever it stops; if it returns, then in `post`. -/
def Guards (S : Setting Chan) (heard : Request → Response → Prop) (post : α → Execution Chan → Prop)
    (c : WorkflowM Chan α) (w : Execution Chan) : Prop :=
  ((workflowSystem S.env).only heard).wp post (fun _ t => Guarded (Childwise S heard) t.history)
    (fun _ t => Guarded (Childwise S heard) t.history) c w

namespace Guards

variable {post : α → Execution Chan → Prop} {post' : β → Execution Chan → Prop}

theorem bind {c : WorkflowM Chan α} {f : α → WorkflowM Chan β} (guards : Guards S heard post c w)
    (next : ∀ a t, post a t → Guards S heard post' (f a) t) : Guards S heard post' (c.bind f) w :=
  wp_bind.mpr (wp_mono next (fun _ _ => id) (fun _ _ => id) guards)

theorem mono {post' : α → Execution Chan → Prop} {c : WorkflowM Chan α} (guards : Guards S heard post c w)
    (weaker : ∀ a t, post a t → post' a t) : Guards S heard post' c w :=
  wp_mono weaker (fun _ _ => id) (fun _ _ => id) guards

/-- A wp for a state in which all starts were due. -/
theorem of_wp {J : Execution Chan → Prop} {c : WorkflowM Chan α} (fine : ∀ t, J t → Fine S heard t)
    (kept : ((workflowSystem S.env).only heard).wp (fun _ => J) (fun _ => J) (fun _ => J) c w) :
    Guards S heard (fun _ => J) c w :=
  wp_mono (fun _ _ => id) (fun _ t held => (fine t held).guarded) (fun _ t held => (fine t held).guarded) kept

/-- What starts nothing keeps what no calm step changes. -/
theorem calmly {J : Execution Chan → Prop} {c : WorkflowM Chan α} (fine : ∀ t, J t → Fine S heard t)
    (closed : ∀ t t', J t → Calmly t t' → J t') (pausing : Pausing S.env steady c) (here : J w) :
    Guards S heard (fun _ => J) c w := by
  refine of_wp fine ((pausing.steps (steady_ordinary S.env) w).wp ?_ ?_ here)
  · exact fun t t' held writes => closed t t' held writes.calmly
  · exact fun t signal t' held handled => closed t t' held (calmly_handle handled)

end Guards

/-- Another entry of the superstep does not serve it. -/
theorem Serving.unserved_snoc {calls : List ChildCall} {e : Event} (serving : Serving S heard n calls w)
    (inside : isScheduled e = false) (other : ∀ results, e ≠ .served results) :
    ∀ results, Event.served results ∉ superstepOf (w.history ++ [e]) := by
  intro results mem
  rw [superstepOf_snoc inside] at mem
  rcases List.mem_append.mp mem with before | here
  · exact serving.unserved results before
  · exact other results (List.mem_singleton.mp here).symm

/-! ## Starting the subgraphs -/

/-- What `_execute_nodes` does for one task before it waits. -/
def enterTask (env : Env Chan) (graph : Pregel Chan) (graphRef : String) (values : Dict PyVal)
    (t : PregelTask) (w : Execution Chan) : Execution Chan :=
  match subgraphOf t.name graph with
  | some name =>
      Execution.log (.subgraphStarted t.name (subgraphCall env t (name ++ "_" ++ (w.uuids w.drawn).take 8)
        (getChannelValues env.lg w.self.channels))) { w with drawn := w.drawn + 1 }
  | none =>
      w.log (.dispatched (taskInput graphRef values t)
        (w.self.activityCall t.name))

/-- And what it waits for then. -/
def taskRequest (env : Env Chan) (graph : Pregel Chan) (graphRef : String) (values : Dict PyVal)
    (t : PregelTask) (w : Execution Chan) : List Request :=
  match subgraphOf t.name graph with
  | some name =>
      [.executeChildWorkflow (subgraphCall env t (name ++ "_" ++ (w.uuids w.drawn).take 8)
        (getChannelValues env.lg w.self.channels))]
  | none =>
      [.executeActivity t.name (taskInput graphRef values t) (w.self.activityCall t.name)]

theorem executeTask_asks (env : Env Chan) (graph : Pregel Chan) (graphRef : String) (values : Dict PyVal)
    (t : PregelTask) (w : Execution Chan) :
    Launches (Writes env steady) .resumeEvent (executeTask env graph graphRef values t) w
      (taskRequest env graph graphRef values t w) (enterTask env graph graphRef values t w) := by
  unfold executeTask taskRequest enterTask
  cases subgraphOf t.name graph with
  | some name => exact ⟨by simp, _, rfl, fun i r u => by cases r <;> trivial⟩
  | none => exact executeSingleActivity_asks (steady_ordinary env) _ _ w

theorem subgraphNodes_append (graph : Pregel Chan) (a b : List PregelTask) :
    subgraphNodes graph (a ++ b) = subgraphNodes graph a ++ subgraphNodes graph b := by
  unfold subgraphNodes
  rw [List.filter_append, List.map_append]

/-- One task more is started. -/
theorem Launching.enter {tasks begun rest : List PregelTask} {t : PregelTask} {graphRef : String}
    {values : Dict PyVal} (launching : Launching S heard n tasks begun w)
    (due : sortTasks tasks = begun ++ t :: rest) :
    Launching S heard n tasks (begun ++ [t]) (enterTask S.env S.graph graphRef values t w) := by
  unfold enterTask
  cases bound : subgraphOf t.name S.graph with
  | some name =>
      have one : subgraphNodes S.graph [t] = [t.name] := by simp [subgraphNodes, bound]
      have next : subgraphNodes S.graph begun ++ [t.name] <+: subgraphNodes S.graph (sortTasks tasks) := by
        rw [due.trans (List.append_cons begun t rest), subgraphNodes_append, subgraphNodes_append, one]
        exact List.prefix_append _ _
      have inside (e : Event) (other : isScheduled e = false) :
          superstepOf (w.history ++ [e]) = superstepOf w.history ++ [e] := superstepOf_snoc other
      refine ⟨⟨⟨⟨launching.guarded.snoc ?_, launching.config⟩, launching.step, ?_⟩, ?_, ?_⟩, ?_, ?_⟩
      · show subgraphsIn (superstepOf w.history) ++ [t.name] <+: _
        rw [launching.launched, launching.tasks]
        exact next
      · exact (currentStep_snoc rfl).trans launching.current
      · exact launching.unserved_snoc rfl (by intro _ same; cases same)
      · show subagentsIn (superstepOf (w.history ++ [_])) = []
        rw [inside _ rfl, subagentsIn_append, launching.started]
        rfl
      · exact (scheduledTasks_snoc rfl).trans launching.tasks
      · show subgraphsIn (superstepOf (w.history ++ [_])) = _
        rw [inside _ rfl, subgraphsIn_append, launching.launched, subgraphNodes_append, one]
        rfl
  | none =>
      have one : subgraphNodes S.graph [t] = [] := by simp [subgraphNodes, bound]
      have same : subgraphNodes S.graph (begun ++ [t]) = subgraphNodes S.graph begun := by
        rw [subgraphNodes_append, one, List.append_nil]
      have dispatches : Calmly w (w.log (.dispatched (taskInput graphRef values t)
          (w.self.activityCall t.name))) := ⟨rfl, rfl, .inr ⟨_, rfl, rfl⟩⟩
      have after := launching.calmly dispatches
      exact ⟨after.toServing, after.tasks, after.launched.trans same.symm⟩

theorem Launching.enterAll {tasks : List PregelTask} (graphRef : String) (values : Dict PyVal)
    (rest begun : List PregelTask) (launching : Launching S heard n tasks begun w)
    (due : sortTasks tasks = begun ++ rest) :
    Launching S heard n tasks (begun ++ rest)
      (rest.foldl (fun w t => enterTask S.env S.graph graphRef values t w) w) := by
  induction rest generalizing begun w with
  | nil =>
      rw [List.append_nil]
      exact launching
  | cons t rest ih =>
      rw [List.append_cons]
      exact ih (begun ++ [t]) (launching.enter due) (due.trans (List.append_cons _ _ _))

theorem executeNodes_guards {tasks : List PregelTask} (launching : Launching S heard n tasks [] w) :
    Guards S heard (fun _ => Serving S heard n []) (executeNodes S.env S.graph tasks) w := by
  show Guards S heard _ (awaitAll ((sortTasks tasks).map (executeTask S.env S.graph w.self.graphRef
    (getChannelValues S.env.lg w.self.channels)))) w
  cases sorted : sortTasks tasks with
  | nil => exact launching.toServing
  | cons t rest =>
      have launched := launching.enterAll w.self.graphRef (getChannelValues S.env.lg w.self.channels)
        (t :: rest) [] sorted
      have launches := awaitAll_launches (executeTask_asks S.env S.graph w.self.graphRef
        (getChannelValues S.env.lg w.self.channels)) t rest w
      refine .of_wp (fun _ serving => serving.toFine) (launches.wp ?_ ?_ launched.toServing)
      · exact fun t t' held writes => (held.calmly writes.calmly).1
      · exact fun t signal t' held handled => (held.calmly (calmly_handle handled)).1

/-! ## Serving the requests -/

/-- One request more is started. -/
theorem Passing.enter {outputs : List NodeActivityOutput} {calls : List ChildCall}
    {p : ChildRequest × Nat} (passing : Passing S heard n outputs calls w)
    (due : calls ++ [subagentCall S n p] <+: outputs.flatMap (requestCalls S n)) :
    Passing S heard n outputs (calls ++ [subagentCall S n p])
      (w.log (.subagentStarted (childCall S.env w.self p.1 S.input p.2))) := by
  rw [childCall_eq passing.step passing.config]
  have inside : superstepOf (w.history ++ [.subagentStarted (subagentCall S n p)]) =
      superstepOf w.history ++ [.subagentStarted (subagentCall S n p)] := superstepOf_snoc rfl
  refine ⟨⟨⟨⟨passing.guarded.snoc ?_, passing.config⟩, passing.step, ?_⟩, ?_, ?_⟩, ?_⟩
  · show subagentsIn (superstepOf w.history) ++ [subagentCall S n p] <+: _
    rw [passing.started, passing.outputs, passing.current]
    exact due
  · exact (currentStep_snoc rfl).trans passing.current
  · exact passing.unserved_snoc rfl (by intro _ same; cases same)
  · show subagentsIn (superstepOf (w.history ++ [_])) = _
    rw [inside, subagentsIn_append, passing.started]
    rfl
  · exact (firstPass_snoc rfl (by intro _ same; cases same)).trans passing.outputs

theorem Passing.enterAll {outputs : List NodeActivityOutput} (ps : List (ChildRequest × Nat))
    (calls : List ChildCall) (passing : Passing S heard n outputs calls w)
    (due : calls ++ ps.map (subagentCall S n) <+: outputs.flatMap (requestCalls S n)) :
    Passing S heard n outputs (calls ++ ps.map (subagentCall S n))
      (ps.foldl (fun w p => w.log (.subagentStarted (childCall S.env w.self p.1 S.input p.2))) w) := by
  induction ps generalizing calls w with
  | nil =>
      rw [List.map_nil, List.append_nil]
      exact passing
  | cons p ps ih =>
      rw [List.map_cons, List.append_cons] at due ⊢
      exact ih _ (passing.enter ((List.prefix_append _ _).trans due)) due

/-- One sub-agent is asked for at once, and nothing is written after that. -/
theorem dispatchChildWorkflow_asks (env : Env Chan) (input : WorkflowInput) (p : ChildRequest × Nat)
    (w : Execution Chan) :
    Launches (fun _ _ => False) .resumeEvent (dispatchChildWorkflow env p.1 input p.2).attempt w
      [.executeChildWorkflow (childCall env w.self p.1 input p.2)]
      (w.log (.subagentStarted (childCall env w.self p.1 input p.2))) := by
  rw [dispatchChildWorkflow_attempt]
  exact ⟨by simp, _, rfl, fun _ _ _ => trivial⟩

/-- The workflow is in step `n`, as it was configured. -/
def InStep (S : Setting Chan) (n : Nat) (w : Execution Chan) : Prop :=
  w.self.step = n ∧ w.self.subagentConfig = S.input.subagentConfig

/-- An answer to a child is one that has been heard. -/
def Hears (heard : Request → Response → Prop) (q : Request) (r : Response) : Prop :=
  ∀ call, q = .executeChildWorkflow call → heard q r

theorem hears_of_answers {q : Request} {r : Response}
    (answered : ((workflowSystem env).only heard).Answers q r w) : Hears heard q r := by
  rintro call rfl
  rcases answers_only answered with ready | ⟨-, here⟩
  · cases ready
  · exact here

theorem dispatchChildWorkflow_maintains (p : ChildRequest × Nat) :
    Maintains (InStep S n) (Hears heard)
      (fun outcome => ∃ response, heard (.executeChildWorkflow (subagentCall S n p)) response ∧
        outcome = childResult response)
      (dispatchChildWorkflow S.env p.1 S.input p.2).attempt := by
  rw [dispatchChildWorkflow_attempt]
  intro w here
  show Maintains _ _ _ ((record (.subagentStarted (childCall S.env w.self p.1 S.input p.2))).bind fun _ =>
    (Coro.request (.executeChildWorkflow (childCall S.env w.self p.1 S.input p.2))).bind fun response =>
      .ret (childResult response))
  rw [childCall_eq here.1 here.2]
  refine (Maintains.modify fun _ => id).bind fun _ _ => ?_
  exact .request fun response hears => ⟨response, hears _ rfl, rfl⟩

/-- The replies are made of the outcomes, in order. -/
theorem replies_of_outcomes (rs : List ChildRequest) :
    ∀ (k : Nat) (outcomes : List (Except RunError WorkflowOutput)) (replies : List (String × PyVal)),
      List.Forall₂ (fun p outcome => ∃ response,
        heard (.executeChildWorkflow (subagentCall S n p)) response ∧ outcome = childResult response)
        (rs.zipIdx k) outcomes →
      ((rs.zip outcomes).mapM fun p => toolReply S.env p.1 p.2) = .ok replies →
        List.Forall₂ (Replies S heard n) (rs.zipIdx k) replies := by
  induction rs with
  | nil =>
      intro k outcomes replies each made
      cases made
      exact .nil
  | cons r rs ih =>
      intro k outcomes replies each made
      cases each with
      | @cons _ outcome _ outcomes here others =>
          obtain ⟨response, answer, rfl⟩ := here
          rw [List.zip_cons_cons, List.mapM_cons] at made
          cases first : toolReply S.env r (childResult response) with
          | error e =>
              rw [first] at made
              cases made
          | ok reply =>
              rw [first] at made
              cases later : (rs.zip outcomes).mapM fun p => toolReply S.env p.1 p.2 with
              | error e =>
                  rw [later] at made
                  cases made
              | ok rest =>
                  rw [later] at made
                  cases made
                  exact .cons ⟨response, answer, first⟩ (ih _ outcomes rest others later)

/-- The calls of one more result come first among those that are left. -/
theorem requestCalls_due (done rest : List NodeActivityOutput) (r : NodeActivityOutput) :
    (done ++ [r]).flatMap (requestCalls S n) <+: (done ++ r :: rest).flatMap (requestCalls S n) := by
  have split : (done ++ r :: rest).flatMap (requestCalls S n) =
      (done ++ [r]).flatMap (requestCalls S n) ++ rest.flatMap (requestCalls S n) := by simp
  rw [split]
  exact List.prefix_append _ _

/-- A signal does not move the workflow to another step. -/
theorem inStep_handle {t t' : Execution Chan} {signal : Signal} (held : InStep S n t)
    (handled : (workflowSystem S.env).handle signal t = .ok t') : InStep S n t' := by
  have calmly : Calmly t t' := calmly_handle handled
  exact ⟨calmly.step.trans held.1, calmly.config.trans held.2⟩

theorem serveRequests_guards {done rest : List NodeActivityOutput} {r : NodeActivityOutput}
    (passing : Passing S heard n (done ++ r :: rest) (done.flatMap (requestCalls S n)) w) :
    Guards S heard (fun r' t => Replied S heard n r r' ∧
        Passing S heard n (done ++ r :: rest) ((done ++ [r]).flatMap (requestCalls S n)) t)
      (serveRequests S.env S.input r) w := by
  have calls : (done ++ [r]).flatMap (requestCalls S n) =
      done.flatMap (requestCalls S n) ++ r.childWorkflowRequests.zipIdx.map (subagentCall S n) := by
    rw [List.flatMap_append, List.flatMap_singleton]
    rfl
  rw [calls]
  unfold serveRequests
  split
  · rename_i none
    rw [List.isEmpty_iff] at none
    refine ⟨⟨[], by simp, ?_⟩, ?_⟩
    · rw [none]
      exact .nil
    · rw [none, List.zipIdx_nil, List.map_nil, List.append_nil]
      exact passing
  · rename_i some
    cases requests : r.childWorkflowRequests with
    | nil =>
        rw [requests] at some
        exact absurd rfl some
    | cons req reqs =>
        have due := requestCalls_due (S := S) (n := n) done rest r
        rw [calls, requests] at due
        have launched := passing.enterAll _ _ due
        have launches := gather_launches (fun p w => dispatchChildWorkflow_asks S.env S.input p w)
          (req, 0) (reqs.zipIdx 1) w
        have kept := Guards.of_wp (fun _ held => held.toFine) (launches.wp
          (S := (workflowSystem S.env).only heard) (fun _ _ _ moved => moved.elim)
          (fun _ _ _ held handled => held.calmly (calmly_handle handled)) launched)
        have values := (Maintains.gather (fun p => dispatchChildWorkflow_maintains p)
          ((req :: reqs).zipIdx)).wp (S := (workflowSystem S.env).only heard)
          (fun _ _ _ held handled => inStep_handle held handled)
          (fun q r s => hears_of_answers) ⟨passing.step, passing.config⟩
        refine Guards.bind (wp_mono (fun _ _ => id) (fun _ _ held => held.1) (fun _ _ held => held.1)
          (wp_and kept values)) fun outcomes t held => ?_
        obtain ⟨here, outputs, -⟩ := held
        cases made : ((req :: reqs).zip outcomes).mapM fun p => toolReply S.env p.1 p.2 with
        | error e => exact here.guarded
        | ok replies =>
            have each := replies_of_outcomes (req :: reqs) 0 outcomes replies outputs made
            rw [← requests] at each
            exact ⟨⟨replies, by rw [requests], each⟩, here⟩

theorem processChildWorkflowRequests_guards (rest done : List NodeActivityOutput)
    (passing : Passing S heard n (done ++ rest) (done.flatMap (requestCalls S n)) w) :
    Guards S heard (fun results t => List.Forall₂ (Replied S heard n) rest results ∧
        Passing S heard n (done ++ rest) ((done ++ rest).flatMap (requestCalls S n)) t)
      (processChildWorkflowRequests S.env S.input rest) w := by
  induction rest generalizing done w with
  | nil =>
      rw [List.append_nil] at passing ⊢
      exact ⟨.nil, passing⟩
  | cons r rest ih =>
      refine (serveRequests_guards passing).bind fun r' t held => ?_
      obtain ⟨replied, here⟩ := held
      rw [List.append_cons] at here ⊢
      refine (ih (done ++ [r]) here).bind fun results u held => ?_
      exact ⟨.cons replied held.1, held.2⟩

/-! ## A whole run -/

theorem Serving.collect {outputs : List NodeActivityOutput} {calls : List ChildCall}
    (serving : Serving S heard n calls w) :
    Guards S heard (fun _ => Passing S heard n outputs calls) (record (.collected .scheduled outputs)) w := by
  have inside : superstepOf (w.history ++ [.collected .scheduled outputs]) =
      superstepOf w.history ++ [.collected .scheduled outputs] := superstepOf_snoc rfl
  refine ⟨⟨⟨⟨serving.guarded.snoc trivial, serving.config⟩, serving.step, ?_⟩, ?_, ?_⟩, ?_⟩
  · exact (currentStep_snoc rfl).trans serving.current
  · exact serving.unserved_snoc rfl (by intro _ same; cases same)
  · show subagentsIn (superstepOf (w.history ++ [_])) = _
    rw [inside, subagentsIn_append, serving.started]
    exact List.append_nil _
  · exact firstPass_collected _ _

/-- The results are served: all requests have been started. -/
theorem Passing.served {outputs results : List NodeActivityOutput}
    (passing : Passing S heard n outputs (outputs.flatMap (requestCalls S n)) w)
    (replied : List.Forall₂ (Replied S heard n) outputs results) :
    Guards S heard (fun _ => Served S heard n) (record (.served results)) w := by
  have inside : superstepOf (w.history ++ [.served results]) = superstepOf w.history ++ [.served results] :=
    superstepOf_snoc rfl
  have current : currentStep (w.history ++ [.served results]) = n :=
    (currentStep_snoc rfl).trans passing.current
  have outputs : firstPass (w.history ++ [.served results]) = outputs :=
    (firstPass_snoc rfl (by intro _ same; cases same)).trans passing.outputs
  have replies : List.Forall₂ (Replied S heard (currentStep w.history)) (firstPass w.history) results := by
    rw [passing.current, passing.outputs]
    exact replied
  refine ⟨⟨⟨passing.guarded.snoc replies, passing.config⟩, passing.step, current⟩, fun results' mem => ?_⟩
  change _ ∈ superstepOf (w.history ++ [_]) at mem
  show subagentsIn (superstepOf (w.history ++ [_])) = (firstPass (w.history ++ [_])).flatMap
      (requestCalls S (currentStep (w.history ++ [_]))) ∧
    List.Forall₂ (Replied S heard (currentStep (w.history ++ [_]))) (firstPass (w.history ++ [_])) results'
  rw [inside] at mem
  rw [inside, subagentsIn_append, passing.started, outputs, current]
  rcases List.mem_append.mp mem with before | here
  · exact absurd before (passing.unserved results')
  · cases List.mem_singleton.mp here
    exact ⟨List.append_nil _, replied⟩

theorem superstep_guards {tasks : List PregelTask} (launching : Launching S heard n tasks [] w) :
    Guards S heard (fun _ => Fine S heard) (superstep S.env S.graph S.input tasks) w := by
  have ordinary := steady_ordinary S.env
  have fine (t : Execution Chan) (served : Served S heard n t) : Fine S heard t := served.toFine
  have still (t t' : Execution Chan) (served : Served S heard n t) (calmly : Calmly t t') :
      Served S heard n t' := served.calmly calmly
  refine Guards.bind (Guards.calmly (fun _ held => held.toFine) (fun _ _ held => held.calmly)
    (interruptCheck_pausing ordinary _ _ tasks) launching) fun _ t launching => ?_
  refine (executeNodes_guards launching).bind fun results t serving => ?_
  refine serving.collect.bind fun _ t passing => ?_
  refine (processChildWorkflowRequests_guards results [] passing).bind fun results' t held => ?_
  refine (held.2.served held.1).bind fun _ t served => ?_
  refine (Guards.calmly fine still (handleInterrupted_pausing ordinary results') served).bind
    fun results t served => ?_
  refine (Guards.calmly fine still (.built (handleSends_built ordinary .push nofun _ results)) served).bind
    fun results t served => ?_
  refine (Guards.calmly fine still (.built (handleSends_built ordinary .goto nofun _ results)) served).bind
    fun results t served => ?_
  refine (Guards.calmly fine still (.built (applyResults_built ordinary S.graph results)) served).bind
    fun _ t served => ?_
  refine (Guards.calmly fine still (.built (.setSelf (ordinary.emitStreamEvents results))) served).bind
    fun _ t served => ?_
  refine (Guards.calmly fine still (interruptCheck_pausing ordinary _ _ tasks) served).bind
    fun _ t served => ?_
  exact ⟨served.guarded.snoc trivial, served.config⟩

/-- A superstep begins. -/
theorem Fine.schedule (fine : Fine S heard w) (tasks : List PregelTask) :
    Guards S heard (fun _ => Launching S heard w.self.step tasks [])
      (record (.scheduled w.self.step tasks)) w := by
  have begins : superstepOf (w.history ++ [.scheduled w.self.step tasks]) = [] := superstepOf_scheduled _ _ _
  refine ⟨⟨⟨⟨fine.guarded.snoc trivial, fine.config⟩, rfl, currentStep_scheduled _ _ _⟩, ?_, ?_⟩,
    scheduledTasks_scheduled _ _ _, ?_⟩
  · intro results mem
    change _ ∈ superstepOf (w.history ++ [_]) at mem
    rw [begins] at mem
    cases mem
  · show subagentsIn (superstepOf (w.history ++ [_])) = []
    rw [begins]
    rfl
  · show subgraphsIn (superstepOf (w.history ++ [_])) = []
    rw [begins]
    rfl

theorem getSelf_guards : Guards S heard (fun self t => self = w.self ∧ t = w) getSelf w := ⟨rfl, rfl⟩

theorem Fine.set {f : LangGraphWorkflow Chan → LangGraphWorkflow Chan} (fine : Fine S heard w)
    (config : (f w.self).subagentConfig = w.self.subagentConfig) :
    Guards S heard (fun _ => Fine S heard) (setSelf f) w := ⟨fine.guarded, config.trans fine.config⟩

theorem finish_guards (fine : Fine S heard w) : Guards S heard (fun _ => Fine S heard) (finish S.env) w := by
  refine ⟨fine.guarded, ?_⟩
  show (if w.self.status = .running then { w.self with status := .done } else w.self).subagentConfig = _
  split
  · exact fine.config
  · exact fine.config

theorem loop_guards (threshold : Option Nat) :
    ∀ (fuel steps : Nat) (w : Execution Chan), Fine S heard w →
      Guards S heard (fun _ => Fine S heard) (loop S.env threshold S.graph S.input fuel steps) w
  | 0, _, w, fine => fine.guarded
  | fuel + 1, steps, w, fine => by
      refine getSelf_guards.bind fun self t here => ?_
      obtain ⟨rfl, rfl⟩ := here
      split
      · dsimp only
        split
        · exact (fine.set rfl).bind fun _ u fine => finish_guards fine
        · refine (fine.schedule _).bind fun _ u launching => ?_
          refine (superstep_guards launching).bind fun _ v fine => ?_
          split
          · exact fine
          · exact loop_guards threshold fuel (steps + 1) v fine
      · exact finish_guards fine

/-- The start of the main loop, from a workflow that has been configured. -/
theorem opening_guards (threshold : Option Nat) (fine : Fine S heard w) :
    Guards S heard (fun _ => Fine S heard) (opening S threshold) w := by
  unfold opening
  refine getSelf_guards.bind fun self t here => ?_
  obtain ⟨rfl, rfl⟩ := here
  split
  · exact fine.guarded
  · rename_i self initialised
    obtain ⟨checkpoint, step, channels, rfl⟩ := initialise_eq initialised
    exact (fine.set rfl).bind fun _ u fine => loop_guards threshold _ 0 u fine

/-- Before `run` begins, nothing has been started. -/
structure Unopened (S : Setting Chan) (heard : Request → Response → Prop) (w : Execution Chan) : Prop where
  guarded : Guarded (Childwise S heard) w.history
  step : w.self.step = 0
  book : SameBook [] w.history

theorem unopened_of_signalled {uuids : Nat → String}
    (signalled : (workflowSystem S.env).Signalled (created S uuids) w) : Unopened S heard w := by
  refine signalled.keeps (J := Unopened S heard) ?_
    ⟨guarded_nil, rfl, rfl, rfl, rfl, rfl, rfl, fun _ => Iff.rfl⟩
  intro w signal w' before handled
  have received : w'.history = w.history ++ [.received signal] := handle_history handled
  have calmly : Calmly w w' := calmly_handle handled
  refine ⟨?_, calmly.step.trans before.step, ?_⟩
  · rw [received]
    exact before.guarded.snoc trivial
  · rw [received]
    exact before.book.trans (sameBook_snoc rfl)

theorem run_guards (threshold : Option Nat) (before : Unopened S heard w) :
    Guards S heard (fun _ => Fine S heard) (run S.env threshold S.input) w := by
  have serving : Serving S heard 0 [] (begun S w) := by
    refine ⟨⟨⟨before.guarded, rfl⟩, before.step, before.book.step⟩, fun results mem => ?_, before.book.subagents⟩
    exact absurd ((before.book.served results).mp mem) List.not_mem_nil
  rw [run_eq]
  show Guards S heard (fun _ => Fine S heard) (if _ then _ else _) (begun S w)
  split
  · have ordinary := steady_ordinary S.env
    refine (Guards.calmly (fun _ held => held.toFine) (fun _ _ held calmly => (held.calmly calmly).1)
      (.built (getAvailableTaskQueue_built ordinary)) serving).bind fun queue t serving => ?_
    exact (serving.toFine.set rfl).bind fun _ u fine => opening_guards threshold fine
  · exact opening_guards threshold serving.toFine

/-! ## Executions -/

/-- What an execution has heard: the answers of its script, with their requests. -/
def executionTranscript (S : Setting Chan) (threshold : Option Nat) (uuids : Nat → String)
    (arrived : List Signal) (script : List (Action Response Signal)) : List (Request × Response) :=
  match (workflowSystem S.env).deliver arrived (created S uuids) with
  | .ok w => (workflowSystem S.env).transcript (run S.env threshold S.input) script w
  | .error _ => []

theorem historyOf_holds {P : List Event → Prop} {outcome : RunOutcome Chan}
    (holds : Outcome.Holds (fun _ t => P t.history) (fun _ t => P t.history) (fun _ t => P t.history)
      outcome) (nil : P []) : P (historyOf outcome) := by
  cases outcome with
  | refused => exact nil
  | _ => exact holds

/-- **Every execution starts its children as they are due.** -/
theorem executionHistory_childwise (S : Setting Chan) (threshold : Option Nat) (uuids : Nat → String)
    (arrived : List Signal) (script : List (Action Response Signal)) :
    Guarded (Childwise S fun q r => (q, r) ∈ executionTranscript S threshold uuids arrived script)
      (executionHistory S threshold uuids arrived script) := by
  unfold executionHistory replayExecution executionTranscript
  cases delivered : (workflowSystem S.env).deliver arrived (created S uuids) with
  | error failure =>
      obtain ⟨e, w⟩ := failure
      exact (unopened_of_signalled (deliver_error _ delivered).1).guarded
  | ok w =>
      have before : Unopened S (fun q r => (q, r) ∈ (workflowSystem S.env).transcript
          (run S.env threshold S.input) script w) w :=
        unopened_of_signalled (deliver_signalled _ delivered)
      have guards := (run_guards threshold before).mono fun _ _ fine => fine.guarded
      have holds := replay_holds _ _ script w guards
      rw [replay_only _ script w fun p mem => mem] at holds
      exact historyOf_holds holds guarded_nil

end LanggraphTemporal.Machine
