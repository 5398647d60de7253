/-
# Properties.Affinity -- falling back to another worker

With worker affinity, an activity that fails on the sticky queue is dispatched
again on a queue that is searched for.  The tasks of one gather share the sticky
queue, and it is cleared during a search: a task that fails while another one is
searching finds no sticky queue, and its failure escapes
(`second_loss_escapes`).  This is the only way one can
(`affinity_fallback_iff`): when no failure falls into a search, each lost task
is dispatched again on the queue that its own search found.
-/
import LanggraphTemporal.Machine.Reference

namespace LanggraphTemporal.Properties

set_option autoImplicit false

open Theory Theory.System Theory.History Model Model.LangGraphWorkflow Machine

variable {Chan : Type}

/-! ## The statement -/

/-- The queue of a call has a worker. -/
def Served (alive : String → Bool) (call : ActivityCall) : Bool :=
  match call.taskQueue with
  | some queue => alive queue
  | none => false

/-- Activities fail only for want of a worker, and a search finds one. -/
def affinitySystem (env : Env Chan) (alive : String → Bool) :
    System (Execution Chan) Request Response Signal RunError :=
  { workflowSystem env with
    permits := fun request response w => (workflowSystem env).permits request response w &&
      match request, response with
      | .executeActivity _ _ call, .activityError _ => !Served alive call
      | .getAvailableTaskQueue, .queue name => alive name
      | .getAvailableTaskQueue, .activityError _ => false
      | _, _ => true }

/-- What a gather runs for one task: an activity, or the child workflow of a
subgraph. -/
inductive Job where
  | node (input : NodeActivityInput)
  | child (task : PregelTask) (name : String)

def Job.coroutine (env : Env Chan) : Job → WorkflowM Chan NodeActivityOutput
  | .node input => executeSingleActivity input input.nodeName
  | .child task name => executeSubgraphAsChildWorkflow env task name

/-- What a job that returns `r` has done: a lost activity is dispatched again,
on the queue that was searched for. -/
inductive Attempt : Job → NodeActivityOutput → List Event → Prop
  | answered {input : NodeActivityInput} {r : NodeActivityOutput} (call : ActivityCall)
      (name : r.nodeName = input.nodeName) :
      Attempt (.node input) r [.dispatched input call]
  | retried {input : NodeActivityInput} {r : NodeActivityOutput} (call again : ActivityCall)
      (queue : String) (name : r.nodeName = input.nodeName) (pinned : again.taskQueue = some queue) :
      Attempt (.node input) r [.dispatched input call, .lost input call, .discovering,
        .discovered queue, .dispatched input again]
  | child {task : PregelTask} {name : String} (call : ChildCall) (result : WorkflowOutput) :
      Attempt (.child task name) (subgraphOutput task result) [.subgraphStarted task.name call]

/-- The gather of some jobs, begun in `w`, has completed with every failed
activity dispatched again; or it still waits, and will not after three answers
for each job; or something else than an activity has failed. -/
def Recovers (w : Execution Chan) (jobs : List Job) (script : List (Action Response Signal)) :
    Outcome (Execution Chan) Request Response Signal RunError (List NodeActivityOutput) → Prop
  | .done rs _ t => ∃ own, Gathers Attempt jobs rs own ∧ Wrote Execution.history isReceived w own t
  | .failed e _ => (∃ message, e = .invalidUpdate message) ∨ ∃ message, e = .childWorkflowError message
  | .blocked qs _ _ => qs ≠ [] ∧ answersIn script < 3 * jobs.length
  | .refused => True

/-- No activity fails while another one's search for a worker is going on. -/
def LossPinned (a : List Event) (e : Event) : Prop := ∀ input call, e = .lost input call → FoundAll a

def isLost : Event → Bool
  | .lost _ _ => true
  | _ => false

theorem lossPinned_iff {a : List Event} {e : Event} :
    LossPinned a e ↔ (isLost e = true → FoundAll a) := by
  constructor
  · intro pinned lost
    cases e with
    | lost input call => exact pinned input call rfl
    | _ => cases lost
  · rintro found input call rfl
    exact found rfl

instance (a : List Event) (e : Event) : Decidable (LossPinned a e) :=
  decidable_of_iff _ lossPinned_iff.symm

theorem lossPinned_of_quiet {a : List Event} {e : Event} (quiet : isLost e = false) : LossPinned a e := by
  rintro input call rfl
  cases quiet

/-- The entries that a replay from `w` has added. -/
def added {α : Type} (w : Execution Chan)
    (outcome : Outcome (Execution Chan) Request Response Signal RunError α) : List Event :=
  (historyOf outcome).drop w.history.length

/-- The job `_execute_nodes` makes of a task. -/
def taskJob (graph : Pregel Chan) (graphRef : String) (channelValues : Dict PyVal) (t : PregelTask) :
    Job :=
  match subgraphOf t.name graph with
  | some name => .child t name
  | none => .node (taskInput graphRef channelValues t)

/-- The jobs of `_execute_nodes`. -/
def nodeJobs (env : Env Chan) (graph : Pregel Chan) (tasks : List PregelTask) (w : Execution Chan) :
    List Job :=
  (sortTasks tasks).map (taskJob graph w.self.graphRef (getChannelValues env.lg w.self.channels))

/-- The jobs of `_execute_push_tasks`. -/
def sendJobs (env : Env Chan) (sends : List SendRequest) (w : Execution Chan) : List Job :=
  sends.map fun send =>
    .node (pushInput w.self.graphRef (getChannelValues env.lg w.self.channels) send)

/-! ## Following the sticky queue -/

/-- Since `w₀`, no activity has failed during a search, and the sticky queue is
set unless a search is going on. -/
structure Follows (w₀ w : Execution Chan) : Prop where
  affinity : w.self.useWorkerAffinity = true
  since : ∃ new, w.history = w₀.history ++ new ∧ Guarded LossPinned new ∧
    (truthy w.self.stickyTaskQueue = true ↔ FoundAll new)

/-- Since `w₀`, an activity has failed during a search. -/
def Lapses (w₀ w : Execution Chan) : Prop :=
  ∃ new, w.history = w₀.history ++ new ∧ ¬Guarded LossPinned new

def Along (w₀ w w' : Execution Chan) : Prop := Follows w₀ w → Follows w₀ w'

instance (w₀ : Execution Chan) : IsPreorder (Execution Chan) (Along w₀) where
  refl _ := id
  trans _ _ _ before after := after ∘ before

/-- The errors of a job: an activity's only after a lapse. -/
def Escapes (w₀ : Execution Chan) (e : RunError) (s₀ s : Execution Chan) : Prop :=
  Follows w₀ s₀ →
    ((∃ message, e = .invalidUpdate message) ∨ ∃ message, e = .childWorkflowError message) ∧
        Follows w₀ s ∨
      (∃ message, e = .activityError message) ∧ Lapses w₀ s

instance (w₀ : Execution Chan) : Absorbs (Along w₀) (Escapes w₀) where
  absorb before escapes follows := escapes (before follows)

section Follows

variable {w₀ w w' : Execution Chan}

theorem Follows.start (affinity : w.self.useWorkerAffinity = true)
    (pinned : truthy w.self.stickyTaskQueue = true) : Follows w w :=
  ⟨affinity, [], (List.append_nil _).symm, guarded_nil, iff_of_true pinned after_nil⟩

/-- An entry that is neither a failure nor about a search. -/
theorem Follows.quiet {e : Event} (follows : Follows w₀ w)
    (affinity : w'.self.useWorkerAffinity = w.self.useWorkerAffinity)
    (sticky : w'.self.stickyTaskQueue = w.self.stickyTaskQueue)
    (history : w'.history = w.history ++ [e]) (searches : isSearch e = false)
    (finds : isFind e = false) (lost : isLost e = false) : Follows w₀ w' := by
  have searching : e ≠ .discovering := by
    rintro rfl
    cases searches
  have found : ∀ queue, e ≠ .discovered queue := by
    rintro queue rfl
    cases finds
  obtain ⟨new, written, guarded, pinned⟩ := follows.since
  refine ⟨affinity.trans follows.affinity, new ++ [e], ?_, ?_, ?_⟩
  · rw [history, written, List.append_assoc]
  · exact guarded.snoc (lossPinned_of_quiet lost)
  · rw [sticky, pinned]
    exact ⟨fun foundAll => foundAll.snoc searching, fun foundAll => foundAll.front found⟩

theorem Follows.dispatch {input : NodeActivityInput} {call : ActivityCall} (follows : Follows w₀ w) :
    Follows w₀ (w.log (.dispatched input call)) :=
  follows.quiet rfl rfl rfl rfl rfl rfl

/-- A failure that finds the sticky queue set is not one during a search. -/
theorem Follows.lose {input : NodeActivityInput} {call : ActivityCall} (follows : Follows w₀ w)
    (set : truthy w.self.stickyTaskQueue = true) : Follows w₀ (w.log (.lost input call)) := by
  obtain ⟨new, written, guarded, pinned⟩ := follows.since
  have foundAll : FoundAll new := pinned.mp set
  refine ⟨follows.affinity, new ++ [.lost input call], ?_, guarded.snoc fun _ _ _ => foundAll, ?_⟩
  · exact (congrArg (· ++ [Event.lost input call]) written).trans (List.append_assoc _ _ _)
  · exact iff_of_true set (foundAll.snoc nofun)

theorem Follows.lapse {input : NodeActivityInput} {call : ActivityCall} (follows : Follows w₀ w)
    (unset : ¬truthy w.self.stickyTaskQueue = true) : Lapses w₀ (w.log (.lost input call)) := by
  obtain ⟨new, written, guarded, pinned⟩ := follows.since
  refine ⟨new ++ [.lost input call], ?_, fun held => unset (pinned.mpr (held.last input call rfl))⟩
  exact (congrArg (· ++ [Event.lost input call]) written).trans (List.append_assoc _ _ _)

theorem Follows.search (follows : Follows w₀ w) :
    Follows w₀ ((w.mapSelf fun self => { self with stickyTaskQueue := none }).log .discovering) := by
  obtain ⟨new, written, guarded, pinned⟩ := follows.since
  refine ⟨follows.affinity, new ++ [.discovering], ?_, guarded.snoc (lossPinned_of_quiet rfl), ?_⟩
  · exact (congrArg (· ++ [Event.discovering]) written).trans (List.append_assoc _ _ _)
  · exact iff_of_false nofun not_foundAll_discovering

theorem Follows.find {queue : String} (follows : Follows w₀ w) (named : queue ≠ "") :
    Follows w₀ ((w.log (.discovered queue)).mapSelf fun self =>
      { self with stickyTaskQueue := some queue }) := by
  obtain ⟨new, written, guarded, pinned⟩ := follows.since
  refine ⟨follows.affinity, new ++ [.discovered queue], ?_, guarded.snoc (lossPinned_of_quiet rfl), ?_⟩
  · exact (congrArg (· ++ [Event.discovered queue]) written).trans (List.append_assoc _ _ _)
  · exact iff_of_true (by simpa [Execution.mapSelf, truthy] using named) foundAll_discovered

theorem Follows.signal {env : Env Chan} {signal : Signal} (follows : Follows w₀ w)
    (handled : (workflowSystem env).handle signal w = .ok w') : Follows w₀ w' := by
  have history := handle_history handled
  cases signal with
  | resume value =>
      cases handled
      exact follows.quiet rfl rfl history rfl rfl rfl
  | updateState writes =>
      simp only [workflowSystem] at handled
      split at handled
      · rename_i self updated
        cases handled
        obtain ⟨out, rfl⟩ := updateStateSignal_eq updated
        exact follows.quiet rfl rfl history rfl rfl rfl
      · cases handled

end Follows

/-! ## One job -/

section Job

variable {env : Env Chan} {alive : String → Bool} {w₀ s₀ s : Execution Chan}

/-- What an activity can come to where only lost workers fail. -/
theorem activity_answers {name : String} {input : NodeActivityInput} {call : ActivityCall}
    {r : Response} {w : Execution Chan}
    (answer : (affinitySystem env alive).Answers (.executeActivity name input call) r w) :
    (∃ o, r = .output o ∧ o.nodeName = input.nodeName) ∨
      (∃ message, r = .activityError message) ∧ Served alive call = false := by
  rcases answer with ready | permitted
  · cases ready
  · simp only [affinitySystem, Bool.and_eq_true] at permitted
    rcases activity_answer (.inr permitted.1) with ⟨o, rfl, name_eq, -⟩ | ⟨message, rfl⟩
    · exact .inl ⟨o, rfl, name_eq⟩
    · exact .inr ⟨⟨message, rfl⟩, by simpa using permitted.2⟩

/-- A search finds a worker. -/
theorem search_answers {r : Response} {w : Execution Chan}
    (answer : (affinitySystem env alive).Answers .getAvailableTaskQueue r w) :
    ∃ queue, r = .queue queue ∧ queue ≠ "" ∧ alive queue = true := by
  rcases answer with ready | permitted
  · cases ready
  · simp only [affinitySystem, workflowSystem, Bool.and_eq_true] at permitted
    cases r with
    | queue name => exact ⟨name, rfl, by simpa using permitted.1, permitted.2⟩
    | activityError message => cases permitted.2
    | output o => cases permitted.1
    | childOutput o => cases permitted.1
    | childError message => cases permitted.1
    | woken => cases permitted.1

/-- The call of a dispatch while the sticky queue is set. -/
theorem activityCall_pinned {self : LangGraphWorkflow Chan} {queue : String} {nodeName : String}
    (sticky : self.stickyTaskQueue = some queue) (named : queue ≠ "") :
    (self.activityCall nodeName).taskQueue = some queue := by
  have set : truthy self.stickyTaskQueue = true := by simpa [sticky, truthy] using named
  change self.taskQueueForNode nodeName = some queue
  rw [taskQueueForNode, if_pos set, sticky]

/-- One dispatch: an output, a failure that the fallback takes, or a lapse. -/
theorem dispatch_keeps {input : NodeActivityInput} (follows : Follows w₀ s) :
    (affinitySystem env alive).Keeps Execution.history .any (Along w₀)
      (fun result own t => Follows w₀ t ∧
        match result with
        | some r => r.nodeName = input.nodeName ∧
            own = [.dispatched input (s.self.activityCall input.nodeName)]
        | none => Served alive (s.self.activityCall input.nodeName) = false ∧
            own = [.dispatched input (s.self.activityCall input.nodeName),
              .lost input (s.self.activityCall input.nodeName)])
      (Escapes w₀) (dispatchActivity input input.nodeName) [] s s := by
  unfold dispatchActivity
  simp only [Coro.bind_eq]
  refine keeps_record.mpr (Keeps.request_bind (fun _ => follows.dispatch) trivial
    fun t r later answer => ?_)
  have followsNow : Follows w₀ t := later follows.dispatch
  rcases activity_answers answer with ⟨o, rfl, name⟩ | ⟨⟨message, rfl⟩, gone⟩
  · exact ⟨id, trivial, followsNow, name, rfl⟩
  · refine keeps_record.mpr ?_
    change Keeps _ _ _ _ _ _ (if t.self.useWorkerAffinity && truthy t.self.stickyTaskQueue then _ else _)
      _ _ _
    rw [followsNow.affinity, Bool.true_and]
    split
    · rename_i set
      exact ⟨fun _ => followsNow.lose set, trivial, followsNow.lose set, gone, rfl⟩
    · rename_i unset
      exact ⟨trivial, fun _ => .inr ⟨⟨message, rfl⟩, followsNow.lapse unset⟩⟩

theorem rediscoverWorker_keeps (follows : Follows w₀ s) :
    (affinitySystem env alive).Keeps Execution.history .any (Along w₀)
      (fun _ own t => Follows w₀ t ∧ ∃ queue, queue ≠ "" ∧ alive queue = true ∧
        t.self.stickyTaskQueue = some queue ∧ own = [.discovering, .discovered queue])
      (Escapes w₀) rediscoverWorker [] s s := by
  unfold rediscoverWorker getAvailableTaskQueue
  simp only [Coro.bind_eq, Coro.bind_assoc]
  refine keeps_setSelf.mpr (keeps_record.mpr ?_)
  refine Keeps.request_bind (fun _ => follows.search) trivial fun t r later answer => ?_
  obtain ⟨queue, rfl, named, living⟩ := search_answers answer
  have found := (later follows.search).find named
  simp only [Coro.bind_assoc]
  refine keeps_record.mpr ?_
  exact ⟨[], (List.append_nil _).symm, fun _ => found, trivial, found, queue, named, living, rfl, rfl⟩

theorem executeSingleActivity_keeps {input : NodeActivityInput} (follows : Follows w₀ s) :
    (affinitySystem env alive).Keeps Execution.history .any (Along w₀)
      (fun r own _ => Attempt (.node input) r own) (Escapes w₀)
      (executeSingleActivity input input.nodeName) [] s s := by
  refine Keeps.bind (dispatch_keeps follows) fun result own s₁ t later _ held => ?_
  obtain ⟨followsNow, held⟩ := held
  cases result with
  | some r =>
      obtain ⟨name, rfl⟩ := held
      exact ⟨later, trivial, .answered _ name⟩
  | none =>
      obtain ⟨-, rfl⟩ := held
      refine Keeps.bind (Keeps.start later (Keeps.frame trivial (rediscoverWorker_keeps followsNow))) ?_
      rintro _ own s₂ u later' - ⟨_, rfl, followsThen, queue, named, living, sticky, rfl⟩
      refine Keeps.bind (Keeps.start later' (Keeps.frame trivial (dispatch_keeps followsThen))) ?_
      rintro result' own s₃ v later'' - ⟨_, rfl, -, held⟩
      have pinned : (u.self.activityCall input.nodeName).taskQueue = some queue :=
        activityCall_pinned sticky named
      cases result' with
      | some r =>
          obtain ⟨name, rfl⟩ := held
          exact ⟨later'', trivial, .retried _ _ queue name pinned⟩
      | none =>
          have served : Served alive (u.self.activityCall input.nodeName) = true := by
            rw [Served, pinned]
            exact living
          obtain ⟨gone, -⟩ := held
          rw [served] at gone
          cases gone

theorem executeSubgraph_keeps {t : PregelTask} {name : String} (follows : Follows w₀ s) :
    (affinitySystem env alive).Keeps Execution.history .any (Along w₀)
      (fun r own _ => Attempt (.child t name) r own) (Escapes w₀)
      (executeSubgraphAsChildWorkflow env t name) [] s s := by
  have started {call : ChildCall} : Follows w₀ ((⟨s.self, s.history, s.uuids, s.drawn + 1⟩ :
      Execution Chan).log (.subgraphStarted t.name call)) :=
    follows.quiet rfl rfl rfl rfl rfl rfl
  unfold executeSubgraphAsChildWorkflow
  simp only [Coro.bind_eq]
  refine keeps_registerGraph.mpr (keeps_record.mpr ?_)
  refine Keeps.request_bind (fun _ => started) trivial fun u r later answer => ?_
  cases r with
  | childOutput result => exact ⟨id, trivial, .child _ result⟩
  | childError message => exact ⟨trivial, fun _ => .inl ⟨.inr ⟨message, rfl⟩, later started⟩⟩
  | output | activityError | queue | woken =>
      rcases answer with ready | permitted
      · cases ready
      · simp [affinitySystem, workflowSystem] at permitted

theorem job_keeps (job : Job) (follows : Follows w₀ s) :
    (affinitySystem env alive).Keeps Execution.history .any (Along w₀) (fun r own _ => Attempt job r own)
      (Escapes w₀) (job.coroutine env) [] s s := by
  cases job with
  | node input => exact executeSingleActivity_keeps follows
  | child task name => exact executeSubgraph_keeps follows

theorem dispatch_bounded (input : NodeActivityInput) :
    Bounded (dispatchActivity input input.nodeName : WorkflowM Chan _) 1 := by
  refine fun w v => ⟨Nat.one_pos, fun i r => ?_⟩
  cases r with
  | activityError message =>
      intro w v
      change Bounded (if _ then _ else _) _
      split <;> trivial
  | _ => trivial

theorem rediscoverWorker_bounded : Bounded (rediscoverWorker : WorkflowM Chan Unit) 1 := by
  refine fun w v => ⟨Nat.one_pos, fun i r => ?_⟩
  cases r with
  | queue name => exact fun w v => trivial
  | _ => trivial

/-- A job makes at most three requests. -/
theorem job_bounded (job : Job) : Bounded (job.coroutine env) 3 := by
  cases job with
  | node input =>
      refine (dispatch_bounded input).bind (m := 2) fun result => ?_
      cases result with
      | some r => trivial
      | none =>
          refine rediscoverWorker_bounded.bind (m := 1) fun _ => ?_
          refine (dispatch_bounded input).bind (m := 0) fun result => ?_
          cases result <;> trivial
  | child task name =>
      refine fun w v u t => ⟨by omega, fun i r => ?_⟩
      cases r <;> trivial

theorem awaitAll_bounded (jobs : List Job) :
    Bounded (awaitAll (jobs.map (Job.coroutine env))) (3 * jobs.length) := by
  match jobs with
  | [] => trivial
  | [job] => exact (job_bounded job).bind (m := 0) fun _ => trivial
  | job :: other :: jobs => exact Bounded.gather job_bounded (job :: other :: jobs)

/-- The jobs of a gather, side by side. -/
theorem awaitAll_wp (alive : String → Bool) (jobs : List Job) (follows : Follows s s) :
    (affinitySystem env alive).wp
      (fun rs t => Follows s t ∧
        ∃ own, Gathers Attempt jobs rs own ∧ Wrote Execution.history isReceived s own t)
      (fun e t => Escapes s e s t) (fun qs t => qs ≠ [] ∧ Follows s t)
      (awaitAll (jobs.map (Job.coroutine env))) s := by
  have begun : Wrote Execution.history isReceived s [] s := wrote_nil
  have keeps : (affinitySystem env alive).Keeps Execution.history .any (Along s)
      (fun rs own _ => Gathers Attempt jobs rs own) (Escapes s)
      (awaitAll (jobs.map (Job.coroutine env))) [] s s :=
    awaitAll_keeps (P := fun _ => True) (fun _ _ _ _ _ held _ => held) id trivial jobs
      (fun job _ t along _ => job_keeps job (along follows)) fun _ _ _ _ _ _ => trivial
  refine wp_mono ?_ (fun _ _ held => held.1) (fun _ _ => id) (Keeps.wp id ?_ ?_ ?_ begun keeps)
  · rintro rs t ⟨along, own, -, gathers, wrote⟩
    exact ⟨along follows, own, gathers, wrote⟩
  · intro t signal u along handled
    refine ⟨fun here => here.signal handled, _, handle_history handled, fun e mem => ?_⟩
    rw [List.mem_singleton.mp mem]
    trivial
  · intro t signal e along failing _
    obtain ⟨message, rfl⟩ := handle_error failing
    exact .inl ⟨.inl ⟨message, rfl⟩, along follows⟩
  · exact fun qs t along waiting _ => ⟨waiting, along follows⟩

end Job

/-! ## The fallback of a gather -/

section Fallback

variable (env : Env Chan) (alive : String → Bool) {w : Execution Chan}

/-- What is added along the way, seen from the start. -/
theorem Follows.guarded {α : Type} {w w' : Execution Chan}
    {outcome : Outcome (Execution Chan) Request Response Signal RunError α} (follows : Follows w w')
    (stopped : historyOf outcome = w'.history) : Guarded LossPinned (added w outcome) := by
  obtain ⟨new, written, guarded, -⟩ := follows.since
  rw [added, stopped, written, List.drop_left]
  exact guarded

theorem recovers_iff (jobs : List Job) (follows : Follows w w) (script : List (Action Response Signal)) :
    Recovers w jobs script ((affinitySystem env alive).replay
        (awaitAll (jobs.map (Job.coroutine env))) script w) ↔
      Guarded LossPinned (added w ((affinitySystem env alive).replay
        (awaitAll (jobs.map (Job.coroutine env))) script w)) := by
  have holds := (affinitySystem env alive).replay_holds _ script w
    (awaitAll_wp alive jobs follows)
  cases outcome : (affinitySystem env alive).replay (awaitAll (jobs.map (Job.coroutine env))) script w with
  | done rs rest t =>
      rw [outcome] at holds
      exact iff_of_true holds.2 (holds.1.guarded rfl)
  | blocked qs k t =>
      rw [outcome] at holds
      have waits := answers_lt_of_blocked (awaitAll_bounded jobs) outcome
      exact iff_of_true ⟨holds.1, waits⟩ (holds.2.guarded rfl)
  | refused =>
      refine iff_of_true trivial ?_
      rw [added, historyOf, List.drop_nil]
      exact guarded_nil
  | failed e t =>
      rw [outcome] at holds
      rcases holds follows with ⟨other, here⟩ | ⟨⟨message, rfl⟩, lapses⟩
      · exact iff_of_true other (here.guarded rfl)
      · refine iff_of_false ?_ fun guarded => ?_
        · rintro (⟨message', same⟩ | ⟨message', same⟩) <;> cases same
        · obtain ⟨new, written, lapsed⟩ := lapses
          refine lapsed ?_
          rw [added, historyOf, written, List.drop_left] at guarded
          exact guarded

theorem executeTask_eq (graph : Pregel Chan) (graphRef : String) (channelValues : Dict PyVal) :
    executeTask env graph graphRef channelValues =
      Job.coroutine env ∘ taskJob graph graphRef channelValues := by
  funext t
  unfold executeTask taskJob
  simp only [Function.comp_apply]
  cases subgraphOf t.name graph <;> rfl

/-- **The fallback works exactly when no failure falls into another task's
search for a worker.** From any state with a sticky queue, for any tasks of one
gather and any order of answers and signals, when only lost workers fail and
searches succeed. -/
theorem affinity_fallback_iff (graph : Pregel Chan) (tasks : List PregelTask)
    (sends : List SendRequest) (affinity : w.self.useWorkerAffinity = true)
    (pinned : truthy w.self.stickyTaskQueue = true) (script : List (Action Response Signal)) :
    (Recovers w (nodeJobs env graph tasks w) script
        ((affinitySystem env alive).replay (executeNodes env graph tasks) script w) ↔
      Guarded LossPinned
        (added w ((affinitySystem env alive).replay (executeNodes env graph tasks) script w))) ∧
    (Recovers w (sendJobs env sends w) script
        ((affinitySystem env alive).replay (executePushTasks env sends) script w) ↔
      Guarded LossPinned
        (added w ((affinitySystem env alive).replay (executePushTasks env sends) script w))) := by
  have follows := Follows.start affinity pinned
  constructor
  · have jobs := recovers_iff env alive (nodeJobs env graph tasks w) follows script
    rw [nodeJobs, List.map_map, ← executeTask_eq] at jobs
    exact jobs
  · have jobs := recovers_iff env alive (sendJobs env sends w) follows script
    rw [sendJobs, List.map_map] at jobs
    exact jobs

end Fallback

section Runs

open Reference

def affinityGraph : Pregel Channel := graph [("a", ["in"]), ("b", ["in"])]

/-- A workflow that is pinned to a worker. -/
def pinnedTo (queue : String) : Execution Channel where
  self := { init (Reference.env affinityGraph) with useWorkerAffinity := true, stickyTaskQueue := some queue }
  uuids := fun _ => ""

def bothTasks : List PregelTask :=
  [⟨"a", [.str "__pregel_pull", .str "a"]⟩, ⟨"b", [.str "__pregel_pull", .str "b"]⟩]

/-- Two tasks whose worker is gone, and `worker-2` for them to fall back to. -/
def runBoth (script : List (Action Response Signal)) :
    Outcome (Execution Channel) Request Response Signal RunError (List NodeActivityOutput) :=
  (affinitySystem (Reference.env affinityGraph) fun queue => queue == "worker-2").replay
    (executeNodes (Reference.env affinityGraph) affinityGraph bothTasks) script (pinnedTo "worker-1")

/-- The second failure comes when the first task has found a worker. -/
def turnsScript : List (Action Response Signal) :=
  [.answer 0 (.activityError "gone"), .answer 0 (.queue "worker-2"), .answer 1 (.activityError "gone"),
    .answer 1 (.queue "worker-2"), .answer 0 (.output (pulled "a" [])), .answer 0 (.output (pulled "b" []))]

theorem affinity_fallback_turnsScript :
    Recovers (pinnedTo "worker-1") (nodeJobs (Reference.env affinityGraph) affinityGraph bothTasks
      (pinnedTo "worker-1")) turnsScript (runBoth turnsScript) :=
  (affinity_fallback_iff (Reference.env affinityGraph) (fun queue => queue == "worker-2") affinityGraph
    bothTasks [] rfl rfl turnsScript).1.mpr (by decide)

/-- The second failure comes while the first task is searching. -/
def meanwhileScript : List (Action Response Signal) :=
  [.answer 0 (.activityError "gone"), .answer 1 (.activityError "gone")]

/-- **A failure during another task's search escapes.** -/
theorem second_loss_escapes :
    ¬Recovers (pinnedTo "worker-1") (nodeJobs (Reference.env affinityGraph) affinityGraph bothTasks
      (pinnedTo "worker-1")) meanwhileScript (runBoth meanwhileScript) := by
  have failed : ∃ w, runBoth meanwhileScript = .failed (.activityError "gone") w := ⟨_, rfl⟩
  obtain ⟨w, failed⟩ := failed
  rw [failed]
  rintro (⟨message, same⟩ | ⟨message, same⟩) <;> cases same

end Runs

end LanggraphTemporal.Properties
