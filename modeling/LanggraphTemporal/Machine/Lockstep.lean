/-
# Machine.Lockstep -- executions that cannot be told apart

Two executions are `Alike` when everything that the workflow reads before it
overwrites it is the same: the history and the source of random digits, the
configuration, the step, the sticky queue, and the checkpoint and the channels
as far as LangGraph can tell.  Inside a pause, and until the end of its
superstep, the interrupts and the resume state have to be the same as well.

From alike executions every method does the same, and leaves them alike
(`Mirrors`; `Passes` where a pause makes the link tighter), up to a whole
superstep (`superstep_passes`).
-/
import LanggraphTemporal.Theory.CoroutineSim
import LanggraphTemporal.Machine.Refinement

namespace LanggraphTemporal.Machine

set_option autoImplicit false

open Theory Theory.System Model Model.LangGraphWorkflow

variable {Chan : Type}

/-! ## Alike executions -/

/-- What a pause sets. -/
structure SamePause (wf wf' : LangGraphWorkflow Chan) : Prop where
  interrupts : wf.interrupts = wf'.interrupts
  values : wf.resumeValues = wf'.resumeValues
  event : wf.resumeEvent = wf'.resumeEvent

/-- The two workflows cannot be told apart; `paused` when they have paused in
this superstep. -/
structure Alike (S : Setting Chan) (alike : Checkpoint → Dict Chan → Checkpoint → Dict Chan → Prop)
    (paused : Bool) (w v : Execution Chan) : Prop where
  history : w.history = v.history
  uuids : w.uuids = v.uuids
  drawn : w.drawn = v.drawn
  left : Configured S.graph S.input w.self
  right : Configured S.graph S.input v.self
  step : w.self.step = v.self.step
  sticky : w.self.stickyTaskQueue = v.self.stickyTaskQueue
  data : alike w.self.checkpoint w.self.channels v.self.checkpoint v.self.channels
  pause : paused = true → SamePause w.self v.self

def SameHistory (w v : Execution Chan) : Prop := w.history = v.history

variable {S : Setting Chan} {alike : Checkpoint → Dict Chan → Checkpoint → Dict Chan → Prop}
  {paused : Bool} {w v : Execution Chan} {start : Checkpoint}

namespace Alike

theorem loosen (same : Alike S alike paused w v) : Alike S alike false w v :=
  { same with pause := nofun }

theorem log (same : Alike S alike paused w v) (e : Event) : Alike S alike paused (w.log e) (v.log e) :=
  { same with history := congrArg (· ++ [e]) same.history }

theorem draw (same : Alike S alike paused w v) :
    Alike S alike paused { w with drawn := w.drawn + 1 } { v with drawn := v.drawn + 1 } :=
  { same with drawn := congrArg (· + 1) same.drawn }

theorem graphRef (same : Alike S alike paused w v) : w.self.graphRef = v.self.graphRef :=
  same.left.graphRef.trans same.right.graphRef.symm

theorem triggers (same : Alike S alike paused w v) : w.self.triggerToNodes = v.self.triggerToNodes :=
  same.left.triggers.trans same.right.triggers.symm

theorem affinity (same : Alike S alike paused w v) :
    w.self.useWorkerAffinity = v.self.useWorkerAffinity :=
  same.left.affinity.trans same.right.affinity.symm

theorem activityCall (same : Alike S alike paused w v) (nodeName : String) :
    w.self.activityCall nodeName = v.self.activityCall nodeName := by
  unfold LangGraphWorkflow.activityCall taskQueueForNode activityOptionsForNode retryPolicyForNode
  rw [same.sticky, same.left.taskQueues, same.right.taskQueues, same.left.options, same.right.options,
    same.left.retries, same.right.retries]

theorem childCall (same : Alike S alike paused w v) (req : ChildRequest) (input : WorkflowInput)
    (index : Nat) :
    LangGraphWorkflow.childCall S.env w.self req input index =
      LangGraphWorkflow.childCall S.env v.self req input index := by
  unfold LangGraphWorkflow.childCall
  rw [same.step, same.left.subagents, same.right.subagents]

theorem values (restores : S.env.lg.Restores S.graph.channels start alike)
    (same : Alike S alike paused w v) :
    getChannelValues S.env.lg w.self.channels = getChannelValues S.env.lg v.self.channels :=
  restores.values _ _ _ _ same.data

/-- Writes applied on both sides. -/
theorem applied {out out' : Applied Chan} (same : Alike S alike paused w v)
    (data : alike out.checkpoint out.channels out'.checkpoint out'.channels) :
    Alike S alike paused (w.mapSelf (withApplied out)) (v.mapSelf (withApplied out')) :=
  { same with
    left := { same.left with }
    right := { same.right with }
    data := data
    pause := fun p => { same.pause p with } }

end Alike

/-- Signals keep two executions alike, and both get the same answers; the
resume event is waited for only in a pause. -/
theorem alike_lockstep (restores : S.env.lg.Restores S.graph.channels start alike) {qs : List Request}
    (pauses : .resumeEvent ∈ qs → paused = true) :
    (workflowSystem S.env).Lockstep (Alike S alike paused) SameHistory qs where
  link _ _ same := same.history
  signal w v same signal := by
    cases signal with
    | resume value =>
        refine { same.log (.received (.resume value)) with
          left := { same.left with }, right := { same.right with }, pause := fun p => ?_ }
        have before := same.pause p
        exact ⟨before.interrupts, congrArg (· ++ [value]) before.values, rfl⟩
    | updateState writes =>
        have task := restores.applied _ _ _ _ same.data
          [⟨[.str "__update__"], "__update__", writes, []⟩] w.self.triggerToNodes
        simp only [workflowSystem, updateStateSignal, ← same.triggers]
        rcases task with ⟨out, out', ok, ok', -, data⟩ | ⟨message, failed, failed'⟩
        · rw [ok, ok']
          exact (same.applied data).log _
        · rw [failed, failed']
          exact ⟨rfl, same.history⟩
  ready w v same q mem := by
    cases q with
    | resumeEvent =>
        simp only [workflowSystem]
        rw [(same.pause (pauses mem)).event]
    | _ => rfl
  permits _ _ _ _ _ _ := rfl

/-! ## Methods without pauses -/

/-- From alike executions the coroutine does the same, alone or beside others. -/
def Mirrors (S : Setting Chan) (alike : Checkpoint → Dict Chan → Checkpoint → Dict Chan → Prop)
    (paused : Bool) {α : Type} (c : WorkflowM Chan α) : Prop :=
  ∀ w v, Alike S alike paused w v → (workflowSystem S.env).Mirror (Only (Alike S alike paused))
    SameHistory (Same (Alike S alike paused)) c w c v

namespace Mirrors

variable {α β ι : Type}

theorem ret (a : α) : Mirrors S alike paused (.ret a) := fun _ v same => ⟨a, v, rfl, rfl, same⟩

theorem raise (e : RunError) : Mirrors S alike paused (α := α) (.raise e) :=
  fun _ v same => ⟨v, rfl, same.history⟩

theorem bind {c : WorkflowM Chan α} {f : α → WorkflowM Chan β} (mirrors : Mirrors S alike paused c)
    (next : ∀ a, Mirrors S alike paused (f a)) : Mirrors S alike paused (c.bind f) := by
  intro w v same
  refine (mirrors w v same).bind ?_
  rintro a _ w v ⟨rfl, same⟩
  exact next a w v same

theorem getSelf {f : LangGraphWorkflow Chan → WorkflowM Chan α}
    (next : ∀ w v, Alike S alike paused w v →
      (workflowSystem S.env).Mirror (Only (Alike S alike paused)) SameHistory
        (Same (Alike S alike paused)) (f w.self) w (f v.self) v) :
    Mirrors S alike paused (getSelf.bind f) :=
  fun w v same => .read (next w v same)

theorem setSelf {g : LangGraphWorkflow Chan → LangGraphWorkflow Chan} {f : Unit → WorkflowM Chan α}
    (keeps : ∀ w v, Alike S alike paused w v → Alike S alike paused (w.mapSelf g) (v.mapSelf g))
    (next : Mirrors S alike paused (f ())) : Mirrors S alike paused ((setSelf g).bind f) :=
  fun w v same => .modify (next _ _ (keeps w v same))

theorem record {e : Event} {f : Unit → WorkflowM Chan α} (next : Mirrors S alike paused (f ())) :
    Mirrors S alike paused ((record e).bind f) :=
  fun _ _ same => .modify (next _ _ (same.log e))

theorem registerGraph {name : String} {f : String → WorkflowM Chan α}
    (next : ∀ subRef, Mirrors S alike paused (f subRef)) :
    Mirrors S alike paused ((registerGraph name).bind f) := by
  intro w v same
  have digits : w.uuids w.drawn = v.uuids v.drawn := by rw [same.uuids, same.drawn]
  refine Mirror.congr (d := f (name ++ "_" ++ (v.uuids v.drawn).take 8))
    (t := { v with drawn := v.drawn + 1 }) rfl ?_
  change Mirror _ _ _ _ (f (name ++ "_" ++ (w.uuids w.drawn).take 8)) { w with drawn := w.drawn + 1 } _ _
  rw [digits]
  exact next _ _ _ same.draw

variable (restores : S.env.lg.Restores S.graph.channels start alike)
include restores

theorem request {q : Request} {f : Response → WorkflowM Chan α} (plain : q ≠ .resumeEvent)
    (next : ∀ r, Mirrors S alike paused (f r)) : Mirrors S alike paused ((Coro.request q).bind f) := by
  intro w v same
  have lock : (workflowSystem S.env).Lockstep (Alike S alike paused) SameHistory [q] :=
    alike_lockstep restores fun mem => absurd (List.mem_singleton.mp mem).symm plain
  exact .request rfl lock same fun w v r same _ => next r w v same

omit restores in
theorem gather {f : ι → WorkflowM Chan α} (each : ∀ x, Mirrors S alike paused (f x)) (xs : List ι) :
    Mirrors S alike paused (Coro.gather (xs.map f)) :=
  fun _ _ same => .gather xs (fun x _ => each x) same

omit restores in
theorem awaitAll {f : ι → WorkflowM Chan NodeActivityOutput} (each : ∀ x, Mirrors S alike paused (f x))
    (xs : List ι) : Mirrors S alike paused (awaitAll (xs.map f)) := by
  match xs with
  | [] => exact gather each []
  | [x] => exact (each x).bind fun r => ret [r]
  | x :: y :: xs => exact gather each (x :: y :: xs)

end Mirrors

section Methods

variable (restores : S.env.lg.Restores S.graph.channels start alike)
include restores

theorem getAvailableTaskQueue_mirrors :
    Mirrors S alike paused (getAvailableTaskQueue : WorkflowM Chan String) := by
  refine .record (.request restores (by nofun) fun r => ?_)
  cases r with
  | queue name => exact .record (.ret name)
  | activityError message => exact .raise _
  | _ => exact .raise _

theorem rediscoverWorker_mirrors : Mirrors S alike paused (rediscoverWorker : WorkflowM Chan Unit) := by
  refine .setSelf (fun w v same => ?_) (.bind (getAvailableTaskQueue_mirrors restores) fun queue => ?_)
  · exact { same with
      left := { same.left with }, right := { same.right with }, sticky := rfl
      pause := fun p => { same.pause p with } }
  · intro w v same
    exact ⟨(), _, rfl, rfl, { same with
      left := { same.left with }, right := { same.right with }, sticky := rfl
      pause := fun p => { same.pause p with } }⟩

theorem dispatchActivity_mirrors (input : NodeActivityInput) (nodeName : String) :
    Mirrors S alike paused (dispatchActivity input nodeName : WorkflowM Chan _) := by
  refine .getSelf fun w v same => ?_
  dsimp only
  rw [same.activityCall]
  refine Mirrors.record (.request restores (by nofun) fun r => ?_) w v same
  cases r with
  | output o => exact .ret _
  | activityError message =>
      refine .record (.getSelf fun w v same => ?_)
      rw [same.affinity, same.sticky]
      split
      · exact Mirrors.ret _ w v same
      · exact Mirrors.raise _ w v same
  | _ => exact .raise _

theorem executeSingleActivity_mirrors (input : NodeActivityInput) (nodeName : String) :
    Mirrors S alike paused (executeSingleActivity input nodeName : WorkflowM Chan _) := by
  refine .bind (dispatchActivity_mirrors restores input nodeName) fun result => ?_
  cases result with
  | some r => exact .ret r
  | none =>
      refine .bind (rediscoverWorker_mirrors restores) fun _ => ?_
      refine .bind (dispatchActivity_mirrors restores input nodeName) fun result => ?_
      cases result with
      | some r => exact .ret r
      | none => exact .raise _

theorem executeSubgraph_mirrors (t : PregelTask) (name : String) :
    Mirrors S alike paused (executeSubgraphAsChildWorkflow S.env t name) := by
  refine .getSelf fun w v same => ?_
  dsimp only
  rw [same.values restores]
  refine Mirrors.registerGraph (fun subRef => .record (.request restores (by nofun) fun r => ?_)) w v same
  cases r with
  | childOutput result => exact .ret _
  | childError message => exact .raise _
  | _ => exact .raise _

theorem executeTask_mirrors (graphRef : String) (channelValues : Dict PyVal) (t : PregelTask) :
    Mirrors S alike paused (executeTask S.env S.graph graphRef channelValues t) := by
  unfold executeTask
  split
  · exact executeSubgraph_mirrors restores t _
  · exact executeSingleActivity_mirrors restores _ _

theorem executeNodes_mirrors (tasks : List PregelTask) :
    Mirrors S alike paused (executeNodes S.env S.graph tasks) := by
  refine .getSelf fun w v same => ?_
  dsimp only
  rw [same.graphRef, same.values restores]
  exact Mirrors.awaitAll (executeTask_mirrors restores _ _) _ w v same

theorem executeResumed_mirrors (channelValues : Dict PyVal) (rs : List NodeActivityOutput) :
    Mirrors S alike true (executeResumed channelValues rs : WorkflowM Chan _) := by
  induction rs with
  | nil => exact .ret []
  | cons r rs ih =>
      refine .getSelf fun w v same => ?_
      rw [same.graphRef, (same.pause rfl).values]
      refine Mirrors.bind (executeSingleActivity_mirrors restores _ _) (fun result => ?_) w v same
      exact .bind ih fun results => .ret _

theorem executeResumedNodes_mirrors (interruptedResults : List NodeActivityOutput) :
    Mirrors S alike true (executeResumedNodes S.env interruptedResults) := by
  refine .getSelf fun w v same => ?_
  rw [same.values restores]
  exact executeResumed_mirrors restores _ interruptedResults w v same

theorem executePushTasks_mirrors (sends : List SendRequest) :
    Mirrors S alike paused (executePushTasks S.env sends) := by
  refine .getSelf fun w v same => ?_
  dsimp only
  rw [same.graphRef, same.values restores]
  exact Mirrors.awaitAll (fun send => executeSingleActivity_mirrors restores _ _) sends w v same

theorem dispatchChildWorkflow_mirrors (req : ChildRequest) (input : WorkflowInput) (index : Nat) :
    Mirrors S alike paused (dispatchChildWorkflow S.env req input index).attempt := by
  rw [dispatchChildWorkflow_attempt]
  refine .getSelf fun w v same => ?_
  rw [same.childCall]
  exact Mirrors.record (.request restores (by nofun) fun r => .ret _) w v same

theorem serveRequests_mirrors (input : WorkflowInput) (r : NodeActivityOutput) :
    Mirrors S alike paused (serveRequests S.env input r) := by
  unfold serveRequests
  split
  · exact .ret r
  · refine .bind (.gather (fun p : ChildRequest × Nat => dispatchChildWorkflow_mirrors restores p.1 input p.2) _)
      fun outputs => ?_
    split
    · exact .ret _
    · exact .raise _

theorem processChildWorkflowRequests_mirrors (input : WorkflowInput) (rs : List NodeActivityOutput) :
    Mirrors S alike paused (processChildWorkflowRequests S.env input rs) := by
  induction rs with
  | nil => exact .ret []
  | cons r rs ih =>
      refine .bind (serveRequests_mirrors restores input r) fun result => ?_
      exact .bind ih fun results => .ret _

theorem handleSends_mirrors (route : Route) (sends : List SendRequest)
    (results : List NodeActivityOutput) :
    Mirrors S alike paused (handleSends S.env route sends results) := by
  unfold handleSends
  split
  · exact .record (.ret results)
  · refine .bind (executePushTasks_mirrors restores sends) fun sendResults => ?_
    exact .record (.ret _)

theorem applyResults_mirrors (results : List NodeActivityOutput) :
    Mirrors S alike paused (applyResults S.env S.graph results) := by
  unfold applyResults
  dsimp only
  split
  · intro w v same
    exact ⟨(), _, rfl, rfl, same.log .skipped⟩
  · refine .getSelf fun w v same => ?_
    have applied := restores.applied _ _ _ _ same.data (writesOf S.graph results) w.self.triggerToNodes
    rw [← same.triggers]
    rcases applied with ⟨out, out', ok, ok', updated, data⟩ | ⟨message, failed, failed'⟩
    · rw [ok, ok']
      dsimp only
      rw [updated]
      have set : (workflowSystem S.env).Mirror (Only (Alike S alike paused)) SameHistory
          (Same (Alike S alike paused)) (Model.setSelf (withApplied out)) w
          (Model.setSelf (withApplied out')) v :=
        ⟨(), _, rfl, rfl, same.applied data⟩
      refine Mirror.bind set ?_
      rintro _ _ w v ⟨-, same⟩
      exact ⟨(), _, rfl, rfl, same.log _⟩
    · rw [failed, failed']
      exact Mirrors.raise _ w v same

end Methods

/-! ## Pauses and supersteps -/

/-- From executions alike `before`, the coroutine does the same and leaves them
alike `after`. -/
def Passes (S : Setting Chan) (alike : Checkpoint → Dict Chan → Checkpoint → Dict Chan → Prop)
    (before after : Bool) {α : Type} (c : WorkflowM Chan α) : Prop :=
  ∀ w v, Alike S alike before w v → (workflowSystem S.env).Mirror Any SameHistory
    (Same (Alike S alike after)) c w c v

section Passes

variable {α β : Type} {before after : Bool}

theorem Mirrors.passes {c : WorkflowM Chan α} (mirrors : Mirrors S alike paused c) :
    Passes S alike paused paused c :=
  fun w v same => Mirror.mono (fun _ _ => trivial) (fun _ _ _ _ => id) (mirrors w v same)

theorem Passes.bind {c : WorkflowM Chan α} {f : α → WorkflowM Chan β}
    (passes : Passes S alike before paused c) (next : ∀ a, Passes S alike paused after (f a)) :
    Passes S alike before after (c.bind f) := by
  intro w v same
  refine (passes w v same).bind ?_
  rintro a _ w v ⟨rfl, same⟩
  exact next a w v same

theorem Passes.loosen {c : WorkflowM Chan α} (passes : Passes S alike before paused c) :
    Passes S alike before false c :=
  fun w v same => Mirror.mono (fun _ => id) (fun _ _ _ _ held => ⟨held.1, held.2.loosen⟩)
    (passes w v same)

theorem Passes.record {e : Event} {f : Unit → WorkflowM Chan α}
    (next : Passes S alike before after (f ())) : Passes S alike before after ((record e).bind f) :=
  fun _ _ same => .modify (next _ _ (same.log e))

theorem Passes.setSelf {g : LangGraphWorkflow Chan → LangGraphWorkflow Chan}
    {f : Unit → WorkflowM Chan α}
    (keeps : ∀ w v, Alike S alike before w v → Alike S alike before (w.mapSelf g) (v.mapSelf g))
    (next : Passes S alike before after (f ())) : Passes S alike before after ((setSelf g).bind f) :=
  fun w v same => .modify (next _ _ (keeps w v same))

variable (restores : S.env.lg.Restores S.graph.channels start alike)
include restores

/-- **A pause makes the link tighter**: the interrupts and the resume state are
the same from there on. -/
theorem pause_passes (entries : List PendingInterrupt) :
    Passes S alike before true ((setSelf (interrupt entries)).bind fun _ => waitForResume) := by
  intro w v same
  have begun : Alike S alike true ((w.mapSelf (interrupt entries)).mapSelf clearResume)
      ((v.mapSelf (interrupt entries)).mapSelf clearResume) :=
    { same with
      left := { same.left with }, right := { same.right with }
      pause := fun _ => ⟨rfl, rfl, rfl⟩ }
  have lock : (workflowSystem S.env).Lockstep (Alike S alike true) SameHistory [.resumeEvent] :=
    alike_lockstep restores fun _ => rfl
  refine .modify (.modify (.read (.modify (.request trivial lock (begun.log (.paused entries)) ?_))))
  intro w v r same _
  have woken : Alike S alike true (w.mapSelf wake) (v.mapSelf wake) :=
    { same with
      left := { same.left with }, right := { same.right with }
      pause := fun p => { same.pause p with } }
  refine .modify (.read ?_)
  change Mirror _ _ _ _ (Model.record (.resumed w.self.resumeValues)) _
    (Model.record (.resumed v.self.resumeValues)) _
  rw [(same.pause rfl).values]
  exact ⟨(), _, rfl, rfl, woken.log _⟩

theorem interruptCheck_passes (nodes : Option InterruptNodes) (entry : String → PendingInterrupt)
    (tasks : List PregelTask) :
    Passes S alike false false (interruptCheck nodes entry tasks : WorkflowM Chan Unit) := by
  unfold interruptCheck
  split
  · exact (pause_passes restores _).loosen
  · exact (Mirrors.ret ()).passes

theorem handleInterrupted_passes (results : List NodeActivityOutput) :
    Passes S alike false false (handleInterrupted S.env results) := by
  unfold handleInterrupted
  dsimp only
  split
  · exact (Mirrors.record (.ret results)).passes
  · have resumed : Mirrors S alike true (do
        let resumed ← executeResumedNodes S.env (results.filter NodeActivityOutput.interrupted)
        record (.collected .resumed resumed)
        return results.filter (fun r => !r.interrupted) ++ resumed) :=
      .bind (executeResumedNodes_mirrors restores _) fun resumed => .record (.ret _)
    have pauses : Passes S alike false true _ := pause_passes restores (raisedInterrupts
      (results.filter NodeActivityOutput.interrupted))
    have passes := pauses.bind fun _ => resumed.passes.loosen
    rw [Coro.bind_assoc] at passes
    exact passes

/-- **From alike executions a superstep does the same, and leaves them alike.** -/
theorem superstep_passes (tasks : List PregelTask) :
    Passes S alike false false (superstep S.env S.graph S.input tasks) := by
  refine .bind (interruptCheck_passes restores _ _ tasks) fun _ => ?_
  refine .bind (executeNodes_mirrors restores tasks).passes fun results => ?_
  refine .record (.bind (processChildWorkflowRequests_mirrors restores S.input results).passes
    fun results => ?_)
  refine .record (.bind (handleInterrupted_passes restores results) fun results => ?_)
  refine .bind (handleSends_mirrors restores .push _ results).passes fun results => ?_
  refine .bind (handleSends_mirrors restores .goto _ results).passes fun results => ?_
  refine .bind (applyResults_mirrors restores results).passes fun _ => ?_
  refine .setSelf (fun w v same => ?_) (.bind (interruptCheck_passes restores _ _ tasks) fun _ => ?_)
  · exact { same with left := { same.left with }, right := { same.right with }, pause := nofun }
  refine .setSelf (fun w v same => ?_) fun w v same => ⟨(), _, rfl, rfl, same.log .advanced⟩
  have data := restores.created _ _ _ _ same.data w.self.step
  refine { same with
    left := { same.left with }, right := { same.right with }, pause := nofun
    step := congrArg (· + 1) same.step, data := ?_ }
  change alike _ _ (S.env.lg.createCheckpoint v.self.checkpoint v.self.channels v.self.step) _
  rw [← same.step]
  exact data

end Passes

end LanggraphTemporal.Machine
