/-
# Machine.Writes -- what the methods are made of

Every method of the workflow is put together from a few pieces: it reads the
object, changes it, adds to the history, asks for something, and runs others
side by side.  `Built F` says so of a coroutine that never waits for the resume
event, with the changes and entries that `F` allows; `Pausing F` of one that
also pauses.  The rules are gone through once, in `run_pausing` and the lemmas
before it, and what is the same for all pieces is then proved by induction on
the rules (`Built.steps`).
-/
import LanggraphTemporal.Theory.CoroutineSteps
import LanggraphTemporal.Machine.Chains

namespace LanggraphTemporal.Machine

set_option autoImplicit false

open Theory Theory.System Theory.History Model Model.LangGraphWorkflow

variable {Chan α β : Type} {env : Env Chan}

/-- What a coroutine may write: its changes of the workflow object, its entries
of the history, whether it draws random digits, for a subgraph it starts, and
whether it reads the state from its input. -/
structure Footprint (Chan : Type) where
  sets : (LangGraphWorkflow Chan → LangGraphWorkflow Chan) → Prop
  logs : Event → Prop
  draws : Prop
  opens : Prop

/-- One write. -/
inductive Writes (env : Env Chan) (F : Footprint Chan) (w : Execution Chan) : Execution Chan → Prop
  | set {f : LangGraphWorkflow Chan → LangGraphWorkflow Chan} (allowed : F.sets f) :
      Writes env F w (w.mapSelf f)
  | log {e : Event} (allowed : F.logs e) : Writes env F w (w.log e)
  | draw (allowed : F.draws) : Writes env F w { w with drawn := w.drawn + 1 }
  | subgraph (allowed : F.draws) (node : String) (call : ChildCall) :
      Writes env F w (w.log (.subgraphStarted node call))
  | opening {graph : Pregel Chan} {input : WorkflowInput} {self : LangGraphWorkflow Chan}
      (allowed : F.opens) (opened : initialise env graph input w.self = .ok self) :
      Writes env F w (w.mapSelf fun _ => { self with status := .running })

/-- A coroutine that writes within its footprint, and never pauses. -/
inductive Built (env : Env Chan) (F : Footprint Chan) : {α : Type} → WorkflowM Chan α → Prop
  | ret {α : Type} (a : α) : Built env F (.ret a)
  | raise {α : Type} (e : RunError) : Built env F (.raise e : WorkflowM Chan α)
  | bind {α β : Type} {c : WorkflowM Chan α} {f : α → WorkflowM Chan β} (first : Built env F c)
      (next : ∀ a, Built env F (f a)) : Built env F (c.bind f)
  | getSelf : Built env F getSelf
  | setSelf {f : LangGraphWorkflow Chan → LangGraphWorkflow Chan} (allowed : F.sets f) :
      Built env F (setSelf f)
  | record {e : Event} (allowed : F.logs e) : Built env F (record e)
  | request {q : Request} (other : q ≠ .resumeEvent) : Built env F (Coro.request q)
  | subgraph (task : PregelTask) (name : String) (allowed : F.draws) :
      Built env F (executeSubgraphAsChildWorkflow env task name)
  | attempt {α : Type} {c : WorkflowM Chan α} (built : Built env F c) : Built env F c.attempt
  | gather {ι α : Type} {f : ι → WorkflowM Chan α} (each : ∀ x, Built env F (f x)) (xs : List ι) :
      Built env F (Coro.gather (xs.map f))

/-- A coroutine that may also pause. -/
inductive Pausing (env : Env Chan) (F : Footprint Chan) : {α : Type} → WorkflowM Chan α → Prop
  | built {α : Type} {c : WorkflowM Chan α} (built : Built env F c) : Pausing env F c
  | bind {α β : Type} {c : WorkflowM Chan α} {f : α → WorkflowM Chan β} (first : Pausing env F c)
      (next : ∀ a, Pausing env F (f a)) : Pausing env F (c.bind f)
  | pause : Pausing env F waitForResume
  /-- the start of the main loop -/
  | opening {α : Type} {k : LangGraphWorkflow Chan → WorkflowM Chan α} (allowed : F.opens)
      (graph : Pregel Chan) (input : WorkflowInput) (next : ∀ self, Pausing env F (k self)) :
      Pausing env F (getSelf.bind fun self =>
        match initialise env graph input self with
        | .error e => .raise e
        | .ok self => (setSelf fun _ => { self with status := .running }).bind fun _ => k self)

/-! ## The methods -/

/-- What the pieces of a superstep write, other than what they start. -/
structure Ordinary (env : Env Chan) (F : Footprint Chan) : Prop where
  stickyTaskQueue : ∀ queue, F.sets fun self => { self with stickyTaskQueue := queue }
  interrupt : ∀ entries, F.sets (interrupt entries)
  clearResume : F.sets clearResume
  wake : F.sets wake
  withApplied : ∀ out, F.sets (withApplied out)
  emitStreamEvents : ∀ results, F.sets (emitStreamEvents env.lg results)
  dispatched : ∀ input call, F.logs (.dispatched input call)
  lost : ∀ input call, F.logs (.lost input call)
  discovering : F.logs .discovering
  discovered : ∀ queue, F.logs (.discovered queue)
  paused : ∀ entries, F.logs (.paused entries)
  resumed : ∀ values, F.logs (.resumed values)
  collected : ∀ route outputs, route ≠ .scheduled → F.logs (.collected route outputs)
  skipped : F.logs .skipped
  applied : ∀ writes updated, F.logs (.applied writes updated)

/-- What a whole run writes. -/
structure Entire (env : Env Chan) (F : Footprint Chan) : Prop extends Ordinary env F where
  graphRef : ∀ ref, F.sets fun self => { self with graphRef := ref }
  configure : ∀ graph input, F.sets (configure graph input)
  advance : F.sets (advance env.lg)
  done : F.sets fun self => { self with status := .done }
  finish : F.sets fun self => if self.status = .running then { self with status := .done } else self
  scheduled : ∀ step tasks, F.logs (.scheduled step tasks)
  collectedScheduled : ∀ outputs, F.logs (.collected .scheduled outputs)
  served : ∀ results, F.logs (.served results)
  advanced : F.logs .advanced
  draws : F.draws
  opens : F.opens
  subagentStarted : ∀ call, F.logs (.subagentStarted call)

variable {F : Footprint Chan}

namespace Built

theorem read {f : LangGraphWorkflow Chan → WorkflowM Chan α} (next : ∀ self, Built env F (f self)) :
    Built env F (Model.getSelf.bind f) := getSelf.bind next

theorem ask {q : Request} {f : Response → WorkflowM Chan α} (other : q ≠ .resumeEvent)
    (next : ∀ r, Built env F (f r)) : Built env F ((Coro.request q).bind f) := (request other).bind next

theorem awaitAll {ι : Type} {f : ι → WorkflowM Chan NodeActivityOutput} (each : ∀ x, Built env F (f x)) :
    ∀ xs : List ι, Built env F (awaitAll (xs.map f))
  | [] => gather each []
  | [x] => (each x).bind fun result => ret [result]
  | x :: y :: xs => gather each (x :: y :: xs)

end Built

section Methods

variable (ordinary : Ordinary env F)
include ordinary

theorem getAvailableTaskQueue_built : Built env F getAvailableTaskQueue := by
  refine (Built.record ordinary.discovering).bind fun _ => .ask nofun fun r => ?_
  cases r with
  | queue name => exact (Built.record (ordinary.discovered name)).bind fun _ => .ret name
  | activityError message => exact .raise _
  | _ => exact .raise _

theorem rediscoverWorker_built : Built env F rediscoverWorker := by
  refine (Built.setSelf (ordinary.stickyTaskQueue none)).bind fun _ => ?_
  refine (getAvailableTaskQueue_built ordinary).bind fun queue => ?_
  exact .setSelf (ordinary.stickyTaskQueue (some queue))

theorem dispatchActivity_built (input : NodeActivityInput) (nodeName : String) :
    Built env F (dispatchActivity input nodeName) := by
  refine .read fun self => (Built.record (ordinary.dispatched _ _)).bind fun _ => .ask nofun fun r => ?_
  cases r with
  | output o => exact .ret _
  | activityError message =>
      refine (Built.record (ordinary.lost _ _)).bind fun _ => .read fun self => ?_
      split
      · exact .ret _
      · exact .raise _
  | _ => exact .raise _

theorem executeSingleActivity_built (input : NodeActivityInput) (nodeName : String) :
    Built env F (executeSingleActivity input nodeName) := by
  refine (dispatchActivity_built ordinary input nodeName).bind fun first => ?_
  cases first with
  | some result => exact .ret _
  | none =>
      refine (rediscoverWorker_built ordinary).bind fun _ => ?_
      refine (dispatchActivity_built ordinary input nodeName).bind fun second => ?_
      cases second with
      | some result => exact .ret _
      | none => exact .raise _

theorem executeResumed_built (channelValues : Dict PyVal) :
    ∀ rs, Built env F (executeResumed channelValues rs)
  | [] => .ret []
  | _ :: rs => .read fun _ => (executeSingleActivity_built ordinary _ _).bind fun _ =>
      (executeResumed_built channelValues rs).bind fun _ => .ret _

theorem executePushTasks_built (sends : List SendRequest) : Built env F (executePushTasks env sends) :=
  .read fun _ => .awaitAll (fun _ => executeSingleActivity_built ordinary _ _) sends

theorem handleSends_built (route : Route) (other : route ≠ .scheduled) (sends : List SendRequest)
    (results : List NodeActivityOutput) : Built env F (handleSends env route sends results) := by
  unfold handleSends
  split
  · exact (Built.record (ordinary.collected _ _ other)).bind fun _ => .ret _
  · refine (executePushTasks_built ordinary sends).bind fun outputs => ?_
    exact (Built.record (ordinary.collected _ _ other)).bind fun _ => .ret _

theorem applyResults_built (graph : Pregel Chan) (results : List NodeActivityOutput) :
    Built env F (applyResults env graph results) := by
  unfold applyResults
  dsimp only
  split
  · exact .record ordinary.skipped
  · refine .read fun self => ?_
    split
    · exact (Built.setSelf (ordinary.withApplied _)).bind fun _ => .record (ordinary.applied _ _)
    · exact .raise _

theorem interruptCheck_pausing (nodes : Option InterruptNodes) (entry : String → PendingInterrupt)
    (tasks : List PregelTask) : Pausing env F (interruptCheck nodes entry tasks) := by
  unfold interruptCheck
  split
  · exact (Pausing.built (.setSelf (ordinary.interrupt _))).bind fun _ => .pause
  · exact .built (.ret ())

theorem handleInterrupted_pausing (results : List NodeActivityOutput) :
    Pausing env F (handleInterrupted env results) := by
  have collected (outputs : List NodeActivityOutput) : F.logs (.collected .resumed outputs) :=
    ordinary.collected _ _ nofun
  unfold handleInterrupted
  dsimp only
  split
  · exact .built ((Built.record (collected [])).bind fun _ => .ret results)
  · refine (Pausing.built (.setSelf (ordinary.interrupt _))).bind fun _ => ?_
    refine Pausing.pause.bind fun _ => .built ?_
    refine (Built.read fun _ => executeResumed_built ordinary _ _).bind fun resumed => ?_
    exact (Built.record (collected resumed)).bind fun _ => .ret _

end Methods

section Supersteps

variable (entire : Entire env F)
include entire

theorem executeTask_built (graph : Pregel Chan) (graphRef : String) (channelValues : Dict PyVal)
    (t : PregelTask) : Built env F (executeTask env graph graphRef channelValues t) := by
  unfold executeTask
  split
  · exact .subgraph t _ entire.draws
  · exact executeSingleActivity_built entire.toOrdinary _ _

theorem executeNodes_built (graph : Pregel Chan) (tasks : List PregelTask) :
    Built env F (executeNodes env graph tasks) :=
  .read fun _ => .awaitAll (executeTask_built entire graph _ _) _

theorem dispatchChildWorkflow_built (req : ChildRequest) (input : WorkflowInput) (index : Nat) :
    Built env F (dispatchChildWorkflow env req input index) := by
  refine .read fun self => (Built.record (entire.subagentStarted _)).bind fun _ => .ask nofun fun r => ?_
  cases r with
  | childOutput output => exact .ret _
  | childError message => exact .raise _
  | _ => exact .raise _

theorem serveRequests_built (input : WorkflowInput) (r : NodeActivityOutput) :
    Built env F (serveRequests env input r) := by
  have each (p : ChildRequest × Nat) : Built env F (dispatchChildWorkflow env p.1 input p.2).attempt :=
    .attempt (dispatchChildWorkflow_built entire p.1 input p.2)
  unfold serveRequests
  split
  · exact .ret _
  · refine (Built.gather each _).bind fun outputs => ?_
    split
    · exact .ret _
    · exact .raise _

theorem processChildWorkflowRequests_built (input : WorkflowInput) :
    ∀ rs, Built env F (processChildWorkflowRequests env input rs)
  | [] => .ret []
  | r :: rs => (serveRequests_built entire input r).bind fun _ =>
      (processChildWorkflowRequests_built input rs).bind fun _ => .ret _

theorem superstep_pausing (graph : Pregel Chan) (input : WorkflowInput) (tasks : List PregelTask) :
    Pausing env F (superstep env graph input tasks) := by
  have ordinary := entire.toOrdinary
  refine (interruptCheck_pausing ordinary _ _ tasks).bind fun _ => ?_
  refine (Pausing.built (executeNodes_built entire graph tasks)).bind fun results => ?_
  refine (Pausing.built (.record (entire.collectedScheduled results))).bind fun _ => ?_
  refine (Pausing.built (processChildWorkflowRequests_built entire input results)).bind fun results => ?_
  refine (Pausing.built (.record (entire.served results))).bind fun _ => ?_
  refine (handleInterrupted_pausing ordinary results).bind fun results => ?_
  refine (Pausing.built (handleSends_built ordinary .push nofun _ results)).bind fun results => ?_
  refine (Pausing.built (handleSends_built ordinary .goto nofun _ results)).bind fun results => ?_
  refine (Pausing.built (applyResults_built ordinary graph results)).bind fun _ => ?_
  refine (Pausing.built (.setSelf (entire.emitStreamEvents results))).bind fun _ => ?_
  refine (interruptCheck_pausing ordinary _ _ tasks).bind fun _ => ?_
  refine (Pausing.built (.setSelf entire.advance)).bind fun _ => ?_
  exact .built (.record entire.advanced)

theorem finish_built : Built env F (finish env) :=
  (Built.setSelf entire.finish).bind fun _ => .read fun _ => .ret _

theorem loop_pausing (threshold : Option Nat) (graph : Pregel Chan) (input : WorkflowInput) :
    ∀ fuel steps, Pausing env F (loop env threshold graph input fuel steps)
  | 0, _ => .built (.raise _)
  | fuel + 1, steps => by
      refine Pausing.bind (.built .getSelf) fun self => ?_
      split
      · dsimp only
        split
        · refine Pausing.bind (.built (.setSelf entire.done)) fun _ => ?_
          exact .built (finish_built entire)
        · refine Pausing.bind (.built (.record (entire.scheduled _ _))) fun _ => ?_
          refine (superstep_pausing entire graph input _).bind fun _ => ?_
          split
          · exact .built (.read fun _ => .ret _)
          · exact loop_pausing threshold graph input fuel (steps + 1)
      · exact .built (finish_built entire)

theorem run_pausing (threshold : Option Nat) (input : WorkflowInput) :
    Pausing env F (run env threshold input) := by
  have main (graph : Pregel Chan) := Pausing.opening entire.opens graph input fun self =>
    loop_pausing entire threshold graph input ((input.recursionLimit - self.step).toNat + 1) 0
  refine (Pausing.built (.setSelf (entire.graphRef _))).bind fun _ => ?_
  split
  · exact .built (.raise _)
  · rename_i graph registered
    refine (Pausing.built (.setSelf (entire.configure graph input))).bind fun _ => ?_
    split
    · refine (Pausing.built (getAvailableTaskQueue_built entire.toOrdinary)).bind fun queue => ?_
      exact (Pausing.built (.setSelf (entire.stickyTaskQueue (some queue)))).bind fun _ => main graph
    · exact main graph

end Supersteps

/-! ## Every path -/

/-- The rest of `_wait_for_resume`, after its wait. -/
def wakes : WorkflowM Chan Unit := do
  setSelf wake
  let self ← getSelf
  record (.resumed self.resumeValues)

theorem executeSubgraph_steps (task : PregelTask) (name : String) (allowed : F.draws)
    (w : Execution Chan) :
    (executeSubgraphAsChildWorkflow env task name).Steps (Writes env F) (Coro.Avoids .resumeEvent) w := by
  refine ⟨.draw allowed, .subgraph allowed _ _, fun mem => ?_, fun i r u => ?_⟩
  · cases List.mem_singleton.mp mem
  · cases r with
    | _ => trivial

/-- On every path it writes within its footprint, and it never waits for the
resume event. -/
theorem Built.steps {c : WorkflowM Chan α} (built : Built env F c) :
    ∀ w, c.Steps (Writes env F) (Coro.Avoids .resumeEvent) w := by
  induction built with
  | ret a => exact fun _ => trivial
  | raise e => exact fun _ => trivial
  | bind first next ih ih' => exact fun w => (ih w).avoids_bind ih'
  | getSelf => exact fun _ => trivial
  | setSelf allowed => exact fun _ => ⟨.set allowed, trivial⟩
  | record allowed => exact fun _ => ⟨.log allowed, trivial⟩
  | request other => exact fun _ => ⟨fun mem => other (List.mem_singleton.mp mem).symm, fun _ _ _ => trivial⟩
  | subgraph task name allowed => exact executeSubgraph_steps task name allowed
  | attempt built ih => exact fun w => (ih w).attempt
  | gather each xs ih => exact fun _ => Coro.Steps.gather ih xs

theorem waitForResume_steps (ordinary : Ordinary env F) (w : Execution Chan) :
    waitForResume.Steps (Writes env F) (Coro.AsksAlone .resumeEvent wakes) w := by
  refine ⟨.set ordinary.clearResume, .log (ordinary.paused _), fun _ => ⟨rfl, fun i r => ⟨.ret, rfl⟩⟩, ?_⟩
  exact fun i r u => ⟨.set ordinary.wake, .log (ordinary.resumed _), trivial⟩

theorem opening_steps {k : LangGraphWorkflow Chan → WorkflowM Chan α} (allowed : F.opens)
    (graph : Pregel Chan) (input : WorkflowInput)
    (next : ∀ self w, (k self).Steps (Writes env F) (Coro.AsksAlone .resumeEvent wakes) w)
    (w : Execution Chan) :
    (getSelf.bind fun self =>
      match initialise env graph input self with
      | .error e => .raise e
      | .ok self => (setSelf fun _ => { self with status := .running }).bind fun _ => k self).Steps
        (Writes env F) (Coro.AsksAlone .resumeEvent wakes) w := by
  show Coro.Steps _ _ (match initialise env graph input w.self with
    | .error e => (.raise e : WorkflowM Chan α)
    | .ok self => (setSelf fun _ => { self with status := .running }).bind fun _ => k self) w
  split
  · trivial
  · rename_i self opened
    exact ⟨.opening allowed opened, next self _⟩

/-- And one that pauses waits for it in `_wait_for_resume` only. -/
theorem Pausing.steps {c : WorkflowM Chan α} (ordinary : Ordinary env F) (pausing : Pausing env F c) :
    ∀ w, c.Steps (Writes env F) (Coro.AsksAlone .resumeEvent wakes) w := by
  induction pausing with
  | built built => exact fun w => (built.steps w).alone
  | bind first next ih ih' => exact fun w => (ih w).alone_bind ih'
  | pause => exact waitForResume_steps ordinary
  | opening allowed graph input next ih => exact fun w => opening_steps allowed graph input ih w

end LanggraphTemporal.Machine
