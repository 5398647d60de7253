/-
# Model.Meaning -- what a graph computes

Bulk-synchronous execution, as a function: a superstep executes all scheduled
tasks on the channel values of its start, serves their sub-agents, executes
their Sends and after these the goto targets, applies all writes at once, and
advances.  A pause takes the signals that the user sends in it, all at once.
Nothing else waits, and there is no order of completion.  Nodes, subgraphs and
sub-agents are functions of what they are given (`Behaviour`).

This is what the workflow is for, not how it does it; `Machine.Meaning` shows
that its coroutines compute it in whatever order they are answered.
-/
import LanggraphTemporal.Model.Workflow

namespace LanggraphTemporal.Model

set_option autoImplicit false

open Theory LangGraphWorkflow

variable {Chan : Type}

/-- What answers the workflow: node activities, child workflows, and the worker
that is found. A subgraph is known by its workflow id and its input, not by the
reference it was registered under. -/
structure Behaviour where
  node : NodeActivityInput → NodeActivityOutput
  subgraph : String → Option PyVal → WorkflowOutput
  subagent : ChildCall → Except String WorkflowOutput
  queue : String

namespace Behaviour

variable (b : Behaviour)

/-- The answer to a child workflow call; the workflow terminates only
sub-agents on close. -/
def child (call : ChildCall) : Response :=
  if call.terminateOnClose then
    match b.subagent call with
    | .ok output => .childOutput output
    | .error message => .childError message
  else .childOutput (b.subgraph call.id call.input.inputData)

/-- The answer `b` gives to a request. -/
def Answers : Request → Response → Prop
  | .executeActivity _ input _, r => r = .output (b.node input)
  | .getAvailableTaskQueue, r => r = .queue b.queue
  | .executeChildWorkflow call, r => r = b.child call
  | .resumeEvent, _ => False

end Behaviour

/-- What stops a computation: an error, or a pause that nobody ends, with the
state when it began. -/
inductive Halt (Chan : Type) where
  | failed (e : RunError)
  | paused (self : LangGraphWorkflow Chan)

/-- A workflow object, and the signals of each pause to come. -/
structure Sitting (Chan : Type) where
  self : LangGraphWorkflow Chan
  batches : List (List Signal)

/-- Computations on a workflow object that wait for nothing. -/
abbrev MeaningM (Chan : Type) := StateT (Sitting Chan) (Except (Halt Chan))

/-- The handlers of a batch of signals, in order. -/
def receiveAll (lg : Langgraph Chan) :
    List Signal → LangGraphWorkflow Chan → Except RunError (LangGraphWorkflow Chan)
  | [], self => .ok self
  | .resume value :: signals, self => receiveAll lg signals (self.resumeSignal value)
  | .updateState writes :: signals, self =>
      match self.updateStateSignal lg writes with
      | .ok self => receiveAll lg signals self
      | .error e => .error e

theorem receiveAll_append (lg : Langgraph Chan) (signals later : List Signal)
    (self : LangGraphWorkflow Chan) :
    receiveAll lg (signals ++ later) self = (receiveAll lg signals self).bind (receiveAll lg later) := by
  induction signals generalizing self with
  | nil => rfl
  | cons signal signals ih =>
      cases signal with
      | resume value => exact ih _
      | updateState writes =>
          rw [List.cons_append]
          unfold receiveAll
          cases self.updateStateSignal lg writes with
          | ok self => exact ih self
          | error e => rfl

namespace Meaning

def getSelf : MeaningM Chan (LangGraphWorkflow Chan) := fun s => .ok (s.self, s)

def setSelf (g : LangGraphWorkflow Chan → LangGraphWorkflow Chan) : MeaningM Chan Unit := fun s =>
  .ok ((), { s with self := g s.self })

variable (b : Behaviour) (env : Env Chan) (graph : Pregel Chan) (input : WorkflowInput)

def fail {α : Type} (e : RunError) : MeaningM Chan α := fun _ => .error (.failed e)

/-- The workflow pauses here, with these interrupts, until the signals of this
pause have come. -/
def pause (entries : List PendingInterrupt) : MeaningM Chan Unit := fun s =>
  let waiting := clearResume (interrupt entries s.self)
  match s.batches with
  | [] => .error (.paused waiting)
  | batch :: batches =>
      match receiveAll env.lg batch waiting with
      | .ok self => .ok ((), ⟨wake self, batches⟩)
      | .error e => .error (.failed e)

def interruptCheck (nodes : Option InterruptNodes) (entry : String → PendingInterrupt)
    (tasks : List PregelTask) : MeaningM Chan Unit :=
  if interruptsAt nodes tasks then pause env (tasks.map fun t => entry t.name) else pure ()

/-- The output of one scheduled task. -/
def taskOutput (self : LangGraphWorkflow Chan) (t : PregelTask) : NodeActivityOutput :=
  let channelValues := getChannelValues env.lg self.channels
  match subgraphOf t.name graph with
  | some _ => subgraphOutput t (b.subgraph (env.workflowId ++ "/" ++ t.name) (some (.ofDict channelValues)))
  | none => b.node (taskInput self.graphRef channelValues t)

/-- All scheduled tasks, in path order. -/
def executeNodes (tasks : List PregelTask) : MeaningM Chan (List NodeActivityOutput) := do
  let self ← getSelf
  return (sortTasks tasks).map (taskOutput b env graph self)

/-- What one sub-agent request comes to. -/
def subagentResult (self : LangGraphWorkflow Chan) (p : ChildRequest × Nat) :
    Except RunError WorkflowOutput :=
  match b.subagent (childCall env self p.1 input p.2) with
  | .ok output => .ok output
  | .error message => .error (.childWorkflowError message)

/-- One result, with the replies to its sub-agent requests behind its writes. -/
def serveRequests (result : NodeActivityOutput) : MeaningM Chan NodeActivityOutput :=
  if result.childWorkflowRequests.isEmpty then return result
  else do
    let self ← getSelf
    let outputs := result.childWorkflowRequests.zipIdx.map (subagentResult b env input self)
    match (result.childWorkflowRequests.zip outputs).mapM fun p => toolReply env p.1 p.2 with
    | .ok replies => return { result with writes := result.writes ++ replies }
    | .error e => fail e

def processChildWorkflowRequests :
    List NodeActivityOutput → MeaningM Chan (List NodeActivityOutput)
  | [] => return []
  | r :: rs => do
      let result ← serveRequests b env input r
      let results ← processChildWorkflowRequests rs
      return result :: results

/-- What an interrupted result returns when it is executed again. -/
def resumedOutput (self : LangGraphWorkflow Chan) (r : NodeActivityOutput) : NodeActivityOutput :=
  b.node (resumedInput self.graphRef (getChannelValues env.lg self.channels) self.resumeValues r)

/-- The results, with those of the interrupted nodes executed again behind the
others. -/
def handleInterrupted (results : List NodeActivityOutput) : MeaningM Chan (List NodeActivityOutput) :=
  let interruptedResults := results.filter NodeActivityOutput.interrupted
  if interruptedResults.isEmpty then return results
  else do
    pause env (raisedInterrupts interruptedResults)
    let self ← getSelf
    return (results.filter fun r => !r.interrupted) ++ interruptedResults.map (resumedOutput b env self)

/-- The results, with those of the Sends behind them. -/
def handleSends (sends : List SendRequest) (results : List NodeActivityOutput) :
    MeaningM Chan (List NodeActivityOutput) := do
  let self ← getSelf
  let channelValues := getChannelValues env.lg self.channels
  return results ++ sends.map fun send => b.node (pushInput self.graphRef channelValues send)

def applyResults (results : List NodeActivityOutput) : MeaningM Chan Unit :=
  let writes := writesOf graph results
  if writes.isEmpty then return ()
  else do
    let self ← getSelf
    match env.lg.applyWrites self.checkpoint self.channels writes increment self.triggerToNodes with
    | .ok out => setSelf (withApplied out)
    | .error message => fail (.invalidUpdate message)

/-- One superstep. -/
def superstep (nextTasks : List PregelTask) : MeaningM Chan Unit := do
  interruptCheck env input.interruptBefore .before nextTasks
  let results ← executeNodes b env graph nextTasks
  let results ← processChildWorkflowRequests b env input results
  let results ← handleInterrupted b env results
  let results ← handleSends b env (extractPushSends results) results
  let results ← handleSends b env (extractCommandGotos results) results
  applyResults env graph results
  setSelf (emitStreamEvents env.lg results)
  interruptCheck env input.interruptAfter .after nextTasks
  setSelf (advance env.lg)

def finish : MeaningM Chan RunResult := do
  setSelf fun self => if self.status = .running then { self with status := .done } else self
  let self ← getSelf
  return .output ⟨getChannelValues env.lg self.channels, self.step⟩

/-- Supersteps while tasks are scheduled: `remaining` ones at most, and after
`threshold` of them the workflow continues as new. -/
def loop (threshold : Option Nat) : Nat → Nat → MeaningM Chan RunResult
  | 0, _ => finish env
  | remaining + 1, stepsInThisRun => do
      let self ← getSelf
      let nextTasks := env.lg.prepareNextTasks self.checkpoint graph.nodes self.channels self.step
        input.recursionLimit self.triggerToNodes
      if nextTasks.isEmpty then
        setSelf fun self => { self with status := .done }
        finish env
      else
        superstep b env graph input nextTasks
        if reached threshold (stepsInThisRun + 1) then
          let self ← getSelf
          return .continueAsNew (continueInput env self input)
        else loop threshold remaining (stepsInThisRun + 1)

/-- The queue that all activities of a run with worker affinity are sent to. -/
def pinned (self : LangGraphWorkflow Chan) : LangGraphWorkflow Chan :=
  if input.useWorkerAffinity && !truthy input.stickyTaskQueue then
    { self with stickyTaskQueue := some b.queue }
  else self

/-- A run, from its input or from the state it is continued from. -/
def opening (threshold : Option Nat) : MeaningM Chan RunResult := do
  let self ← getSelf
  match initialise env graph input self with
  | .error e => fail e
  | .ok self =>
      setSelf fun _ => { self with status := .running }
      loop b env graph input threshold (input.recursionLimit - self.step).toNat 0

def run (threshold : Option Nat) : MeaningM Chan RunResult := do
  setSelf fun self => { self with graphRef := input.graphDefinitionRef }
  setSelf (configure graph input)
  setSelf (pinned b input)
  opening b env graph input threshold

/-! ## Counting supersteps -/

/-- Wherever `m` returns, the step is `n` further. -/
def Steps {α : Type} (n : Nat) (m : MeaningM Chan α) : Prop :=
  ∀ s a s', m s = .ok (a, s') → s'.self.step = s.self.step + n

theorem receiveAll_step {lg : Langgraph Chan} {signals : List Signal} {self self' : LangGraphWorkflow Chan}
    (received : receiveAll lg signals self = .ok self') : self'.step = self.step := by
  induction signals generalizing self with
  | nil =>
      cases received
      rfl
  | cons signal signals ih =>
      cases signal with
      | resume value =>
          have kept := ih received
          exact kept
      | updateState writes =>
          unfold receiveAll at received
          unfold updateStateSignal at received
          dsimp only at received
          cases applied : lg.applyWrites self.checkpoint self.channels
              [⟨[.str "__update__"], "__update__", writes, []⟩] increment self.triggerToNodes with
          | ok out =>
              rw [applied] at received
              have kept := ih received
              exact kept
          | error message =>
              rw [applied] at received
              cases received

namespace Steps

variable {α β : Type} {m : MeaningM Chan α} {f : α → MeaningM Chan β} {n : Nat}

theorem pure (a : α) : Steps 0 (Pure.pure a : MeaningM Chan α) := by
  intro s a' s' same
  cases same
  rfl

theorem fail (e : RunError) : Steps n (Meaning.fail e : MeaningM Chan α) := by
  intro s a s' same
  cases same

theorem pause (entries : List PendingInterrupt) : Steps 0 (Meaning.pause env entries) := by
  rintro ⟨self, batches⟩ a s' same
  cases batches with
  | nil => cases same
  | cons batch batches =>
      unfold Meaning.pause at same
      dsimp only at same
      split at same
      · rename_i self' received
        cases same
        have kept := receiveAll_step received
        exact kept
      · cases same

theorem setSelf {g : LangGraphWorkflow Chan → LangGraphWorkflow Chan}
    (steps : ∀ self, (g self).step = self.step + n) : Steps n (Meaning.setSelf g) := by
  intro s a s' same
  cases same
  exact steps s.self

theorem getSelf_bind {f : LangGraphWorkflow Chan → MeaningM Chan β} (next : ∀ self, Steps n (f self)) :
    Steps n (getSelf >>= f) := fun s b s' same => next s.self s b s' same

theorem bind (first : Steps 0 m) (next : ∀ a, Steps n (f a)) : Steps n (m >>= f) := by
  intro s b s'' same
  have bound : (m s).bind (fun p => f p.1 p.2) = .ok (b, s'') := same
  cases ran : m s with
  | error h =>
      rw [ran] at bound
      cases bound
  | ok p =>
      obtain ⟨a, s'⟩ := p
      rw [ran] at bound
      rw [next a s' b s'' bound, first s a s' ran, Nat.add_zero]

end Steps

theorem interruptCheck_steps (nodes : Option InterruptNodes) (entry : String → PendingInterrupt)
    (tasks : List PregelTask) : Steps 0 (interruptCheck env nodes entry tasks) := by
  unfold interruptCheck
  split
  · exact .pause env _
  · exact .pure ()

theorem serveRequests_steps (r : NodeActivityOutput) : Steps 0 (serveRequests b env input r) := by
  unfold serveRequests
  split
  · exact .pure r
  · refine .getSelf_bind fun self => ?_
    dsimp only
    split
    · exact .pure _
    · exact .fail _

theorem processChildWorkflowRequests_steps :
    ∀ rs, Steps 0 (processChildWorkflowRequests b env input rs)
  | [] => .pure []
  | r :: rs => (serveRequests_steps b env input r).bind fun _ =>
      (processChildWorkflowRequests_steps rs).bind fun _ => .pure _

theorem handleInterrupted_steps (results : List NodeActivityOutput) :
    Steps 0 (handleInterrupted b env results) := by
  unfold handleInterrupted
  dsimp only
  split
  · exact .pure results
  · exact (Steps.pause env _).bind fun _ => .getSelf_bind fun _ => .pure _

theorem handleSends_steps (sends : List SendRequest) (results : List NodeActivityOutput) :
    Steps 0 (handleSends b env sends results) := .getSelf_bind fun _ => .pure _

theorem applyResults_steps (results : List NodeActivityOutput) :
    Steps 0 (applyResults env graph results) := by
  unfold applyResults
  dsimp only
  split
  · exact .pure ()
  · refine .getSelf_bind fun self => ?_
    split
    · exact .setSelf fun _ => rfl
    · exact .fail _

/-- **A superstep is one step.** -/
theorem superstep_steps (tasks : List PregelTask) : Steps 1 (superstep b env graph input tasks) := by
  unfold superstep
  refine (interruptCheck_steps env _ _ _).bind fun _ => ?_
  refine Steps.bind (.getSelf_bind fun _ => .pure _) fun outputs => ?_
  refine (processChildWorkflowRequests_steps b env input outputs).bind fun served => ?_
  refine (handleInterrupted_steps b env served).bind fun settled => ?_
  refine (handleSends_steps b env _ settled).bind fun pushed => ?_
  refine (handleSends_steps b env _ pushed).bind fun results => ?_
  refine (applyResults_steps env graph results).bind fun _ => ?_
  refine Steps.bind (.setSelf fun _ => rfl) fun _ => ?_
  refine (interruptCheck_steps env _ _ _).bind fun _ => ?_
  exact .setSelf fun _ => rfl

end Meaning

end LanggraphTemporal.Model
