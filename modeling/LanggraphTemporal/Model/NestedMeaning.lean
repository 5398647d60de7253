/-
# Model.NestedMeaning -- what a tree of workflows computes

A node bound to a compiled graph is answered by a workflow of that graph.  So the
meaning of a graph (`Model.Meaning`) has its subgraphs answered by their own
meanings, level by level (`World.subgraph`).

The reference under which a workflow finds its graph is drawn at random and means
nothing to the nodes.  A run computes the same under another reference, and in a
process with another registry (`run_renames`).
-/
import LanggraphTemporal.Model.Meaning

namespace LanggraphTemporal.Model

set_option autoImplicit false

open Theory LangGraphWorkflow

variable {Chan α β γ δ : Type}

/-- What the workflows of a tree are made of, by their ids: their environments and
graphs, and what answers them. -/
structure World (Chan : Type) where
  env : String → Env Chan
  graph : String → Pregel Chan
  node : String → NodeActivityInput → NodeActivityOutput
  subagent : String → ChildCall → Except String WorkflowOutput
  queue : String → String
  /-- No node depends on the reference its graph is registered under. -/
  nodeBlind : ∀ id input ref, node id { input with graphDefinitionRef := ref } = node id input
  subagentBlind : ∀ id call ref,
    subagent id { call with input := { call.input with graphDefinitionRef := ref } } = subagent id call

namespace World

variable (W : World Chan)

/-- What answers the workflow of an id, whose subgraphs are answered like this. -/
def behaviour (id : String) (subgraph : String → Option PyVal → WorkflowOutput) : Behaviour where
  node := W.node id
  subgraph := subgraph
  subagent := W.subagent id
  queue := W.queue id

/-- The input of the workflow of a subgraph, under no reference. -/
def subgraphInput (data : Option PyVal) : WorkflowInput := { graphDefinitionRef := "", inputData := data }

/-- What the workflow of a subgraph returns, with `depth` levels of workflows from
it on. -/
def subgraph (threshold : Option Nat) : Nat → String → Option PyVal → WorkflowOutput
  | 0, _, _ => ⟨∅, 0⟩
  | depth + 1, id, data =>
      match Meaning.run (W.behaviour id (subgraph threshold depth)) (W.env id) (W.graph id)
          (subgraphInput data) threshold ⟨init (W.env id), []⟩ with
      | .ok (.output o, _) => o
      | _ => ⟨∅, 0⟩

end World

/-! ## Under another reference -/

/-- The behaviour does not depend on references. -/
structure Behaviour.Blind (b : Behaviour) : Prop where
  node : ∀ input ref, b.node { input with graphDefinitionRef := ref } = b.node input
  subagent : ∀ call ref,
    b.subagent { call with input := { call.input with graphDefinitionRef := ref } } = b.subagent call

theorem World.blind (W : World Chan) (id : String) (subgraph : String → Option PyVal → WorkflowOutput) :
    (W.behaviour id subgraph).Blind := ⟨W.nodeBlind id, W.subagentBlind id⟩

namespace Meaning

/-- The workflow object of a graph under another reference. -/
def renamed (ref : String) (self : LangGraphWorkflow Chan) : LangGraphWorkflow Chan :=
  { self with graphRef := ref }

def Halt.renamed (ref : String) : Halt Chan → Halt Chan
  | .failed e => .failed e
  | .paused self => .paused (Meaning.renamed ref self)

/-- What is left of a computation under another reference. -/
def outcomeUnder (ref : String) (f : α → β) :
    Except (Halt Chan) (α × Sitting Chan) → Except (Halt Chan) (β × Sitting Chan)
  | .ok (a, s) => .ok (f a, ⟨renamed ref s.self, s.batches⟩)
  | .error halt => .error (Halt.renamed ref halt)

/-- Under another reference, `m'` does what `m` does, and returns what `f` makes
of its result. -/
def Renames (ref : String) (f : α → β) (m : MeaningM Chan α) (m' : MeaningM Chan β) : Prop :=
  ∀ s : Sitting Chan, m' ⟨renamed ref s.self, s.batches⟩ = outcomeUnder ref f (m s)

namespace Renames

variable {ref : String} {f : α → β} {g : γ → δ} {m : MeaningM Chan α} {m' : MeaningM Chan β}

theorem pure (a : α) : Renames ref f (Pure.pure a : MeaningM Chan α) (Pure.pure (f a)) := fun _ => rfl

theorem fail (e : RunError) : Renames ref f (Meaning.fail e : MeaningM Chan α) (Meaning.fail e) := fun _ => rfl

theorem bind {k : α → MeaningM Chan γ} {k' : β → MeaningM Chan δ} (first : Renames ref f m m')
    (next : ∀ a, Renames ref g (k a) (k' (f a))) : Renames ref g (m >>= k) (m' >>= k') := by
  intro s
  show (m' _).bind (fun p => k' p.1 p.2) = outcomeUnder ref g ((m s).bind fun p => k p.1 p.2)
  rw [first s]
  cases m s with
  | error halt => rfl
  | ok p => exact next p.1 p.2

theorem getSelf_bind {k : LangGraphWorkflow Chan → MeaningM Chan γ}
    {k' : LangGraphWorkflow Chan → MeaningM Chan δ}
    (next : ∀ self, Renames ref g (k self) (k' (renamed ref self))) :
    Renames ref g (getSelf >>= k) (getSelf >>= k') := fun s => next s.self s

theorem setSelf {h h' : LangGraphWorkflow Chan → LangGraphWorkflow Chan}
    (same : ∀ self, h' (renamed ref self) = renamed ref (h self)) :
    Renames ref id (Meaning.setSelf h) (Meaning.setSelf h') := by
  intro s
  show Except.ok ((), (⟨h' (renamed ref s.self), s.batches⟩ : Sitting Chan)) = _
  rw [same]
  rfl

end Renames

/-! ### The parts of a run -/

section Run

variable {b : Behaviour} {env : Env Chan} {graph : Pregel Chan} {input : WorkflowInput} {ref : String}
  {registry : String → Option (Pregel Chan)}

/-- The environment, in a process with this registry. -/
def within (registry : String → Option (Pregel Chan)) (env : Env Chan) : Env Chan :=
  { env with registry := registry }

/-- The input, under this reference. -/
def under (ref : String) (input : WorkflowInput) : WorkflowInput :=
  { input with graphDefinitionRef := ref }

theorem receiveAll_renamed (lg : Langgraph Chan) (signals : List Signal) (self : LangGraphWorkflow Chan) :
    receiveAll lg signals (renamed ref self) = (receiveAll lg signals self).map (renamed ref) := by
  induction signals generalizing self with
  | nil => rfl
  | cons signal signals ih =>
      cases signal with
      | resume value => exact ih (self.resumeSignal value)
      | updateState writes =>
          unfold receiveAll updateStateSignal
          dsimp only [renamed]
          cases lg.applyWrites self.checkpoint self.channels
              [⟨[.str "__update__"], "__update__", writes, []⟩] increment self.triggerToNodes with
          | ok out => exact ih (self.withApplied out)
          | error message => rfl

theorem pause_renames (entries : List PendingInterrupt) :
    Renames ref id (pause env entries) (pause (within registry env) entries) := by
  rintro ⟨self, batches⟩
  have waiting : clearResume (interrupt entries (renamed ref self)) =
      renamed ref (clearResume (interrupt entries self)) := rfl
  unfold pause
  dsimp only [within]
  rw [waiting]
  cases batches with
  | nil => rfl
  | cons batch batches =>
      dsimp only
      rw [receiveAll_renamed]
      cases receiveAll env.lg batch (clearResume (interrupt entries self)) with
      | ok self' => rfl
      | error e => rfl

theorem interruptCheck_renames (nodes : Option InterruptNodes) (entry : String → PendingInterrupt)
    (tasks : List PregelTask) :
    Renames ref id (interruptCheck env nodes entry tasks)
      (interruptCheck (within registry env) nodes entry tasks) := by
  unfold interruptCheck
  split
  · exact pause_renames _
  · exact .pure ()

theorem taskOutput_renamed (blind : b.Blind) (self : LangGraphWorkflow Chan) (t : PregelTask) :
    taskOutput b (within registry env) graph (renamed ref self) t = taskOutput b env graph self t := by
  unfold taskOutput
  dsimp only [within, renamed]
  cases subgraphOf t.name graph with
  | some name => rfl
  | none => exact blind.node (taskInput self.graphRef _ t) ref

theorem executeNodes_renames (blind : b.Blind) (tasks : List PregelTask) :
    Renames ref id (executeNodes b env graph tasks) (executeNodes b (within registry env) graph tasks) := by
  refine .getSelf_bind fun self => ?_
  have same : (sortTasks tasks).map (taskOutput b (within registry env) graph (renamed ref self)) =
      (sortTasks tasks).map (taskOutput b env graph self) :=
    List.map_congr_left fun t _ => taskOutput_renamed blind self t
  rw [same]
  exact .pure _

theorem subagentResult_renamed (blind : b.Blind) (self : LangGraphWorkflow Chan) (p : ChildRequest × Nat) :
    subagentResult b (within registry env) (under ref input) (renamed ref self) p =
      subagentResult b env input self p := by
  have same : b.subagent (childCall (within registry env) (renamed ref self) p.1 (under ref input) p.2) =
      b.subagent (childCall env self p.1 input p.2) :=
    blind.subagent (childCall env self p.1 input p.2) (p.1.graphDefinitionRef.getD ref)
  unfold subagentResult
  rw [same]

theorem serveRequests_renames (blind : b.Blind) (r : NodeActivityOutput) :
    Renames ref id (serveRequests b env input r)
      (serveRequests b (within registry env) (under ref input) r) := by
  unfold serveRequests
  split
  · exact .pure r
  · refine .getSelf_bind fun self => ?_
    have same : r.childWorkflowRequests.zipIdx.map
        (subagentResult b (within registry env) (under ref input) (renamed ref self)) =
          r.childWorkflowRequests.zipIdx.map (subagentResult b env input self) :=
      List.map_congr_left fun p _ => subagentResult_renamed blind self p
    have tools : toolReply (within registry env) = toolReply env := rfl
    dsimp only
    rw [same, tools]
    cases (r.childWorkflowRequests.zip (r.childWorkflowRequests.zipIdx.map
        (subagentResult b env input self))).mapM fun p => toolReply env p.1 p.2 with
    | ok replies => exact .pure _
    | error e => exact .fail _

theorem processChildWorkflowRequests_renames (blind : b.Blind) : ∀ rs : List NodeActivityOutput,
    Renames ref id (processChildWorkflowRequests b env input rs)
      (processChildWorkflowRequests b (within registry env) (under ref input) rs)
  | [] => .pure []
  | r :: rs => (serveRequests_renames blind r).bind fun _ =>
      (processChildWorkflowRequests_renames blind rs).bind fun _ => .pure _

theorem handleInterrupted_renames (blind : b.Blind) (results : List NodeActivityOutput) :
    Renames ref id (handleInterrupted b env results) (handleInterrupted b (within registry env) results) := by
  unfold handleInterrupted
  dsimp only
  split
  · exact .pure results
  · refine (pause_renames _).bind fun _ => .getSelf_bind fun self => ?_
    have same : (results.filter NodeActivityOutput.interrupted).map
        (resumedOutput b (within registry env) (renamed ref self)) =
          (results.filter NodeActivityOutput.interrupted).map (resumedOutput b env self) :=
      List.map_congr_left fun r _ =>
        blind.node (resumedInput self.graphRef (getChannelValues env.lg self.channels) self.resumeValues r) ref
    rw [same]
    exact .pure _

theorem handleSends_renames (blind : b.Blind) (sends : List SendRequest) (results : List NodeActivityOutput) :
    Renames ref id (handleSends b env sends results) (handleSends b (within registry env) sends results) := by
  refine .getSelf_bind fun self => ?_
  have same : (sends.map fun send => b.node (pushInput (renamed ref self).graphRef
      (getChannelValues (within registry env).lg (renamed ref self).channels) send)) =
        sends.map fun send => b.node (pushInput self.graphRef (getChannelValues env.lg self.channels) send) :=
    List.map_congr_left fun send _ => blind.node (pushInput self.graphRef _ send) ref
  dsimp only
  rw [same]
  exact .pure _

theorem applyResults_renames (results : List NodeActivityOutput) :
    Renames ref id (applyResults env graph results) (applyResults (within registry env) graph results) := by
  unfold applyResults
  dsimp only
  split
  · exact .pure ()
  · refine .getSelf_bind fun self => ?_
    dsimp only [within, renamed]
    cases env.lg.applyWrites self.checkpoint self.channels (writesOf graph results) increment
        self.triggerToNodes with
    | ok out => exact .setSelf fun _ => rfl
    | error message => exact .fail _

theorem superstep_renames (blind : b.Blind) (tasks : List PregelTask) :
    Renames ref id (superstep b env graph input tasks)
      (superstep b (within registry env) graph (under ref input) tasks) := by
  unfold superstep
  refine (interruptCheck_renames _ _ _).bind fun _ => ?_
  refine (executeNodes_renames blind _).bind fun _ => ?_
  refine (processChildWorkflowRequests_renames blind _).bind fun _ => ?_
  refine (handleInterrupted_renames blind _).bind fun _ => ?_
  refine (handleSends_renames blind _ _).bind fun _ => ?_
  refine (handleSends_renames blind _ _).bind fun _ => ?_
  refine (applyResults_renames _).bind fun _ => ?_
  refine Renames.bind (.setSelf fun _ => rfl) fun _ => ?_
  refine (interruptCheck_renames _ _ _).bind fun _ => ?_
  exact .setSelf fun _ => rfl

/-- The result of a run under another reference. -/
def resultUnder (ref : String) : RunResult → RunResult
  | .output o => .output o
  | .continueAsNew next => .continueAsNew (under ref next)

theorem finish_renames : Renames ref (resultUnder ref) (finish env) (finish (within registry env)) := by
  refine Renames.bind (.setSelf fun self => ?_) fun _ => ?_
  · dsimp only [renamed]
    split
    · rfl
    · rfl
  · refine .getSelf_bind fun self => ?_
    exact Renames.pure (f := resultUnder ref) (RunResult.output ⟨getChannelValues env.lg self.channels, self.step⟩)

theorem loop_renames (blind : b.Blind) (threshold : Option Nat) : ∀ remaining stepsInThisRun : Nat,
    Renames ref (resultUnder ref) (loop b env graph input threshold remaining stepsInThisRun)
      (loop b (within registry env) graph (under ref input) threshold remaining stepsInThisRun)
  | 0, _ => finish_renames
  | remaining + 1, stepsInThisRun => by
      unfold loop
      refine .getSelf_bind fun self => ?_
      dsimp only [within, under, renamed]
      split
      · exact Renames.bind (.setSelf fun _ => rfl) fun _ => finish_renames
      · refine (superstep_renames blind _).bind fun _ => ?_
        split
        · exact .getSelf_bind fun self => .pure _
        · exact loop_renames blind threshold remaining (stepsInThisRun + 1)

theorem initialise_renamed (self : LangGraphWorkflow Chan) :
    initialise (within registry env) graph (under ref input) (renamed ref self) =
      (initialise env graph input self).map (renamed ref) := by
  unfold initialise
  dsimp only [within, under]
  cases input.restoredState with
  | some restored => rfl
  | none =>
      dsimp only
      cases input.inputData with
      | none => rfl
      | some data =>
          dsimp only [restore, renamed]
          cases env.lg.applyWrites env.lg.emptyCheckpoint
              (env.lg.channelsFromCheckpoint graph.channels env.lg.emptyCheckpoint)
              [⟨[.str "__input__"], "__input__", [(graph.inputChannels, data)], []⟩] increment
              self.triggerToNodes with
          | ok out => rfl
          | error message => rfl

theorem opening_renames (blind : b.Blind) (threshold : Option Nat) :
    Renames ref (resultUnder ref) (opening b env graph input threshold)
      (opening b (within registry env) graph (under ref input) threshold) := by
  unfold opening
  refine .getSelf_bind fun self => ?_
  rw [initialise_renamed]
  cases initialise env graph input self with
  | error e => exact .fail e
  | ok self => exact Renames.bind (.setSelf fun _ => rfl) fun _ => loop_renames blind threshold _ _

/-- **A run computes the same under another reference, in any process.** -/
theorem run_renames (blind : b.Blind) (threshold : Option Nat) (s : Sitting Chan) :
    run b (within registry env) graph (under ref input) threshold s =
      outcomeUnder ref (resultUnder ref) (run b env graph input threshold s) := by
  have renames : Renames ref (resultUnder ref) (run b env graph input threshold)
      (run b (within registry env) graph (under ref input) threshold) := by
    unfold run
    refine Renames.bind (.setSelf fun _ => rfl) fun _ => ?_
    refine Renames.bind (.setSelf fun _ => rfl) fun _ => ?_
    refine Renames.bind (.setSelf fun self => ?_) fun _ => opening_renames blind threshold
    show pinned b input (renamed ref self) = _
    unfold pinned
    split
    · rfl
    · rfl
  -- the reference is overwritten before it is read
  exact renames s

end Run

end Meaning

end LanggraphTemporal.Model
