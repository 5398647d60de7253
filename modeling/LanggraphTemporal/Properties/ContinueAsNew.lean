/-
# Properties.ContinueAsNew -- a chain of runs does what one run does

`chain` is what Temporal makes of `continue_as_new`: a new workflow object, run
on the input that the run before it left.  On every script, a chain that
continues as new after every `T` supersteps writes the same history as one run
that never does, and comes to the same end (`continueAsNew_transparent`).

The two are in lockstep (`loop_mirrors`).  Between two pauses they are `Alike`:
what a run does not hand on is either set again from the input, or is not read
before the next pause sets it.  A run that is continued with worker affinity
does not search for a worker again, because the one before it was pinned.
-/
import LanggraphTemporal.Machine.Lockstep
import LanggraphTemporal.Machine.Reference

namespace LanggraphTemporal.Properties

set_option autoImplicit false

open Theory Theory.System Model Model.LangGraphWorkflow Machine

variable {Chan : Type}

/-! ## Chains -/

/-- At most this many runs, each on the input that the one before it left. -/
def chain (env : Env Chan) (T : Nat) : Nat → WorkflowInput → WorkflowM Chan WorkflowOutput
  | 0, _ => .raise .outOfFuel
  | runs + 1, input => do
      match ← run env (some T) input with
      | .output o => return o
      | .continueAsNew next =>
          setSelf fun _ => init env
          chain env T runs next

/-- What a chain of at most `runs` runs comes to on a script. -/
def replayChain (S : Setting Chan) (T runs : Nat) (uuids : Nat → String)
    (script : List (Action Response Signal)) :
    Outcome (Execution Chan) Request Response Signal RunError WorkflowOutput :=
  (workflowSystem S.env).replay (chain S.env T runs S.input) script { self := init S.env, uuids := uuids }

/-- What follows a run of the chain. -/
def continued (env : Env Chan) (T runs : Nat) : RunResult → WorkflowM Chan WorkflowOutput
  | .output o => .ret o
  | .continueAsNew next => (setSelf fun _ => init env).bind fun _ => chain env T runs next

theorem chain_succ (env : Env Chan) (T runs : Nat) (input : WorkflowInput) :
    chain env T (runs + 1) input = (run env (some T) input).bind (continued env T runs) := by
  refine congrArg ((run env (some T) input).bind) (funext fun result => ?_)
  cases result <;> rfl

/-- The step that a run starts with. -/
def startStep (input : WorkflowInput) : Nat :=
  match input.restoredState with
  | some restored => restored.step
  | none => 0

/-- The checkpoint that a run starts with. -/
def startCheckpoint (env : Env Chan) (input : WorkflowInput) : Checkpoint :=
  match input.restoredState with
  | some restored => restored.checkpoint
  | none => env.lg.emptyCheckpoint

/-- The inputs of later runs differ from the first one in where they start, and
in their sticky queue. -/
def Continues (input next : WorkflowInput) : Prop :=
  ∃ data restored sticky, next =
    { input with inputData := data, restoredState := restored, stickyTaskQueue := sticky }

/-- The supersteps of a history, by number. -/
def stepsOf (h : List Event) : List Nat :=
  h.filterMap fun e => match e with | .scheduled step _ => some step | _ => none

/-- The same output, after the same history. -/
def SameEnd (a : RunResult) (b : WorkflowOutput) (w v : Execution Chan) : Prop :=
  a = .output b ∧ SameHistory w v

/-! ## What a later run reads of its input -/

theorem processChildWorkflowRequests_continues {env : Env Chan} {input next : WorkflowInput}
    (continues : Continues input next) (results : List NodeActivityOutput) :
    processChildWorkflowRequests env next results = processChildWorkflowRequests env input results := by
  obtain ⟨data, restored, sticky, rfl⟩ := continues
  induction results with
  | nil => rfl
  | cons r rs ih =>
      unfold processChildWorkflowRequests
      rw [ih]
      rfl

theorem superstep_continues {env : Env Chan} {graph : Pregel Chan} {input next : WorkflowInput}
    (continues : Continues input next) (tasks : List PregelTask) :
    superstep env graph next tasks = superstep env graph input tasks := by
  unfold superstep
  simp only [processChildWorkflowRequests_continues continues]
  obtain ⟨data, restored, sticky, rfl⟩ := continues
  rfl

theorem continueInput_continues {env : Env Chan} {graph : Pregel Chan} {input next : WorkflowInput}
    {wf : LangGraphWorkflow Chan} (configured : Configured graph input wf)
    (continues : Continues input next) : Continues input (continueInput env wf next) := by
  obtain ⟨data, restored, sticky, rfl⟩ := continues
  refine ⟨none, (continueInput env wf input).restoredState, wf.stickyTaskQueue, ?_⟩
  unfold continueInput
  rw [configured.subagents]

theorem Continues.limit {input next : WorkflowInput} (continues : Continues input next) :
    next.recursionLimit = input.recursionLimit := by
  obtain ⟨data, restored, sticky, rfl⟩ := continues
  rfl

theorem Continues.affinity {input next : WorkflowInput} (continues : Continues input next) :
    next.useWorkerAffinity = input.useWorkerAffinity := by
  obtain ⟨data, restored, sticky, rfl⟩ := continues
  rfl

theorem Continues.graphRef {input next : WorkflowInput} (continues : Continues input next) :
    next.graphDefinitionRef = input.graphDefinitionRef := by
  obtain ⟨data, restored, sticky, rfl⟩ := continues
  rfl

theorem Continues.configured {graph : Pregel Chan} {input next : WorkflowInput}
    (continues : Continues input next) (wf : LangGraphWorkflow Chan) :
    Configured graph input
      (configure graph next { wf with graphRef := next.graphDefinitionRef }) := by
  obtain ⟨data, restored, sticky, rfl⟩ := continues
  exact ⟨rfl, rfl, rfl, rfl, rfl, rfl, rfl⟩

/-! ## A run that is continued -/

/-- The workflow object of a run, when its main loop begins on a restored
checkpoint. -/
def restarted (env : Env Chan) (graph : Pregel Chan) (next : WorkflowInput) (restored : RestoredState)
    (wf : LangGraphWorkflow Chan) : LangGraphWorkflow Chan :=
  { restore env graph restored.checkpoint restored.step
      (configure graph next { wf with graphRef := next.graphDefinitionRef }) with status := .running }

/-- A run on a restored checkpoint with a worker to go to, if it needs one, goes
to its main loop at once. -/
theorem run_settle {β : Type} {env : Env Chan} {graph : Pregel Chan} {threshold : Option Nat}
    {next : WorkflowInput} {restored : RestoredState} (f : RunResult → WorkflowM Chan β)
    (registered : env.registry next.graphDefinitionRef = some graph)
    (restores : next.restoredState = some restored)
    (pinned : (next.useWorkerAffinity && !truthy next.stickyTaskQueue) = false) (w : Execution Chan) :
    settle ((run env threshold next).bind f) w =
      settle ((loop env threshold graph next
        ((next.recursionLimit - restored.step).toNat + 1) 0).bind f)
        (w.mapSelf (restarted env graph next restored)) := by
  unfold run
  rw [registered, pinned]
  unfold initialise
  rw [restores]
  rfl

/-- What a run leaves for the next one. -/
def leaves (env : Env Chan) (wf : LangGraphWorkflow Chan) : RestoredState where
  checkpoint := env.lg.createCheckpoint wf.checkpoint wf.channels wf.step
  step := wf.step
  stickyTaskQueue := wf.stickyTaskQueue

/-- Where a run continues as new, the chain goes on with the main loop of the
next run. -/
theorem handover_settle {env : Env Chan} {graph : Pregel Chan} {T runs : Nat} {next : WorkflowInput}
    {t : Execution Chan} (registered : env.registry next.graphDefinitionRef = some graph)
    (pinned : next.useWorkerAffinity = true → truthy t.self.stickyTaskQueue = true) :
    settle ((getSelf.bind fun self => .ret (.continueAsNew (continueInput env self next))).bind
        (continued env T (runs + 1))) t =
      settle ((loop env (some T) graph (continueInput env t.self next)
        ((next.recursionLimit - t.self.step).toNat + 1) 0).bind (continued env T runs))
        ((t.mapSelf fun _ => init env).mapSelf
          (restarted env graph (continueInput env t.self next) (leaves env t.self))) := by
  have found : ((continueInput env t.self next).useWorkerAffinity &&
      !truthy (continueInput env t.self next).stickyTaskQueue) = false := by
    change (next.useWorkerAffinity && !truthy t.self.stickyTaskQueue) = false
    cases affinity : next.useWorkerAffinity with
    | false => rfl
    | true => rw [pinned affinity]; rfl
  have goes : settle ((getSelf.bind fun self => .ret (.continueAsNew (continueInput env self next))).bind
      (continued env T (runs + 1))) t =
      settle (chain env T (runs + 1) (continueInput env t.self next)) (t.mapSelf fun _ => init env) := rfl
  have known : env.registry (continueInput env t.self next).graphDefinitionRef = some graph := registered
  rw [goes, chain_succ]
  exact run_settle _ known rfl found _

/-! ## Lockstep -/

section Lockstep

variable {S : Setting Chan} {alike : Checkpoint → Dict Chan → Checkpoint → Dict Chan → Prop}
  {start : Checkpoint} {T runs : Nat} {w v : Execution Chan}

theorem channels_done (wf : LangGraphWorkflow Chan) :
    (if wf.status = .running then { wf with status := .done } else wf).channels = wf.channels := by
  split <;> rfl

theorem step_done (wf : LangGraphWorkflow Chan) :
    (if wf.status = .running then { wf with status := .done } else wf).step = wf.step := by
  split <;> rfl

variable (restores : S.env.lg.Restores S.graph.channels start alike)
include restores

theorem finish_mirrors (same : Alike S alike false w v) :
    (workflowSystem S.env).Mirror Any SameHistory SameEnd (finish S.env) w
      ((finish S.env).bind (continued S.env T runs)) v := by
  refine ⟨_, _, rfl, ?_, same.history⟩
  simp only [Execution.mapSelf, channels_done, step_done]
  rw [same.values restores, same.step]

/-- A workflow object that continues is alike the one that left its input. -/
theorem restarted_alike {u t : Execution Chan} {next : WorkflowInput} (same : Alike S alike false u t)
    (continues : Continues S.input next) :
    Alike S alike false u
      ((t.mapSelf fun _ => init S.env).mapSelf
        (restarted S.env S.graph (continueInput S.env t.self next) (leaves S.env t.self))) := by
  have again : Continues S.input (continueInput S.env t.self next) :=
    continueInput_continues same.right continues
  have reflexive : alike t.self.checkpoint t.self.channels t.self.checkpoint t.self.channels :=
    restores.trans _ _ _ _ _ _ (restores.symm _ _ _ _ same.data) same.data
  have data := restores.restored t.self.checkpoint t.self.channels t.self.step reflexive
  exact
    { history := same.history
      uuids := same.uuids
      drawn := same.drawn
      left := same.left
      right := { again.configured (init S.env) with }
      step := same.step
      sticky := same.sticky
      data := restores.trans _ _ _ _ _ _ same.data (restores.symm _ _ _ _ data)
      pause := nofun }

omit restores in
theorem mirror_getSelf {α β γ : Type} {post : α → γ → Execution Chan → Execution Chan → Prop}
    {f : LangGraphWorkflow Chan → WorkflowM Chan α} {g : LangGraphWorkflow Chan → WorkflowM Chan β}
    {h : β → WorkflowM Chan γ}
    (mirror : (workflowSystem S.env).Mirror Any SameHistory post (f w.self) w ((g v.self).bind h) v) :
    (workflowSystem S.env).Mirror Any SameHistory post (getSelf.bind f) w ((getSelf.bind g).bind h) v :=
  Mirror.congr (d := (g v.self).bind h) rfl mirror

omit restores in
/-- A superstep opens with the tasks that there are. -/
theorem superstep_opens {n : Nat} {tasks : List PregelTask} (here : At S n { stage := .ready } w)
    (below : (w.self.step : Int) < S.input.recursionLimit)
    (tasks_eq : S.env.lg.prepareNextTasks w.self.checkpoint S.graph.nodes w.self.channels w.self.step
      S.input.recursionLimit w.self.triggerToNodes = tasks) (some : ¬tasks.isEmpty = true) :
    At S n (opened S tasks w.self) (w.log (.scheduled w.self.step tasks)) := by
  have scheduled : Moves S w.history { stage := .ready } w.self (.scheduled w.self.step tasks)
      (opened S tasks w.self) w.self :=
    .schedule rfl below tasks_eq.symm fun none => some (by rw [none]; rfl)
  exact here.move scheduled rfl rfl here.step

omit restores in
/-- A chain with worker affinity has found its queue by then. -/
theorem pinned_of_found {n : Nat} {ph : Phase} {next : WorkflowInput} (continues : Continues S.input next)
    (same : Alike S alike false w v) (here : At S n ph w) :
    next.useWorkerAffinity = true → truthy v.self.stickyTaskQueue = true := by
  intro affinity
  rw [← same.sticky]
  have configured := configured_invariant.holds here.reachable
  exact (here.pinned (configured.affinity.trans (continues.affinity ▸ affinity))).mpr here.foundAll

/-- **One run that goes on and a chain that continues as new are in lockstep.**
By induction on the loop counter of the one run: a superstep is the same for
both, and after it the chain goes on with the same loop, or with that of its
next run. -/
theorem loop_mirrors :
    ∀ (fuel : Nat) {left steps runs n : Nat} {stepsInThisRun : Nat} {next : WorkflowInput}
      {w v : Execution Chan}, (S.input.recursionLimit - n).toNat < fuel →
      (S.input.recursionLimit - n).toNat < left → (S.input.recursionLimit - n).toNat ≤ runs →
      Continues S.input next → Alike S alike false w v → At S n { stage := .ready } w →
      (workflowSystem S.env).Mirror Any SameHistory SameEnd
        (loop S.env none S.graph S.input fuel steps) w
        ((loop S.env (some T) S.graph next left stepsInThisRun).bind (continued S.env T runs)) v
  | 0, _, _, _, _, _, _, _, _, enough, _, _, _, _, _ => absurd enough (Nat.not_lt_zero _)
  | _ + 1, 0, _, _, _, _, _, _, _, _, enough, _, _, _, _ => absurd enough (Nat.not_lt_zero _)
  | fuel + 1, left + 1, steps, runs, n, stepsInThisRun, next, w, v, enough, enough', many, continues,
      same, here => by
    have stepped : w.self.step = n := here.step
    have prepared := restores.prepare _ _ _ _ same.data S.graph.nodes w.self.step S.input.recursionLimit
      w.self.triggerToNodes
    unfold loop
    refine mirror_getSelf ?_
    dsimp only
    rw [continues.limit, ← same.step, ← same.triggers, ← prepared]
    by_cases below : (w.self.step : Int) < S.input.recursionLimit
    · rw [if_pos below, if_pos below]
      generalize tasks_eq : S.env.lg.prepareNextTasks w.self.checkpoint S.graph.nodes w.self.channels
        w.self.step S.input.recursionLimit w.self.triggerToNodes = tasks
      by_cases empty : tasks.isEmpty = true
      · rw [if_pos empty, if_pos empty]
        have done : Alike S alike false (w.mapSelf fun wf => { wf with status := .done })
            (v.mapSelf fun wf => { wf with status := .done }) :=
          { same with left := { same.left with }, right := { same.right with }, pause := by simp }
        exact Mirror.congr (d := (finish S.env).bind (continued S.env T runs))
          (t := v.mapSelf fun wf => { wf with status := .done }) rfl (finish_mirrors restores done)
      · rw [if_neg empty, if_neg empty, superstep_continues continues]
        have opens := superstep_opens here below tasks_eq empty
        have mirror := (superstep_passes restores tasks _ _ (same.log (.scheduled w.self.step tasks))).and_wp
          (superstep_wp opens)
        refine Mirror.congr (t := v.log (.scheduled w.self.step tasks))
          (d := (superstep S.env S.graph S.input tasks).bind fun _ =>
            (if reached (some T) (stepsInThisRun + 1) = true then do
              let self ← getSelf
              return .continueAsNew (continueInput S.env self next)
            else loop S.env (some T) S.graph next left (stepsInThisRun + 1)).bind
              (continued S.env T runs))
          (congrArg (fun c => settle c (v.log (.scheduled w.self.step tasks)))
            (Coro.bind_assoc (superstep S.env S.graph S.input tasks) _ _)) (mirror.bind ?_)
        rintro ⟨⟩ ⟨⟩ u t ⟨⟨-, same⟩, here⟩
        change Mirror _ _ _ _ (loop S.env none S.graph S.input fuel (steps + 1)) u _ t
        split
        · obtain ⟨runs, rfl⟩ : ∃ more, runs = more + 1 := ⟨runs - 1, by omega⟩
          have pinned := pinned_of_found continues same here
          refine Mirror.congr (handover_settle (continues.graphRef.symm ▸ S.registered) pinned) ?_
          refine loop_mirrors fuel (by omega) ?_ (by omega) (continueInput_continues same.right continues)
            (restarted_alike restores same continues) here
          rw [continues.limit, ← same.step, here.step]
          omega
        · exact loop_mirrors fuel (by omega) (by omega) (by omega) continues same here
    · rw [if_neg below, if_neg below]
      exact finish_mirrors restores same

end Lockstep

/-! ## From the start -/

section Start

variable {S : Setting Chan} {alike : Checkpoint → Dict Chan → Checkpoint → Dict Chan → Prop}
  {T runs : Nat} {w : Execution Chan}

theorem initialise_step {wf wf' : LangGraphWorkflow Chan}
    (initialised : initialise S.env S.graph S.input wf = .ok wf') : wf'.step = startStep S.input := by
  unfold initialise at initialised
  unfold startStep
  cases origin : S.input.restoredState with
  | some restored =>
      rw [origin] at initialised
      cases initialised
      rfl
  | none =>
      rw [origin] at initialised
      dsimp only at initialised
      split at initialised
      · cases initialised
        rfl
      · split at initialised <;> cases initialised
        rfl

variable (restores : S.env.lg.Restores S.graph.channels (startCheckpoint S.env S.input) alike)
include restores

/-- What a run starts with is alike itself. -/
theorem initialise_alike {wf wf' : LangGraphWorkflow Chan}
    (initialised : initialise S.env S.graph S.input wf = .ok wf') :
    alike wf'.checkpoint wf'.channels wf'.checkpoint wf'.channels := by
  have initial := restores.initial
  unfold startCheckpoint at initial
  unfold initialise at initialised
  cases origin : S.input.restoredState with
  | some restored =>
      rw [origin] at initial initialised
      cases initialised
      exact initial
  | none =>
      rw [origin] at initial initialised
      dsimp only at initialised
      split at initialised
      · cases initialised
        exact initial
      · rename_i data _
        have applied := restores.applied _ _ _ _ initial
          [⟨[.str "__input__"], "__input__", [(S.graph.inputChannels, data)], []⟩] wf.triggerToNodes
        rcases applied with ⟨out, out', ok, ok', -, same⟩ | ⟨message, failed, -⟩
        · obtain rfl : out = out' := by
            rw [ok] at ok'
            exact Except.ok.inj ok'
          simp only [restore, ok] at initialised
          cases initialised
          exact same
        · simp only [restore, failed] at initialised
          cases initialised

/-- The first run of the chain, once a worker has been discovered if one is
needed. -/
theorem opening_mirrors (enough : (S.input.recursionLimit - startStep S.input).toNat ≤ runs)
    (prepared : Prepared S w) :
    (workflowSystem S.env).Mirror Any SameHistory SameEnd (opening S none) w
      ((opening S (some T)).bind (continued S.env T runs)) w := by
  refine mirror_getSelf ?_
  cases initialised : initialise S.env S.graph S.input w.self with
  | error e => exact ⟨w, rfl, rfl⟩
  | ok self =>
      have here := At.opened prepared initialised
      have step := initialise_step initialised
      have data := initialise_alike restores initialised
      have configured : Configured S.graph S.input self := by
        obtain ⟨checkpoint, step, channels, rfl⟩ := initialise_eq initialised
        exact { prepared.configured with }
      have same : Alike S alike false (w.mapSelf fun _ => { self with status := .running })
          (w.mapSelf fun _ => { self with status := .running }) :=
        { history := rfl, uuids := rfl, drawn := rfl, left := { configured with }
          right := { configured with }, step := rfl, sticky := rfl, data := data, pause := nofun }
      have more : (S.input.recursionLimit - self.step).toNat ≤ runs := by rw [step]; exact enough
      have continues : Continues S.input S.input := ⟨_, _, _, rfl⟩
      exact Mirror.congr (t := w.mapSelf fun _ => { self with status := .running }) rfl
        (loop_mirrors restores _ (Nat.lt_succ_self _) (Nat.lt_succ_self _) more continues same here)

/-- **A run that never continues as new and a chain that does are in lockstep.** -/
theorem run_mirrors (enough : (S.input.recursionLimit - startStep S.input).toNat ≤ runs)
    (fresh : Fresh w) :
    (workflowSystem S.env).Mirror Any SameHistory SameEnd (run S.env none S.input) w
      (chain S.env T (runs + 1) S.input) w := by
  rw [chain_succ]
  rw [run_eq, run_eq]
  have linked : ∀ w : Execution Chan, SameHistory w w := fun _ => rfl
  by_cases search : (S.input.useWorkerAffinity && !truthy S.input.stickyTaskQueue) = true
  · rw [if_pos search, if_pos search]
    refine Mirror.congr (t := begun S w) (d := getAvailableTaskQueue.bind fun queue =>
      ((setSelf fun self => { self with stickyTaskQueue := some queue }).bind fun _ =>
        opening S (some T)).bind (continued S.env T runs)) ?_ ?_
    · exact congrArg (fun c => settle c (begun S w)) (Coro.bind_assoc getAvailableTaskQueue _ _)
    · change Mirror _ _ _ _ (getAvailableTaskQueue.bind fun queue =>
        (setSelf fun self => { self with stickyTaskQueue := some queue }).bind fun _ =>
          opening S none) (begun S w) _ _
      refine Mirror.bind ((Mirror.refl linked _ _).and_wp (getAvailableTaskQueue_wp fresh.starting
        fresh.history search))
        ?_
      rintro queue _ t _ ⟨⟨rfl, rfl⟩, prepared⟩
      exact Mirror.congr (t := t.mapSelf fun self => { self with stickyTaskQueue := some queue }) rfl
        (opening_mirrors restores enough prepared)
  · rw [if_neg search, if_neg search]
    exact Mirror.congr (t := begun S w) rfl
      (opening_mirrors restores enough (fresh.prepared search))

end Start

/-! ## The numbers of the supersteps -/

section Numbers

variable {S : Setting Chan} {h : List Event} {ph ph' : Phase} {self self' : LangGraphWorkflow Chan}
  {e : Event}

theorem stepsOf_snoc (plain : isScheduled e = false) : stepsOf (h ++ [e]) = stepsOf h := by
  unfold stepsOf
  rw [List.filterMap_append]
  cases e with
  | scheduled => cases plain
  | _ => simp

theorem stepsOf_scheduled (step : Nat) (tasks : List PregelTask) :
    stepsOf (h ++ [.scheduled step tasks]) = stepsOf h ++ [step] := by
  simp [stepsOf]

/-- The supersteps begun so far have consecutive numbers below the limit; the
workflow is at the last of them, or about to begin the next one. -/
structure Numbered (S : Setting Chan) (h : List Event) (ph : Phase) (wf : LangGraphWorkflow Chan)
    (count : Nat) : Prop where
  steps : stepsOf h = List.range' (startStep S.input) count
  bound : count ≤ (S.input.recursionLimit - startStep S.input).toNat
  next : ph.stage = .ready → wf.step = startStep S.input + count
  last : ph.stage ≠ .ready → wf.step + 1 = startStep S.input + count

theorem Numbered.snoc {count : Nat} (held : Numbered S h ph self count) (busy : ph.stage ≠ .ready)
    (busy' : ph'.stage ≠ .ready) (plain : isScheduled e = false) (step : self'.step = self.step) :
    Numbered S (h ++ [e]) ph' self' count where
  steps := (stepsOf_snoc plain).trans held.steps
  bound := held.bound
  next ready := absurd ready busy'
  last _ := by rw [step]; exact held.last busy

theorem Numbered.work {count : Nat} (held : Numbered S h ph self count)
    (works : Works S ph h self e self') : Numbered S (h ++ [e]) ph self' count := by
  have step : self'.step = self.step := by
    cases works with
    | update _ updated =>
        obtain ⟨out, rfl⟩ := updateStateSignal_eq updated
        rfl
    | _ => rfl
  exact
    { steps := (stepsOf_snoc works.not_scheduled).trans held.steps
      bound := held.bound
      next := fun ready => step.trans (held.next ready)
      last := fun busy => by rw [step]; exact held.last busy }

theorem Numbered.move {count : Nat} (held : Numbered S h ph self count)
    (moves : Moves S h ph self e ph' self') : ∃ count, Numbered S (h ++ [e]) ph' self' count := by
  cases scheduled : isScheduled e with
  | true =>
      have opens := moves.unready (by rintro rfl; cases scheduled)
      cases moves with
      | schedule stage below =>
          have step := held.next stage
          refine ⟨count + 1, ?_, ?_, fun ready => absurd ready opens, fun _ => ?_⟩
          · rw [stepsOf_scheduled, held.steps, List.range'_concat, step, Nat.one_mul]
          · omega
          · omega
      | _ => cases scheduled
  | false =>
      have busy := moves.busy scheduled
      by_cases advances : e = .advanced
      · cases moves with
        | advance =>
            have last := held.last busy
            exact ⟨count, (stepsOf_snoc rfl).trans held.steps, held.bound, fun _ => last, fun ne => absurd rfl ne⟩
        | _ => cases advances
      · have step : self'.step = self.step := by
          cases moves with
          | advance => exact absurd rfl advances
          | _ => rfl
        exact ⟨count, held.snoc busy (moves.unready advances) scheduled step⟩

theorem numbered_invariant :
    (workflowMachine S).Invariant fun c => ∃ count, Numbered S c.history c.phase c.self count where
  init c initial := by
    have none : stepsOf c.history = [] := by
      refine List.filterMap_eq_nil_iff.mpr fun e mem => ?_
      have early := initial.history e mem
      cases e with
      | scheduled => cases early
      | _ => rfl
    obtain ⟨before, start, -, initialised, same⟩ := initial.opened.initialised
    have step : start.step = startStep S.input := initialise_step initialised
    replace step : c.self.step = startStep S.input := by rw [same]; exact step
    refine ⟨0, none, Nat.zero_le _, fun _ => step, fun busy => absurd ?_ busy⟩
    rw [initial.phase]
  step c d _ held step := by
    obtain ⟨count, held⟩ := held
    cases step with
    | work works => exact ⟨count, held.work works⟩
    | move moves => exact held.move moves

/-- The supersteps of every execution are numbered consecutively, within the
limit. -/
theorem executionHistory_numbered (threshold : Option Nat) (uuids : Nat → String) (arrived : List Signal)
    (script : List (Action Response Signal)) :
    ∃ count ≤ (S.input.recursionLimit - startStep S.input).toNat,
      stepsOf (executionHistory S threshold uuids arrived script) =
        List.range' (startStep S.input) count := by
  refine executionHistory_holds (P := fun h => ∃ count ≤ (S.input.recursionLimit - startStep S.input).toNat,
    stepsOf h = List.range' (startStep S.input) count) (fun h early => ⟨0, Nat.zero_le _, ?_⟩)
    (fun c reachable => ?_) threshold uuids arrived script
  · refine List.filterMap_eq_nil_iff.mpr fun e mem => ?_
    have here := early.history e mem
    cases e with
    | scheduled => cases here
    | _ => rfl
  · obtain ⟨count, held⟩ := numbered_invariant.holds reachable
    exact ⟨count, held.bound, held.steps⟩

theorem runHistory_numbered (threshold : Option Nat) (uuids : Nat → String)
    (script : List (Action Response Signal)) :
    ∃ count ≤ (S.input.recursionLimit - startStep S.input).toNat,
      stepsOf (runHistory S threshold uuids script) = List.range' (startStep S.input) count :=
  executionHistory_numbered threshold uuids [] script

/-- A run that continues as new hands over the number of the next superstep. -/
theorem startStep_continued {next : WorkflowInput} {w : Execution Chan}
    (ends : Ends S (.continueAsNew next) w) :
    ∃ count, stepsOf w.history = List.range' (startStep S.input) count ∧
      startStep next = startStep S.input + count := by
  obtain ⟨n, here, rfl⟩ := ends
  obtain ⟨count, held⟩ := numbered_invariant.holds here.reachable
  exact ⟨count, held.steps, held.next rfl⟩

end Numbers

/-! ## Transparency -/

theorem agree_history {o : Outcome (Execution Chan) Request Response Signal RunError RunResult}
    {o' : Outcome (Execution Chan) Request Response Signal RunError WorkflowOutput}
    (agree : Outcome.Agree SameEnd SameHistory o o') : historyOf o = historyOf o' := by
  cases o with
  | done a rest w =>
      cases o' with
      | done b rest' v => exact agree.2.2
      | _ => cases agree
  | failed e w =>
      cases o' with
      | failed e' v => exact agree.2
      | _ => cases agree
  | blocked qs k w =>
      cases o' with
      | blocked qs' k' v => exact agree.2
      | _ => cases agree
  | refused =>
      cases o' with
      | refused => rfl
      | _ => cases agree

/-- A chain comes to what one run comes to. -/
theorem replayChain_agrees {alike : Checkpoint → Dict Chan → Checkpoint → Dict Chan → Prop} {S : Setting Chan}
    (restores : S.env.lg.Restores S.graph.channels (startCheckpoint S.env S.input) alike) {T runs : Nat}
    (enough : (S.input.recursionLimit - startStep S.input).toNat < runs) (uuids : Nat → String)
    (script : List (Action Response Signal)) :
    Outcome.Agree SameEnd SameHistory (replayRun S none uuids script)
      (replayChain S T runs uuids script) := by
  obtain ⟨more, rfl⟩ : ∃ more, runs = more + 1 := ⟨runs - 1, by omega⟩
  have mirror := run_mirrors (T := T) restores (Nat.le_of_lt_succ enough)
    (created_fresh (S := S) uuids)
  exact replay_agrees _ _ script _ _ mirror

/-- **Continue-as-new is transparent.** On every script of signals and answers,
the chain writes the history of the one run, and comes to the same end: the same
output, the same error, or the same wait. Its supersteps are numbered
consecutively, within the recursion limit. -/
theorem continueAsNew_transparent (S : Setting Chan)
    (alike : Checkpoint → Dict Chan → Checkpoint → Dict Chan → Prop)
    (restores : S.env.lg.Restores S.graph.channels (startCheckpoint S.env S.input) alike)
    (T runs : Nat) (enough : (S.input.recursionLimit - startStep S.input).toNat < runs)
    (uuids : Nat → String) (script : List (Action Response Signal)) :
    Outcome.Agree SameEnd SameHistory (replayRun S none uuids script)
        (replayChain S T runs uuids script) ∧
      historyOf (replayChain S T runs uuids script) = runHistory S none uuids script ∧
      ∃ count ≤ (S.input.recursionLimit - startStep S.input).toNat,
        stepsOf (historyOf (replayChain S T runs uuids script)) =
          List.range' (startStep S.input) count := by
  have agree := replayChain_agrees (T := T) restores enough uuids script
  have histories : runHistory S none uuids script = historyOf (replayChain S T runs uuids script) :=
    agree_history agree
  refine ⟨agree, histories.symm, ?_⟩
  rw [← histories]
  exact runHistory_numbered none uuids script

section Runs

open Reference

/-- `d` triggers itself, on a worker of its own. -/
def pinnedLoop : Setting Channel where
  env := env (graph [("d", ["in", branchTo "d"])])
  graph := graph [("d", ["in", branchTo "d"])]
  input := { graphDefinitionRef := "graph", inputData := some (.int 0), useWorkerAffinity := true }
  registered := rfl

/-- The worker is lost in the second superstep, and an update arrives in the
third. -/
def pinnedScript : List (Action Response Signal) :=
  [.answer 0 (.queue "w1"), .answer 0 (.output (pulled "d" [(branchTo "d", .none)])),
    .answer 0 (.activityError "gone"), .answer 0 (.queue "w2"),
    .answer 0 (.output (pulled "d" [(branchTo "d", .none)])),
    .signals [.updateState [("x", .int 1)]], .answer 0 (.output (pulled "d" [("x", .int 2)]))]

example : stepsOf (historyOf (replayChain pinnedLoop 1 26 (fun _ => "") pinnedScript)) = [0, 1, 2] := by
  decide

theorem continueAsNew_pinnedScript :
    Outcome.Agree SameEnd SameHistory (replayRun pinnedLoop none (fun _ => "") pinnedScript)
        (replayChain pinnedLoop 1 26 (fun _ => "") pinnedScript) ∧
      historyOf (replayChain pinnedLoop 1 26 (fun _ => "") pinnedScript) =
        runHistory pinnedLoop none (fun _ => "") pinnedScript ∧
      ∃ count ≤ 25, stepsOf (historyOf (replayChain pinnedLoop 1 26 (fun _ => "") pinnedScript)) =
        List.range' 0 count :=
  continueAsNew_transparent pinnedLoop _ (reference_restores _) 1 26 (by decide) _ pinnedScript

end Runs

end LanggraphTemporal.Properties
