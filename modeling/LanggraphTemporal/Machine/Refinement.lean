/-
# Machine.Refinement -- every replay of `run` is a run of the machine

Each piece of the main loop takes the machine from one phase to the next
(`..._wp`).  Put together they give `run_refines`: on every script of signals
and answers, the history of the execution is one that `workflowMachine` can
write, whether the run ends, fails or is still waiting; and its loop counter
never runs out.
-/
import LanggraphTemporal.Machine.Invariants

namespace LanggraphTemporal.Machine

set_option autoImplicit false

open Theory Theory.System Model Model.LangGraphWorkflow

variable {Chan : Type} {S : Setting Chan}

/-- The execution is in a phase of the machine, in superstep `n`. -/
structure Inside (S : Setting Chan) (n : Nat) (ph : Phase) (w : Execution Chan) : Prop where
  reachable : (workflowMachine S).Reachable ⟨w.history, ph, w.self⟩
  step : w.self.step = n

/-- It is in the phase, and not searching for a worker. -/
structure At (S : Setting Chan) (n : Nat) (ph : Phase) (w : Execution Chan) : Prop
    extends Inside S n ph w where
  foundAll : FoundAll w.history
  paired : Paired w.history

/-- What the workflow object shows of its pauses: that it is in one, and the
interrupts of the last one. -/
structure Shown (w : Execution Chan) : Prop where
  status : w.self.status = .interrupted ↔ inPause w.history
  interrupts : w.self.interrupts = lastPaused w.history
  entries : ∀ entries, Event.paused entries ∈ w.history → entries ≠ []

/-- The machine has reached the execution, but for its status, or the main loop
has not begun; and each search finds one worker. -/
structure Traced (S : Setting Chan) (w : Execution Chan) : Prop where
  reached : Early S w.history ∨
    ∃ ph status, (workflowMachine S).Reachable ⟨w.history, ph, { w.self with status := status }⟩
  paired : Paired w.history
  shown : Shown w

def Stops (S : Setting Chan) (e : RunError) (w : Execution Chan) : Prop :=
  e ≠ .outOfFuel ∧ Traced S w

/-- Whenever the execution waits; in a pause it waits for the resume event only. -/
structure Idles (S : Setting Chan) (qs : List Request) (w : Execution Chan) : Prop where
  traced : Traced S w
  pause : inPause w.history → qs = [.resumeEvent] ∧ ∃ n ph, At S n ph w

variable {n : Nat} {ph : Phase} {w : Execution Chan}

theorem Inside.shown (here : Inside S n ph w) : Shown w := by
  refine ⟨?_, lastPaused_invariant.holds here.reachable, paused_invariant.holds here.reachable⟩
  have status : w.self.status = if ph.stage.resume.isSome then .interrupted else .running :=
    status_invariant.holds here.reachable
  constructor
  · intro interrupted
    cases paused : ph.stage.resume.isSome with
    | true =>
        obtain ⟨a, split⟩ := (resumes_invariant.holds here.reachable).last paused
        exact ⟨a, _, split⟩
    | false =>
        rw [status, paused] at interrupted
        cases interrupted
  · intro paused
    rw [status, if_pos (inPause_invariant.holds here.reachable paused)]

theorem Inside.traced (here : Inside S n ph w) (paired : Paired w.history) : Traced S w :=
  ⟨.inr ⟨ph, w.self.status, here.reachable⟩, paired, here.shown⟩

theorem At.traced (here : At S n ph w) : Traced S w := here.toInside.traced here.paired

theorem Inside.during {w' : Execution Chan} (here : Inside S n ph w) (during : During S ph w w') :
    Inside S n ph w' :=
  ⟨during.reachable here.reachable, during.kept.step.trans here.step⟩

theorem Inside.pinned (here : Inside S n ph w) : Pinned w.history w.self :=
  pinned_invariant.holds here.reachable

theorem Inside.not_inPause (here : Inside S n ph w) (stage : ph.stage.resume = none) :
    ¬inPause w.history := by
  intro paused
  have resumes := inPause_invariant.holds here.reachable paused
  rw [stage] at resumes
  cases resumes

theorem At.move {ph' : Phase} {self' : LangGraphWorkflow Chan} {e : Event} {w' : Execution Chan}
    (here : At S n ph w) (moves : Moves S w.history ph w.self e ph' self')
    (self : w'.self = self') (history : w'.history = w.history ++ [e]) (step : self'.step = n) :
    At S n ph' w' := by
  refine ⟨⟨?_, by rw [self, step]⟩, ?_, ?_⟩
  · rw [self, history]
    exact .step here.reachable (.move moves)
  · rw [history]
    exact here.foundAll.snoc fun searching => by cases searching; cases moves
  · rw [history]
    exact here.paired.snoc (by cases moves <;> rfl)

theorem handle_history {env : Env Chan} {signal : Signal} {w' : Execution Chan}
    (handled : (workflowSystem env).handle signal w = .ok w') :
    w'.history = w.history ++ [.received signal] := by
  cases signal with
  | resume value =>
      cases handled
      rfl
  | updateState writes =>
      simp only [workflowSystem] at handled
      split at handled
      · cases handled
        rfl
      · cases handled

theorem At.signal {signal : Signal} {w' : Execution Chan} (here : At S n ph w) (waits : ph.stage ≠ .ready)
    (handled : (workflowSystem S.env).handle signal w = .ok w') : At S n ph w' := by
  refine ⟨here.toInside.during (.signal waits handled), ?_, ?_⟩
  · rw [handle_history handled]
    exact here.foundAll.snoc nofun
  · rw [handle_history handled]
    exact here.paired.snoc rfl

/-- What a coroutine and signals write leaves no search unfinished, when the
coroutine's own part does not. -/
theorem foundAll_of_wrote {u t : Execution Chan} {own : List Event} (before : FoundAll u.history)
    (foundAll : FoundAll own) (wrote : Wrote Execution.history isReceived u own t) :
    FoundAll t.history := by
  obtain ⟨signals, all, written, inter, received⟩ := wrote
  rw [written]
  refine foundAll_append before (inter.after (fun e r r' sub found searching => ?_) foundAll ?_)
  · obtain ⟨queue, mem⟩ := found searching
    exact ⟨queue, sub mem⟩
  · exact foundAll_of_quiet fun e mem searching => by
      have here := received e mem
      rw [searching] at here
      exact here

theorem foundAll_of_received {h : List Event} (received : ∀ e ∈ h, isReceived e) : FoundAll h := by
  refine foundAll_of_quiet fun e mem searching => ?_
  have here := received e mem
  rw [searching] at here
  exact here

theorem paired_of_received {h : List Event} (received : ∀ e ∈ h, isReceived e) : Paired h := by
  intro a initial
  have none : a.countP isFind = 0 := by
    refine List.countP_eq_zero.mpr fun e mem found => ?_
    have signal := received e (initial.subset mem)
    cases e with
    | received signal => cases found
    | _ => cases signal
  rw [none]
  exact Nat.zero_le _

theorem paired_of_logged {u t : Execution Chan} (before : Paired u.history)
    (logged : Keeps.Logged Execution.history paired isReceived u t) : Paired t.history := by
  obtain ⟨own, ok, signals, all, written, inter, received⟩ := logged
  rw [written]
  exact paired.append before (paired.interleaves inter ok (paired_of_received received))

/-- Run side by side within a phase, and be in that phase afterwards. -/
theorem wp_of_does {α : Type} {post : α → Execution Chan → Prop} {c : WorkflowM Chan α}
    (stage : ph.stage.resume = none) (waits : ph.stage ≠ .ready) (here : At S n ph w)
    (does : Does S ph post c w w) :
    (workflowSystem S.env).wp (fun a t => post a t ∧ At S n ph t) (Stops S) (Idles S) c w := by
  have inside : ∀ {t}, During S ph w t → Inside S n ph t := fun during => here.toInside.during during
  have traced : ∀ {t}, During S ph w t → Keeps.Logged Execution.history paired isReceived w t →
      Traced S t := fun during logged => (inside during).traced (paired_of_logged here.paired logged)
  have begun : Wrote Execution.history isReceived w [] w := wrote_nil
  refine wp_mono ?_ (fun e t held => ⟨held.1.2, traced held.1.1 held.2⟩) (fun _ _ => id)
    (Keeps.wp .refl (fun t g v _ handled => ⟨.signal waits handled, _,
      handle_history handled, ?_⟩) (fun t g e during failing => ⟨during, ?_⟩)
      (fun qs t during _ logged => ⟨traced during logged, fun paused =>
        absurd paused ((inside during).not_inPause stage)⟩) begun does)
  · rintro a t ⟨during, own, ok, ⟨foundAll, held⟩, wrote⟩
    exact ⟨held, inside during, foundAll_of_wrote here.foundAll foundAll wrote,
      paired_of_logged here.paired ⟨own, ok, wrote⟩⟩
  · intro e mem
    rw [List.mem_singleton.mp mem]
    trivial
  · obtain ⟨message, rfl⟩ := handle_error failing
    nofun

/-! ## Pauses -/

/-- One pause, from the phase that makes it to the phase it lets go on. -/
theorem pause_wp {paused next : Stage} (pause : ph.stage.pause = some paused)
    (resume : paused.resume = some next) (here : At S n ph w) :
    (workflowSystem S.env).wp
      (fun _ t => At S n (enter S next ph.tasks ph.results t.self) t ∧ t.self.resumeValues ≠ [])
      (Stops S) (Idles S) waitForResume (w.mapSelf (interrupt (pending ph))) := by
  unfold waitForResume setSelf getSelf record
  simp only [Coro.bind_eq, wp_bind, wp_modify, wp_read, Coro.pure_eq, wp_ret]
  have waiting : At S n { ph with stage := paused }
      (((w.mapSelf (interrupt (pending ph))).mapSelf clearResume).log (.paused (pending ph))) :=
    here.move (.pause pause) rfl rfl here.step
  have waits : paused ≠ .ready := by
    rintro rfl
    cases resume
  refine wp_request (At S n { ph with stage := paused }) waiting
    (fun t g u held handled => held.signal waits handled) (fun t held => ⟨held.traced, fun _ => ⟨rfl, _, _, held⟩⟩)
    (fun t g e held failing => ?_) fun t r held answer => ?_
  · obtain ⟨message, rfl⟩ := handle_error failing
    exact ⟨by simp, held.traced⟩
  · have event : t.self.resumeEvent = true := by
      rcases answer with ready | permitted
      · simp only [workflowSystem] at ready
        split at ready
        · assumption
        · cases ready
      · cases permitted
    have some : t.self.resumeValues ≠ [] := eventSet_invariant.holds held.reachable event
    exact ⟨held.move (.resume resume event) rfl rfl held.step, some⟩

/-- The check before the nodes of a superstep. -/
theorem interruptBefore_wp {tasks : List PregelTask} (here : At S n (opened S tasks w.self) w) :
    (workflowSystem S.env).wp (fun _ t => At S n (enter S .executing tasks [] t.self) t)
      (Stops S) (Idles S) (interruptCheck S.input.interruptBefore .before tasks) w := by
  unfold interruptCheck
  rcases opened_cases S tasks w.self with ⟨interrupts, phase⟩ | ⟨goes, phase⟩
  · rw [phase] at here
    rw [if_pos interrupts]
    exact wp_mono (fun _ _ held => held.1) (fun _ _ => id) (fun _ _ => id)
      (pause_wp rfl rfl here)
  · rw [phase] at here
    rw [if_neg (by simpa using goes)]
    exact here

/-- The check after the writes of a superstep. -/
theorem interruptAfter_wp (here : At S n (completed S ph) w) :
    (workflowSystem S.env).wp (fun _ t => ∃ ph', ph'.stage = .closing ∧ At S n ph' t)
      (Stops S) (Idles S) (interruptCheck S.input.interruptAfter .after ph.tasks) w := by
  unfold interruptCheck
  rcases completed_cases S ph with ⟨interrupts, phase⟩ | ⟨goes, phase⟩
  · rw [phase] at here
    rw [if_pos interrupts]
    exact wp_mono (fun _ t held => ⟨_, rfl, held.1⟩) (fun _ _ => id) (fun _ _ => id)
      (pause_wp rfl rfl here)
  · rw [phase] at here
    rw [if_neg (by simpa using goes)]
    exact ⟨_, rfl, here⟩

/-! ## The pieces of a superstep -/

/-- A phase that executes, its outputs collected. -/
theorem At.collect {outputs : List NodeActivityOutput} {route : Route} (here : At S n ph w)
    (route_eq : ph.stage.route = some route) (collects : Collects S w.history ph w.self outputs) :
    At S n (collected S ph outputs w.self) (w.log (.collected route outputs)) :=
  here.move (.collect route_eq collects here.foundAll) rfl rfl here.step

theorem executeNodes_wp {tasks : List PregelTask}
    (here : At S n (enter S .executing tasks [] w.self) w) :
    (workflowSystem S.env).wp
      (fun rs t => At S n { stage := .serving, tasks := tasks, results := rs }
        (t.log (.collected .scheduled rs)))
      (Stops S) (Idles S) (executeNodes S.env S.graph tasks) w :=
  wp_mono (fun _ _ held => held.2.collect rfl held.1) (fun _ _ => id) (fun _ _ => id)
    (wp_of_does rfl (show Stage.executing ≠ .ready by decide) here
      (executeNodes_does rfl here.foundAll here.pinned))

theorem processChildWorkflowRequests_wp {tasks : List PregelTask} {results : List NodeActivityOutput}
    (here : At S n { stage := .serving, tasks := tasks, results := results } w) :
    (workflowSystem S.env).wp
      (fun rs t => At S n (served S tasks rs t.self) (t.log (.served rs)))
      (Stops S) (Idles S) (processChildWorkflowRequests S.env S.input results) w :=
  wp_mono (fun _ _ held => held.2.move (.serve rfl held.1) rfl rfl held.2.step) (fun _ _ => id)
    (fun _ _ => id)
    (wp_of_does rfl (show Stage.serving ≠ .ready by decide) here
      (processChildWorkflowRequests_does rfl results (fun _ => id) .refl))

theorem settledOf_of_none {results : List NodeActivityOutput} (none : interruptedOf results = []) :
    settledOf results = results := by
  refine List.filter_eq_self.mpr fun r mem => ?_
  have not := List.filter_eq_nil_iff.mp none r mem
  simpa using not

/-- The interrupted nodes, executed again one after the other. -/
theorem executeResumed_wp (stage : ph.stage = .resuming) (rs : List NodeActivityOutput)
    (pending : ∀ r ∈ rs, r ∈ ph.results ∧ r.interrupted = true) (here : At S n ph w)
    (some : w.self.resumeValues ≠ []) :
    (workflowSystem S.env).wp
      (fun outputs t => List.Forall₂ (Reexecuted t.history ph t.self) rs outputs ∧ At S n ph t ∧
        During S ph w t)
      (Stops S) (Idles S) (executeResumed ph.state rs) w := by
  induction rs generalizing w with
  | nil => exact ⟨.nil, here, .refl⟩
  | cons q rs ih =>
      obtain ⟨result, interrupted⟩ := pending q List.mem_cons_self
      have unpaused : ph.stage.resume = none := by
        rw [stage]
        rfl
      have waits : ph.stage ≠ .ready := by
        rw [stage]
        decide
      unfold executeResumed getSelf
      simp only [Coro.bind_eq, wp_bind, wp_read, Coro.pure_eq, wp_ret]
      refine wp_mono (fun r t held => ?_) (fun _ _ => id) (fun _ _ => id)
        (wp_of_does unpaused waits here
          (executeResumedNode_does stage result interrupted some here.foundAll here.pinned))
      obtain ⟨⟨output, someLater, during⟩, hereLater⟩ := held
      refine wp_mono (fun outputs u rest => ?_) (fun _ _ => id) (fun _ _ => id)
        (ih (fun r mem => pending r (List.mem_cons_of_mem q mem)) hereLater someLater)
      exact ⟨.cons (reexecuted_stable q r t u output rest.2.2) rest.1, rest.2.1, during.trans rest.2.2⟩

theorem executeResumedNodes_wp {tasks : List PregelTask} {results : List NodeActivityOutput}
    (here : At S n (enter S .resuming tasks results w.self) w) (some : w.self.resumeValues ≠ []) :
    (workflowSystem S.env).wp
      (fun outputs t => At S n (enter S .pushing tasks (settledOf results ++ outputs) t.self)
        (t.log (.collected .resumed outputs)))
      (Stops S) (Idles S) (executeResumedNodes S.env (interruptedOf results)) w := by
  unfold executeResumedNodes getSelf
  simp only [Coro.bind_eq, wp_bind, wp_read, Coro.pure_eq, wp_ret]
  refine wp_mono (fun outputs t held => ?_) (fun _ _ => id) (fun _ _ => id)
    (executeResumed_wp rfl _ (fun r mem => List.mem_filter.mp mem) here some)
  exact held.2.1.collect rfl held.1

theorem handleInterrupted_wp {tasks : List PregelTask} {results : List NodeActivityOutput}
    (here : At S n (served S tasks results w.self) w) :
    (workflowSystem S.env).wp (fun rs t => At S n (enter S .pushing tasks rs t.self) t)
      (Stops S) (Idles S) (handleInterrupted S.env results) w := by
  unfold handleInterrupted
  change System.wp _ _ _ _ (if (interruptedOf results).isEmpty then _ else _) w
  rcases served_cases S tasks results w.self with ⟨none, phase⟩ | ⟨some, phase⟩
  · rw [phase] at here
    rw [if_pos (List.isEmpty_iff.mpr none)]
    have collects : Collects S w.history (enter S .resuming tasks results w.self) w.self [] := by
      change List.Forall₂ _ (interruptedOf results) []
      rw [none]
      exact .nil
    have next := here.collect rfl collects
    have same : settledOf results ++ [] = results := by
      rw [List.append_nil, settledOf_of_none none]
    change At S n (enter S .pushing tasks (settledOf results ++ []) w.self) _ at next
    rw [same] at next
    exact next
  · rw [phase] at here
    rw [if_neg (by simpa using some)]
    have pause : (workflowSystem S.env).wp
        (fun _ t => At S n (enter S .resuming tasks results t.self) t ∧ t.self.resumeValues ≠ [])
        (Stops S) (Idles S) waitForResume
        (w.mapSelf (interrupt (raisedInterrupts (interruptedOf results)))) := pause_wp rfl rfl here
    unfold setSelf record
    simp only [Coro.bind_eq, wp_bind, wp_modify, Coro.pure_eq, wp_ret]
    refine wp_mono (fun _ t held => ?_) (fun _ _ => id) (fun _ _ => id) pause
    exact executeResumedNodes_wp held.1 held.2

theorem waits_of_route {stage : Stage} {route : Route} (route_eq : stage.route = some route) :
    stage ≠ .ready := by
  rintro rfl
  cases route_eq

/-- Sends and goto targets are handled alike: the tasks are executed, and their
outputs added to the results. -/
theorem handleSends_wp {route : Route} {sends : List SendRequest}
    (route_eq : ph.stage.route = some route) (stage : ph.stage.resume = none)
    (state : ph.state = getChannelValues S.env.lg w.self.channels)
    (collects : ∀ h (self : LangGraphWorkflow Chan) outputs,
      Collects S h ph self outputs ↔ List.Forall₂ (Sent h ph self) sends outputs)
    (admits : ∀ send ∈ sends, ∀ h (self : LangGraphWorkflow Chan),
      Admits S ph h self (pushInput self.graphRef ph.state send))
    (here : At S n ph w) :
    (workflowSystem S.env).wp
      (fun rs t => ∃ outputs, rs = ph.results ++ outputs ∧ At S n (collected S ph outputs t.self) t)
      (Stops S) (Idles S) (handleSends S.env route sends ph.results) w := by
  unfold handleSends
  split
  · rename_i empty
    have nothing : Collects S w.history ph w.self [] := by
      rw [collects, List.isEmpty_iff.mp empty]
      exact .nil
    exact ⟨[], (List.append_nil _).symm, here.collect route_eq nothing⟩
  · unfold record
    simp only [Coro.bind_eq, wp_bind, wp_modify, Coro.pure_eq, wp_ret]
    refine wp_mono (fun outputs t held => ?_) (fun _ _ => id) (fun _ _ => id)
      (wp_of_does stage (waits_of_route route_eq) here (executePushTasks_does state admits here.foundAll here.pinned))
    exact ⟨outputs, rfl, held.2.collect route_eq ((collects _ _ _).mpr held.1)⟩

theorem handlePush_wp {tasks : List PregelTask} {results : List NodeActivityOutput}
    (here : At S n (enter S .pushing tasks results w.self) w) :
    (workflowSystem S.env).wp (fun rs t => At S n (enter S .going tasks rs t.self) t)
      (Stops S) (Idles S) (handleSends S.env .push (extractPushSends results) results) w := by
  refine wp_mono ?_ (fun _ _ => id) (fun _ _ => id)
    (handleSends_wp rfl rfl rfl (fun _ _ _ => .rfl)
      (fun send mem h self => .push rfl mem) here)
  rintro rs t ⟨outputs, rfl, next⟩
  exact next

theorem handleGoto_wp {tasks : List PregelTask} {results : List NodeActivityOutput}
    (here : At S n (enter S .going tasks results w.self) w) :
    (workflowSystem S.env).wp
      (fun rs t => At S n { stage := .applying, tasks := tasks, results := rs } t)
      (Stops S) (Idles S) (handleSends S.env .goto (extractCommandGotos results) results) w := by
  refine wp_mono ?_ (fun _ _ => id) (fun _ _ => id)
    (handleSends_wp rfl rfl rfl (fun _ _ _ => .rfl)
      (fun send mem h self => .goto rfl mem) here)
  rintro rs t ⟨outputs, rfl, next⟩
  exact next

theorem applyResults_wp (stage : ph.stage = .applying) (here : At S n ph w) :
    (workflowSystem S.env).wp
      (fun _ t => At S n (completed S ph) (t.mapSelf (emitStreamEvents S.env.lg ph.results)))
      (Stops S) (Idles S) (applyResults S.env S.graph ph.results) w := by
  unfold applyResults
  dsimp only
  split
  · rename_i empty
    exact here.move (.skip stage (List.isEmpty_iff.mp empty)) rfl rfl here.step
  · rename_i some
    unfold getSelf setSelf record
    simp only [Coro.bind_eq, wp_bind, wp_read, Coro.pure_eq, wp_ret]
    cases applied : S.env.lg.applyWrites w.self.checkpoint w.self.channels
        (writesOf S.graph ph.results) increment w.self.triggerToNodes with
    | ok out =>
        have silent : writesOf S.graph ph.results ≠ [] := fun empty => some (by rw [empty]; rfl)
        exact here.move (.apply stage silent applied) rfl rfl here.step
    | error message => exact ⟨by simp, here.traced⟩

/-- **One superstep takes the machine back to the head of the loop.** -/
theorem superstep_wp {tasks : List PregelTask} (here : At S n (opened S tasks w.self) w) :
    (workflowSystem S.env).wp (fun _ t => At S (n + 1) { stage := .ready } t)
      (Stops S) (Idles S) (superstep S.env S.graph S.input tasks) w := by
  unfold superstep record setSelf
  simp only [Coro.bind_eq, wp_bind, wp_modify]
  refine wp_mono (fun _ t here => ?_) (fun _ _ => id) (fun _ _ => id) (interruptBefore_wp here)
  refine wp_mono (fun results t here => ?_) (fun _ _ => id) (fun _ _ => id) (executeNodes_wp here)
  refine wp_mono (fun results t here => ?_) (fun _ _ => id) (fun _ _ => id)
    (processChildWorkflowRequests_wp here)
  refine wp_mono (fun results t here => ?_) (fun _ _ => id) (fun _ _ => id) (handleInterrupted_wp here)
  refine wp_mono (fun results t here => ?_) (fun _ _ => id) (fun _ _ => id) (handlePush_wp here)
  refine wp_mono (fun results t here => ?_) (fun _ _ => id) (fun _ _ => id) (handleGoto_wp here)
  refine wp_mono (fun _ t here => ?_) (fun _ _ => id) (fun _ _ => id) (applyResults_wp rfl here)
  refine wp_mono (fun _ t here => ?_) (fun _ _ => id) (fun _ _ => id) (interruptAfter_wp here)
  obtain ⟨ph, stage, here⟩ := here
  refine ⟨⟨.step here.reachable (.move (.advance stage)), ?_⟩, here.foundAll.snoc (by simp),
    here.paired.snoc rfl⟩
  exact congrArg (· + 1) here.step

/-! ## The main loop -/

/-- How a run ends: with no task to schedule or at its limit, or at the head of
the loop to continue as new. -/
def Ends (S : Setting Chan) (result : RunResult) (t : Execution Chan) : Prop :=
  match result with
  | .output o => ∃ n u, At S n { stage := .ready } u ∧
      t = u.mapSelf (fun self => { self with status := .done }) ∧
        o = ⟨getChannelValues S.env.lg u.self.channels, u.self.step⟩ ∧
          (S.input.recursionLimit ≤ u.self.step ∨
            S.env.lg.prepareNextTasks u.self.checkpoint S.graph.nodes u.self.channels u.self.step
              S.input.recursionLimit u.self.triggerToNodes = [])
  | .continueAsNew next => ∃ n, At S n { stage := .ready } t ∧ next = continueInput S.env t.self S.input

theorem Ends.traced {result : RunResult} {t : Execution Chan} (ends : Ends S result t) : Traced S t := by
  cases result with
  | output o =>
      obtain ⟨n, u, here, rfl, -⟩ := ends
      refine ⟨.inr ⟨_, u.self.status, here.reachable⟩, here.paired, ?_⟩
      refine ⟨iff_of_false nofun (here.not_inPause rfl), here.shown.interrupts, here.shown.entries⟩
  | continueAsNew next =>
      obtain ⟨n, here, -⟩ := ends
      exact here.traced

theorem At.running (here : At S n { stage := .ready } w) : w.self.status = .running :=
  status_invariant.holds here.reachable

theorem loop_wp {threshold : Option Nat} :
    ∀ {fuel steps n : Nat} {w : Execution Chan}, (S.input.recursionLimit - n).toNat < fuel →
      At S n { stage := .ready } w →
      (workflowSystem S.env).wp (Ends S) (Stops S) (Idles S)
        (loop S.env threshold S.graph S.input fuel steps) w
  | 0, _, _, _, enough, _ => absurd enough (Nat.not_lt_zero _)
  | fuel + 1, steps, n, w, enough, here => by
      have step := here.step
      unfold loop finish getSelf setSelf record
      simp only [Coro.bind_eq, wp_bind, wp_read, Coro.pure_eq, wp_ret]
      split
      · rename_i below
        rw [step] at below
        split
        · rename_i none
          exact ⟨n, w, here, rfl, rfl, .inr (List.isEmpty_iff.mp none)⟩
        · rename_i some
          have ready : Moves S w.history { stage := .ready } w.self (.scheduled w.self.step _)
              (opened S _ w.self) w.self :=
            .schedule rfl (by rw [step]; exact below) rfl fun empty => some (by rw [empty]; rfl)
          simp only [wp_bind, wp_modify]
          refine wp_mono (fun _ t next => ?_) (fun _ _ => id) (fun _ _ => id)
            (superstep_wp (here.move ready rfl rfl step))
          split
          · exact ⟨_, next, rfl⟩
          · exact loop_wp (by omega) next
      · rename_i limit
        have past : S.input.recursionLimit ≤ w.self.step := by omega
        have finished : (if w.self.status = .running then { w.self with status := .done } else w.self) =
            { w.self with status := .done } := by
          rw [here.running, if_pos rfl]
        simp only [wp_bind, wp_modify, wp_read, wp_ret, Execution.mapSelf, finished]
        exact ⟨n, w, here, rfl, rfl, .inl past⟩

/-- What holds until the main loop begins. -/
structure Starting (S : Setting Chan) (w : Execution Chan) : Prop extends Early S w.history where
  configured : Configured S.graph S.input w.self
  event : w.self.resumeEvent = true → w.self.resumeValues ≠ []
  paired : Paired w.history
  status : w.self.status = .pending
  interrupts : w.self.interrupts = []

/-- Before the main loop there has been no pause. -/
theorem Early.shown (early : Early S w.history) (status : w.self.status = .pending)
    (interrupts : w.self.interrupts = []) : Shown w := by
  have none : ∀ entries, Event.paused entries ∉ w.history :=
    fun entries mem => by cases early.history _ mem
  refine ⟨iff_of_false (by rw [status]; nofun) ?_, ?_, fun entries mem => absurd mem (none entries)⟩
  · rintro ⟨a, entries, split⟩
    exact none entries (by rw [split]; simp)
  · rw [interrupts]
    rcases lastPaused_spec w.history with ⟨-, empty⟩ | mem
    · exact empty.symm
    · exact absurd mem (none _)

theorem Starting.shown (starting : Starting S w) : Shown w :=
  starting.toEarly.shown starting.status starting.interrupts

theorem Starting.not_inPause (starting : Starting S w) : ¬inPause w.history := by
  intro paused
  have status := starting.shown.status.mpr paused
  rw [starting.status] at status
  cases status

theorem Starting.traced (starting : Starting S w) : Traced S w :=
  ⟨.inl starting.toEarly, starting.paired, starting.shown⟩

theorem Early.snoc {h : List Event} {e : Event} (earlier : Early S h) (early : preliminary e = true)
    (needed : Needed S h e) : Early S (h ++ [e]) := by
  refine ⟨fun x mem => ?_, earlier.searches.snoc needed⟩
  rcases List.mem_append.mp mem with old | new
  · exact earlier.history x old
  · rw [List.mem_singleton.mp new]
    exact early

theorem Starting.signal {signal : Signal} {w' : Execution Chan} (starting : Starting S w)
    (handled : (workflowSystem S.env).handle signal w = .ok w') : Starting S w' := by
  cases signal with
  | resume value =>
      cases handled
      refine ⟨starting.snoc rfl (fun search => by cases search), { starting.configured with }, fun _ => ?_,
        starting.paired.snoc rfl, starting.status, starting.interrupts⟩
      exact List.append_ne_nil_of_right_ne_nil _ (List.cons_ne_nil _ _)
  | updateState writes =>
      simp only [workflowSystem] at handled
      split at handled
      · rename_i self updated
        cases handled
        obtain ⟨out, rfl⟩ := updateStateSignal_eq updated
        exact ⟨starting.snoc rfl (fun search => by cases search), { starting.configured with }, starting.event,
          starting.paired.snoc rfl, starting.status, starting.interrupts⟩
      · cases handled

theorem initialise_eq {env : Env Chan} {graph : Pregel Chan} {input : WorkflowInput}
    {self self' : LangGraphWorkflow Chan} (initialised : initialise env graph input self = .ok self') :
    ∃ checkpoint step channels, self' =
      { self with checkpoint := checkpoint, step := step, channels := channels } := by
  unfold initialise at initialised
  split at initialised
  · cases initialised
    exact ⟨_, _, _, rfl⟩
  · dsimp only at initialised
    split at initialised
    · cases initialised
      exact ⟨_, _, _, rfl⟩
    · split at initialised
      · cases initialised
        exact ⟨_, _, _, rfl⟩
      · cases initialised

theorem initialise_error {env : Env Chan} {graph : Pregel Chan} {input : WorkflowInput}
    {self : LangGraphWorkflow Chan} {e : RunError}
    (failed : initialise env graph input self = .error e) : e ≠ .outOfFuel := by
  unfold initialise at failed
  split at failed
  · cases failed
  · dsimp only at failed
    split at failed
    · cases failed
    · split at failed
      · cases failed
      · cases failed
        nofun

theorem truthy_some {queue : String} (named : queue ≠ "") : truthy (some queue) = true := by
  simpa [truthy] using named

/-- A worker has been found, if one is needed. -/
structure Prepared (S : Setting Chan) (w : Execution Chan) : Prop extends Starting S w where
  foundAll : FoundAll w.history
  pinned : S.input.useWorkerAffinity = true → truthy w.self.stickyTaskQueue = true
  sticky : w.self.stickyTaskQueue = lastQueue S.input.stickyTaskQueue w.history

/-- The main loop begins in a state of the machine. -/
theorem At.opened {self : LangGraphWorkflow Chan} (prepared : Prepared S w)
    (initialised : initialise S.env S.graph S.input w.self = .ok self) :
    At S self.step { stage := .ready } (w.mapSelf fun _ => { self with status := .running }) := by
  have before := initialised
  obtain ⟨checkpoint, step, channels, rfl⟩ := initialise_eq initialised
  have configured := prepared.configured
  refine ⟨⟨.init ⟨prepared.toEarly, prepared.foundAll, rfl, ?_, { configured with }, prepared.sticky⟩,
    rfl⟩, prepared.foundAll, prepared.paired⟩
  exact ⟨⟨w.self, _, configured.triggers, before, rfl⟩, configured.triggers, configured.graphRef,
    prepared.event, prepared.pinned, prepared.interrupts⟩

/-- `run`, once a worker has been discovered if one is needed. -/
def opening (S : Setting Chan) (threshold : Option Nat) : WorkflowM Chan RunResult := do
  let self ← getSelf
  match initialise S.env S.graph S.input self with
  | .error e => .raise e
  | .ok self =>
  setSelf fun _ => { self with status := .running }
  loop S.env threshold S.graph S.input ((S.input.recursionLimit - self.step).toNat + 1) 0

theorem run_eq (S : Setting Chan) (threshold : Option Nat) :
    run S.env threshold S.input =
      (setSelf fun self => { self with graphRef := S.input.graphDefinitionRef }).bind fun _ =>
        (setSelf (configure S.graph S.input)).bind fun _ =>
          if S.input.useWorkerAffinity && !truthy S.input.stickyTaskQueue then
            getAvailableTaskQueue.bind fun queue =>
              (setSelf fun self => { self with stickyTaskQueue := some queue }).bind fun _ =>
                opening S threshold
          else opening S threshold := by
  unfold run
  rw [S.registered]
  rfl

/-- The execution before the first wait of `run`. -/
def begun (S : Setting Chan) (w : Execution Chan) : Execution Chan :=
  (w.mapSelf fun self => { self with graphRef := S.input.graphDefinitionRef }).mapSelf
    (configure S.graph S.input)

/-- Before `run` begins, only signals have arrived. -/
structure Fresh (w : Execution Chan) : Prop where
  history : ∀ e ∈ w.history, isReceived e
  event : w.self.resumeEvent = true → w.self.resumeValues ≠ []
  status : w.self.status = .pending
  interrupts : w.self.interrupts = []

theorem Fresh.early (fresh : Fresh w) : Early S w.history := by
  refine ⟨fun e mem => ?_, History.guarded_of_forall fun e mem a searching => ?_⟩
  · have received := fresh.history e mem
    cases e with
    | received signal => rfl
    | _ => cases received
  · have received := fresh.history e mem
    rw [searching] at received
    cases received

theorem Fresh.foundAll (fresh : Fresh w) : FoundAll w.history := foundAll_of_received fresh.history

theorem Fresh.starting (fresh : Fresh w) : Starting S (begun S w) :=
  ⟨fresh.early, ⟨rfl, rfl, rfl, rfl, rfl, rfl, rfl⟩, fresh.event, paired_of_received fresh.history,
    fresh.status, fresh.interrupts⟩

theorem Fresh.prepared (fresh : Fresh w)
    (pinned : ¬(S.input.useWorkerAffinity && !truthy S.input.stickyTaskQueue) = true) :
    Prepared S (begun S w) := by
  refine { (fresh.starting : Starting S (begun S w)) with
    foundAll := fresh.foundAll, pinned := ?_, sticky := ?_ }
  · intro affinity
    change truthy S.input.stickyTaskQueue = true
    simpa [affinity] using pinned
  · refine (lastQueue_of_quiet fun e mem queue found => ?_).symm
    have received := fresh.history e mem
    rw [found] at received
    exact received

theorem opening_wp {threshold : Option Nat} (prepared : Prepared S w) :
    (workflowSystem S.env).wp (Ends S) (Stops S) (Idles S) (opening S threshold) w := by
  unfold opening getSelf setSelf
  simp only [Coro.bind_eq, wp_bind, wp_read, Coro.pure_eq, wp_ret]
  cases initialised : initialise S.env S.graph S.input w.self with
  | error e => exact ⟨initialise_error initialised, prepared.traced⟩
  | ok self => exact loop_wp (Nat.lt_succ_self _) (.opened prepared initialised)

/-- A search is going on that has not found a worker. -/
structure Seeking (S : Setting Chan) (w : Execution Chan) : Prop extends Starting S w where
  unfound : w.history.countP isFind < w.history.countP isSearch

theorem Seeking.signal {signal : Signal} {w' : Execution Chan} (seeking : Seeking S w)
    (handled : (workflowSystem S.env).handle signal w = .ok w') : Seeking S w' := by
  refine ⟨seeking.toStarting.signal handled, ?_⟩
  rw [handle_history handled, List.countP_append, List.countP_append]
  exact seeking.unfound

theorem getAvailableTaskQueue_wp (starting : Starting S w) (first : ∀ e ∈ w.history, isReceived e)
    (needed : (S.input.useWorkerAffinity && !truthy S.input.stickyTaskQueue) = true) :
    (workflowSystem S.env).wp
      (fun queue t => Prepared S (t.mapSelf fun self => { self with stickyTaskQueue := some queue }))
      (Stops S) (Idles S) getAvailableTaskQueue w := by
  obtain ⟨affinity, unset⟩ : S.input.useWorkerAffinity = true ∧
      truthy S.input.stickyTaskQueue = false := by
    simpa using needed
  have seeking : Seeking S (w.log .discovering) := by
    refine ⟨⟨starting.snoc rfl fun _ => ⟨affinity, unset, first⟩, starting.configured, starting.event,
      starting.paired.snoc rfl, starting.status, starting.interrupts⟩, ?_⟩
    have before := starting.paired w.history List.prefix_rfl
    change List.countP isFind (w.history ++ [_]) < List.countP isSearch (w.history ++ [_])
    rw [List.countP_append, List.countP_append]
    exact Nat.lt_succ_of_le before
  unfold getAvailableTaskQueue record
  simp only [Coro.bind_eq, wp_bind, wp_modify]
  refine wp_request (Seeking S) seeking (fun t g u held handled => held.signal handled)
    (fun t held => ⟨held.traced, fun paused => absurd paused held.not_inPause⟩)
    (fun t g e held failing => ?_) fun t r held answer => ?_
  · obtain ⟨message, rfl⟩ := handle_error failing
    exact ⟨by simp, held.traced⟩
  · cases r with
    | queue name =>
        rcases answer with ready | permitted
        · cases ready
        · have named : name ≠ "" := by simpa [workflowSystem] using permitted
          have paired : Paired (t.history ++ [.discovered name]) := by
            refine paired_snoc held.paired ?_
            rw [List.countP_append, List.countP_append]
            exact held.unfound
          exact ⟨⟨held.snoc rfl (fun search => by cases search), { held.configured with }, held.event, paired, held.status,
            held.interrupts⟩, foundAll_discovered, fun _ => truthy_some named,
            (lastQueue_discovered _ _ name).symm⟩
    | activityError message => exact ⟨by simp, held.traced⟩
    | _ => exact ⟨by simp, held.traced⟩

theorem run_wp {threshold : Option Nat} (fresh : Fresh w) :
    (workflowSystem S.env).wp (Ends S) (Stops S) (Idles S) (run S.env threshold S.input) w := by
  rw [run_eq]
  simp only [setSelf, wp_bind, wp_modify]
  split
  · rename_i needed
    simp only [wp_bind]
    exact wp_mono (fun queue t prepared => opening_wp prepared) (fun _ _ => id) (fun _ _ => id)
      (getAvailableTaskQueue_wp fresh.starting fresh.history needed)
  · rename_i goes
    exact opening_wp (fresh.prepared goes)

/-- The workflow object as `__init__` leaves it. -/
def created (S : Setting Chan) (uuids : Nat → String) : Execution Chan :=
  { self := init S.env, uuids := uuids }

theorem created_fresh (uuids : Nat → String) : Fresh (created S uuids) :=
  ⟨fun _ mem => absurd mem List.not_mem_nil, nofun, rfl, rfl⟩

theorem Fresh.signal {signal : Signal} {w' : Execution Chan} (fresh : Fresh w)
    (handled : (workflowSystem S.env).handle signal w = .ok w') : Fresh w' := by
  have history : ∀ e ∈ w'.history, isReceived e := by
    intro e mem
    rw [handle_history handled] at mem
    rcases List.mem_append.mp mem with old | new
    · exact fresh.history e old
    · rw [List.mem_singleton.mp new]
      trivial
  cases signal with
  | resume value =>
      cases handled
      refine ⟨history, fun _ => ?_, fresh.status, fresh.interrupts⟩
      exact List.append_ne_nil_of_right_ne_nil _ (List.cons_ne_nil _ _)
  | updateState writes =>
      simp only [workflowSystem] at handled
      split at handled
      · rename_i self updated
        cases handled
        obtain ⟨out, rfl⟩ := updateStateSignal_eq updated
        exact ⟨history, fresh.event, fresh.status, fresh.interrupts⟩
      · cases handled

theorem Fresh.signalled {w' : Execution Chan} (fresh : Fresh w)
    (signalled : (workflowSystem S.env).Signalled w w') : Fresh w' :=
  signalled.keeps (fun _ _ _ fresh handled => fresh.signal handled) fresh

/-- What an execution comes to. The handlers of the signals that arrive with its
first workflow task run on the new object, before `run` does; after that, a
script of signals and answers. -/
def replayExecution (S : Setting Chan) (threshold : Option Nat) (uuids : Nat → String)
    (arrived : List Signal) (script : List (Action Response Signal)) :
    Outcome (Execution Chan) Request Response Signal RunError RunResult :=
  match (workflowSystem S.env).deliver arrived (created S uuids) with
  | .ok w => (workflowSystem S.env).replay (run S.env threshold S.input) script w
  | .error (e, w) => .failed e w

/-- What a run of the workflow comes to on a script of signals and answers. -/
def replayRun (S : Setting Chan) (threshold : Option Nat) (uuids : Nat → String)
    (script : List (Action Response Signal)) :
    Outcome (Execution Chan) Request Response Signal RunError RunResult :=
  (workflowSystem S.env).replay (run S.env threshold S.input) script
    { self := init S.env, uuids := uuids }

theorem execution_refines (S : Setting Chan) (threshold : Option Nat) (uuids : Nat → String)
    (arrived : List Signal) (script : List (Action Response Signal)) :
    Outcome.Holds (Ends S) (Stops S) (Idles S) (replayExecution S threshold uuids arrived script) := by
  unfold replayExecution
  split
  · rename_i w delivered
    have signalled := deliver_signalled _ delivered
    exact replay_holds _ _ _ _ (run_wp ((created_fresh uuids).signalled signalled))
  · rename_i e w failed
    obtain ⟨signalled, g, handled⟩ := deliver_error _ failed
    have fresh : Fresh w := (created_fresh uuids).signalled signalled
    obtain ⟨message, rfl⟩ := handle_error handled
    have early : Early S w.history := fresh.early
    exact ⟨nofun, .inl early, paired_of_received fresh.history,
      early.shown fresh.status fresh.interrupts⟩

/-- **Every replay of the workflow is a run of the machine**, whether it ends,
fails or waits; and its loop counter never runs out. -/
theorem run_refines (S : Setting Chan) (threshold : Option Nat) (uuids : Nat → String)
    (script : List (Action Response Signal)) :
    Outcome.Holds (Ends S) (fun e w => e ≠ .outOfFuel ∧ Traced S w)
      (Idles S) (replayRun S threshold uuids script) :=
  execution_refines S threshold uuids [] script

/-- The execution where a replay stops. -/
def stoppedAt {α : Type} :
    Outcome (Execution Chan) Request Response Signal RunError α → Option (Execution Chan)
  | .done _ _ w => some w
  | .failed _ w => some w
  | .blocked _ _ w => some w
  | .refused => none

/-- The history of a replay, up to where it stops. -/
def historyOf {α : Type} : Outcome (Execution Chan) Request Response Signal RunError α → List Event
  | .done _ _ w => w.history
  | .failed _ w => w.history
  | .blocked _ _ w => w.history
  | .refused => []

/-- The history of an execution. -/
def executionHistory (S : Setting Chan) (threshold : Option Nat) (uuids : Nat → String)
    (arrived : List Signal) (script : List (Action Response Signal)) : List Event :=
  historyOf (replayExecution S threshold uuids arrived script)

/-- The history of a run of the workflow on a script. -/
def runHistory (S : Setting Chan) (threshold : Option Nat) (uuids : Nat → String)
    (script : List (Action Response Signal)) : List Event :=
  historyOf (replayRun S threshold uuids script)

theorem historyOf_eq {α : Type} (outcome : Outcome (Execution Chan) Request Response Signal RunError α) :
    historyOf outcome = ((stoppedAt outcome).map Execution.history).getD [] := by
  cases outcome <;> rfl

/-- Wherever an execution stops, it is one that the machine has reached. -/
theorem execution_traced {threshold : Option Nat} {uuids : Nat → String} {arrived : List Signal}
    {script : List (Action Response Signal)} {w : Execution Chan}
    (stopped : stoppedAt (replayExecution S threshold uuids arrived script) = some w) : Traced S w := by
  have holds := execution_refines S threshold uuids arrived script
  cases outcome : replayExecution S threshold uuids arrived script with
  | done a rest t =>
      rw [outcome] at holds stopped
      cases stopped
      exact holds.traced
  | failed e t =>
      rw [outcome] at holds stopped
      cases stopped
      exact holds.2
  | blocked qs k t =>
      rw [outcome] at holds stopped
      cases stopped
      exact holds.traced
  | refused =>
      rw [outcome] at stopped
      cases stopped

/-- What holds of every history of the machine, and before the main loop, holds
of the history of every execution. -/
theorem executionHistory_holds {P : List Event → Prop} (early : ∀ h, Early S h → P h)
    (machine : ∀ c, (workflowMachine S).Reachable c → P c.history) (threshold : Option Nat)
    (uuids : Nat → String) (arrived : List Signal) (script : List (Action Response Signal)) :
    P (executionHistory S threshold uuids arrived script) := by
  unfold executionHistory
  rw [historyOf_eq]
  cases stopped : stoppedAt (replayExecution S threshold uuids arrived script) with
  | none => exact early [] ⟨fun e mem => absurd mem List.not_mem_nil, History.guarded_nil⟩
  | some w =>
      rcases (execution_traced stopped).reached with before | ⟨ph, status, reachable⟩
      · exact early _ before
      · exact machine _ reachable

/-- At no time has an execution found more workers than it has searched for. -/
theorem executionHistory_paired (S : Setting Chan) (threshold : Option Nat) (uuids : Nat → String)
    (arrived : List Signal) (script : List (Action Response Signal)) :
    Paired (executionHistory S threshold uuids arrived script) := by
  unfold executionHistory
  rw [historyOf_eq]
  cases stopped : stoppedAt (replayExecution S threshold uuids arrived script) with
  | none => exact paired_nil
  | some w => exact (execution_traced stopped).paired

theorem runHistory_holds {P : List Event → Prop}
    (early : ∀ h, (∀ e ∈ h, preliminary e = true) → P h)
    (machine : ∀ c, (workflowMachine S).Reachable c → P c.history) (threshold : Option Nat)
    (uuids : Nat → String) (script : List (Action Response Signal)) :
    P (runHistory S threshold uuids script) :=
  executionHistory_holds (fun h before => early h before.history) machine threshold uuids [] script

/-- What holds of every entry that a step of the machine adds, and before the
main loop, holds of every entry of an execution. -/
theorem executionHistory_guarded_of_early {P : List Event → Event → Prop}
    (early : ∀ h, Early S h → History.Guarded P h)
    (works : ∀ h ph self self' e, (workflowMachine S).Reachable ⟨h, ph, self⟩ →
      Works S ph h self e self' → P h e)
    (moves : ∀ h ph ph' self self' e, (workflowMachine S).Reachable ⟨h, ph, self⟩ →
      Moves S h ph self e ph' self' → P h e)
    (threshold : Option Nat) (uuids : Nat → String) (arrived : List Signal)
    (script : List (Action Response Signal)) :
    History.Guarded P (executionHistory S threshold uuids arrived script) :=
  executionHistory_holds early (fun _ reachable => (guarded_invariant early works moves).holds reachable)
    threshold uuids arrived script

theorem executionHistory_guarded {P : List Event → Event → Prop}
    (early : ∀ a e, preliminary e = true → P a e)
    (works : ∀ h ph self self' e, (workflowMachine S).Reachable ⟨h, ph, self⟩ →
      Works S ph h self e self' → P h e)
    (moves : ∀ h ph ph' self self' e, (workflowMachine S).Reachable ⟨h, ph, self⟩ →
      Moves S h ph self e ph' self' → P h e)
    (threshold : Option Nat) (uuids : Nat → String) (arrived : List Signal)
    (script : List (Action Response Signal)) :
    History.Guarded P (executionHistory S threshold uuids arrived script) :=
  executionHistory_guarded_of_early
    (fun h before a e b split => early a e (before.history e (by rw [split]; simp))) works moves threshold
    uuids arrived script

theorem runHistory_guarded {P : List Event → Event → Prop}
    (early : ∀ a e, preliminary e = true → P a e)
    (works : ∀ h ph self self' e, (workflowMachine S).Reachable ⟨h, ph, self⟩ →
      Works S ph h self e self' → P h e)
    (moves : ∀ h ph ph' self self' e, (workflowMachine S).Reachable ⟨h, ph, self⟩ →
      Moves S h ph self e ph' self' → P h e)
    (threshold : Option Nat) (uuids : Nat → String) (script : List (Action Response Signal)) :
    History.Guarded P (runHistory S threshold uuids script) :=
  executionHistory_guarded early works moves threshold uuids [] script

/-- Every superstep that completes does so at the end of its course. -/
theorem executionHistory_completesCourse (S : Setting Chan) (threshold : Option Nat) (uuids : Nat → String)
    (arrived : List Signal) (script : List (Action Response Signal)) :
    History.Guarded (CompletesCourse S) (executionHistory S threshold uuids arrived script) := by
  refine executionHistory_guarded (fun a e early done => ?_) (fun h ph self self' e _ works done => ?_)
    (fun h ph ph' self self' e reachable moves =>
      moves.completesCourse (course_invariant.holds reachable)) threshold uuids arrived script
  · rw [not_completes_of_preliminary early] at done
    cases done
  · rw [works.not_completes] at done
    cases done

theorem runHistory_completesCourse (threshold : Option Nat) (uuids : Nat → String)
    (script : List (Action Response Signal)) :
    History.Guarded (CompletesCourse S) (runHistory S threshold uuids script) :=
  executionHistory_completesCourse S threshold uuids [] script

end LanggraphTemporal.Machine
