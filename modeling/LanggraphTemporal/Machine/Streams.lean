/-
# Machine.Streams -- the stream buffer, read off the history

Each superstep that completes emits its events at once: the channel values after
its writes, and what its results have written and reported.  `emittedBy` says so
of one entry of the history, and `bufferOf` is what they add up to.  No other
part of a run touches the buffer, so it is `bufferOf` wherever an execution
stops (`execution_filled`).
-/
import LanggraphTemporal.Theory.Written
import LanggraphTemporal.Theory.CoroutineInvariant
import LanggraphTemporal.Machine.Channels
import LanggraphTemporal.Machine.Waits

namespace LanggraphTemporal.Machine

set_option autoImplicit false

open Theory Theory.System Model Model.LangGraphWorkflow

variable {Chan : Type} {S : Setting Chan} {h : List Event} {e : Event}

/-! ## The results of a superstep -/

/-- The results of the first pass, with their child requests served. -/
def servedIn (b : List Event) : List NodeActivityOutput :=
  b.foldl (fun results e => match e with | .served now => now | _ => results) []

/-- The outputs of the later passes. -/
def laterIn (b : List Event) : List NodeActivityOutput :=
  (collectedIn b).flatMap fun p => if p.1 = .scheduled then [] else p.2

/-- The results whose writes a superstep applies. -/
def resultsIn (b : List Event) : List NodeActivityOutput := settledOf (servedIn b) ++ laterIn b

theorem servedIn_snoc {b : List Event} (plain : ∀ results, e ≠ .served results) :
    servedIn (b ++ [e]) = servedIn b := by
  unfold servedIn
  rw [List.foldl_append]
  cases e with
  | served results => exact absurd rfl (plain results)
  | _ => rfl

@[simp] theorem servedIn_served (b : List Event) (results : List NodeActivityOutput) :
    servedIn (b ++ [.served results]) = results := by
  simp [servedIn]

theorem laterIn_snoc {b : List Event} (plain : ∀ route outputs, e ≠ .collected route outputs) :
    laterIn (b ++ [e]) = laterIn b := by
  rw [laterIn, collectedIn_snoc plain, laterIn]

@[simp] theorem laterIn_collected (b : List Event) (route : Route) (outputs : List NodeActivityOutput) :
    laterIn (b ++ [.collected route outputs]) = laterIn b ++ if route = .scheduled then [] else outputs := by
  simp [laterIn]

@[simp] theorem servedIn_collected (b : List Event) (route : Route) (outputs : List NodeActivityOutput) :
    servedIn (b ++ [.collected route outputs]) = servedIn b := servedIn_snoc nofun

@[simp] theorem laterIn_served (b : List Event) (results : List NodeActivityOutput) :
    laterIn (b ++ [.served results]) = laterIn b := laterIn_snoc nofun

/-- What a phase at this level has of the results of its superstep. -/
structure Gathered (b : List Event) (level : Nat) (results : List NodeActivityOutput) : Prop where
  none : level ≤ 2 → laterIn b = []
  served : level = 2 → results = servedIn b
  later : 3 ≤ level → results = resultsIn b

/-- An entry that collects and serves nothing. -/
theorem Gathered.snoc {b : List Event} {level : Nat} {results : List NodeActivityOutput}
    (gathered : Gathered b level results) (plain : ∀ results, e ≠ .served results)
    (other : ∀ route outputs, e ≠ .collected route outputs) : Gathered (b ++ [e]) level results := by
  refine ⟨fun early => ?_, fun stage => ?_, fun late => ?_⟩
  · rw [laterIn_snoc other]
    exact gathered.none early
  · rw [servedIn_snoc plain]
    exact gathered.served stage
  · rw [resultsIn, servedIn_snoc plain, laterIn_snoc other]
    exact gathered.later late

theorem Gathered.join {b : List Event} {level : Nat} {results : List NodeActivityOutput} {route : Route}
    {outputs : List NodeActivityOutput} (gathered : Gathered b level results) (past : 3 ≤ level)
    (late : route ≠ .scheduled) :
    Gathered (b ++ [.collected route outputs]) (level + 1) (results ++ outputs) := by
  refine ⟨fun early => by omega, fun stage => by omega, fun _ => ?_⟩
  rw [resultsIn, servedIn_collected, laterIn_collected, if_neg late, gathered.later past, resultsIn,
    List.append_assoc]

theorem Gathered.collect {b : List Event} {ph : Phase} {route : Route} {outputs : List NodeActivityOutput}
    {self : LangGraphWorkflow Chan} (gathered : Gathered b ph.stage.level ph.results)
    (route_eq : ph.stage.route = some route) :
    Gathered (b ++ [.collected route outputs]) (collected S ph outputs self).stage.level
      (collected S ph outputs self).results := by
  obtain ⟨stage, tasks, results, state⟩ := ph
  cases stage with
  | executing =>
      cases route_eq
      have nothing : laterIn b = [] := gathered.none (Nat.zero_le 2)
      have first : Gathered (b ++ [.collected .scheduled outputs]) 1 outputs :=
        ⟨fun _ => by simp [nothing], fun level => by omega, fun level => by omega⟩
      exact first
  | resuming =>
      cases route_eq
      have nothing : laterIn b = [] := gathered.none (Nat.le_refl 2)
      have same : results = servedIn b := gathered.served rfl
      have settled : Gathered (b ++ [.collected .resumed outputs]) 3 (settledOf results ++ outputs) := by
        refine ⟨fun level => by omega, fun level => by omega, fun _ => ?_⟩
        rw [resultsIn, servedIn_collected, laterIn_collected, nothing, same]
        rfl
      exact settled
  | pushing =>
      cases route_eq
      exact gathered.join (Nat.le_refl 3) nofun
  | going =>
      cases route_eq
      exact gathered.join (Nat.le_succ 3) nofun
  | _ => cases route_eq

theorem gathered_invariant : (workflowMachine S).Invariant fun c =>
    c.phase.stage ≠ .ready → Gathered (superstepOf c.history) c.phase.stage.level c.phase.results where
  init c initial busy := absurd (by rw [initial.phase]) busy
  step c d _ held step busy := by
    cases step with
    | @work h ph self self' e works =>
        rw [superstepOf_snoc works.not_scheduled]
        refine (held busy).snoc ?_ ?_
        · rintro results rfl
          cases works
        · rintro route outputs rfl
          cases works
    | @move h ph ph' self self' e moves =>
        have before : isScheduled e = false → ph.stage ≠ .ready := moves.busy
        cases moves with
        | @schedule tasks =>
            rw [superstepOf_scheduled, opened_level]
            exact ⟨fun _ => rfl, fun level => by omega, fun level => by omega⟩
        | advance => exact absurd rfl busy
        | collect route_eq collects =>
            rw [superstepOf_snoc rfl]
            exact (held (before rfl)).collect route_eq
        | @serve results stage serves =>
            rw [superstepOf_snoc rfl, served_level, served_results]
            have nothing := (held (before rfl)).none (by rw [stage]; exact Nat.le_succ 1)
            refine ⟨fun _ => ?_, fun _ => ?_, fun level => by omega⟩
            · rw [laterIn_served, nothing]
            · rw [servedIn_served]
        | @pause stage pause =>
            have level : stage.level = ph.stage.level := by
              obtain ⟨here, tasks, results, state⟩ := ph
              cases here <;> cases pause <;> rfl
            rw [superstepOf_snoc rfl]
            show Gathered _ stage.level _
            rw [level]
            exact (held (before rfl)).snoc nofun nofun
        | @resume stage resume event =>
            have level : stage.level = ph.stage.level := by
              obtain ⟨here, tasks, results, state⟩ := ph
              cases here <;> cases resume <;> rfl
            rw [superstepOf_snoc rfl]
            show Gathered _ stage.level _
            rw [level]
            exact (held (before rfl)).snoc nofun nofun
        | skip stage | apply stage =>
            have gathered := held (before rfl)
            rw [stage] at gathered
            rw [superstepOf_snoc rfl, completed_level, completed_results]
            exact gathered.snoc nofun nofun

/-- **What a superstep commits are the writes of its results**, or nothing if it
has none. -/
theorem commits_of_moves {ph ph' : Phase} {self self' : LangGraphWorkflow Chan}
    (reachable : (workflowMachine S).Reachable ⟨h, ph, self⟩) (moves : Moves S h ph self e ph' self')
    (commits : completes e = true) :
    e = .skipped ∧ writesOf S.graph (resultsIn (superstepOf h)) = [] ∨
      ∃ updated, e = .applied (writesOf S.graph (resultsIn (superstepOf h))) updated ∧
        writesOf S.graph (resultsIn (superstepOf h)) ≠ [] := by
  have stage : ph.stage = .applying := by
    cases moves with
    | skip stage | apply stage => exact stage
    | _ => cases commits
  have gathered := gathered_invariant.holds reachable (by rw [stage]; nofun)
  rw [stage] at gathered
  have last : ph.results = resultsIn (superstepOf h) := gathered.later (by decide)
  rw [← last]
  cases moves with
  | skip stage silent => exact .inl ⟨rfl, silent⟩
  | apply stage some applied => exact .inr ⟨_, rfl, some⟩
  | _ => cases commits

/-! ## The buffer -/

/-- The events that an entry emits. -/
def emittedBy (S : Setting Chan) (a : List Event) (e : Event) : List StreamEvent :=
  if completes e then
    .values (valuesAt S (a ++ [e])) (stateAt S a).step ::
      (resultsIn (superstepOf a)).flatMap (resultEvents (stateAt S a).step)
  else []

/-- The events that a history has emitted. -/
def bufferOf (S : Setting Chan) (h : List Event) : List StreamEvent := History.written (emittedBy S) h

theorem bufferOf_snoc (quiet : completes e = false) : bufferOf S (h ++ [e]) = bufferOf S h := by
  refine History.written_snoc_of_quiet ?_
  rw [emittedBy, quiet]
  rfl

/-- The buffer holds what the history has emitted. -/
def Filled (S : Setting Chan) (w : Execution Chan) : Prop := w.self.streamBuffer = bufferOf S w.history

variable {ph : Phase} {w w' : Execution Chan} {n : Nat}

theorem Filled.log (filled : Filled S w) (quiet : completes e = false) : Filled S (w.log e) := by
  show w.self.streamBuffer = bufferOf S (w.history ++ [e])
  rw [bufferOf_snoc quiet]
  exact filled

theorem Works.streamBuffer {self self' : LangGraphWorkflow Chan} (works : Works S ph h self e self') :
    self'.streamBuffer = self.streamBuffer := by
  cases works with
  | update _ updated =>
      obtain ⟨out, rfl⟩ := updateStateSignal_eq updated
      rfl
  | _ => rfl

theorem Filled.within (filled : Filled S w) (within : Within S ph w w') : Filled S w' := by
  unfold Filled
  cases within with
  | work works history =>
      rw [history, bufferOf_snoc works.not_completes, works.streamBuffer]
      exact filled
  | draw self history =>
      rw [self, history]
      exact filled

theorem Filled.during (filled : Filled S w) (during : During S ph w w') : Filled S w' := by
  induction during with
  | refl => exact filled
  | tail _ within ih => exact ih.within within

theorem Filled.signal {signal : Signal} (filled : Filled S w)
    (handled : (workflowSystem S.env).handle signal w = .ok w') : Filled S w' :=
  have during : During S { stage := .executing } w w' := .signal nofun handled
  filled.during during

/-! ## The pieces of a superstep -/

/-- Wherever it stops, the buffer is filled. -/
abbrev Fills (S : Setting Chan) {α : Type} (c : WorkflowM Chan α) (w : Execution Chan) : Prop :=
  (workflowSystem S.env).wp (fun _ => Filled S) (fun _ => Filled S) (fun _ => Filled S) c w

theorem fills_of_does {α : Type} {post : α → Execution Chan → Prop} {c : WorkflowM Chan α}
    (waits : ph.stage ≠ .ready) (filled : Filled S w) (does : Does S ph post c w w) : Fills S c w := by
  have begun : Wrote Execution.history isReceived w [] w := wrote_nil
  refine wp_mono (fun _ _ held => filled.during held.1) (fun _ _ held => filled.during held.1.1)
    (fun _ _ => id) (Keeps.wp .refl (fun t g v _ handled => ⟨.signal waits handled, _,
      handle_history handled, ?_⟩) (fun t g e during failing => ⟨during, ?_⟩)
      (fun qs t during _ _ => filled.during during) begun does)
  · intro e mem
    rw [List.mem_singleton.mp mem]
    trivial
  · obtain ⟨message, rfl⟩ := handle_error failing
    nofun

/-- A pause emits nothing. -/
theorem waitForResume_fills (filled : Filled S w) : Fills S waitForResume w := by
  unfold Fills waitForResume setSelf getSelf record
  simp only [Coro.bind_eq, wp_bind, wp_modify, wp_read, Coro.pure_eq, wp_ret]
  refine wp_request (Filled S) (Filled.log (w := w.mapSelf clearResume) filled rfl)
    (fun t g u held handled => held.signal handled) (fun t held => held) (fun t g e held _ => held) ?_
  exact fun t r held _ => Filled.log (w := t.mapSelf wake) held rfl

theorem interruptCheck_fills (filled : Filled S w) (nodes : Option InterruptNodes)
    (entry : String → PendingInterrupt) (tasks : List PregelTask) :
    Fills S (interruptCheck nodes entry tasks) w := by
  unfold interruptCheck
  split
  · exact wp_bind.mpr (waitForResume_fills (w := w.mapSelf (interrupt _)) filled)
  · exact filled

/-- It comes to what `post` says, and wherever it stops the buffer is filled. -/
abbrev Reaches (S : Setting Chan) {α : Type} (post : α → Execution Chan → Prop) (c : WorkflowM Chan α)
    (w : Execution Chan) : Prop :=
  (workflowSystem S.env).wp (fun a t => post a t ∧ Filled S t) (fun _ => Filled S) (fun _ => Filled S) c w

theorem reaches_of_wp {α : Type} {post : α → Execution Chan → Prop} {c : WorkflowM Chan α}
    (wp : (workflowSystem S.env).wp post (Stops S) (Idles S) c w) (fills : Fills S c w) :
    Reaches S post c w :=
  wp_mono (fun _ _ => id) (fun _ _ held => held.2) (fun _ _ held => held.2) (wp_and wp fills)

theorem Reaches.bind {α β : Type} {post : α → Execution Chan → Prop} {post' : β → Execution Chan → Prop}
    {c : WorkflowM Chan α} {f : α → WorkflowM Chan β} (reaches : Reaches S post c w)
    (next : ∀ a t, post a t → Filled S t → Reaches S post' (f a) t) : Reaches S post' (c.bind f) w :=
  wp_bind.mpr (wp_mono (fun a t held => next a t held.1 held.2) (fun _ _ => id) (fun _ _ => id) reaches)

theorem executeNodes_reaches {tasks : List PregelTask} (filled : Filled S w)
    (here : At S n (enter S .executing tasks [] w.self) w) :
    Reaches S (fun rs t => At S n { stage := .serving, tasks := tasks, results := rs }
      (t.log (.collected .scheduled rs))) (executeNodes S.env S.graph tasks) w :=
  reaches_of_wp (executeNodes_wp here) (fills_of_does (show Stage.executing ≠ .ready by decide) filled
    (executeNodes_does rfl here.foundAll here.pinned))

theorem processChildWorkflowRequests_reaches {tasks : List PregelTask} {results : List NodeActivityOutput}
    (filled : Filled S w) (here : At S n { stage := .serving, tasks := tasks, results := results } w) :
    Reaches S (fun rs t => At S n (served S tasks rs t.self) (t.log (.served rs)))
      (processChildWorkflowRequests S.env S.input results) w := by
  let ph : Phase := { stage := .serving, tasks := tasks, results := results }
  have does : Does S ph (fun rs' _ => List.Forall₂ Serves results rs')
      (processChildWorkflowRequests S.env S.input results) w w :=
    processChildWorkflowRequests_does rfl results (fun _ => id) .refl
  exact reaches_of_wp (processChildWorkflowRequests_wp here) (fills_of_does (show Stage.serving ≠ .ready by decide) filled does)

theorem executeResumed_fills (stage : ph.stage = .resuming) (rs : List NodeActivityOutput)
    (pending : ∀ r ∈ rs, r ∈ ph.results ∧ r.interrupted = true) (filled : Filled S w) (here : At S n ph w)
    (some : w.self.resumeValues ≠ []) : Fills S (executeResumed ph.state rs) w := by
  induction rs generalizing w with
  | nil => exact filled
  | cons q rs ih =>
      obtain ⟨result, interrupted⟩ := pending q List.mem_cons_self
      have waits : ph.stage ≠ .ready := by
        rw [stage]
        decide
      have does := executeResumedNode_does (S := S) stage result interrupted some here.foundAll here.pinned
      have again := reaches_of_wp (wp_of_does (by rw [stage]; rfl) waits here does)
        (fills_of_does waits filled does)
      unfold Fills executeResumed getSelf
      simp only [Coro.bind_eq, wp_bind, wp_read, Coro.pure_eq, wp_ret]
      refine wp_mono (fun r t held => ?_) (fun _ _ => id) (fun _ _ => id) again
      obtain ⟨⟨⟨-, someLater, -⟩, hereLater⟩, filledLater⟩ := held
      exact ih (fun r mem => pending r (List.mem_cons_of_mem q mem)) filledLater hereLater someLater

theorem handleInterrupted_fills {tasks : List PregelTask} {results : List NodeActivityOutput}
    (filled : Filled S w) (here : At S n (served S tasks results w.self) w) :
    Fills S (handleInterrupted S.env results) w := by
  unfold Fills handleInterrupted
  change System.wp _ _ _ _ (if (interruptedOf results).isEmpty then _ else _) w
  rcases served_cases S tasks results w.self with ⟨none, phase⟩ | ⟨some, phase⟩
  · rw [if_pos (List.isEmpty_iff.mpr none)]
    exact filled.log rfl
  · rw [phase] at here
    rw [if_neg (by simpa using some)]
    have pause : (workflowSystem S.env).wp
        (fun _ t => At S n (enter S .resuming tasks results t.self) t ∧ t.self.resumeValues ≠ [])
        (Stops S) (Idles S) waitForResume
        (w.mapSelf (interrupt (raisedInterrupts (interruptedOf results)))) := pause_wp rfl rfl here
    have paused := reaches_of_wp pause (waitForResume_fills filled)
    unfold setSelf record executeResumedNodes getSelf
    simp only [Coro.bind_eq, wp_bind, wp_modify, Coro.pure_eq, wp_ret, wp_read]
    refine wp_mono (fun _ t held => ?_) (fun _ _ => id) (fun _ _ => id) paused
    obtain ⟨⟨resumed, values⟩, filledLater⟩ := held
    refine wp_mono (fun outputs u filled => filled.log rfl) (fun _ _ => id) (fun _ _ => id)
      (executeResumed_fills rfl _ (fun r mem => List.mem_filter.mp mem) filledLater resumed values)

theorem handleSends_fills {route : Route} {sends : List SendRequest} {results : List NodeActivityOutput}
    (waits : ph.stage ≠ .ready) (state : ph.state = getChannelValues S.env.lg w.self.channels)
    (admits : ∀ send ∈ sends, ∀ h (self : LangGraphWorkflow Chan),
      Admits S ph h self (pushInput self.graphRef ph.state send))
    (filled : Filled S w) (here : At S n ph w) : Fills S (handleSends S.env route sends results) w := by
  unfold Fills handleSends
  split
  · exact filled.log rfl
  · unfold record
    simp only [Coro.bind_eq, wp_bind, wp_modify, Coro.pure_eq, wp_ret]
    refine wp_mono (fun outputs t filled => filled.log rfl) (fun _ _ => id) (fun _ _ => id)
      (fills_of_does waits filled (executePushTasks_does state admits here.foundAll here.pinned))

theorem handlePush_reaches {tasks : List PregelTask} {results : List NodeActivityOutput} (filled : Filled S w)
    (here : At S n (enter S .pushing tasks results w.self) w) :
    Reaches S (fun rs t => At S n (enter S .going tasks rs t.self) t)
      (handleSends S.env .push (extractPushSends results) results) w :=
  reaches_of_wp (handlePush_wp here) (handleSends_fills (show Stage.pushing ≠ .ready by decide) rfl
    (fun send mem h self => .push rfl mem) filled here)

theorem handleGoto_reaches {tasks : List PregelTask} {results : List NodeActivityOutput} (filled : Filled S w)
    (here : At S n (enter S .going tasks results w.self) w) :
    Reaches S (fun rs t => At S n { stage := .applying, tasks := tasks, results := rs } t)
      (handleSends S.env .goto (extractCommandGotos results) results) w :=
  reaches_of_wp (handleGoto_wp here) (handleSends_fills (show Stage.going ≠ .ready by decide) rfl
    (fun send mem h self => .goto rfl mem) filled here)

/-- The superstep completes, and emits its events. -/
theorem Filled.complete {applied : LangGraphWorkflow Chan} (filled : Filled S w) (here : At S n ph w)
    (stage : ph.stage = .applying) (done : completes e = true)
    (moves : Moves S w.history ph w.self e (completed S ph) (emitStreamEvents S.env.lg ph.results applied))
    (buffer : applied.streamBuffer = w.self.streamBuffer) (step : applied.step = w.self.step)
    (self : w'.self = emitStreamEvents S.env.lg ph.results applied) (history : w'.history = w.history ++ [e]) :
    Filled S w' := by
  have next : Tracked S (w.history ++ [e]) (emitStreamEvents S.env.lg ph.results applied) :=
    tracked_invariant.holds (here.reachable.step (.move moves))
  have values : valuesAt S (w.history ++ [e]) = getChannelValues S.env.lg applied.channels :=
    congrArg (getChannelValues S.env.lg) next.channels
  have steps : (stateAt S w.history).step = w.self.step := (tracked_invariant.holds here.reachable).step
  have results : ph.results = resultsIn (superstepOf w.history) := by
    have gathered : Gathered (superstepOf w.history) ph.stage.level ph.results :=
      gathered_invariant.holds here.reachable (by rw [stage]; nofun)
    exact gathered.later (by rw [stage]; exact Nat.le_add_left 3 2)
  unfold Filled bufferOf
  rw [self, history, History.written_snoc, emittedBy, if_pos done, values, steps, ← results]
  show applied.streamBuffer ++ [_] ++ _ = _
  rw [buffer, step, List.append_assoc, filled]
  rfl

theorem applyResults_fills (stage : ph.stage = .applying) (filled : Filled S w) (here : At S n ph w) :
    (workflowSystem S.env).wp (fun _ t => Filled S (t.mapSelf (emitStreamEvents S.env.lg ph.results)))
      (fun _ => Filled S) (fun _ => Filled S) (applyResults S.env S.graph ph.results) w := by
  unfold applyResults
  dsimp only
  split
  · rename_i empty
    exact filled.complete here stage rfl (.skip stage (List.isEmpty_iff.mp empty)) rfl rfl rfl rfl
  · rename_i some
    unfold getSelf setSelf record
    simp only [Coro.bind_eq, wp_bind, wp_read, Coro.pure_eq, wp_ret]
    cases applied : S.env.lg.applyWrites w.self.checkpoint w.self.channels
        (writesOf S.graph ph.results) increment w.self.triggerToNodes with
    | ok out =>
        have silent : writesOf S.graph ph.results ≠ [] := fun empty => some (by rw [empty]; rfl)
        exact filled.complete here stage rfl (.apply stage silent applied) rfl rfl rfl rfl
    | error message => exact filled

/-- **A superstep fills the buffer.** -/
theorem superstep_reaches {tasks : List PregelTask} (filled : Filled S w)
    (here : At S n (opened S tasks w.self) w) :
    Reaches S (fun _ t => At S (n + 1) { stage := .ready } t) (superstep S.env S.graph S.input tasks) w := by
  have before := reaches_of_wp (interruptBefore_wp here) (interruptCheck_fills filled _ _ _)
  refine before.bind fun _ t here filled => (executeNodes_reaches filled here).bind fun outputs t here filled => ?_
  refine (processChildWorkflowRequests_reaches (w := t.log _) (filled.log rfl) here).bind
    fun results t here filled => ?_
  refine (reaches_of_wp (handleInterrupted_wp here) (handleInterrupted_fills (filled.log rfl) here)).bind
    fun results t here filled => ?_
  refine (handlePush_reaches filled here).bind fun results t here filled => ?_
  refine (handleGoto_reaches filled here).bind fun results t here filled => ?_
  have applied := wp_and (applyResults_wp rfl here) (applyResults_fills rfl filled here)
  refine wp_bind.mpr (wp_mono (fun _ t held => ?_) (fun _ _ held => held.2) (fun _ _ held => held.2) applied)
  obtain ⟨here, filled⟩ := held
  have after := reaches_of_wp (interruptAfter_wp here) (interruptCheck_fills filled _ _ _)
  refine after.bind fun _ t closing filled => ?_
  obtain ⟨ph, stage, here⟩ := closing
  have next : At S (n + 1) { stage := .ready } ((t.mapSelf (advance S.env.lg)).log .advanced) := by
    refine ⟨⟨.step here.reachable (.move (.advance stage)), ?_⟩, here.foundAll.snoc (by simp),
      here.paired.snoc rfl⟩
    exact congrArg (· + 1) here.step
  exact ⟨next, Filled.log (w := t.mapSelf (advance S.env.lg)) filled rfl⟩

/-! ## Executions -/

theorem finish_fills (filled : Filled S w) : Fills S (finish S.env) w := by
  unfold Fills finish setSelf getSelf
  simp only [Coro.bind_eq, wp_bind, wp_modify, wp_read, Coro.pure_eq, wp_ret]
  have kept : ∀ self : LangGraphWorkflow Chan, (if self.status = .running then
      { self with status := Status.done } else self).streamBuffer = self.streamBuffer := by
    intro self
    split
    · rfl
    · rfl
  exact (kept w.self).trans filled

theorem loop_fills {threshold : Option Nat} :
    ∀ {fuel steps n : Nat} {w : Execution Chan}, (S.input.recursionLimit - n).toNat < fuel →
      Filled S w → At S n { stage := .ready } w →
        Fills S (loop S.env threshold S.graph S.input fuel steps) w
  | 0, _, _, _, enough, _, _ => absurd enough (Nat.not_lt_zero _)
  | fuel + 1, steps, n, w, enough, filled, here => by
      have step := here.step
      unfold Fills loop getSelf setSelf record
      simp only [Coro.bind_eq, wp_bind, wp_read, Coro.pure_eq, wp_ret]
      split
      · rename_i below
        rw [step] at below
        split
        · exact finish_fills (w := w.mapSelf _) filled
        · rename_i some
          have ready : Moves S w.history { stage := .ready } w.self (.scheduled w.self.step _)
              (opened S _ w.self) w.self :=
            .schedule rfl (by rw [step]; exact below) rfl fun empty => some (by rw [empty]; rfl)
          simp only [wp_bind, wp_modify]
          refine wp_mono (fun _ t held => ?_) (fun _ _ => id) (fun _ _ => id)
            (superstep_reaches (filled.log rfl) (here.move ready rfl rfl step))
          split
          · exact held.2
          · exact loop_fills (by omega) held.2 held.1
      · exact finish_fills filled

theorem opening_fills {threshold : Option Nat} (filled : Filled S w) (prepared : Prepared S w) :
    Fills S (opening S threshold) w := by
  unfold Fills opening getSelf setSelf
  simp only [Coro.bind_eq, wp_bind, wp_read, Coro.pure_eq, wp_ret]
  cases initialised : initialise S.env S.graph S.input w.self with
  | error e => exact filled
  | ok self =>
      have kept : self.streamBuffer = w.self.streamBuffer := initialise_streamBuffer initialised
      exact loop_fills (Nat.lt_succ_self _) (kept.trans filled) (.opened prepared initialised)

theorem getAvailableTaskQueue_fills (filled : Filled S w) : Fills S getAvailableTaskQueue w := by
  unfold Fills getAvailableTaskQueue record
  simp only [Coro.bind_eq, wp_bind, wp_modify]
  refine wp_request (Filled S) (filled.log rfl) (fun t g u held handled => held.signal handled)
    (fun t held => held) (fun t g e held _ => held) fun t r held _ => ?_
  cases r with
  | queue name => exact held.log rfl
  | _ => exact held

theorem run_fills {threshold : Option Nat} (filled : Filled S w) (fresh : Fresh w) :
    Fills S (run S.env threshold S.input) w := by
  unfold Fills
  rw [run_eq]
  simp only [setSelf, wp_bind, wp_modify]
  have begins : Filled S (begun S w) := filled
  split
  · rename_i needed
    simp only [wp_bind]
    refine wp_mono (fun queue t held => ?_) (fun _ _ => id) (fun _ _ => id)
      (reaches_of_wp (getAvailableTaskQueue_wp fresh.starting fresh.history needed)
        (getAvailableTaskQueue_fills begins))
    exact opening_fills held.2 held.1
  · rename_i goes
    exact opening_fills begins (fresh.prepared goes)

theorem created_filled (uuids : Nat → String) : Filled S (created S uuids) := rfl

theorem signalled_filled (filled : Filled S w) (signalled : (workflowSystem S.env).Signalled w w') :
    Filled S w' :=
  signalled.keeps (fun _ _ _ filled handled => filled.signal handled) filled

/-- **Wherever an execution stops, its buffer holds what its history has emitted.** -/
theorem execution_filled {threshold : Option Nat} {uuids : Nat → String} {arrived : List Signal}
    {script : List (Action Response Signal)}
    (stopped : stoppedAt (replayExecution S threshold uuids arrived script) = some w) : Filled S w := by
  have holds : Outcome.Holds (fun _ => Filled S) (fun _ => Filled S) (fun _ => Filled S)
      (replayExecution S threshold uuids arrived script) := by
    unfold replayExecution
    split
    · rename_i start delivered
      have signalled := deliver_signalled _ delivered
      exact replay_holds _ _ _ _ (run_fills (signalled_filled (created_filled uuids) signalled)
        ((created_fresh uuids).signalled signalled))
    · rename_i e start failed
      exact signalled_filled (created_filled uuids) (deliver_error _ failed).1
  cases outcome : replayExecution S threshold uuids arrived script with
  | refused =>
      rw [outcome] at stopped
      cases stopped
  | _ =>
      rw [outcome] at stopped holds
      cases stopped
      exact holds

end LanggraphTemporal.Machine
