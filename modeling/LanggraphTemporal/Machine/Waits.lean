/-
# Machine.Waits -- what the workflow waits for

The workflow only adds to its history and to its stream buffer, and it waits for
the resume event in `_wait_for_resume` only: then for nothing else, and it goes
on by leaving the pause (`run_pauses`).  So an execution that is blocked there is in a pause
(`inPause_of_blocked`), and a resume signal ends it
(`resume_continues`).
-/
import LanggraphTemporal.Machine.Writes

namespace LanggraphTemporal.Machine

set_option autoImplicit false

open Theory Theory.System Theory.History Model Model.LangGraphWorkflow

variable {Chan α : Type} {env : Env Chan}

/-- The history is only appended to. -/
def Grows (w w' : Execution Chan) : Prop := w.history <+: w'.history

instance : IsPreorder (Execution Chan) Grows where
  refl _ := List.prefix_rfl
  trans _ _ _ before after := before.trans after

theorem grows_log (w : Execution Chan) (e : Event) : Grows w (w.log e) := List.prefix_append _ _

theorem grows_handle {w w' : Execution Chan} {signal : Signal}
    (handled : (workflowSystem env).handle signal w = .ok w') : Grows w w' := by
  show w.history <+: w'.history
  rw [handle_history handled]
  exact List.prefix_append _ _

/-- The stream buffer is only appended to. -/
def Streams (w w' : Execution Chan) : Prop := w.self.streamBuffer <+: w'.self.streamBuffer

instance : IsPreorder (Execution Chan) Streams where
  refl _ := List.prefix_rfl
  trans _ _ _ before after := before.trans after

theorem streams_handle {w w' : Execution Chan} {signal : Signal}
    (handled : (workflowSystem env).handle signal w = .ok w') : Streams w w' := by
  cases signal with
  | resume value =>
      cases handled
      exact List.prefix_rfl
  | updateState writes =>
      simp only [workflowSystem, updateStateSignal] at handled
      split at handled
      · rename_i self updated
        split at updated
        · cases updated
          cases handled
          exact List.prefix_rfl
        · cases updated
      · cases handled

theorem Writes.grows {F : Footprint Chan} {w w' : Execution Chan} (writes : Writes env F w w') :
    Grows w w' := by
  cases writes with
  | log allowed => exact grows_log w _
  | subgraph allowed node call => exact grows_log w _
  | _ => exact List.prefix_rfl

/-- The changes of the object that add to the stream buffer. -/
def streaming : Footprint Chan where
  sets f := ∀ self, self.streamBuffer <+: (f self).streamBuffer
  logs _ := True
  draws := True
  opens := True

theorem streaming_entire (env : Env Chan) : Entire env streaming where
  stickyTaskQueue _ _ := List.prefix_rfl
  interrupt _ _ := List.prefix_rfl
  clearResume _ := List.prefix_rfl
  wake _ := List.prefix_rfl
  withApplied _ _ := List.prefix_rfl
  emitStreamEvents results self := by
    show _ <+: self.streamBuffer ++ _ ++ _
    rw [List.append_assoc]
    exact List.prefix_append _ _
  graphRef _ _ := List.prefix_rfl
  configure _ _ _ := List.prefix_rfl
  advance _ := List.prefix_rfl
  done _ := List.prefix_rfl
  finish self := by
    dsimp only
    split
    · exact List.prefix_rfl
    · exact List.prefix_rfl
  dispatched _ _ := trivial
  lost _ _ := trivial
  discovering := trivial
  discovered _ := trivial
  paused _ := trivial
  resumed _ := trivial
  collected _ _ _ := trivial
  skipped := trivial
  applied _ _ := trivial
  scheduled _ _ := trivial
  collectedScheduled _ := trivial
  served _ := trivial
  advanced := trivial
  draws := trivial
  opens := trivial
  subagentStarted _ := trivial

theorem initialise_streamBuffer {graph : Pregel Chan} {input : WorkflowInput}
    {self opened : LangGraphWorkflow Chan} (initialised : initialise env graph input self = .ok opened) :
    opened.streamBuffer = self.streamBuffer := by
  unfold initialise at initialised
  split at initialised
  · cases initialised
    rfl
  · dsimp only at initialised
    split at initialised
    · cases initialised
      rfl
    · split at initialised
      · cases initialised
        rfl
      · cases initialised

theorem Writes.streams {w w' : Execution Chan} (writes : Writes env streaming w w') : Streams w w' := by
  cases writes with
  | set allowed => exact allowed w.self
  | opening _ opened => exact (initialise_streamBuffer opened).symm ▸ List.prefix_rfl
  | _ => exact List.prefix_rfl

theorem run_steps (env : Env Chan) (threshold : Option Nat) (input : WorkflowInput) (w : Execution Chan) :
    (run env threshold input).Steps (Writes env streaming) (Coro.AsksAlone .resumeEvent wakes) w :=
  (run_pausing (streaming_entire env) threshold input).steps (streaming_entire env).toOrdinary w

/-- It never waits for the resume event. -/
def Quiet (c : WorkflowM Chan α) : Prop := ∀ w, c.Steps Grows (Coro.Avoids .resumeEvent) w

/-- It waits for the resume event in `_wait_for_resume` only. -/
def Pauses (c : WorkflowM Chan α) : Prop := ∀ w, c.Steps Grows (Coro.AsksAlone .resumeEvent wakes) w

/-- **`run` waits for the resume event in `_wait_for_resume` only.** -/
theorem run_pauses (env : Env Chan) (threshold : Option Nat) (input : WorkflowInput) :
    Pauses (run env threshold input) :=
  fun w => (run_steps env threshold input w).weaken fun _ _ => Writes.grows

theorem Built.quiet {F : Footprint Chan} {c : WorkflowM Chan α} (built : Built env F c) : Quiet c :=
  fun w => (built.steps w).weaken fun _ _ => Writes.grows

/-! ## Executions -/

section Executions

variable {S : Setting Chan} {threshold : Option Nat} {uuids : Nat → String} {arrived : List Signal}
  {script : List (Action Response Signal)} {qs : List Request}
  {k : Nat → Response → WorkflowM Chan RunResult} {w : Execution Chan}

/-- A replay only adds to the history. -/
theorem replay_grows {Asks : Coro.Waits (Execution Chan) Request Response RunError}
    {c : WorkflowM Chan α} (env : Env Chan) (script : List (Action Response Signal)) {w : Execution Chan}
    (steps : c.Steps Grows Asks w) : Outcome.Moved Grows Asks w ((workflowSystem env).replay c script w) :=
  replay_moved (S := workflowSystem env) (fun _ _ _ handled => grows_handle handled) c script w steps

/-- Where an execution stops, it has moved along. -/
theorem moved_stopped {Rel : Execution Chan → Execution Chan → Prop}
    {Asks : Coro.Waits (Execution Chan) Request Response RunError} {v t : Execution Chan}
    {outcome : Outcome (Execution Chan) Request Response Signal RunError α}
    (moved : Outcome.Moved Rel Asks v outcome) (stopped : stoppedAt outcome = some t) : Rel v t := by
  cases outcome with
  | done result rest u =>
      cases stopped
      exact moved
  | failed e u =>
      cases stopped
      exact moved
  | blocked qs k u =>
      cases stopped
      exact moved.1
  | refused => cases stopped

theorem stopped_of_accepted {outcome : Outcome (Execution Chan) Request Response Signal RunError α}
    (accepted : outcome ≠ .refused) : ∃ t, stoppedAt outcome = some t := by
  cases outcome with
  | done result rest t => exact ⟨t, rfl⟩
  | failed e t => exact ⟨t, rfl⟩
  | blocked qs k t => exact ⟨t, rfl⟩
  | refused => exact absurd rfl accepted

/-- The signals that arrived first have been handled. -/
theorem execution_replay (blocked : replayExecution S threshold uuids arrived script = .blocked qs k w) :
    ∃ start, ∀ script, replayExecution S threshold uuids arrived script =
      (workflowSystem S.env).replay (run S.env threshold S.input) script start := by
  unfold replayExecution at blocked ⊢
  cases delivered : (workflowSystem S.env).deliver arrived (created S uuids) with
  | ok start => exact ⟨start, fun _ => rfl⟩
  | error failure =>
      rw [delivered] at blocked
      cases blocked

theorem execution_append (blocked : replayExecution S threshold uuids arrived script = .blocked qs k w)
    (more : List (Action Response Signal)) :
    replayExecution S threshold uuids arrived (script ++ more) =
      (workflowSystem S.env).replay (.await qs k) more w := by
  obtain ⟨start, replay⟩ := execution_replay blocked
  rw [replay] at blocked ⊢
  exact replay_append _ more script start blocked

theorem execution_steps (blocked : replayExecution S threshold uuids arrived script = .blocked qs k w) :
    (Coro.await qs k).Steps Grows (Coro.AsksAlone .resumeEvent wakes) w := by
  obtain ⟨start, replay⟩ := execution_replay blocked
  have moved := replay_grows S.env script (run_pauses S.env threshold S.input start)
  rw [← replay, blocked] at moved
  exact moved.2

/-- **What the client can read of the stream stays as it is**, while the run
goes on. -/
theorem execution_streams (blocked : replayExecution S threshold uuids arrived script = .blocked qs k w)
    (more : List (Action Response Signal)) {t : Execution Chan}
    (stopped : stoppedAt (replayExecution S threshold uuids arrived (script ++ more)) = some t) :
    w.self.streamBuffer <+: t.self.streamBuffer := by
  obtain ⟨start, replay⟩ := execution_replay blocked
  have steps := (run_steps S.env threshold S.input start).weaken fun _ _ => Writes.streams
  have signals : ∀ s g t, (workflowSystem S.env).handle g s = .ok t → Streams s t :=
    fun _ _ _ handled => streams_handle handled
  have here := replay_moved signals _ script start steps
  rw [← replay, blocked] at here
  have moved := replay_moved signals _ more w here.2
  rw [← execution_append blocked more] at moved
  exact moved_stopped moved stopped

/-- A blocked execution waits for nothing that has happened. -/
theorem execution_asleep (blocked : replayExecution S threshold uuids arrived script = .blocked qs k w) :
    ∀ q ∈ qs, (workflowSystem S.env).ready q w = none := by
  obtain ⟨start, replay⟩ := execution_replay blocked
  rw [replay] at blocked
  exact (workflowSystem S.env).replay_blocked _ _ _ blocked

/-- The history once a resume signal has been received, and the pause has ended. -/
def resumedBy (value : PyVal) (w : Execution Chan) : List Event :=
  w.history ++ [.received (.resume value), .resumed (w.self.resumeValues ++ [value])]

/-- **A resume signal ends the pause**: an execution that is blocked in
`_wait_for_resume` goes on with its value. -/
theorem resume_continues (blocked : replayExecution S threshold uuids arrived script = .blocked qs k w)
    (waits : .resumeEvent ∈ qs) (value : PyVal) :
    ∃ t, stoppedAt (replayExecution S threshold uuids arrived (script ++ [.signals [.resume value]])) =
      some t ∧ resumedBy value w <+: t.history := by
  have steps := execution_steps blocked
  obtain ⟨rfl, goes⟩ := steps.1 waits
  obtain ⟨d, rest⟩ := goes 0 .woken
  have asleep := execution_asleep blocked .resumeEvent waits
  let signalled := (w.mapSelf (resumeSignal value)).log (.received (.resume value))
  let awake := (signalled.mapSelf wake).log (.resumed (w.self.resumeValues ++ [value]))
  have next : replayExecution S threshold uuids arrived (script ++ [.signals [.resume value]]) =
      (workflowSystem S.env).replay (d ()) [] awake := by
    rw [execution_append blocked, replay_woken (r := .woken) asleep rfl rfl, rest]
    rfl
  have onward : (d ()).Steps Grows (Coro.AsksAlone .resumeEvent wakes) awake := by
    have after := steps.2 0 .woken signalled
    rw [rest] at after
    exact after.2.2
  have moved := replay_grows S.env [] onward
  rw [← next] at moved
  have history : resumedBy value w = awake.history := by
    simp [resumedBy, awake, signalled, Execution.log, Execution.mapSelf]
  rw [history]
  have accepted : replayExecution S threshold uuids arrived (script ++ [.signals [.resume value]]) ≠
      .refused := by
    rw [next]
    exact replay_accepted _ [] _ rfl
  obtain ⟨t, stopped⟩ := stopped_of_accepted accepted
  exact ⟨t, stopped, moved_stopped moved stopped⟩

/-- Only a pause is resumed. -/
def ResumesPause (a : List Event) (e : Event) : Prop := ∀ values, e = .resumed values → inPause a

theorem executionHistory_resumesPause (S : Setting Chan) (threshold : Option Nat) (uuids : Nat → String)
    (arrived : List Signal) (script : List (Action Response Signal)) :
    Guarded ResumesPause (executionHistory S threshold uuids arrived script) := by
  refine executionHistory_guarded ?_ ?_ ?_ threshold uuids arrived script
  · rintro a e early values rfl
    cases early
  · rintro h ph self self' e reachable works values rfl
    cases works
  · rintro h ph ph' self self' e reachable moves values rfl
    cases moves with
    | resume resume =>
        obtain ⟨a, split⟩ := (resumes_invariant.holds reachable).last (by rw [resume]; rfl)
        exact ⟨a, _, split⟩

/-- An execution that waits for the resume event is in a pause. -/
theorem inPause_of_blocked
    (blocked : replayExecution S threshold uuids arrived script = .blocked qs k w)
    (waits : .resumeEvent ∈ qs) : inPause w.history := by
  obtain ⟨t, stopped, b, grown⟩ := resume_continues blocked waits .none
  have resumes := executionHistory_resumesPause S threshold uuids arrived
    (script ++ [.signals [.resume .none]])
  unfold executionHistory at resumes
  rw [historyOf_eq, stopped] at resumes
  have split : t.history = (w.history ++ [.received (.resume .none)]) ++
      .resumed (w.self.resumeValues ++ [.none]) :: b := by
    rw [← grown]
    simp [resumedBy]
  exact (inPause_snoc rfl).mp (resumes _ _ _ split _ rfl)

/-- While it waits there, the workflow object says so, and for what. -/
theorem reports_pause (blocked : replayExecution S threshold uuids arrived script = .blocked qs k w)
    (waits : .resumeEvent ∈ qs) : w.self.status = .interrupted ∧
      ∃ a, w.history = a ++ .paused w.self.interrupts :: recent w.history := by
  have paused := inPause_of_blocked blocked waits
  have idles := execution_refines S threshold uuids arrived script
  rw [blocked] at idles
  obtain ⟨-, n, ph, here⟩ := idles.pause paused
  have stage : ph.stage.resume.isSome = true := inPause_invariant.holds here.reachable paused
  have interrupts : w.self.interrupts = pending ph := interrupts_invariant.holds here.reachable stage
  refine ⟨(status_invariant.holds here.reachable).trans (if_pos stage), ?_⟩
  rw [interrupts]
  exact (resumes_invariant.holds here.reachable).last stage

end Executions

end LanggraphTemporal.Machine
