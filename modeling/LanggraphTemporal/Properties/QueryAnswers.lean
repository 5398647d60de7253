/-
# Properties.QueryAnswers -- what the two queries answer

`get_current_state` and `get_stream_buffer` read fields of the workflow object
that signal handlers, `apply_writes`, the pauses and the emission of stream
events change at their own times.  Wherever an execution stops, both answers
follow from its history alone: the state from the writes that supersteps and
updates have applied since the main loop began, the stream from the supersteps
that have completed, and neither from anything else (`queries_answered`).
-/
import LanggraphTemporal.Machine.Streams
import LanggraphTemporal.Properties.Updates

namespace LanggraphTemporal.Properties

set_option autoImplicit false

open Theory Theory.System Theory.History Model Model.LangGraphWorkflow Machine

variable {Chan : Type} {S : Setting Chan} {threshold : Option Nat} {uuids : Nat → String}
  {arrived : List Signal} {script : List (Action Response Signal)} {w : Execution Chan}

/-- What the stream query answers after the history `h`. -/
def streamAfter (S : Setting Chan) (h : List Event) (cursor : Nat) : StreamQueryResult where
  events := (bufferOf S h).drop cursor
  nextCursor := (bufferOf S h).length

/-- What the state query answers after the history `h`, with this status. -/
def stateQueryAfter (S : Setting Chan) (h : List Event) (status : Status) : StateQueryResult where
  channelValues := valuesAt S h
  channelVersions := (stateAt S h).checkpoint.channelVersions
  versionsSeen := (stateAt S h).checkpoint.versionsSeen
  step := (stateAt S h).step
  status := status
  interrupts := lastPaused h

/-- The answers of a stopped execution are those of its history.  The state is
asked for once the main loop has begun; a run that ends has a result in any case. -/
structure AnswersHistory (S : Setting Chan)
    (outcome : Outcome (Execution Chan) Request Response Signal RunError RunResult)
    (w : Execution Chan) : Prop where
  stream : ∀ cursor, getStreamBuffer cursor w.self = streamAfter S w.history cursor
  state : mainOf w.history ≠ [] → ∃ status, getCurrentState S.env.lg w.self =
    stateQueryAfter S w.history status ∧ (status = .interrupted ↔ inPause w.history)
  result : ∀ o rest, outcome = .done (.output o) rest w →
    o = ⟨valuesAt S w.history, (stateAt S w.history).step⟩

/-- A run that ends returns the state after its history. -/
theorem output_of_done {o : WorkflowOutput} {rest : List (Action Response Signal)}
    (done : replayExecution S threshold uuids arrived script = .done (.output o) rest w) :
    o = ⟨valuesAt S w.history, (stateAt S w.history).step⟩ := by
  have ends := execution_refines S threshold uuids arrived script
  rw [done] at ends
  obtain ⟨n, u, here, rfl, same, -⟩ := ends
  have tracked := tracked_invariant.holds here.reachable
  rw [same, valuesAt]
  exact (congrArg₂ WorkflowOutput.mk (congrArg _ tracked.channels) tracked.step).symm

/-- **Both queries are answered from the history**, wherever an execution stops:
the stream from any cursor, the state once the main loop has begun, and the
result that a run returns is the state that is then reported. -/
theorem queries_answered
    (stopped : stoppedAt (replayExecution S threshold uuids arrived script) = some w) :
    AnswersHistory S (replayExecution S threshold uuids arrived script) w where
  stream cursor := by
    have filled : w.self.streamBuffer = bufferOf S w.history := execution_filled stopped
    simp only [getStreamBuffer, streamAfter, filled]
  state begun := by
    have same := states_tracked stopped begun
    have shown := (execution_traced stopped).shown
    refine ⟨w.self.status, ?_, shown.status⟩
    simp only [getCurrentState, stateQueryAfter, valuesAt, same.channels, same.checkpoint, same.step,
      shown.interrupts]
  result o rest done := output_of_done done

section Runs

open Reference

/-- Two nodes that trigger each other, the second gated. -/
def tourSetting : Setting Channel :=
  setting [("d", ["in"]), ("e", [branchTo "e"])] (some (.names ["e"])) none

/-- `d` hands over to `e`; an update comes while `run` waits before `e`. -/
def tourScript : List (Action Response Signal) :=
  [.answer 0 (.output (pulled "d" [("x", .int 1), (branchTo "e", .none)])),
    .signals [.updateState [("x", .int 2)]]]

def tourExecution : Execution Channel :=
  (stoppedAt (replayExecution tourSetting none (fun _ => "") [] tourScript)).get rfl

/-- The values of `x` that the stream shows, and the one that the state query does. -/
example : (bufferOf tourSetting tourExecution.history).length = 2 ∧
    (valuesAt tourSetting tourExecution.history).get? "x" = some (.int 2) := ⟨rfl, rfl⟩

theorem queries_answered_tourScript :
    AnswersHistory tourSetting (replayExecution tourSetting none (fun _ => "") [] tourScript)
      tourExecution :=
  queries_answered (w := tourExecution) rfl

end Runs

end LanggraphTemporal.Properties
