/-
# Properties.Polling -- when `poll_stream` ends

The loop of `poll_stream` ends with the first query that fails, and a closed
workflow answers queries.  So polling ends when the workflow is over exactly when
a query happens to fail then, and none has failed before (`polling_ends_iff`): if
all queries are answered, the client polls for ever (`polls_forever`).
-/
import LanggraphTemporal.Model.Streaming
import LanggraphTemporal.Properties.Streaming

namespace LanggraphTemporal.Properties

set_option autoImplicit false

open Theory Theory.System Model Model.LangGraphWorkflow Machine

variable {Chan : Type} {threshold : Option Nat}

/-! ## A workflow and its client -/

/-- A workflow, and a client in the loop of `poll_stream`. -/
structure Watched (threshold : Option Nat) (Chan : Type) where
  streaming : Streaming threshold Chan
  stopped : Bool := false

namespace Watched

variable {s t : Watched threshold Chan}

def closed (s : Watched threshold Chan) : Bool := s.streaming.workflow.closed

/-- All events of the workflow's buffer have been yielded. -/
def ReadOut (s : Watched threshold Chan) : Prop := streamBuffer s.streaming.workflow <:+ s.streaming.received

/-- The workflow has closed, and its events have been yielded. -/
def Over (s : Watched threshold Chan) : Prop := s.closed = true ∧ s.ReadOut

/-- The client's side. -/
def loop (s : Watched threshold Chan) : PollLoop where
  cursor := s.streaming.cursor
  yielded := s.streaming.received
  stopped := s.stopped

/-- A query is answered. -/
def poll (s : Watched threshold Chan) : Watched threshold Chan := { s with streaming := s.streaming.poll }

/-- A query fails. -/
def fail (s : Watched threshold Chan) : Watched threshold Chan := { s with stopped := true }

theorem loop_poll {w : Execution Chan} (stopped : stoppedAt s.streaming.workflow.outcome = some w)
    (running : s.stopped = false) :
    s.poll.loop = s.loop.iterate (.answered (getStreamBuffer s.streaming.cursor w.self)) := by
  simp [loop, poll, Streaming.poll, PollLoop.iterate, stopped, running]

theorem loop_fail (running : s.stopped = false) : s.fail.loop = s.loop.iterate .raised := by
  simp [loop, fail, PollLoop.iterate, running]

end Watched

/-- What may happen next: something to the workflow, a query of a client that has
not stopped, which may fail at any time, or nothing. -/
inductive WatchStep : Watched threshold Chan → Watched threshold Chan → Prop
  | work {s : Watched threshold Chan} {streaming : Streaming threshold Chan}
      (step : StreamStep (fun _ => True) (fun _ => False) s.streaming streaming) :
      WatchStep s { s with streaming }
  | poll {s : Watched threshold Chan} (running : s.stopped = false) (answers : s.streaming.Answers) :
      WatchStep s s.poll
  | fail {s : Watched threshold Chan} (running : s.stopped = false) : WatchStep s s.fail
  | idle {s : Watched threshold Chan} : WatchStep s s

/-- A run of the two, from the start of the workflow on. -/
structure WatchRun (run : Nat → Watched threshold Chan) : Prop where
  start : ∃ S uuids arrived, run 0 = { streaming := { workflow := .begin S uuids arrived } }
  step : ∀ n, WatchStep (run n) (run (n + 1))

/-- The query between these two states fails. -/
def FailsAt (run : Nat → Watched threshold Chan) (n : Nat) : Prop :=
  (run n).stopped = false ∧ run (n + 1) = (run n).fail

/-- `poll_stream` stops, and not before the workflow is over. -/
def EndsWhenOver (run : Nat → Watched threshold Chan) : Prop :=
  (∃ n, (run n).stopped = true) ∧ ∀ n, (run n).stopped = true → (run n).Over

/-! ## The only way out -/

section Runs

variable {run : Nat → Watched threshold Chan} {s t : Watched threshold Chan}

/-- The client's side is in a pass of the loop, or remains. -/
theorem WatchStep.loop (step : WatchStep s t) : t.loop = s.loop ∨ ∃ outcome, t.loop = s.loop.iterate outcome := by
  cases step with
  | work step =>
      cases step with
      | act | continueAsNew => exact .inl rfl
      | poll _ allowed => exact absurd allowed id
  | poll running answers =>
      obtain ⟨w, stopped⟩ := stopped_of_answers answers
      exact .inr ⟨_, Watched.loop_poll stopped running⟩
  | fail running => exact .inr ⟨_, Watched.loop_fail running⟩
  | idle => exact .inl rfl

/-- **At all times the client is in `poll_stream`**, after the queries so far. -/
theorem WatchRun.polling (isRun : WatchRun run) : ∀ n, ∃ outcomes, (run n).loop = pollStream outcomes
  | 0 => by
      obtain ⟨S, uuids, arrived, start⟩ := isRun.start
      rw [start]
      exact ⟨[], rfl⟩
  | n + 1 => by
      obtain ⟨outcomes, here⟩ := isRun.polling n
      rcases (isRun.step n).loop with same | ⟨outcome, next⟩
      · exact ⟨outcomes, same.trans here⟩
      · refine ⟨outcomes ++ [outcome], ?_⟩
        rw [next, here, pollStream, pollStream, List.foldl_append]
        rfl

theorem WatchStep.stopped_mono (step : WatchStep s t) (stopped : s.stopped = true) : t.stopped = true := by
  cases step with
  | work | idle => exact stopped
  | poll running | fail running =>
      rw [stopped] at running
      cases running

/-- Only a query that fails stops the client. -/
theorem WatchStep.fails (step : WatchStep s t) (running : s.stopped = false) (stopped : t.stopped = true) :
    t = s.fail := by
  cases step with
  | fail => rfl
  | work | poll | idle =>
      have same : s.stopped = true := stopped
      rw [running] at same
      cases same

/-- Nothing happens to a closed workflow. -/
theorem not_works_closed {streaming streaming' : Streaming threshold Chan}
    (closed : streaming.workflow.closed = true) :
    ¬StreamStep (fun _ => True) (fun _ => False) streaming streaming' := by
  intro step
  cases step with
  | act action waits =>
      unfold Workflow.closed at closed
      unfold Workflow.waits at waits
      cases outcome : streaming.workflow.outcome with
      | blocked qs k w =>
          rw [outcome] at closed
          cases closed
      | _ =>
          rw [outcome] at waits
          cases waits
  | continueAsNew ended =>
      unfold Workflow.closed at closed
      rw [ended] at closed
      cases closed
  | poll _ allowed => exact allowed

/-- Once the client has stopped at the end, all remains as it is. -/
theorem WatchStep.ended (step : WatchStep s t) (stopped : s.stopped = true) (ended : s.Over) : t.Over := by
  cases step with
  | work step => exact absurd step (not_works_closed ended.1)
  | idle => exact ended
  | poll running | fail running =>
      rw [stopped] at running
      cases running

/-- A client that has stopped has done so at a query that failed. -/
theorem WatchRun.fails (isRun : WatchRun run) :
    ∀ n, (run n).stopped = true → ∃ m < n, FailsAt run m
  | 0, stopped => by
      obtain ⟨S, uuids, arrived, start⟩ := isRun.start
      rw [start] at stopped
      cases stopped
  | n + 1, stopped => by
      cases before : (run n).stopped with
      | true =>
          obtain ⟨m, earlier, fails⟩ := WatchRun.fails isRun n before
          exact ⟨m, Nat.lt_succ_of_lt earlier, fails⟩
      | false => exact ⟨n, Nat.lt_succ_self n, before, (isRun.step n).fails before stopped⟩

theorem WatchRun.stopped_from (isRun : WatchRun run) {n m : Nat} (stopped : (run n).stopped = true)
    (later : n ≤ m) : (run m).stopped = true := by
  induction later with
  | refl => exact stopped
  | step _ ih => exact (isRun.step _).stopped_mono ih

/-- A query fails only once. -/
theorem WatchRun.fails_once (isRun : WatchRun run) {n m : Nat} (first : FailsAt run n)
    (second : FailsAt run m) : n = m := by
  have stopped {k : Nat} (fails : FailsAt run k) : (run (k + 1)).stopped = true := by
    rw [fails.2]
    rfl
  have before {k l : Nat} (fails : FailsAt run k) (again : FailsAt run l) : l ≤ k := by
    by_contra beyond
    have after := isRun.stopped_from (stopped fails) (Nat.lt_of_not_le beyond)
    rw [again.1] at after
    cases after
  exact Nat.le_antisymm (before second first) (before first second)

theorem WatchRun.over_from (isRun : WatchRun run) {n m : Nat} (stopped : (run n).stopped = true)
    (ended : (run n).Over) (later : n ≤ m) : (run m).Over := by
  induction later with
  | refl => exact ended
  | step earlier ih => exact (isRun.step _).ended (isRun.stopped_from stopped earlier) ih

/-- **Polling ends when the workflow is over, if and only if a query fails, and the
first one to fail does so when the workflow is over.** -/
theorem polling_ends_iff (run : Nat → Watched threshold Chan) (isRun : WatchRun run) :
    EndsWhenOver run ↔ ∃ n, FailsAt run n ∧ (run n).Over := by
  constructor
  · rintro ⟨⟨n, stopped⟩, ended⟩
    obtain ⟨m, -, fails⟩ := isRun.fails n stopped
    have after : (run (m + 1)).Over := by
      refine ended (m + 1) ?_
      rw [fails.2]
      rfl
    rw [fails.2] at after
    exact ⟨m, fails, after⟩
  · rintro ⟨n, fails, ended⟩
    have stopped : (run (n + 1)).stopped = true := by
      rw [fails.2]
      rfl
    have here : (run (n + 1)).Over := by
      rw [fails.2]
      exact ended
    refine ⟨⟨n + 1, stopped⟩, fun m stopped' => ?_⟩
    obtain ⟨k, earlier, fails'⟩ := isRun.fails m stopped'
    rw [isRun.fails_once fails' fails] at earlier
    exact isRun.over_from stopped here earlier

end Runs

/-! ## A workflow of one superstep -/

/-- The workflow, and how it is after its only activity. -/
def singleStep : Workflow (some continueAsNewThreshold) Channel := .begin (idleSetting 1 none) (fun _ => "") []

theorem singleStep_waits : singleStep.waits = true := rfl

theorem singleStep_closed : (singleStep.act idleAnswer).closed = true := rfl

theorem singleStep_accepted : (singleStep.act idleAnswer).outcome ≠ .refused := by
  intro refused
  have closed := singleStep_closed
  rw [Workflow.closed, refused] at closed
  cases closed

/-- It closes, and all queries are answered. -/
def answeredRun : Nat → Watched (some continueAsNewThreshold) Channel
  | 0 => { streaming := { workflow := singleStep } }
  | 1 => { streaming := Streaming.act idleAnswer { workflow := singleStep } }
  | n + 2 => (answeredRun (n + 1)).poll

theorem answeredRun_workflow (n : Nat) :
    (answeredRun (n + 1)).streaming.workflow = singleStep.act idleAnswer := by
  induction n with
  | zero => rfl
  | succ n ih => exact (Streaming.poll_workflow _).trans ih

theorem answeredRun_closed (n : Nat) : (answeredRun (n + 1)).closed = true := by
  rw [Watched.closed, answeredRun_workflow]
  exact singleStep_closed

theorem answeredRun_running : ∀ n, (answeredRun n).stopped = false
  | 0 => rfl
  | 1 => rfl
  | n + 2 => answeredRun_running (n + 1)

theorem answeredRun_isRun : WatchRun answeredRun where
  start := ⟨idleSetting 1 none, fun _ => "", [], rfl⟩
  step
    | 0 => .work (.act idleAnswer singleStep_waits singleStep_accepted)
    | n + 1 => .poll (answeredRun_running (n + 1)) (.inr (Workflow.isOver_of_closed (answeredRun_closed n)))

/-- A workflow closes, its client goes on to poll, and all queries are answered.
The client never stops. -/
theorem polls_forever :
    WatchRun answeredRun ∧
      (∀ n, (answeredRun (n + 1)).closed = true ∧ answeredRun (n + 2) = (answeredRun (n + 1)).poll) ∧
        ¬EndsWhenOver answeredRun := by
  refine ⟨answeredRun_isRun, fun n => ⟨answeredRun_closed n, rfl⟩, fun ends => ?_⟩
  obtain ⟨n, stopped⟩ := ends.1
  rw [answeredRun_running n] at stopped
  cases stopped

/-- The same, but the second query fails. -/
def failedRun : Nat → Watched (some continueAsNewThreshold) Channel
  | 0 => answeredRun 0
  | 1 => answeredRun 1
  | 2 => answeredRun 2
  | _ + 3 => (answeredRun 2).fail

theorem failedRun_isRun : WatchRun failedRun where
  start := answeredRun_isRun.start
  step
    | 0 => answeredRun_isRun.step 0
    | 1 => answeredRun_isRun.step 1
    | 2 => .fail rfl
    | _ + 3 => .idle

theorem failedRun_ends : WatchRun failedRun ∧ EndsWhenOver failedRun :=
  ⟨failedRun_isRun, (polling_ends_iff failedRun failedRun_isRun).mpr
    ⟨2, ⟨rfl, rfl⟩, answeredRun_closed 1, List.suffix_refl _⟩⟩

end LanggraphTemporal.Properties
