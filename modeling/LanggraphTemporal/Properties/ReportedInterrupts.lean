/-
# Properties.ReportedInterrupts -- what the state query says of pauses

The status is set when a pause begins and when it ends, and it is right in every
state in which a query can be answered.  The interrupts are set when a pause
begins, and nothing clears them: once a pause has ended, the query goes on
reporting what it was for, until the next one begins (`reportsPending_iff`).
-/
import LanggraphTemporal.Machine.Waits
import LanggraphTemporal.Machine.Reference

namespace LanggraphTemporal.Properties

set_option autoImplicit false

open Theory Theory.System Theory.History Model Model.LangGraphWorkflow Machine

variable {Chan : Type} {S : Setting Chan}

/-! ## What a pause is for -/

/-- The interrupts of a pause that follows an entry: those of the scheduled
tasks before they are executed and after, and those that nodes have raised. -/
def calledFor (a : List Event) : Event → List PendingInterrupt
  | .scheduled _ tasks => tasks.map fun t => .before t.name
  | .served results => raisedInterrupts (results.filter NodeActivityOutput.interrupted)
  | .applied _ _ | .skipped => (scheduledTasks a).map fun t => .after t.name
  | _ => []

/-- The last entry that ended a phase calls for a pause with these interrupts. -/
def CalledFor (h : List Event) (entries : List PendingInterrupt) : Prop :=
  ∃ a cause, h = a ++ cause :: recent h ∧ entries = calledFor a cause

/-- What a phase is about to pause for is what its first entry calls for. -/
theorem calledFor_invariant : (workflowMachine S).Invariant fun c =>
    c.phase.stage.pause.isSome = true → CalledFor c.history (pending c.phase) where
  init c initial pauses := by
    rw [initial.phase] at pauses
    cases pauses
  step c d reachable held step := by
    have tasks := tasks_invariant.holds reachable
    cases step with
    | @work h ph self self' e works =>
        intro pauses
        obtain ⟨a, cause, split, same⟩ := held pauses
        refine ⟨a, cause, ?_, same⟩
        change h = _ at split
        rw [recent_snoc works.not_moves, ← List.cons_append, ← List.append_assoc, ← split]
    | @move h ph ph' self self' e moves =>
        intro pauses
        change CalledFor (h ++ [e]) (pending ph')
        have split : h ++ [e] = h ++ e :: recent (h ++ [e]) := by rw [recent_moves moves.moves]
        refine ⟨h, e, split, ?_⟩
        rcases moves.pauses pauses with ⟨step, tasks, rfl, -, same⟩ | ⟨results, rfl, -, same⟩ |
          ⟨applied, stage, same⟩
        · exact same
        · exact same
        · have scheduled : scheduledTasks h = ph.tasks := (tasks (by rw [stage]; nofun)).2
          rw [same, ← scheduled]
          rcases applied with rfl | ⟨writes, updated, rfl⟩ <;> rfl

/-- Every pause is for what the entries before it call for. -/
def PausesFor (a : List Event) (e : Event) : Prop := ∀ entries, e = .paused entries → CalledFor a entries

theorem executionHistory_pausesFor (S : Setting Chan) (threshold : Option Nat) (uuids : Nat → String)
    (arrived : List Signal) (script : List (Action Response Signal)) :
    Guarded PausesFor (executionHistory S threshold uuids arrived script) := by
  refine executionHistory_guarded ?_ ?_ ?_ threshold uuids arrived script
  · rintro a e early entries rfl
    cases early
  · rintro h ph self self' e reachable works entries rfl
    cases works
  · rintro h ph ph' self self' e reachable moves entries rfl
    cases moves with
    | pause pause => exact calledFor_invariant.holds reachable (by rw [pause]; rfl)

/-! ## What the query reports -/

/-- `run` is blocked in `_wait_for_resume`; the error of a signal handler leaves
it there. -/
def InWait (outcome : Outcome (Execution Chan) Request Response Signal RunError RunResult) : Prop :=
  match outcome with
  | .blocked qs _ _ => .resumeEvent ∈ qs
  | .failed _ w => inPause w.history
  | _ => False

/-- The state query reports a pause, and its interrupts, exactly while `run` is in
it. -/
structure ReportsPending (S : Setting Chan)
    (outcome : Outcome (Execution Chan) Request Response Signal RunError RunResult)
    (w : Execution Chan) : Prop where
  status : (getCurrentState S.env.lg w.self).status = .interrupted ↔ InWait outcome
  pending : InWait outcome → ∃ a, w.history =
    a ++ .paused (getCurrentState S.env.lg w.self).interrupts :: recent w.history ∧
      CalledFor a (getCurrentState S.env.lg w.self).interrupts ∧
        (getCurrentState S.env.lg w.self).interrupts ≠ []
  cleared : ¬InWait outcome → (getCurrentState S.env.lg w.self).interrupts = []

variable {threshold : Option Nat} {uuids : Nat → String} {arrived : List Signal}
  {script : List (Action Response Signal)} {w : Execution Chan}

/-- The last thing that the history of a stopped execution says of pauses. -/
theorem inWait_iff_inPause
    (stopped : stoppedAt (replayExecution S threshold uuids arrived script) = some w) :
    InWait (replayExecution S threshold uuids arrived script) ↔ inPause w.history := by
  have holds := execution_refines S threshold uuids arrived script
  cases outcome : replayExecution S threshold uuids arrived script with
  | done result rest t =>
      rw [outcome] at holds stopped
      cases stopped
      have running : w.self.status ≠ .interrupted := by
        cases result with
        | output o =>
            obtain ⟨n, u, -, rfl, -⟩ := holds
            nofun
        | continueAsNew next =>
            obtain ⟨n, here, -⟩ := holds
            rw [here.running]
            nofun
      exact iff_of_false id fun paused => running (holds.traced.shown.status.mpr paused)
  | failed e t =>
      rw [outcome] at stopped
      cases stopped
      exact .rfl
  | blocked qs k t =>
      rw [outcome] at holds stopped
      cases stopped
      refine ⟨inPause_of_blocked outcome, fun paused => ?_⟩
      obtain ⟨only, -⟩ := holds.pause paused
      show Request.resumeEvent ∈ qs
      rw [only]
      exact List.mem_singleton_self _
  | refused =>
      rw [outcome] at stopped
      cases stopped

/-- **Wherever an execution stops, its state query reports exactly the pending
interrupts if and only if it is in a pause or has not paused in this run.** -/
theorem reportsPending_iff
    (stopped : stoppedAt (replayExecution S threshold uuids arrived script) = some w) :
    ReportsPending S (replayExecution S threshold uuids arrived script) w ↔
      InWait (replayExecution S threshold uuids arrived script) ∨
        ∀ entries, .paused entries ∉ w.history := by
  have shown := (execution_traced stopped).shown
  have inside := inWait_iff_inPause stopped
  have pausesFor := executionHistory_pausesFor S threshold uuids arrived script
  rw [executionHistory, historyOf_eq, stopped] at pausesFor
  have interrupts : (getCurrentState S.env.lg w.self).interrupts = lastPaused w.history :=
    shown.interrupts
  constructor
  · intro reports
    by_cases waits : InWait (replayExecution S threshold uuids arrived script)
    · exact .inl waits
    · -- what is reported now is what the last pause was for, so there was none
      right
      rcases lastPaused_spec w.history with ⟨none, -⟩ | last
      · exact none
      · have cleared := reports.cleared waits
        rw [interrupts] at cleared
        exact absurd cleared (shown.entries _ last)
  · intro when
    refine ⟨shown.status.trans inside.symm, fun waits => ?_, fun free => ?_⟩
    · obtain ⟨a, entries, split⟩ := inside.mp waits
      rw [interrupts, lastPaused_of_inPause split]
      exact ⟨a, split, pausesFor a _ _ split entries rfl, shown.entries entries (by rw [split]; simp)⟩
    · rw [interrupts]
      rcases lastPaused_spec w.history with ⟨-, empty⟩ | last
      · exact empty
      · exact absurd last ((when.resolve_left free) _)

section Runs

open Reference

/-- A graph whose one node asks. -/
def reportingSetting : Setting Channel := setting [("d", ["in"])] none none

/-- The node has asked. -/
def askedScript : List (Action Response Signal) := [.answer 0 (.output (asking "ok?" (pulled "d" [])))]

def askedOutcome : Outcome (Execution Channel) Request Response Signal RunError RunResult :=
  replayExecution reportingSetting none (fun _ => "") [] askedScript

def askedExecution : Execution Channel := (stoppedAt askedOutcome).get rfl

theorem reportsPending_asked :
    ReportsPending reportingSetting askedOutcome askedExecution ↔
      InWait askedOutcome ∨ ∀ entries, .paused entries ∉ askedExecution.history :=
  reportsPending_iff (w := askedExecution) rfl

/-- It has been answered, and the node is executed again. -/
def answeredOutcome : Outcome (Execution Channel) Request Response Signal RunError RunResult :=
  replayExecution reportingSetting none (fun _ => "") []
    (askedScript ++ [.signals [.resume (.str "yes")]])

def answeredExecution : Execution Channel := (stoppedAt answeredOutcome).get rfl

/-- **A question that has been answered is still reported.** -/
theorem answered_interrupt_reported :
    ¬ReportsPending reportingSetting answeredOutcome answeredExecution := by
  intro reports
  have free : ¬InWait answeredOutcome := by
    intro waits
    cases List.mem_singleton.mp waits
  have cleared := reports.cleared free
  cases cleared

end Runs

end LanggraphTemporal.Properties
