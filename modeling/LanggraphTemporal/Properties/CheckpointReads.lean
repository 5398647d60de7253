/-
# Properties.CheckpointReads -- what the reads of a saver report

Only `aget_tuple` tells a workflow that does not exist from a read that has
failed.  `list` and `alist` yield nothing after any `Exception`, and `get_tuple` is
left without a checkpoint whenever the caller's event loop cannot be run, or the
query raises a `RuntimeError`.  So the reads report what has happened exactly when
the workflow does not exist, or when the loop can be run and no `Exception` is
raised (`reads_report_iff`).
-/
import LanggraphTemporal.Model.Checkpoint

namespace LanggraphTemporal.Properties

set_option autoImplicit false

open Model Model.TemporalCheckpointSaver

/-! ## The four reads -/

inductive Reader where
  | getTuple
  | agetTuple
  | list
  | alist

/-- The checkpoints that a read yields. -/
def readWith (client : TemporalClient) (loop : EventLoop) (config : RunnableConfig) :
    Reader → Except ReadError (List CheckpointTuple)
  | .getTuple => (getTuple client loop config).map Option.toList
  | .agetTuple => (agetTuple client config).map Option.toList
  | .list => list client loop (some config)
  | .alist => alist client (some config)

/-- The workflow does not exist. -/
def notFound : ReadError := .rpcError .notFound

/-- A read yields nothing only if the workflow does not exist, and raises whatever
else has gone wrong; and all reads agree. -/
structure ReportsFailures (client : TemporalClient) (loop : EventLoop) (config : RunnableConfig) : Prop where
  silent : ∀ reader, readWith client loop config reader = .ok [] → stateOf client config = .error notFound
  raised : ∀ reader e, stateOf client config = .error e → e ≠ notFound →
    readWith client loop config reader = .error e
  agree : ∀ reader reader', readWith client loop config reader = readWith client loop config reader'

/-- The error is no `Exception`. -/
def passesThrough : ReadError → Bool
  | .baseException _ => true
  | _ => false

section Reads

variable {client : TemporalClient} {loop : EventLoop} {config : RunnableConfig}

theorem agetTuple_error {e : ReadError} (failed : stateOf client config = .error e) (other : e ≠ notFound) :
    agetTuple client config = .error e := by
  unfold agetTuple
  rw [failed]
  cases e with
  | rpcError status =>
      cases status with
      | notFound => exact absurd rfl other
      | _ => rfl
  | _ => rfl

theorem agetTuple_none : agetTuple client config = .ok none ↔ stateOf client config = .error notFound := by
  constructor
  · intro none
    cases outcome : stateOf client config with
    | ok state =>
        rw [agetTuple, outcome] at none
        cases none
    | error e =>
        by_contra other
        rw [agetTuple_error outcome fun same => other (by rw [same])] at none
        cases none
  · intro missing
    rw [agetTuple, missing]
    rfl

/-- What `aget_tuple` comes to is what all reads come to, if `get_tuple` does and
it raises no `Exception`. -/
theorem readWith_eq (same : getTuple client loop config = agetTuple client config)
    (passes : ∀ e, agetTuple client config = .error e → passesThrough e = true) (reader : Reader) :
    readWith client loop config reader = (agetTuple client config).map Option.toList := by
  have yields : yieldTuple (agetTuple client) (some config) = (agetTuple client config).map Option.toList := by
    dsimp only [yieldTuple]
    cases asked : agetTuple client config with
    | ok result => rfl
    | error e =>
        have passing := passes e asked
        cases e with
        | baseException name => rfl
        | _ => cases passing
  cases reader with
  | getTuple => rw [readWith, same]
  | agetTuple => rfl
  | alist => exact yields
  | list =>
      rw [← yields]
      simp only [readWith, list, yieldTuple, same]

theorem reports_of_same (same : getTuple client loop config = agetTuple client config)
    (passes : ∀ e, agetTuple client config = .error e → passesThrough e = true) :
    ReportsFailures client loop config where
  silent reader silent := by
    rw [readWith_eq same passes] at silent
    apply agetTuple_none.mp
    cases asked : agetTuple client config with
    | error e =>
        rw [asked] at silent
        cases silent
    | ok result =>
        rw [asked] at silent
        cases result with
        | none => rfl
        | some tuple => cases silent
  raised reader e failed other := by
    rw [readWith_eq same passes, agetTuple_error failed other]
    rfl
  agree reader reader' := by rw [readWith_eq same passes, readWith_eq same passes]

/-- An `Exception` is lost in `alist`. -/
theorem alist_swallows {e : ReadError} (failed : stateOf client config = .error e)
    (caught : passesThrough e = false) : readWith client loop config .alist = .ok [] := by
  simp only [readWith, alist, yieldTuple, agetTuple, failed]
  cases e with
  | baseException name => cases caught
  | rpcError status => cases status <;> rfl
  | _ => rfl

/-- Without a loop to run, `get_tuple` finds nothing. -/
theorem getTuple_stuck (stuck : loop ≠ .idle) : readWith client loop config .getTuple = .ok [] := by
  cases loop with
  | idle => exact absurd rfl stuck
  | _ => rfl

/-- **The reads report what has happened if and only if the workflow does not
exist, or the caller's loop can be run and no `Exception` is raised.** -/
theorem reads_report_iff (client : TemporalClient) (loop : EventLoop) (config : RunnableConfig) :
    ReportsFailures client loop config ↔ stateOf client config = .error notFound ∨
      loop = .idle ∧ ∀ e, stateOf client config = .error e → passesThrough e = true := by
  constructor
  · intro reports
    by_cases missing : stateOf client config = .error notFound
    · exact .inl missing
    · refine .inr ⟨?_, fun e failed => ?_⟩
      · by_contra stuck
        exact missing (reports.silent .getTuple (getTuple_stuck stuck))
      · by_contra caught
        exact missing (reports.silent .alist (alist_swallows failed (Bool.eq_false_of_not_eq_true caught)))
  · rintro (missing | ⟨rfl, passes⟩)
    · have none := agetTuple_none.mpr missing
      refine reports_of_same ?_ fun e failed => ?_
      · rw [getTuple, none]
        cases loop with
        | _ => rfl
      · rw [none] at failed
        cases failed
    · have passes' (e : ReadError) (failed : agetTuple client config = .error e) : passesThrough e = true := by
        cases outcome : stateOf client config with
        | ok state =>
            rw [agetTuple, outcome] at failed
            cases failed
        | error e' =>
            have passing := passes e' outcome
            rw [agetTuple_error outcome fun same => by rw [same] at passing; cases passing] at failed
            cases failed
            exact passing
      refine reports_of_same ?_ passes'
      rw [getTuple, runUntilComplete]
      cases asked : agetTuple client config with
      | ok result => rfl
      | error e =>
          have passing := passes' e asked
          cases e with
          | runtimeError => cases passing
          | _ => rfl

end Reads

/-- A service that cannot be reached. -/
def unavailableClient : TemporalClient where
  queryState _ := .error (.rpcError .unavailable)
  now := "2026-01-01T00:00:00+00:00"

/-- **An outage reads like a thread without checkpoints**, in a loop that can be
run. -/
theorem outage_unreported :
    ¬ReportsFailures unavailableClient .idle { configurable := some { threadId := some "thread" } } := by
  intro reports
  have silent : readWith unavailableClient .idle { configurable := some { threadId := some "thread" } }
      .alist = .ok [] := rfl
  have missing := reports.silent .alist silent
  cases missing

end LanggraphTemporal.Properties
