/-
# Properties.BulkSynchronous -- a run does not depend on who is fastest

Activities and child workflows that run side by side complete in any order.  If
what they return depends on what they are given only, and signals come in pauses
only, the order is invisible: after any number of pauses the run ends with the
result, the channels, the checkpoint and the stream that `Meaning.run` computes
from the signals of its pauses without any order, and fails or waits in a pause
exactly when that does (`run_meaning`).
-/
import LanggraphTemporal.Machine.Meaning
import LanggraphTemporal.Machine.Reference

namespace LanggraphTemporal.Properties

set_option autoImplicit false

open Theory Theory.System Model Model.LangGraphWorkflow Machine

variable {Chan : Type}

/-- What the graph of `S` computes from the signals of its pauses. -/
def meaningOf (S : Setting Chan) (b : Behaviour) (threshold : Option Nat) (batches : List (List Signal)) :
    Except (Halt Chan) (RunResult × Sitting Chan) :=
  Meaning.run b S.env S.graph S.input threshold ⟨init S.env, batches⟩

/-- An execution that has come to this agrees with the meaning of its graph. It
has ended with its result and workflow object; or failed with its error, or with
that of a signal; or it waits in the pause that the meaning comes to after the
same signals, with what the signals of this pause have made of it. -/
def HasMeaning (S : Setting Chan) (b : Behaviour) (threshold : Option Nat) :
    RunOutcome Chan → Prop :=
  Outcome.Holds
    (fun result w => meaningOf S b threshold (batchesOf w.history) = .ok (result, ⟨w.self, []⟩))
    (fun e w => meaningOf S b threshold (batchesOf w.history) = .error (.failed e) ∨
      ∃ signal, (workflowSystem S.env).handle signal w = .error e)
    (fun qs w => .resumeEvent ∈ qs → ∃ waiting,
      meaningOf S b threshold (batchesOf w.history) = .error (.paused waiting) ∧
        receiveAll S.env.lg (pendingOf w.history) waiting = .ok w.self)

/-- Whenever signals are delivered, the run waits for a resume. -/
def SignalledInPauses (S : Setting Chan) (threshold : Option Nat) (uuids : Nat → String)
    (script : List (Action Response Signal)) : Prop :=
  ∀ a signals b, script = a ++ .signals signals :: b → signals ≠ [] →
    ∀ qs k w, replayExecution S threshold uuids [] a = .blocked qs k w → .resumeEvent ∈ qs

variable {S : Setting Chan} {b : Behaviour} {threshold : Option Nat} {uuids : Nat → String}
  {script : List (Action Response Signal)}

theorem SignalledInPauses.timed (inPauses : SignalledInPauses S threshold uuids script) :
    (workflowSystem S.env).Timed Heeds (run S.env threshold S.input) script (created S uuids) :=
  fun a gs b split some qs k t blocked =>
    have waits : replayExecution S threshold uuids [] a = .blocked qs k t := blocked
    inPause_of_blocked waits (inPauses a gs b split some qs k t waits)

/-- A pause stays one, whatever signals come. -/
theorem heeds_of_handled (env : Env Chan) (signal : Signal) (w w' : Execution Chan) (heeds : Heeds w)
    (handled : ((workflowSystem env).only b.Answers).handle signal w = .ok w') : Heeds w' := by
  have history : w'.history = w.history ++ [.received signal] := handle_history handled
  unfold Heeds
  rw [history]
  exact (inPause_snoc rfl).mpr heeds

theorem hasMeaning_of_told (S : Setting Chan) (b : Behaviour) (threshold : Option Nat) (uuids : Nat → String)
    (script : List (Action Response Signal)) (inPauses : SignalledInPauses S threshold uuids script)
    (told : ∀ p ∈ executionTranscript S threshold uuids [] script, b.Answers p.1 p.2) :
    HasMeaning S b threshold (replayExecution S threshold uuids [] script) := by
  have computed := run_computes (b := b) S threshold (created S uuids) rfl between_nil
  have holds := replay_holds _ _ script _ computed
  unfold answering at holds
  rw [replay_heeding (heeds_of_handled S.env) _ _ _ inPauses.timed.only, replay_only _ _ _ told] at holds
  show HasMeaning S b threshold ((workflowSystem S.env).replay (run S.env threshold S.input) script
    (created S uuids))
  cases outcome : (workflowSystem S.env).replay (run S.env threshold S.input) script (created S uuids) with
  | done result rest w =>
      rw [outcome] at holds
      obtain ⟨-, heard, listens, returned⟩ := holds
      have all : batchesOf w.history = heard ++ [] := listens.trans (List.append_nil heard).symm
      show meaningOf S b threshold (batchesOf w.history) = _
      rw [all]
      exact returned []
  | failed e w =>
      rw [outcome] at holds
      obtain ⟨heard, listens, failed⟩ := holds
      have all : batchesOf w.history = heard := listens
      show meaningOf S b threshold (batchesOf w.history) = _ ∨ _
      rw [all]
      exact failed
  | blocked qs k w =>
      rw [outcome] at holds
      intro asked
      obtain ⟨heard, waiting, listens, paused, received⟩ := holds asked
      have all : batchesOf w.history = heard := listens
      refine ⟨waiting, ?_, received⟩
      rw [all]
      exact paused
  | refused => trivial

/-- **Whatever the order of completion and the identifiers drawn, a run computes
the meaning of its graph** from the signals of its pauses. -/
theorem run_meaning (S : Setting Chan) (b : Behaviour) (threshold : Option Nat) (uuids : Nat → String)
    (script : List (Action Response Signal)) (inPauses : SignalledInPauses S threshold uuids script)
    (told : ∀ p ∈ executionTranscript S threshold uuids [] script, b.Answers p.1 p.2) :
    HasMeaning S b threshold (replayExecution S threshold uuids [] script) :=
  hasMeaning_of_told S b threshold uuids script inPauses told

section Runs

open Reference

/-- Two nodes that are scheduled together, and write to different channels. -/
def twinSetting : Setting Channel := setting [("a", ["in"]), ("b", ["in"])] none none

/-- `b` asks before it writes. -/
def twinBehaviour : Behaviour where
  node input :=
    if input.nodeName = "a" then { nodeName := "a", taskPath := input.taskPath, writes := [("x", .int 1)] }
    else match input.resumeValues with
      | some _ => { nodeName := "b", taskPath := input.taskPath, writes := [(branchTo "b", .int 1)] }
      | none => { nodeName := "b", taskPath := input.taskPath, writes := [], interrupts := [⟨.str "ok?", "ok?"⟩] }
  subgraph _ _ := ⟨∅, 0⟩
  subagent _ := .error ""
  queue := "worker"

/-- The second one completes first; it is resumed after an edit. -/
def overtaking : List (Action Response Signal) :=
  [.answer 1 (.output (asking "ok?" (pulled "b" []))), .answer 0 (.output (pulled "a" [("x", .int 1)])),
    .signals [.updateState [("x", .int 2)]], .signals [.resume (.str "yes")],
    .answer 0 (.output (pulled "b" [(branchTo "b", .int 1)]))]

theorem overtaking_meaning :
    HasMeaning twinSetting twinBehaviour none
        (replayExecution twinSetting none (fun _ => "") [] overtaking) ∧
      ∃ result rest w, replayExecution twinSetting none (fun _ => "") [] overtaking = .done result rest w := by
  refine ⟨run_meaning twinSetting twinBehaviour none _ overtaking ?_ (fun p mem => ?_), _, _, _, rfl⟩
  · intro a signals b split some qs k w blocked
    -- the signals are the third and the fourth action
    rcases a with _ | ⟨_, _ | ⟨_, _ | ⟨_, _ | ⟨_, a⟩⟩⟩⟩
    · cases split
    · cases split
    · cases split
      cases blocked
      exact List.mem_singleton.mpr rfl
    · cases split
      cases blocked
      exact List.mem_singleton.mpr rfl
    · simp [overtaking, List.cons_eq_append_iff] at split
  · rcases List.mem_cons.mp mem with rfl | mem
    · rfl
    rcases List.mem_cons.mp mem with rfl | mem
    · rfl
    rcases List.mem_cons.mp mem with rfl | mem
    · rfl
    cases mem

end Runs

end LanggraphTemporal.Properties
