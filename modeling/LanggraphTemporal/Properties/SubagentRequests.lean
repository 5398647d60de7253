/-
# Properties.SubagentRequests -- which sub-agent requests are served

`run` serves the child workflow requests of its results once, after the first
pass.  Outputs that join the results later, from a re-execution or from a task
of a Send or a goto, are never looked at: their requests start nothing, and their
tool calls are left without a reply.  So a superstep serves all its requests if
and only if these outputs have none (`requests_served_iff`).
-/
import LanggraphTemporal.Machine.Children
import LanggraphTemporal.Machine.Reference

namespace LanggraphTemporal.Properties

set_option autoImplicit false

open Theory Theory.System Theory.History Model Model.LangGraphWorkflow Machine

variable {Chan : Type} {S : Setting Chan}

/-- The outputs that contribute to the superstep, from all routes. -/
def contributions (a : List Event) : List NodeActivityOutput :=
  (collectedIn (superstepOf a)).flatMap Prod.snd

/-- The writes that `apply_writes` is given when the superstep completes. -/
def writesGiven : Event → List PregelTaskWrites
  | .applied writes _ => writes
  | _ => []

/-- In the superstep that completes with `e`, each request is dispatched as a
child workflow exactly once, and its reply, made of what the child has answered,
is among the writes of the task that made the request. -/
structure AllServed (S : Setting Chan) (heard : List (Request × Response)) (a : List Event) (e : Event) :
    Prop where
  dispatched : (subagentsIn (superstepOf a)).Perm
    ((contributions a).flatMap (requestCalls S (currentStep a)))
  replied : ∀ r ∈ contributions a, ∀ p ∈ r.childWorkflowRequests.zipIdx,
    ∃ task ∈ writesGiven e, task.name = r.nodeName ∧
      ∃ reply ∈ task.writes, Replies S (fun q r => (q, r) ∈ heard) (currentStep a) p reply

/-- No output but those of the first pass has requests. -/
def RequestsInFirstPass (a : List Event) : Prop :=
  ∀ route outputs, (route, outputs) ∈ collectedIn (superstepOf a) → route ≠ .scheduled →
    ∀ r ∈ outputs, r.childWorkflowRequests = []

theorem requestCalls_eq_nil {n : Nat} {r : NodeActivityOutput} :
    requestCalls S n r = [] ↔ r.childWorkflowRequests = [] := by
  unfold requestCalls
  simp

theorem flatMap_requestCalls_eq_nil {n : Nat} {rs : List NodeActivityOutput} :
    rs.flatMap (requestCalls S n) = [] ↔ ∀ r ∈ rs, r.childWorkflowRequests = [] := by
  simp [List.flatMap_eq_nil_iff, requestCalls_eq_nil]

section Completed

variable {a : List Event} {tasks : List PregelTask} {o : Outputs}

theorem contributions_eq (course : Course a tasks 5 o) :
    contributions a = o.scheduled ++ (o.resumed ++ o.push ++ o.goto) := by
  unfold contributions
  rw [course.collected]
  simp [Outputs.collected]

theorem firstPass_eq (course : Course a tasks 5 o) : firstPass a = o.scheduled := by
  unfold firstPass
  rw [course.collected]
  rfl

/-- The condition, as it reads on the outputs of the superstep. -/
theorem requestsInFirstPass_iff (course : Course a tasks 5 o) :
    RequestsInFirstPass a ↔ ∀ r ∈ o.resumed ++ o.push ++ o.goto, r.childWorkflowRequests = [] := by
  unfold RequestsInFirstPass
  rw [course.collected]
  simp only [Outputs.collected, List.mem_cons, List.not_mem_nil, or_false, Prod.mk.injEq,
    List.mem_append]
  constructor
  · rintro none r ((resumed | push) | goto)
    · exact none .resumed o.resumed (.inr (.inl ⟨rfl, rfl⟩)) (by decide) r resumed
    · exact none .push o.push (.inr (.inr (.inl ⟨rfl, rfl⟩))) (by decide) r push
    · exact none .goto o.goto (.inr (.inr (.inr ⟨rfl, rfl⟩))) (by decide) r goto
  · rintro none route outputs (⟨rfl, rfl⟩ | ⟨rfl, rfl⟩ | ⟨rfl, rfl⟩ | ⟨rfl, rfl⟩) late r mem
    · exact absurd rfl late
    · exact none r (.inl (.inl mem))
    · exact none r (.inl (.inr mem))
    · exact none r (.inr mem)

/-- A result of the first pass with a request keeps its place among the results
whose writes are applied. -/
theorem reply_given {heard : Request → Response → Prop} {n : Nat} {r : NodeActivityOutput}
    {p : ChildRequest × Nat} (course : Course a tasks 5 o)
    (served : List.Forall₂ (Replied S heard n) o.scheduled o.served) (mem : r ∈ o.scheduled)
    (request : p ∈ r.childWorkflowRequests.zipIdx) :
    ∃ task ∈ writesOf S.graph o.final, task.name = r.nodeName ∧
      ∃ reply ∈ task.writes, Replies S heard n p reply := by
  obtain ⟨r', mem', replies, rfl, each⟩ := forall₂_mem_left served mem
  obtain ⟨reply, given, made⟩ := forall₂_mem_left each request
  have uninterrupted : r.interrupted = false := by
    obtain ⟨t, -, ran⟩ := forall₂_mem_right (course.scheduled (by omega)) mem
    by_contra interrupted
    obtain ⟨-, -, -, none⟩ := ran.bare (by simpa using interrupted)
    rw [none] at request
    cases request
  have last : ({ r with writes := r.writes ++ replies } : NodeActivityOutput) ∈ o.final := by
    have kept : ({ r with writes := r.writes ++ replies } : NodeActivityOutput) ∈ settledOf o.served :=
      List.mem_filter.mpr ⟨mem', by simpa [NodeActivityOutput.interrupted] using uninterrupted⟩
    exact List.mem_append_left _ (List.mem_append_left _ (List.mem_append_left _ kept))
  have written : reply ∈ r.writes ++ replies := List.mem_append_right _ given
  refine ⟨taskWrites S.graph { r with writes := r.writes ++ replies }, ?_, rfl, reply, written, made⟩
  refine List.mem_map_of_mem (List.mem_filter.mpr ⟨last, ?_⟩)
  simp only [Bool.not_eq_true', List.isEmpty_eq_false_iff]
  exact List.ne_nil_of_mem written

end Completed

/-- **A superstep serves every request if and only if only its first pass has
any.** -/
theorem requests_served_iff (S : Setting Chan) (threshold : Option Nat) (uuids : Nat → String)
    (arrived : List Signal) (script : List (Action Response Signal)) {a b : List Event} {e : Event}
    (split : executionHistory S threshold uuids arrived script = a ++ e :: b) (done : completes e = true) :
    AllServed S (executionTranscript S threshold uuids arrived script) a e ↔ RequestsInFirstPass a := by
  obtain ⟨tasks, o, course, ends⟩ :=
    executionHistory_completesCourse S threshold uuids arrived script a e b split done
  have childwise := executionHistory_childwise S threshold uuids arrived script a e b split
  have once : ServedOnce S (fun q r => (q, r) ∈ executionTranscript S threshold uuids arrived script) a := by
    rcases ends with ⟨rfl, -⟩ | ⟨updated, rfl⟩
    · exact childwise
    · exact childwise
  obtain ⟨starts, served⟩ := once o.served (course.logged (by omega))
  rw [firstPass_eq course] at starts served
  rw [requestsInFirstPass_iff course, ← flatMap_requestCalls_eq_nil (S := S) (n := currentStep a)]
  constructor
  · intro all
    have same := all.dispatched.length_eq
    rw [starts, contributions_eq course, List.flatMap_append, List.length_append] at same
    exact List.eq_nil_of_length_eq_zero (by omega)
  · intro none
    refine ⟨?_, fun r mem p request => ?_⟩
    · rw [starts, contributions_eq course, List.flatMap_append, none, List.append_nil]
    · rw [contributions_eq course] at mem
      rcases List.mem_append.mp mem with first | later
      · obtain ⟨task, given, rest⟩ := reply_given course served first request
        refine ⟨task, ?_, rest⟩
        rcases ends with ⟨-, silent⟩ | ⟨updated, rfl⟩
        · rw [silent] at given
          cases given
        · exact given
      · rw [flatMap_requestCalls_eq_nil.mp none r later] at request
        cases request

section Runs

open Reference

/-- A node that is scheduled, and one that is started by a Send only. -/
def teamSetting : Setting Channel := setting [("agent", ["in"]), ("worker", ["never"])] none none

def delegatingScript : List (Action Response Signal) :=
  [.answer 0 (.output (delegating (pulled "agent" []))),
    .answer 0 (.childOutput ⟨Dict.ofList [("messages", .list [.str "found"])], 1⟩)]

def delegatingHistory : List Event := executionHistory teamSetting none (fun _ => "") [] delegatingScript

theorem requests_served_delegatingScript :
    AllServed teamSetting (executionTranscript teamSetting none (fun _ => "") [] delegatingScript)
      (delegatingHistory.take 8) delegatingHistory[8] := by
  have split : executionHistory teamSetting none (fun _ => "") [] delegatingScript =
      delegatingHistory.take 8 ++ delegatingHistory[8] :: delegatingHistory.drop 9 := rfl
  refine (requests_served_iff teamSetting none _ [] delegatingScript split rfl).mpr ?_
  intro route outputs mem late r output
  have collected : collectedIn (superstepOf (delegatingHistory.take 8)) =
      [(.scheduled, [delegating (pulled "agent" [])]), (.resumed, []), (.push, []), (.goto, [])] := rfl
  rw [collected] at mem
  simp only [List.mem_cons, List.not_mem_nil, or_false, Prod.mk.injEq] at mem
  rcases mem with ⟨rfl, -⟩ | ⟨-, rfl⟩ | ⟨-, rfl⟩ | ⟨-, rfl⟩
  · exact absurd rfl late
  · cases output
  · cases output
  · cases output

/-- `agent` sends to `worker`, which makes the tool call. -/
def sendingScript : List (Action Response Signal) :=
  [.answer 0 (.output { pulled "agent" [] with pushSends := [⟨"worker", .int 1⟩] }),
    .answer 0 (.output (delegating (pushed "worker" [("x", .int 1)])))]

def sendingHistory : List Event := executionHistory teamSetting none (fun _ => "") [] sendingScript

/-- **The request of a Send task starts nothing.** -/
theorem sent_request_dropped :
    ¬AllServed teamSetting (executionTranscript teamSetting none (fun _ => "") [] sendingScript)
      (sendingHistory.take 8) sendingHistory[8] := by
  intro all
  have started : (subagentsIn (superstepOf (sendingHistory.take 8))).length = 0 := rfl
  have requested : ((contributions (sendingHistory.take 8)).flatMap
      (requestCalls teamSetting (currentStep (sendingHistory.take 8)))).length = 1 := rfl
  have same := all.dispatched.length_eq
  omega

end Runs

end LanggraphTemporal.Properties
