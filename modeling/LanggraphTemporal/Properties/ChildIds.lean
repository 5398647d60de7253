/-
# Properties.ChildIds -- the ids that children are started with

The id of a sub-agent has its step in it, and the index of its request in its
result.  The id of a subgraph has the name of its node only.  So a node that is
scheduled again starts its child under the id it has used before, and so do two
results of one superstep that each ask for a sub-agent of the same type.  In an
execution in which neither happens (`Distinguished`), over all its runs, no two
children are started with the same id (`child_ids_distinct`).
-/
import LanggraphTemporal.Machine.Children
import LanggraphTemporal.Machine.Reference
import LanggraphTemporal.Properties.ContinueAsNew
import LanggraphTemporal.Theory.Decimal

namespace LanggraphTemporal.Properties

set_option autoImplicit false

open Theory Theory.System Theory.History Model Model.LangGraphWorkflow Machine

variable {Chan : Type} {S : Setting Chan}

/-! ## Names -/

/-- The id of a child, by its name among the children of the workflow. -/
def childId (workflowId name : String) : String := workflowId ++ "/" ++ name

/-- The name of the sub-agent that a request of this type and index starts in
this step. -/
def agentName (step : Nat) (key : String × Nat) : String :=
  "subagent/" ++ key.1 ++ "/" ++ toString step ++ "_" ++ toString key.2

/-- The type and the index of each request of these outputs. -/
def requestKeys (outputs : List NodeActivityOutput) : List (String × Nat) :=
  outputs.flatMap fun r =>
    r.childWorkflowRequests.zipIdx.map fun p => (p.1.subagentType.getD "unknown", p.2)

theorem childId_inj {workflowId name name' : String} :
    childId workflowId name = childId workflowId name' ↔ name = name' :=
  String.append_right_inj _

/-- What follows the last separator, and what comes before it. -/
theorem append_cons_inj_right {α : Type} {c : α} {xs xs' ys ys' : List α} (none : c ∉ ys) (none' : c ∉ ys')
    (same : xs ++ c :: ys = xs' ++ c :: ys') : xs = xs' ∧ ys = ys' := by
  rcases List.append_eq_append_iff.mp same with ⟨zs, rfl, rest⟩ | ⟨zs, rfl, rest⟩
  · cases zs with
    | nil => exact ⟨by simp, List.tail_eq_of_cons_eq rest⟩
    | cons z zs =>
        have tail := List.tail_eq_of_cons_eq rest
        exact absurd (by rw [tail]; simp) none
  · cases zs with
    | nil => exact ⟨by simp, (List.tail_eq_of_cons_eq rest).symm⟩
    | cons z zs =>
        have tail := List.tail_eq_of_cons_eq rest
        exact absurd (by rw [tail]; simp) none'

theorem not_mem_toString {c : Char} (other : c.isDigit = false) (n : Nat) : c ∉ (toString n).toList := by
  rw [Nat.toString_eq_repr, Nat.toList_repr]
  intro mem
  have digit := Nat.isDigit_of_mem_toDigits (by decide) (by decide) mem
  rw [other] at digit
  cases digit

theorem agentName_inj {n n' : Nat} {k k' : String × Nat} (same : agentName n k = agentName n' k') :
    n = n' ∧ k = k' := by
  obtain ⟨t, i⟩ := k
  obtain ⟨t', i'⟩ := k'
  have chars := congrArg String.toList same
  have front (n : Nat) (t : String) (i : Nat) : (agentName n (t, i)).toList =
      ("subagent/".toList ++ t.toList) ++ '/' :: ((toString n).toList ++ '_' :: (toString i).toList) := by
    unfold agentName
    simp
  have noSlash (n i : Nat) : '/' ∉ (toString n).toList ++ '_' :: (toString i).toList := by
    intro mem
    rcases List.mem_append.mp mem with here | rest
    · exact not_mem_toString rfl n here
    · rcases List.mem_cons.mp rest with same | here
      · cases same
      · exact not_mem_toString rfl i here
  rw [front, front] at chars
  obtain ⟨types, numbers⟩ := append_cons_inj_right (noSlash n i) (noSlash n' i') chars
  obtain ⟨steps, indices⟩ := append_cons_inj_right (not_mem_toString rfl i) (not_mem_toString rfl i') numbers
  refine ⟨toString_nat_inj (String.toList_inj.mp steps), ?_⟩
  have type : t = t' := String.toList_inj.mp (List.append_cancel_left types)
  have index : i = i' := toString_nat_inj (String.toList_inj.mp indices)
  rw [type, index]

theorem subagentCall_id (n : Nat) (p : ChildRequest × Nat) : (subagentCall S n p).id =
    childId S.env.workflowId (agentName n (p.1.subagentType.getD "unknown", p.2)) := by
  show S.env.workflowId ++ "/subagent/" ++ p.1.subagentType.getD "unknown" ++ "/" ++ toString n ++ "_" ++
    toString p.2 = _
  have slash : "/subagent/" = "/" ++ "subagent/" := rfl
  unfold childId agentName
  rw [slash]
  simp only [String.append_assoc]

/-- The ids of the sub-agents that serve the requests of these outputs. -/
theorem requestCalls_ids (n : Nat) (outputs : List NodeActivityOutput) :
    (outputs.flatMap (requestCalls S n)).map ChildCall.id =
      (requestKeys outputs).map fun key => childId S.env.workflowId (agentName n key) := by
  unfold requestKeys requestCalls
  rw [List.map_flatMap, List.map_flatMap]
  refine congrArg (fun f => outputs.flatMap f) (funext fun r => ?_)
  rw [List.map_map, List.map_map]
  exact List.map_congr_left fun p _ => subagentCall_id n p

/-! ## The ids in a history -/

def startedId : Event → Option String
  | .subgraphStarted _ call => some call.id
  | .subagentStarted call => some call.id
  | _ => none

/-- The ids of all children that are started, in order. -/
def childIds (h : List Event) : List String := h.filterMap startedId

/-- The names of the sub-agents for the requests of a history that begins in this
step. -/
def namesFrom (step : Nat) : List Event → List String
  | [] => []
  | .scheduled n _ :: h => namesFrom n h
  | .collected .scheduled outputs :: h => (requestKeys outputs).map (agentName step) ++ namesFrom step h
  | _ :: h => namesFrom step h

/-- The names of the sub-agents requested so far. -/
def agentNames (h : List Event) : List String := namesFrom 0 h

/-- The names that a step gives to children are new: no subgraph node is
scheduled twice, and no two requests of a superstep have the same type and
index. -/
def Distinguished (S : Setting Chan) (a : List Event) : Event → Prop
  | .scheduled _ tasks => (subgraphNodes S.graph tasks).Nodup ∧
      ∀ node ∈ subgraphNodes S.graph tasks, node ∉ subgraphsIn a ∧ node ∉ agentNames a
  | .collected .scheduled outputs => (requestKeys outputs).Nodup ∧
      ∀ key ∈ requestKeys outputs, agentName (currentStep a) key ∉ subgraphsIn a
  | _ => True

/-- All steps of a run that follows `h` are distinguished. -/
def DistinguishedRun (S : Setting Chan) (h run : List Event) : Prop :=
  Guarded (fun a e => Distinguished S (h ++ a) e) run

instance (S : Setting Chan) (a : List Event) : (e : Event) → Decidable (Distinguished S a e)
  | .scheduled _ _ => inferInstanceAs (Decidable (_ ∧ _))
  | .collected route _ =>
      match route with
      | .scheduled => inferInstanceAs (Decidable (_ ∧ _))
      | .resumed | .push | .goto => .isTrue trivial
  | .dispatched _ _ | .lost _ _ | .discovering | .discovered _ | .paused _ | .resumed _
  | .subgraphStarted _ _ | .subagentStarted _ | .served _ | .skipped | .applied _ _ | .advanced
  | .received _ => .isTrue trivial

instance (S : Setting Chan) (h run : List Event) : Decidable (DistinguishedRun S h run) :=
  inferInstanceAs (Decidable (Guarded _ run))

/-! ### Taking histories apart -/

variable {a h : List Event} {e : Event}

theorem childIds_append (a b : List Event) : childIds (a ++ b) = childIds a ++ childIds b :=
  List.filterMap_append

theorem mem_childIds {id : String} : id ∈ childIds h ↔ ∃ e ∈ h, startedId e = some id :=
  List.mem_filterMap

theorem mem_subgraphsIn {node : String} : node ∈ subgraphsIn h ↔ ∃ call, .subgraphStarted node call ∈ h := by
  unfold subgraphsIn
  rw [List.mem_filterMap]
  constructor
  · rintro ⟨e, mem, started⟩
    cases e with
    | subgraphStarted node' call =>
        cases started
        exact ⟨call, mem⟩
    | _ => cases started
  · rintro ⟨call, mem⟩
    exact ⟨_, mem, rfl⟩

theorem mem_subagentsIn {call : ChildCall} : call ∈ subagentsIn h ↔ .subagentStarted call ∈ h := by
  unfold subagentsIn
  rw [List.mem_filterMap]
  constructor
  · rintro ⟨e, mem, started⟩
    cases e with
    | subagentStarted call' =>
        cases started
        exact mem
    | _ => cases started
  · intro mem
    exact ⟨_, mem, rfl⟩

theorem currentStep_append_of_not {b : List Event} (inside : ∀ e ∈ b, isScheduled e = false) :
    currentStep (a ++ b) = currentStep a := by
  induction b using List.reverseRecOn with
  | nil => rw [List.append_nil]
  | append_singleton b e ih =>
      rw [← List.append_assoc, currentStep_snoc (inside e (by simp))]
      exact ih fun x mem => inside x (List.mem_append_left _ mem)

/-- The superstep follows the entry that scheduled its tasks. -/
theorem scheduled_split (some : scheduledTasks h ≠ []) :
    ∃ a, h = a ++ .scheduled (currentStep h) (scheduledTasks h) :: superstepOf h := by
  induction h using List.reverseRecOn with
  | nil => exact absurd rfl some
  | append_singleton h e ih =>
      cases begins : isScheduled e with
      | true =>
          cases e with
          | scheduled step tasks =>
              refine ⟨h, ?_⟩
              rw [currentStep_scheduled, scheduledTasks_scheduled, superstepOf_scheduled]
          | _ => cases begins
      | false =>
          rw [scheduledTasks_snoc begins] at some
          obtain ⟨a, split⟩ := ih some
          refine ⟨a, ?_⟩
          rw [currentStep_snoc begins, scheduledTasks_snoc begins, superstepOf_snoc begins, ← List.cons_append,
            ← List.append_assoc, ← split]

/-- What the first pass has returned was collected in the superstep. -/
theorem firstPass_split (some : firstPass h ≠ []) :
    ∃ a b, superstepOf h = a ++ .collected .scheduled (firstPass h) :: b := by
  induction h using List.reverseRecOn with
  | nil => exact absurd rfl some
  | append_singleton h e ih =>
      cases begins : isScheduled e with
      | true =>
          cases e with
          | scheduled step tasks =>
              unfold firstPass at some
              rw [superstepOf_scheduled] at some
              exact absurd rfl some
          | _ => cases begins
      | false =>
          rw [superstepOf_snoc begins]
          by_cases here : ∃ outputs, e = .collected .scheduled outputs
          · obtain ⟨outputs, rfl⟩ := here
            refine ⟨superstepOf h, [], ?_⟩
            rw [firstPass_collected]
          · have same : firstPass (h ++ [e]) = firstPass h :=
              firstPass_snoc begins fun outputs collects => here ⟨outputs, collects⟩
            rw [same] at some ⊢
            obtain ⟨a, b, split⟩ := ih some
            exact ⟨a, b ++ [e], by rw [split, List.append_assoc, List.cons_append]⟩

/-- A name is among those requested from its first pass on. -/
theorem mem_agentNames {a b : List Event} {outputs : List NodeActivityOutput} {key : String × Nat}
    (mem : key ∈ requestKeys outputs) :
    agentName (currentStep a) key ∈ agentNames (a ++ .collected .scheduled outputs :: b) := by
  have general (step : Nat) : agentName (currentStep (.scheduled step [] :: a)) key ∈
      namesFrom step (a ++ .collected .scheduled outputs :: b) := by
    induction a generalizing step with
    | nil => exact List.mem_append_left _ (List.mem_map_of_mem mem)
    | cons e a ih =>
        cases e with
        | scheduled n tasks => exact ih n
        | collected route others =>
            cases route with
            | scheduled => exact List.mem_append_right _ (ih step)
            | _ => exact ih step
        | _ => exact ih step
  exact general 0

theorem currentStep_append (some : scheduledTasks a ≠ []) : currentStep (h ++ a) = currentStep a := by
  obtain ⟨b, split⟩ := scheduled_split some
  have inside : ∀ e ∈ superstepOf a, isScheduled e = false := (since_spec a).1
  have last : h ++ a = (h ++ b ++ [.scheduled (currentStep a) (scheduledTasks a)]) ++ superstepOf a := by
    conv_lhs => rw [split]
    simp
  rw [last, currentStep_append_of_not inside, currentStep_scheduled]

theorem currentStep_mem (some : scheduledTasks a ≠ []) : currentStep a ∈ stepsOf a := by
  obtain ⟨b, split⟩ := scheduled_split some
  have mem : Event.scheduled (currentStep a) (scheduledTasks a) ∈
      b ++ .scheduled (currentStep a) (scheduledTasks a) :: superstepOf a := by simp
  rw [← split] at mem
  exact List.mem_filterMap.mpr ⟨_, mem, rfl⟩

/-- The first pass, in the whole history. -/
theorem collected_split (tasks : scheduledTasks a ≠ []) (some : firstPass a ≠ []) :
    ∃ b c, a = b ++ .collected .scheduled (firstPass a) :: c ∧ scheduledTasks b ≠ [] ∧
      currentStep b = currentStep a ∧ ∀ e ∈ c, isScheduled e = false := by
  obtain ⟨front, begins⟩ := scheduled_split tasks
  obtain ⟨b, c, collects⟩ := firstPass_split some
  have inside : ∀ e ∈ superstepOf a, isScheduled e = false := (since_spec a).1
  rw [collects] at inside
  have early : ∀ e ∈ b, isScheduled e = false := fun e mem => inside e (by simp [mem])
  have grows (b : List Event) (early : ∀ e ∈ b, isScheduled e = false) :
      scheduledTasks (front ++ [.scheduled (currentStep a) (scheduledTasks a)] ++ b) = scheduledTasks a := by
    induction b using List.reverseRecOn with
    | nil => rw [List.append_nil, scheduledTasks_scheduled]
    | append_singleton b e ih =>
        rw [← List.append_assoc, scheduledTasks_snoc (early e (by simp))]
        exact ih fun x mem => early x (List.mem_append_left _ mem)
  refine ⟨front ++ [.scheduled (currentStep a) (scheduledTasks a)] ++ b, c, ?_, ?_, ?_, ?_⟩
  · conv_lhs => rw [begins, collects]
    simp
  · rw [grows b early]
    exact tasks
  · rw [currentStep_append_of_not early, currentStep_scheduled]
  · exact fun e mem => inside e (by simp [mem])

/-! ## One run -/

/-- A subgraph is started under the name of its node, before its superstep has
collected anything; a sub-agent, in a superstep. -/
def InOrder (S : Setting Chan) (a : List Event) : Event → Prop
  | .subgraphStarted node call =>
      call.id = childId S.env.workflowId node ∧ collectedIn (superstepOf a) = []
  | .subagentStarted _ => scheduledTasks a ≠ []
  | _ => True

theorem executionHistory_inOrder (S : Setting Chan) (threshold : Option Nat) (uuids : Nat → String)
    (arrived : List Signal) (script : List (Action Response Signal)) :
    Guarded (InOrder S) (executionHistory S threshold uuids arrived script) := by
  refine executionHistory_guarded (fun a e early => ?_) (fun h ph self self' e reachable works => ?_)
    (fun h ph ph' self self' e _ moves => ?_) threshold uuids arrived script
  · cases e with
    | subgraphStarted => cases early
    | subagentStarted => cases early
    | _ => trivial
  · cases works with
    | subgraph stage task bound =>
        have busy : ph.stage ≠ .ready := by
          rw [stage]
          nofun
        obtain ⟨o, on⟩ := course_invariant.holds reachable busy
        have collected := on.course.collected
        rw [stage] at collected
        exact ⟨rfl, collected⟩
    | subagent stage result request =>
        have busy : ph.stage ≠ .ready := by
          rw [stage]
          nofun
        obtain ⟨some, same⟩ := tasks_invariant.holds reachable busy
        show scheduledTasks h ≠ []
        rw [same]
        exact some
    | _ => trivial
  · cases moves <;> trivial

/-- A run after the history `h`, all of whose steps are distinguished. -/
structure Orderly (S : Setting Chan) (heard : Request → Response → Prop) (h a : List Event) : Prop where
  childwise : Guarded (Childwise S heard) a
  inOrder : Guarded (InOrder S) a
  increasing : (stepsOf a).Pairwise (· < ·)
  late : ∀ m ∈ stepsOf a, startStep S.input ≤ m
  distinguished : Guarded (fun b e => Distinguished S (h ++ b) e) a

/-- Each sub-agent was started for a request of an earlier first pass, in one of
these steps. -/
def Attributed (workflowId : String) (steps : Nat → Prop) (h : List Event) : Prop :=
  ∀ call, Event.subagentStarted call ∈ h → ∃ b outputs c key, h = b ++ .collected .scheduled outputs :: c ∧
    key ∈ requestKeys outputs ∧ steps (currentStep b) ∧
      call.id = childId workflowId (agentName (currentStep b) key)

/-- Each subgraph was started under the name of its node. -/
def NamedAfter (workflowId : String) (h : List Event) : Prop :=
  ∀ node call, Event.subgraphStarted node call ∈ h → call.id = childId workflowId node

section Orderly

variable {heard : Request → Response → Prop} {b : List Event} {node : String} {call : ChildCall}

theorem stepsOf_append (a b : List Event) : stepsOf (a ++ b) = stepsOf a ++ stepsOf b :=
  List.filterMap_append

theorem guarded_front {P : List Event → Event → Prop} (guarded : Guarded P (a ++ b)) : Guarded P a :=
  (guarded_append.mp guarded).1

theorem Orderly.front (orderly : Orderly S heard h (a ++ b)) : Orderly S heard h a where
  childwise := guarded_front orderly.childwise
  inOrder := guarded_front orderly.inOrder
  increasing := by
    have all := orderly.increasing
    rw [stepsOf_append] at all
    exact (List.pairwise_append.mp all).1
  late m mem := orderly.late m (by rw [stepsOf_append]; exact List.mem_append_left _ mem)
  distinguished := guarded_front orderly.distinguished

/-- The first pass that asks for the next sub-agent. -/
theorem Orderly.requested (orderly : Orderly S heard h (a ++ [.subagentStarted call])) :
    scheduledTasks a ≠ [] ∧ ∃ key ∈ requestKeys (firstPass a),
      call.id = childId S.env.workflowId (agentName (currentStep a) key) := by
  refine ⟨orderly.inOrder.last, ?_⟩
  have due : subagentsIn (superstepOf a) ++ [call] <+: (firstPass a).flatMap (requestCalls S (currentStep a)) :=
    orderly.childwise.last
  have mem : call.id ∈ ((firstPass a).flatMap (requestCalls S (currentStep a))).map ChildCall.id :=
    List.mem_map_of_mem (due.subset (by simp))
  rw [requestCalls_ids] at mem
  obtain ⟨key, requested, same⟩ := List.mem_map.mp mem
  exact ⟨key, requested, same.symm⟩

theorem firstPass_ne_nil {key : String × Nat} (requested : key ∈ requestKeys (firstPass a)) :
    firstPass a ≠ [] := by
  intro none
  rw [none] at requested
  cases requested

theorem Orderly.attributed (orderly : Orderly S heard h a)
    (before : Attributed S.env.workflowId (· < startStep S.input) h) :
    Attributed S.env.workflowId (fun m => m < startStep S.input ∨ m ∈ stepsOf a) (h ++ a) := by
  intro call mem
  rcases List.mem_append.mp mem with earlier | here
  · obtain ⟨b, outputs, c, key, rfl, requested, below, same⟩ := before call earlier
    exact ⟨b, outputs, c ++ a, key, by simp, requested, .inl below, same⟩
  · obtain ⟨front, rest, rfl⟩ := List.append_of_mem here
    rw [List.append_cons] at orderly
    obtain ⟨tasks, key, requested, same⟩ := orderly.front.requested
    obtain ⟨b, c, split, begun, step, -⟩ := collected_split tasks (firstPass_ne_nil requested)
    refine ⟨h ++ b, firstPass front, c ++ .subagentStarted call :: rest, key, ?_, requested, .inr ?_, ?_⟩
    · conv_lhs => rw [split]
      simp
    · rw [currentStep_append begun, step, stepsOf_append]
      exact List.mem_append_left _ (currentStep_mem tasks)
    · rw [currentStep_append begun, step]
      exact same

theorem Orderly.namedAfter (orderly : Orderly S heard h a) (before : NamedAfter S.env.workflowId h) :
    NamedAfter S.env.workflowId (h ++ a) := by
  intro node call mem
  rcases List.mem_append.mp mem with earlier | here
  · exact before node call earlier
  · obtain ⟨front, starts⟩ := orderly.inOrder.of_mem here
    exact starts.1

/-- While a superstep has collected nothing, it starts no sub-agents. -/
theorem subagentsIn_uncollected (childwise : Guarded (Childwise S heard) a)
    (none : collectedIn (superstepOf a) = []) : subagentsIn (superstepOf a) = [] := by
  induction a using List.reverseRecOn with
  | nil => rfl
  | append_singleton a e ih =>
      cases begins : isScheduled e with
      | true =>
          unfold superstepOf
          rw [since_snoc_of begins]
          rfl
      | false =>
          rw [superstepOf_snoc begins] at none ⊢
          have before : collectedIn (superstepOf a) = [] := by
            unfold collectedIn at none ⊢
            rw [List.filterMap_append] at none
            exact (List.append_eq_nil_iff.mp none).1
          rw [subagentsIn_append, ih childwise.front before]
          cases e with
          | subagentStarted call =>
              have due : subagentsIn (superstepOf a) ++ [call] <+:
                  (firstPass a).flatMap (requestCalls S (currentStep a)) := childwise.last
              unfold firstPass at due
              rw [before, List.foldl_nil, List.flatMap_nil, List.prefix_nil] at due
              simp at due
          | _ => rfl

/-- After a superstep has collected something, it starts no subgraphs. -/
theorem subgraphsIn_collected {route : Route} {outputs : List NodeActivityOutput}
    (inOrder : Guarded (InOrder S) (a ++ .collected route outputs :: b))
    (inside : ∀ e ∈ b, isScheduled e = false) : subgraphsIn b = [] := by
  by_contra some
  obtain ⟨node, mem⟩ := List.exists_mem_of_ne_nil _ some
  obtain ⟨call, started⟩ := mem_subgraphsIn.mp mem
  obtain ⟨c, d, rfl⟩ := List.append_of_mem started
  obtain ⟨-, early⟩ := inOrder (a ++ .collected route outputs :: c) (.subgraphStarted node call) d (by simp)
  have within : superstepOf (a ++ .collected route outputs :: c) =
      superstepOf a ++ .collected route outputs :: c := by
    refine since_append fun e mem => ?_
    rcases List.mem_cons.mp mem with rfl | mem
    · rfl
    · exact inside e (List.mem_append_left _ mem)
  have collected : (route, outputs) ∈ collectedIn (superstepOf (a ++ .collected route outputs :: c)) := by
    rw [within, mem_collectedIn]
    simp
  rw [early] at collected
  cases collected

/-- What came before the superstep was in order too. -/
theorem Orderly.earlier {front : List Event} (orderly : Orderly S heard h a)
    (begins : a = front ++ .scheduled (currentStep a) (scheduledTasks a) :: superstepOf a) :
    Orderly S heard h front := by
  rw [begins] at orderly
  exact orderly.front

/-- The superstep is later than all before it. -/
theorem Orderly.step_late {front : List Event} (orderly : Orderly S heard h a)
    (begins : a = front ++ .scheduled (currentStep a) (scheduledTasks a) :: superstepOf a) {m : Nat}
    (before : m < startStep S.input ∨ m ∈ stepsOf front) : m < currentStep a := by
  rw [begins] at orderly
  have increasing := orderly.increasing
  have late := orderly.late
  rw [stepsOf_append] at increasing late
  rcases before with below | old
  · exact Nat.lt_of_lt_of_le below (late _ (by simp [stepsOf]))
  · exact (List.pairwise_append.mp increasing).2.2 m old (currentStep a) (by simp [stepsOf])

/-- The node of the next subgraph is scheduled, and is not among those that the
superstep has started if it is scheduled once. -/
theorem Orderly.due_subgraph (orderly : Orderly S heard h (a ++ [.subgraphStarted node call])) :
    node ∈ subgraphNodes S.graph (scheduledTasks a) ∧
      ((subgraphNodes S.graph (scheduledTasks a)).Nodup → node ∉ subgraphsIn (superstepOf a)) := by
  have due : subgraphsIn (superstepOf a) ++ [node] <+: subgraphNodes S.graph (sortTasks (scheduledTasks a)) :=
    orderly.childwise.last
  have sorted : (sortTasks (scheduledTasks a)).Perm (scheduledTasks a) := List.perm_insertionSort _ _
  have nodes : (subgraphNodes S.graph (sortTasks (scheduledTasks a))).Perm
      (subgraphNodes S.graph (scheduledTasks a)) := (sorted.filter _).map _
  refine ⟨nodes.subset (due.subset (by simp)), fun distinct again => ?_⟩
  have all := (nodes.nodup_iff.mpr distinct).sublist due.sublist
  exact (List.nodup_append.mp all).2.2 node again node (by simp) rfl

/-- The sub-agents that the superstep has started have other ids than the next, if
its requests have different keys. -/
theorem Orderly.due_subagent (orderly : Orderly S heard h (a ++ [.subagentStarted call]))
    (distinct : (requestKeys (firstPass a)).Nodup) {call' : ChildCall}
    (before : call' ∈ subagentsIn (superstepOf a)) : call'.id ≠ call.id := by
  have due : subagentsIn (superstepOf a) ++ [call] <+: (firstPass a).flatMap (requestCalls S (currentStep a)) :=
    orderly.childwise.last
  have ids : (((firstPass a).flatMap (requestCalls S (currentStep a))).map ChildCall.id).Nodup := by
    rw [requestCalls_ids]
    refine List.Nodup.map ?_ distinct
    intro k k' same
    exact (agentName_inj (childId_inj.mp same)).2
  have all := ids.sublist (due.map ChildCall.id).sublist
  rw [List.map_append] at all
  exact (List.nodup_append.mp all).2.2 call'.id (List.mem_map_of_mem before) call.id (by simp)

/-- A subgraph is started under a new id. -/
theorem Orderly.fresh_subgraph (orderly : Orderly S heard h (a ++ [.subgraphStarted node call]))
    (attributed : Attributed S.env.workflowId (· < startStep S.input) h)
    (named : NamedAfter S.env.workflowId h) : call.id ∉ childIds (h ++ a) := by
  obtain ⟨id, uncollected⟩ := orderly.inOrder.last
  obtain ⟨mem, once⟩ := orderly.due_subgraph
  have tasks : scheduledTasks a ≠ [] := by
    intro none
    rw [none] at mem
    cases mem
  obtain ⟨front, begins⟩ := scheduled_split tasks
  have earlier : h ++ a = (h ++ front ++ [.scheduled (currentStep a) (scheduledTasks a)]) ++ superstepOf a := by
    conv_lhs => rw [begins]
    simp
  have distinguished := orderly.front.distinguished
  have scheduled := distinguished front (.scheduled (currentStep a) (scheduledTasks a)) (superstepOf a) begins
  obtain ⟨distinct, new⟩ := scheduled
  obtain ⟨unstarted, unrequested⟩ := new node mem
  rw [id, mem_childIds]
  rintro ⟨e, before, started⟩
  cases e with
  | subgraphStarted other call' =>
      have same := orderly.front.namedAfter named other call' before
      have again : node = other := childId_inj.mp ((Option.some.inj started).symm.trans same)
      subst again
      have listed : node ∈ subgraphsIn (h ++ a) := mem_subgraphsIn.mpr ⟨call', before⟩
      rw [earlier, subgraphsIn_append, subgraphsIn_append] at listed
      rcases List.mem_append.mp listed with old | here
      · rcases List.mem_append.mp old with old | here
        · exact unstarted old
        · cases here
      · exact once distinct here
  | subagentStarted call' =>
      have listed : call' ∈ subagentsIn (h ++ a) := mem_subagentsIn.mpr before
      rw [earlier, subagentsIn_append, subagentsIn_uncollected orderly.front.childwise uncollected,
        List.append_nil, subagentsIn_append] at listed
      rcases List.mem_append.mp listed with old | here
      · have prior := orderly.front.earlier begins
        obtain ⟨b, outputs, c, key, split, requested, -, same⟩ :=
          prior.attributed attributed call' (mem_subagentsIn.mp old)
        have again := childId_inj.mp ((Option.some.inj started).symm.trans same)
        refine unrequested ?_
        rw [again, split]
        exact mem_agentNames requested
      · cases here
  | _ => cases started

/-- No subgraph that has been started has the id of a sub-agent that starts. -/
theorem Orderly.subagent_ne_subgraph {other : String} {call' : ChildCall}
    (orderly : Orderly S heard h (a ++ [.subagentStarted call])) (named : NamedAfter S.env.workflowId h)
    (before : Event.subgraphStarted other call' ∈ h ++ a) : call'.id ≠ call.id := by
  intro started
  obtain ⟨tasks, key, requested, id⟩ := orderly.requested
  obtain ⟨b, c, collects, begun, step, inside⟩ := collected_split tasks (firstPass_ne_nil requested)
  obtain ⟨-, unstarted⟩ := orderly.front.distinguished b (.collected .scheduled (firstPass a)) c collects
  rw [currentStep_append begun, step] at unstarted
  have same := orderly.front.namedAfter named other call' before
  have name : agentName (currentStep a) key = other :=
    childId_inj.mp (id.symm.trans (started.symm.trans same))
  have listed : other ∈ subgraphsIn (h ++ a) := mem_subgraphsIn.mpr ⟨call', before⟩
  have inOrder := orderly.front.inOrder
  rw [collects] at inOrder
  have none := subgraphsIn_collected inOrder inside
  have whole : h ++ a = (h ++ b) ++ [.collected .scheduled (firstPass a)] ++ c := by
    conv_lhs => rw [collects]
    simp
  rw [whole, subgraphsIn_append, none, List.append_nil, subgraphsIn_append] at listed
  rcases List.mem_append.mp listed with old | here
  · rw [← name] at old
    exact unstarted key requested old
  · cases here

/-- Nor has another sub-agent: one of an earlier step has another step in its
name, one of this step another key. -/
theorem Orderly.subagent_ne_subagent {call' : ChildCall}
    (orderly : Orderly S heard h (a ++ [.subagentStarted call]))
    (attributed : Attributed S.env.workflowId (· < startStep S.input) h)
    (before : Event.subagentStarted call' ∈ h ++ a) : call'.id ≠ call.id := by
  intro same
  obtain ⟨tasks, key, requested, id⟩ := orderly.requested
  obtain ⟨front, begins⟩ := scheduled_split tasks
  obtain ⟨b, c, collects, -⟩ := collected_split tasks (firstPass_ne_nil requested)
  obtain ⟨distinct, -⟩ := orderly.front.distinguished b (.collected .scheduled (firstPass a)) c collects
  have listed : call' ∈ subagentsIn (h ++ a) := mem_subagentsIn.mpr before
  have earlier : h ++ a =
      (h ++ front) ++ ([.scheduled (currentStep a) (scheduledTasks a)] ++ superstepOf a) := by
    conv_lhs => rw [begins]
    simp
  rw [earlier, subagentsIn_append] at listed
  rcases List.mem_append.mp listed with old | here
  · obtain ⟨b', outputs, c', key', -, -, below, attributed'⟩ :=
      (orderly.front.earlier begins).attributed attributed call' (mem_subagentsIn.mp old)
    obtain ⟨steps, -⟩ := agentName_inj (childId_inj.mp (attributed'.symm.trans (same.trans id)))
    have smaller := orderly.front.step_late begins below
    omega
  · rw [subagentsIn_append] at here
    rcases List.mem_append.mp here with none | here
    · cases none
    · exact orderly.due_subagent distinct here same

/-- A sub-agent is started under a new id. -/
theorem Orderly.fresh_subagent (orderly : Orderly S heard h (a ++ [.subagentStarted call]))
    (attributed : Attributed S.env.workflowId (· < startStep S.input) h)
    (named : NamedAfter S.env.workflowId h) : call.id ∉ childIds (h ++ a) := by
  rw [mem_childIds]
  rintro ⟨e, before, started⟩
  cases e with
  | subgraphStarted other call' =>
      exact orderly.subagent_ne_subgraph named before (Option.some.inj started)
  | subagentStarted call' =>
      exact orderly.subagent_ne_subagent attributed before (Option.some.inj started)
  | _ => cases started

theorem Orderly.distinct (orderly : Orderly S heard h a)
    (attributed : Attributed S.env.workflowId (· < startStep S.input) h)
    (named : NamedAfter S.env.workflowId h) (before : (childIds h).Nodup) : (childIds (h ++ a)).Nodup := by
  induction a using List.reverseRecOn with
  | nil =>
      rw [List.append_nil]
      exact before
  | append_singleton a e ih =>
      have here := ih orderly.front
      rw [← List.append_assoc, childIds_append, List.nodup_append]
      cases started : startedId e with
      | none =>
          have none : childIds [e] = [] := by simp [childIds, started]
          rw [none]
          exact ⟨here, List.nodup_nil, by simp⟩
      | some id =>
          have one : childIds [e] = [id] := by simp [childIds, started]
          rw [one]
          refine ⟨here, List.nodup_singleton id, ?_⟩
          rintro old mem new last rfl
          rw [List.mem_singleton.mp last] at mem
          cases e with
          | subgraphStarted node call =>
              cases started
              exact orderly.fresh_subgraph attributed named mem
          | subagentStarted call =>
              cases started
              exact orderly.fresh_subagent attributed named mem
          | _ => cases started

end Orderly

/-! ## All runs of an execution -/

theorem executionHistory_orderly {threshold : Option Nat} {uuids : Nat → String} {arrived : List Signal}
    {script : List (Action Response Signal)}
    (meets : DistinguishedRun S h (executionHistory S threshold uuids arrived script)) :
    Orderly S (fun q r => (q, r) ∈ executionTranscript S threshold uuids arrived script) h
      (executionHistory S threshold uuids arrived script) := by
  obtain ⟨count, -, steps⟩ := executionHistory_numbered (S := S) threshold uuids arrived script
  refine ⟨executionHistory_childwise S threshold uuids arrived script,
    executionHistory_inOrder S threshold uuids arrived script, ?_, ?_, meets⟩
  · rw [steps]
    exact List.pairwise_lt_range'
  · rw [steps]
    intro m mem
    exact (List.mem_range'_1.mp mem).1

/-- What the runs before one leave behind. -/
structure Catalogued (S : Setting Chan) (h : List Event) : Prop where
  distinct : (childIds h).Nodup
  named : NamedAfter S.env.workflowId h
  attributed : Attributed S.env.workflowId (· < startStep S.input) h

theorem catalogued_of_continuedWith {threshold : Option Nat} {first : Setting Chan}
    (runs : ContinuedWith threshold DistinguishedRun first h S) : Catalogued S h := by
  induction runs with
  | start => exact ⟨List.nodup_nil, fun _ _ mem => absurd mem List.not_mem_nil,
      fun _ mem => absurd mem List.not_mem_nil⟩
  | @next S S' h uuids arrived script rest w before continued named meets ih =>
      obtain ⟨history, ends⟩ := continued_ends continued
      obtain ⟨count, steps, start⟩ := startStep_continued ends
      rw [← history] at meets steps ⊢
      have orderly := executionHistory_orderly meets
      have distinct := orderly.distinct ih.attributed ih.named ih.distinct
      have names := orderly.namedAfter ih.named
      have attributed := orderly.attributed ih.attributed
      rw [← named] at names attributed
      refine ⟨distinct, names, fun call mem => ?_⟩
      obtain ⟨b, outputs, c, key, split, requested, below, same⟩ := attributed call mem
      refine ⟨b, outputs, c, key, split, requested, ?_, same⟩
      show currentStep b < startStep S'.input
      rw [start]
      rcases below with below | here
      · omega
      · rw [steps] at here
        exact (List.mem_range'_1.mp here).2

/-- **No two children have the same id.** In an execution all of whose steps, over
all its runs, are distinguished, each child is started with an id of its own. -/
theorem child_ids_distinct {threshold : Option Nat} {first : Setting Chan}
    (runs : ContinuedWith threshold DistinguishedRun first h S) (uuids : Nat → String) (arrived : List Signal)
    (script : List (Action Response Signal))
    (meets : DistinguishedRun S h (executionHistory S threshold uuids arrived script)) :
    (childIds (h ++ executionHistory S threshold uuids arrived script)).Nodup := by
  have before : Catalogued S h := catalogued_of_continuedWith runs
  exact (executionHistory_orderly meets).distinct before.attributed before.named before.distinct

section Runs

open Reference

/-- A node that triggers itself. -/
def recurrentSetting : Setting Channel := setting [("agent", ["in", branchTo "agent"])] none none

/-- It asks for a sub-agent each time. -/
def recurrentScript : List (Action Response Signal) :=
  [.answer 0 (.output (delegating (pulled "agent" [(branchTo "agent", .none)]))),
    .answer 0 (.childOutput ⟨Dict.ofList [("messages", .list [.str "found"])], 1⟩)]

/-- What the first run comes to. -/
def recurrentOutcome : RunOutcome Channel :=
  replayExecution recurrentSetting (some 1) (fun _ => "") [] recurrentScript

/-- The run that follows it. -/
def laterSetting : Setting Channel where
  env := recurrentSetting.env
  graph := recurrentSetting.graph
  input :=
    match recurrentOutcome with
    | .done (.continueAsNew next) _ _ => next
    | _ => recurrentSetting.input
  registered := rfl

def recurrentHistory : List Event := historyOf recurrentOutcome

def laterHistory : List Event := executionHistory laterSetting (some 1) (fun _ => "") [] recurrentScript

example : childIds (recurrentHistory ++ laterHistory) =
    ["workflow/subagent/researcher/0_0", "workflow/subagent/researcher/1_0"] := by decide

theorem recurrent_runs :
    ContinuedWith (some 1) DistinguishedRun recurrentSetting recurrentHistory laterSetting := by
  have meets : DistinguishedRun recurrentSetting [] recurrentHistory := by decide
  have continued : ∃ rest w, replayExecution recurrentSetting (some 1) (fun _ => "") [] recurrentScript =
      .done (.continueAsNew laterSetting.input) rest w ∧ w.history = recurrentHistory := ⟨_, _, rfl, rfl⟩
  obtain ⟨rest, w, ended, same⟩ := continued
  rw [← same] at meets ⊢
  exact .next .start ended rfl meets

theorem child_ids_distinct_recurrentScript : (childIds (recurrentHistory ++ laterHistory)).Nodup :=
  child_ids_distinct recurrent_runs (fun _ => "") [] recurrentScript (by decide)

/-- The child of `sub` writes to the channel that triggers it. -/
def againScript : List (Action Response Signal) := [.answer 0 (.childOutput ⟨Dict.ofList [("in", .int 1)], 1⟩)]

/-- **A node that is scheduled again starts its child under the same id.** -/
theorem scheduled_again_same_id :
    ¬(childIds (executionHistory (outerSetting false) none (fun _ => "") [] againScript)).Nodup := by
  decide

/-- So do two results with one request each. -/
example : childIds (executionHistory (setting [("agent", ["in"]), ("worker", ["in"])] none none) none
    (fun _ => "") [] [.answer 0 (.output (delegating (pulled "agent" []))),
      .answer 0 (.output (delegating (pulled "worker" []))),
      .answer 0 (.childOutput ⟨Dict.ofList [("messages", .list [.str "found"])], 1⟩)]) =
    ["workflow/subagent/researcher/0_0", "workflow/subagent/researcher/0_0"] := by
  decide

end Runs

end LanggraphTemporal.Properties
