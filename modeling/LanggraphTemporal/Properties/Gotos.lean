/-
# Properties.Gotos -- a goto that travels twice

A `Command` with an update goes through the writers of its node, which turn its
goto list into Sends and writes to branch channels; and the workflow reads the
goto list once more from the output.  So the targets of the list are executed in
three places: with the Sends and with the gotos of the superstep, and by the
superstep that follows, which may be that of the next run.  Which of them an
element gets to is decided by the pass that its output was collected in: the
Sends of a Send task are not extracted, and neither is anything of a goto task.
`goto_once_iff` counts the executions.
-/
import LanggraphTemporal.Machine.Triggers
import LanggraphTemporal.Properties.Dispatch

namespace LanggraphTemporal.Properties

set_option autoImplicit false

open Theory Theory.History Model Model.LangGraphWorkflow Machine

variable {Chan : Type}

/-! ## What the activity returns -/

def GotoElement.isEnd : GotoElement → Bool
  | .name node => node = END
  | .send _ _ => false

def GotoElement.isSend : GotoElement → Bool
  | .name _ => false
  | .send _ _ => true

/-- The elements of a goto list other than `END`. -/
def targetsOf (gs : List GotoElement) : List GotoElement := gs.filter fun g => !g.isEnd

def sendsIn (gs : List GotoElement) : List GotoElement := (targetsOf gs).filter GotoElement.isSend

/-- What the writers of a `StateGraph` node make of an element: a Send, or a write
to the branch channel of a name. -/
inductive GotoWrite : GotoElement → String × PyVal → Prop
  | name (node : String) (v : PyVal) : GotoWrite (.name node) (branchTo node, v)
  | send (node : String) (arg : PyVal) : GotoWrite (.send node arg) (TASKS, .send node arg)

/-- `r` is what the activity returns for a node whose result is a `Command` with
an update and the goto list `gs`. Its writers write once for each element other
than `END`; `own` is what they and the node write before that. -/
def ReturnsGoto (G : Pregel Chan) (gs : List GotoElement) (own : List (String × PyVal))
    (r : NodeActivityOutput) : Prop :=
  ∃ (untracked : Chan → Bool) (graph : GraphCode) (input : NodeActivityInput) (code : NodeCode)
    (run : NodeRun) (c : CommandData) (gotos others : List (String × PyVal)),
    graph.nodes input.nodeName = some code ∧
      code.ainvoke (Activities.nodeInput input) input.inputState (input.resumeValues.getD []) = run ∧
      run.outcome = .returned (.command c) ∧ c.update.isNone = false ∧
      c.goto = (Goto.list gs).val ∧
      Activities.runWriters input.inputState (.command c) code.writers run.sent =
        .ok (own ++ gotos ++ others) ∧
      List.Forall₂ GotoWrite (targetsOf gs) gotos ∧
      (∀ node chan, G.channels.get? (branchTo node) = some chan → untracked chan = false) ∧
      Activities.executeNodeImpl untracked G.channels graph input = .ok r

/-- The goto list, in the three places of the output that it gets to. -/
structure CarriesGoto (gs : List GotoElement) (own : List (String × PyVal)) (r : NodeActivityOutput) :
    Prop where
  settled : r.interrupted = false
  sends : ∃ others, r.pushSends =
    Activities.sendsOf own ++ (sendsIn gs).map (GotoElement.request id) ++ others
  names : ∀ node, GotoElement.name node ∈ targetsOf gs → ∃ v, (branchTo node, v) ∈ r.writes
  command : commandGotos r = gs.map (GotoElement.request id)

theorem branchTo_ne_tasks (node : String) : branchTo node ≠ TASKS := by
  intro same
  have first := congrArg (fun s => s.toList.head?) same
  simp [branchTo, TASKS] at first

/-- The Sends among the writes for a goto list are those of the list. -/
theorem sendsOf_gotos {gs : List GotoElement} {gotos : List (String × PyVal)}
    (writes : List.Forall₂ GotoWrite gs gotos) :
    Activities.sendsOf gotos = (gs.filter GotoElement.isSend).map (GotoElement.request id) := by
  unfold Activities.sendsOf
  induction writes with
  | nil => rfl
  | cons write _ ih =>
      cases write with
      | send node arg =>
          rw [List.filter_cons_of_pos rfl, List.map_cons, ← ih]
          rfl
      | name node v =>
          have other := branchTo_ne_tasks node
          cases v <;> simp [ih, GotoElement.isSend, other]

theorem carriesGoto_of_returns {G : Pregel Chan} {gs : List GotoElement} {own : List (String × PyVal)}
    {r : NodeActivityOutput} (returns : ReturnsGoto G gs own r) : CarriesGoto gs own r := by
  obtain ⟨untracked, graph, input, code, run, c, gotos, others, found, ran, outcome, update, goto, written,
    writes, tracked, executed⟩ := returns
  have command : ReturnsCommand graph input (Goto.list gs).val :=
    ⟨code, c, found, by rw [ran, outcome], goto⟩
  have decoded := decoded_of_returns preservesPayloads_id (show (Goto.list gs).Decoded from trivial) command executed
  rw [convertOutput_id, extractCommandGotos, List.flatMap_singleton] at decoded
  simp only [Activities.executeNodeImpl, found, ran, outcome, Activities.runsWriters, update, Bool.not_false,
    if_true, written] at executed
  cases executed
  refine ⟨rfl, ⟨Activities.sendsOf others, ?_⟩, fun node listed => ?_, decoded⟩
  · change Activities.sendsOf (own ++ gotos ++ others) = _
    rw [sendsIn, ← sendsOf_gotos writes]
    unfold Activities.sendsOf
    rw [List.filterMap_append, List.filterMap_append]
  · obtain ⟨w, mem, write⟩ := forall₂_mem_left writes listed
    cases write with
    | name _ v =>
        refine ⟨v, List.mem_filter.mpr ⟨List.mem_filter.mpr ⟨?_, ?_⟩, ?_⟩⟩
        · exact List.mem_append_left _ (List.mem_append_right _ mem)
        · simpa using branchTo_ne_tasks node
        · cases chan : G.channels.get? (branchTo node) with
          | none => rfl
          | some chan' => simp [tracked node chan' chan]

/-! ## The executions of its targets -/

/-- The outputs that a pass collects in `b`. -/
def passOutputs (route : Route) (b : List Event) : List NodeActivityOutput :=
  b.flatMap fun e =>
    match e with
    | .collected other outputs => if other = route then outputs else []
    | _ => []

/-- Where an output was collected in the superstep `b`. -/
structure CollectedAt (b : List Event) (r : NodeActivityOutput) where
  route : Route
  before : List Event
  front : List NodeActivityOutput
  back : List NodeActivityOutput
  later : List Event
  split : b = before ++ .collected route (front ++ r :: back) :: later

namespace CollectedAt

variable {b : List Event} {r : NodeActivityOutput} (place : CollectedAt b r)

/-- The outputs collected before it. -/
def earlier : List NodeActivityOutput := outputsIn place.before ++ place.front

theorem mem : Event.collected place.route (place.front ++ r :: place.back) ∈ b := by
  obtain ⟨route, before, front, back, later, rfl⟩ := place
  exact List.mem_append_right _ List.mem_cons_self

/-- The outputs of the executions of its Sends. The pass that collects them does
so in order, so they come after those for the Sends of earlier outputs, and for
its own. -/
def bySends (own : List (String × PyVal)) (gs : List GotoElement) : List NodeActivityOutput :=
  ((passOutputs .push place.later).drop
    ((extractPushSends place.earlier).length + (Activities.sendsOf own).length)).take (sendsIn gs).length

/-- The outputs of the executions of its goto list, other than those of `END`. -/
def byCommand (gs : List GotoElement) : List NodeActivityOutput :=
  (((passOutputs .goto place.later).drop (extractCommandGotos place.earlier).length).take
    gs.length).filter fun q => q.nodeName ≠ END

end CollectedAt

/-- Another superstep follows. -/
def SuperstepFollows (rest : List Event) : Prop := ∃ e ∈ rest, isScheduled e = true

/-- The tasks of the superstep that follows. -/
def nextTasks (rest : List Event) : List PregelTask :=
  match rest.find? isScheduled with
  | some (.scheduled _ tasks) => tasks
  | _ => []

def GotoElement.names (node : String) : GotoElement → Bool
  | .name node' => node' = node
  | .send _ _ => false

/-- The executions of named targets by the superstep that follows. -/
def byChannels (rest : List Event) (gs : List GotoElement) : List String :=
  ((nextTasks rest).map PregelTask.name).filter fun node => (targetsOf gs).any (GotoElement.names node)

/-- The executions are one for each element of the list other than `END`: `here`
are executed in the superstep itself, and `next` in the one that follows. -/
def OnceEach {b : List Event} {r : NodeActivityOutput} (place : CollectedAt b r) (rest : List Event)
    (own : List (String × PyVal)) (gs : List GotoElement) : Prop :=
  ∃ here next, (targetsOf gs).Perm (here ++ next) ∧
    List.Forall₂ (fun g q => RanSend b (g.request id) q) here
      (place.bySends own gs ++ place.byCommand gs) ∧
    List.Forall₂ (fun g node => g = .name node) next (byChannels rest gs)

/-- An element that is executed once, if it is from an output of this pass: a
Send of a Send task, a name of a goto task that a superstep follows, or a name of
another task that none follows. -/
def Once (route : Route) (rest : List Event) : GotoElement → Prop
  | .send _ _ => route = .push
  | .name _ => route = .goto ↔ SuperstepFollows rest

/-- An element of a goto list of this graph: a Send, `END`, or a node that is
triggered by its branch channel. -/
def Target (G : Pregel Chan) : GotoElement → Prop
  | .send node _ => node ≠ END
  | .name node => node = END ∨ ∃ n, G.nodes.get? node = some n ∧ branchTo node ∈ n.triggers ∧
      (G.channels.get? (branchTo node)).isSome = true

/-! ## In the superstep itself -/

theorem passOutputs_eq (route : Route) (b : List Event) :
    passOutputs route b = (collectedIn b).flatMap fun p => if p.1 = route then p.2 else [] := by
  induction b with
  | nil => rfl
  | cons e b ih =>
      unfold passOutputs collectedIn at *
      cases e <;> simp [ih]

/-- What a superstep collects before and after an output. -/
structure Surrounded {b : List Event} {r : NodeActivityOutput} (place : CollectedAt b r) (o : Outputs) :
    Prop where
  sends : place.route = .scheduled ∨ place.route = .resumed → passOutputs .push place.later = o.push ∧
    ∃ others, o.scheduled ++ o.resumed = place.earlier ++ r :: others
  noSends : place.route = .push ∨ place.route = .goto → passOutputs .push place.later = []
  gotos : place.route ≠ .goto → passOutputs .goto place.later = o.goto ∧
    ∃ others, o.scheduled ++ o.resumed ++ o.push = place.earlier ++ r :: others
  noGotos : place.route = .goto → passOutputs .goto place.later = []

theorem surrounded_of_course {h : List Event} {tasks : List PregelTask} {o : Outputs}
    (course : Course h tasks 5 o) {r : NodeActivityOutput} (place : CollectedAt (superstepOf h) r) :
    Surrounded place o := by
  obtain ⟨route, before, front, back, later, split⟩ := place
  have all := course.collected
  rw [split, collectedIn, List.filterMap_append, List.filterMap_cons] at all
  change collectedIn before ++ (route, front ++ r :: back) :: collectedIn later =
    [(.scheduled, o.scheduled), (.resumed, o.resumed), (.push, o.push), (.goto, o.goto)] at all
  have first := outputsIn_eq before
  generalize collectedIn before = listed at all first
  rcases listed with _ | ⟨x, _ | ⟨y, _ | ⟨z, more⟩⟩⟩
  all_goals simp only [List.nil_append, List.cons_append, List.cons.injEq, Prod.mk.injEq] at all
  · obtain ⟨⟨rfl, scheduled⟩, rest⟩ := all
    refine ⟨fun _ => ⟨?_, back ++ o.resumed, ?_⟩, by simp, fun _ => ⟨?_, back ++ o.resumed ++ o.push, ?_⟩,
      by simp⟩
    all_goals simp [passOutputs_eq, rest, CollectedAt.earlier, first, ← scheduled]
  · obtain ⟨rfl, ⟨rfl, resumed⟩, rest⟩ := all
    refine ⟨fun _ => ⟨?_, back, ?_⟩, by simp, fun _ => ⟨?_, back ++ o.push, ?_⟩, by simp⟩
    all_goals simp [passOutputs_eq, rest, CollectedAt.earlier, first, ← resumed]
  · obtain ⟨rfl, rfl, ⟨rfl, push⟩, rest⟩ := all
    refine ⟨by simp, fun _ => ?_, fun _ => ⟨?_, back, ?_⟩, by simp⟩
    all_goals simp [passOutputs_eq, rest, CollectedAt.earlier, first, ← push]
  · obtain ⟨rfl, rfl, rfl, last⟩ := all
    rcases List.append_eq_singleton_iff.mp last with ⟨-, last⟩ | ⟨-, none⟩
    · obtain ⟨here, rest⟩ := List.cons_eq_cons.mp last
      obtain ⟨rfl, -⟩ := Prod.mk.inj here
      refine ⟨by simp, fun _ => ?_, by simp, fun _ => ?_⟩
      all_goals simp [passOutputs_eq, rest]
    · cases none

/-- What corresponds to a part of a list is where that part is. -/
theorem forall₂_share {α β : Type} {R : α → β → Prop} {front share back : List α} {ys : List β}
    (all : List.Forall₂ R (front ++ share ++ back) ys) :
    List.Forall₂ R share ((ys.drop front.length).take share.length) := by
  have rest := List.forall₂_drop front.length all
  rw [List.append_assoc, List.drop_left] at rest
  have part := List.forall₂_take share.length rest
  rwa [List.take_left] at part

/-- What is executed of a goto list in the superstep of its output. -/
structure Shares {b : List Event} {r : NodeActivityOutput} (place : CollectedAt b r)
    (own : List (String × PyVal)) (gs : List GotoElement) : Prop where
  sends : place.route = .scheduled ∨ place.route = .resumed →
    List.Forall₂ (fun g q => RanSend b (g.request id) q) (sendsIn gs) (place.bySends own gs)
  noSends : place.route = .push ∨ place.route = .goto → place.bySends own gs = []
  gotos : place.route ≠ .goto →
    List.Forall₂ (fun g q => RanSend b (g.request id) q) (targetsOf gs) (place.byCommand gs)
  noGotos : place.route = .goto → place.byCommand gs = []

/-- An execution of an element is one of `END` if the element is. -/
theorem ranSend_end {G : Pregel Chan} {b : List Event} {g : GotoElement} {q : NodeActivityOutput}
    (target : Target G g) (ran : RanSend b (g.request id) q) : q.nodeName ≠ END ↔ g.isEnd = false := by
  rw [ran.name]
  cases g with
  | name node => simp [GotoElement.request, GotoElement.isEnd]
  | send node arg =>
      have other : node ≠ END := target
      simp [GotoElement.request, GotoElement.isEnd, other]

theorem shares_of_course {G : Pregel Chan} {h : List Event} {tasks : List PregelTask} {o : Outputs}
    (course : Course h tasks 5 o) {r : NodeActivityOutput} (place : CollectedAt (superstepOf h) r)
    {gs : List GotoElement} {own : List (String × PyVal)} (carries : CarriesGoto gs own r)
    (targets : ∀ g ∈ gs, Target G g) : Shares place own gs := by
  have around := surrounded_of_course course place
  obtain ⟨sends, gotos⟩ := extracted_of_course course
  refine ⟨fun early => ?_, fun late => ?_, fun early => ?_, fun late => ?_⟩
  · obtain ⟨pass, others, outputs⟩ := around.sends early
    obtain ⟨more, pushed⟩ := carries.sends
    have asked : extractPushSends o.settled =
        extractPushSends place.earlier ++ Activities.sendsOf own ++
            (sendsIn gs).map (GotoElement.request id) ++ (more ++ extractPushSends others) := by
      rw [sends, outputs, extractPushSends, List.flatMap_append, List.flatMap_cons, pushed]
      simp [extractPushSends]
    have ran := course.push (by decide)
    rw [asked] at ran
    have share := forall₂_share ran
    rw [List.length_append, List.length_map, ← pass] at share
    exact List.forall₂_map_left_iff.mp share
  · rw [CollectedAt.bySends, around.noSends late]
    simp
  · obtain ⟨pass, others, outputs⟩ := around.gotos early
    have asked : extractCommandGotos o.afterPush =
        extractCommandGotos place.earlier ++ gs.map (GotoElement.request id) ++
          extractCommandGotos others := by
      rw [gotos, outputs, extractCommandGotos, List.flatMap_append, List.flatMap_cons, carries.command]
      simp [extractCommandGotos]
    have ran := course.goto (by decide)
    rw [asked] at ran
    have share := forall₂_share ran
    rw [List.length_map, ← pass, List.forall₂_map_left_iff] at share
    -- the executions of `END` are left out on both sides
    have both := (List.forall₂_and_left gs _).mpr ⟨targets, share⟩
    refine (List.rel_filter (fun g q ran => ?_) both).imp fun g q ran => ran.2
    simpa using (ranSend_end ran.1 ran.2).symm
  · rw [CollectedAt.byCommand, around.noGotos late]
    simp

/-! ## In the superstep that follows -/

/-- What is executed of a goto list by the superstep that follows. -/
structure ScheduledAfter (rest : List Event) (gs : List GotoElement) : Prop where
  nodup : (byChannels rest gs).Nodup
  sound : ∀ node ∈ byChannels rest gs, SuperstepFollows rest ∧ GotoElement.name node ∈ targetsOf gs
  complete : SuperstepFollows rest → ∀ node, GotoElement.name node ∈ targetsOf gs → node ∈ byChannels rest gs

theorem names_iff {node : String} {g : GotoElement} : g.names node = true ↔ g = .name node := by
  cases g with
  | name node' => simp [GotoElement.names]
  | send node' arg => simp [GotoElement.names]

theorem mem_byChannels {rest : List Event} {gs : List GotoElement} {node : String} :
    node ∈ byChannels rest gs ↔
      node ∈ (nextTasks rest).map PregelTask.name ∧ GotoElement.name node ∈ targetsOf gs := by
  unfold byChannels
  rw [List.mem_filter, List.any_eq_true]
  refine and_congr_right fun _ => ⟨?_, fun listed => ⟨_, listed, names_iff.mpr rfl⟩⟩
  rintro ⟨g, listed, names⟩
  rwa [names_iff.mp names] at listed

/-- The superstep that follows is the first one scheduled. -/
theorem nextTasks_cases (rest : List Event) :
    (¬SuperstepFollows rest ∧ nextTasks rest = []) ∨
      ∃ c step tasks rest', nextTasks rest = tasks ∧ rest = c ++ .scheduled step tasks :: rest' ∧
        ∀ x ∈ c, isScheduled x = false := by
  cases first : rest.find? isScheduled with
  | none =>
      refine .inl ⟨?_, by simp [nextTasks, first]⟩
      rintro ⟨e, mem, scheduled⟩
      exact List.find?_eq_none.mp first e mem scheduled
  | some e =>
      obtain ⟨scheduled, c, rest', split, before⟩ := List.find?_eq_some_iff_append.mp first
      cases e with
      | scheduled step tasks =>
          exact .inr ⟨c, step, tasks, rest', by simp [nextTasks, first], split,
            fun x mem => by simpa using before x mem⟩
      | _ => cases scheduled

theorem scheduledAfter_of_written {G : Pregel Chan} {h a rest : List Event} {d : Event} {r : NodeActivityOutput}
    {gs : List GotoElement} {own : List (String × PyVal)} (schedules : Guarded (SchedulesWritten G) h)
    (split : h = a ++ d :: rest) (carries : CarriesGoto gs own r) (targets : ∀ g ∈ gs, Target G g)
    (written : r.writes ≠ [] → ∃ writes updated, d = .applied writes updated ∧
      ∃ t ∈ writes, r.writes <+: t.writes) : ScheduledAfter rest gs := by
  rcases nextTasks_cases rest with ⟨last, none⟩ | ⟨c, step, tasks, rest', same, follows, quiet⟩
  · have empty : byChannels rest gs = [] := by
      unfold byChannels
      rw [none]
      rfl
    exact ⟨by rw [empty]; exact List.nodup_nil, by simp [empty], fun goesOn => absurd goesOn last⟩
  · have scheduled : h = (a ++ d :: c) ++ .scheduled step tasks :: rest' := by
      rw [split, List.append_assoc, List.cons_append, ← follows]
    obtain ⟨once, all⟩ := schedules _ _ _ scheduled step tasks rfl
    rw [← same] at once all
    refine ⟨once.filter _, fun node mem => ?_, fun _ node listed => ?_⟩
    · exact ⟨⟨.scheduled step tasks, by rw [follows]; simp, rfl⟩, (mem_byChannels.mp mem).2⟩
    · obtain ⟨v, write⟩ := carries.names node listed
      obtain ⟨writes, updated, rfl, t, task, pre⟩ := written (List.ne_nil_of_mem write)
      obtain ⟨inside, other⟩ := List.mem_filter.mp listed
      have named : node ≠ END := by simpa [GotoElement.isEnd] using other
      obtain ⟨n, found, trigger, there⟩ := (targets _ inside).resolve_left named
      refine mem_byChannels.mpr ⟨?_, listed⟩
      exact all writes ⟨a, updated, c, rfl, quiet⟩ t task _ (pre.subset write) node n rfl found trigger there

/-! ## The count -/

theorem forall₂_name_iff {gs : List GotoElement} {nodes : List String} :
    List.Forall₂ (fun g node => g = .name node) gs nodes ↔ gs = nodes.map GotoElement.name := by
  rw [← List.forall₂_eq_eq_eq, List.forall₂_map_right_iff]

/-- For the list of a goto task there are only the executions of the superstep that
follows. -/
theorem onceEach_of_goto {b : List Event} {r : NodeActivityOutput} {place : CollectedAt b r} {rest : List Event}
    {own : List (String × PyVal)} {gs : List GotoElement} (shares : Shares place own gs)
    (last : place.route = .goto) :
    OnceEach place rest own gs ↔ (targetsOf gs).Perm ((byChannels rest gs).map GotoElement.name) := by
  unfold OnceEach
  rw [shares.noSends (.inr last), shares.noGotos last]
  constructor
  · rintro ⟨here, next, perm, ran, scheduled⟩
    cases ran
    rwa [List.nil_append, forall₂_name_iff.mp scheduled] at perm
  · exact fun perm => ⟨[], _, perm, .nil, forall₂_name_iff.mpr rfl⟩

/-- For that of any other task, the gotos of its own superstep are enough. -/
theorem onceEach_of_early {b : List Event} {r : NodeActivityOutput} {place : CollectedAt b r} {rest : List Event}
    {own : List (String × PyVal)} {gs : List GotoElement} (shares : Shares place own gs)
    (early : place.route ≠ .goto) :
    OnceEach place rest own gs ↔ place.bySends own gs = [] ∧ byChannels rest gs = [] := by
  have gotos := shares.gotos early
  constructor
  · rintro ⟨here, next, perm, ran, scheduled⟩
    have count := perm.length_eq
    rw [List.length_append, ran.length_eq, scheduled.length_eq, List.length_append, gotos.length_eq] at count
    constructor
    · exact List.eq_nil_of_length_eq_zero (by omega)
    · exact List.eq_nil_of_length_eq_zero (by omega)
  · rintro ⟨noSends, silent⟩
    refine ⟨targetsOf gs, [], by rw [List.append_nil], ?_, ?_⟩
    · rwa [noSends, List.nil_append]
    · rw [silent]
      exact .nil

/-- No superstep follows for its names. -/
theorem byChannels_nil_iff {rest : List Event} {gs : List GotoElement} (follows : ScheduledAfter rest gs) :
    byChannels rest gs = [] ↔ ∀ node, GotoElement.name node ∈ targetsOf gs → ¬SuperstepFollows rest := by
  rw [List.eq_nil_iff_forall_not_mem]
  constructor
  · exact fun silent node listed goesOn => silent node (follows.complete goesOn node listed)
  · intro last node mem
    obtain ⟨goesOn, listed⟩ := follows.sound node mem
    exact last node listed goesOn

/-- Only a Send task has its Sends left for the gotos alone. -/
theorem bySends_nil_iff {b : List Event} {r : NodeActivityOutput} {place : CollectedAt b r}
    {own : List (String × PyVal)} {gs : List GotoElement} (shares : Shares place own gs)
    (early : place.route ≠ .goto) :
    place.bySends own gs = [] ↔ ∀ g ∈ sendsIn gs, place.route = .push := by
  cases route : place.route with
  | push => exact iff_of_true (shares.noSends (.inl route)) fun _ _ => rfl
  | goto => exact absurd route early
  | scheduled | resumed =>
      have sends := (shares.sends (by simp [route])).length_eq
      rw [← List.length_eq_zero_iff, ← sends, List.length_eq_zero_iff, List.eq_nil_iff_forall_not_mem]
      simp

/-- The superstep that follows executes each name once, however often it is listed. -/
theorem perm_byChannels_iff {rest : List Event} {gs : List GotoElement} (follows : ScheduledAfter rest gs) :
    (targetsOf gs).Perm ((byChannels rest gs).map GotoElement.name) ↔
      (∀ g ∈ targetsOf gs, Once .goto rest g) ∧ (targetsOf gs).Nodup := by
  have distinct : ((byChannels rest gs).map GotoElement.name).Nodup :=
    follows.nodup.map fun node node' same => GotoElement.name.inj same
  constructor
  · intro perm
    refine ⟨fun g listed => ?_, perm.nodup_iff.mpr distinct⟩
    obtain ⟨node, mem, rfl⟩ := List.mem_map.mp (perm.subset listed)
    exact iff_of_true rfl (follows.sound node mem).1
  · rintro ⟨once, nodup⟩
    refine (List.perm_ext_iff_of_nodup nodup distinct).mpr fun g => ⟨fun listed => ?_, fun mem => ?_⟩
    · cases g with
      | name node =>
          have goesOn : SuperstepFollows rest := (once _ listed).mp rfl
          exact List.mem_map_of_mem (follows.complete goesOn node listed)
      | send node arg => cases once _ listed
    · obtain ⟨node, scheduled, rfl⟩ := List.mem_map.mp mem
      exact (follows.sound node scheduled).2

/-- A list with as many executions as elements, each for one of them. -/
theorem onceEach_iff {b : List Event} {r : NodeActivityOutput} {place : CollectedAt b r} {rest : List Event}
    {own : List (String × PyVal)} {gs : List GotoElement} (shares : Shares place own gs)
    (follows : ScheduledAfter rest gs) :
    OnceEach place rest own gs ↔ (∀ g ∈ targetsOf gs, Once place.route rest g) ∧
      (place.route = .goto → (targetsOf gs).Nodup) := by
  by_cases last : place.route = .goto
  · rw [onceEach_of_goto shares last, perm_byChannels_iff follows, last, forall_prop_of_true rfl]
  rw [onceEach_of_early shares last, bySends_nil_iff shares last, byChannels_nil_iff follows]
  constructor
  · rintro ⟨sends, names⟩
    refine ⟨fun g listed => ?_, fun goto => absurd goto last⟩
    cases g with
    | name node => exact iff_of_false last (names node listed)
    | send node arg => exact sends _ (List.mem_filter.mpr ⟨listed, rfl⟩)
  · rintro ⟨once, -⟩
    refine ⟨fun g mem => ?_, fun node listed goesOn => last ((once _ listed).mpr goesOn)⟩
    obtain ⟨listed, isSend⟩ := List.mem_filter.mp mem
    cases g with
    | name node => cases isSend
    | send node arg => exact once _ listed

section Runs

open Reference

theorem reference_triggersBranches : TriggersBranches reference where
  schedules := reference_schedulesTriggered
  once := reference_schedulesOnce
  copies := reference_copiesVersions
  restores := reference_restoresBranches
  consistent := reference_keepsConsistent
  channels := reference_keepsChannels
  writes := reference_writesFresh
  keeps := reference_keepsFresh

/-- The writers of a `StateGraph` node, for a goto list. -/
def gotoWrites : PyVal → List (String × PyVal)
  | .list gs => gs.filterMap fun g =>
      match g with
      | .send node arg => some (TASKS, .send node arg)
      | .str node => if node = END then none else some (branchTo node, .none)
      | _ => none
  | _ => []

/-- A node that returns `Command(goto=gs, update={})`. -/
def gotoNode (gs : List GotoElement) : NodeCode where
  ainvoke _ _ _ := { outcome := .returned (.command ⟨(Goto.list gs).val, .dict [], .none⟩) }
  writers := [fun result _ =>
    match result with
    | .command c => .ok (gotoWrites c.goto)
    | .value _ => .ok []]

/-- `["b", Send("c", 1)]` -/
def twiceGoto : List GotoElement := [.name "b", .send "c" (.int 1)]

/-- What the activity of that node returns as the scheduled node `d`. -/
def gotoOutput : NodeActivityOutput :=
  { pulled "d" [(branchTo "b", .none)] with
    pushSends := [⟨"c", .int 1⟩]
    command := some ⟨.list [.str "b", .dict [("node", .str "c"), ("arg", .int 1)]], .dict [], .none⟩ }

theorem returnsGoto_gotoOutput : ReturnsGoto sendSetting.graph twiceGoto [] gotoOutput := by
  refine ⟨fun _ => false, { nodes := fun _ => some (gotoNode twiceGoto) },
    inputAt "d" [.str "__pregel_pull", .str "d"], gotoNode twiceGoto, _, _,
    [(branchTo "b", .none), (TASKS, .send "c" (.int 1))], [], rfl, rfl, rfl, rfl, rfl, rfl, ?_,
    fun _ _ _ => rfl, rfl⟩
  exact .cons (.name "b" .none) (.cons (.send "c" (.int 1)) .nil)

/-- `c` is executed as a Send and as a goto target, and `b` as a goto target and in
the superstep that follows. -/
def twiceScript : List (Action Response Signal) :=
  [.answer 0 (.output gotoOutput), .answer 0 (.output (pushed "c" [])),
    .answer 0 (.output (pushed "b" [])), .answer 0 (.output (pushed "c" []))]

/-- What a run that continues as new after that superstep comes to. -/
def twiceOutcome : RunOutcome Channel :=
  replayExecution sendSetting (some 1) (fun _ => "") [] twiceScript

def twiceHistory : List Event := historyOf twiceOutcome

/-- The run that follows it. -/
def followingSetting : Setting Channel where
  env := sendSetting.env
  graph := sendSetting.graph
  input :=
    match twiceOutcome with
    | .done (.continueAsNew next) _ _ => next
    | _ => sendSetting.input
  registered := rfl

def followingScript : List (Action Response Signal) := [.answer 0 (.output (pulled "b" []))]

def followingHistory : List Event :=
  executionHistory followingSetting (some 1) (fun _ => "") [] followingScript

theorem twice_runs :
    ContinuedWith (some 1) (RunOf reference sendSetting.graph) sendSetting twiceHistory
      followingSetting := by
  have continued : ∃ rest w, replayExecution sendSetting (some 1) (fun _ => "") [] twiceScript =
      .done (.continueAsNew followingSetting.input) rest w ∧ w.history = twiceHistory := ⟨_, _, rfl, rfl⟩
  obtain ⟨rest, w, ended, same⟩ := continued
  rw [← same]
  exact .next .start ended rfl ⟨rfl, rfl⟩

/-- Where the output of `d` is collected. -/
def twicePlace : CollectedAt (superstepOf (twiceHistory.take 10)) gotoOutput where
  route := .scheduled
  before := (twiceHistory.drop 1).take 1
  front := []
  back := []
  later := (twiceHistory.drop 3).take 7
  split := rfl

/-- What happens after that superstep has completed, in both runs. -/
def twiceRest : List Event := twiceHistory.drop 11 ++ followingHistory

example : twicePlace.bySends [] twiceGoto = [pushed "c" []] := rfl

example : twicePlace.byCommand twiceGoto = [pushed "b" [], pushed "c" []] := rfl

example : byChannels twiceRest twiceGoto = ["b"] := rfl

end Runs

end LanggraphTemporal.Properties
