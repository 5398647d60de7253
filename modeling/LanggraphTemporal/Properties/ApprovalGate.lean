/-
# Properties.ApprovalGate -- `interrupt_before` and `interrupt_after`

Both settings are checked against the tasks that `prepare_next_tasks` scheduled.
The nodes that a Send or a `Command.goto` starts in the same superstep are not
looked at, so a run keeps the gate as long as no such node is in a setting that
its superstep has not already paused for (`Ungated`).
-/
import LanggraphTemporal.Machine.Reference

namespace LanggraphTemporal.Properties

set_option autoImplicit false

open Theory Theory.History Model Model.LangGraphWorkflow Machine

variable {Chan : Type} {S : Setting Chan}

/-- Does the setting name this node? `"*"` names every node. -/
def covers (setting : Option InterruptNodes) (node : String) : Bool :=
  match setting with
  | none => false
  | some .all => true
  | some (.names ns) => ns.contains node

theorem interruptsAt_of_covers {setting : Option InterruptNodes} {tasks : List PregelTask}
    {t : PregelTask} (mem : t ∈ tasks) (covered : covers setting t.name = true) :
    interruptsAt setting tasks = true := by
  match setting with
  | none => cases covered
  | some .all => rfl
  | some (.names ns) =>
      have listed : t.name ∈ ns := by simpa [covers] using covered
      have truthy : ns ≠ [] := List.ne_nil_of_mem listed
      simp only [interruptsAt, InterruptNodes.truthy, shouldInterruptNodes, Bool.and_eq_true,
        Bool.not_eq_true', List.isEmpty_eq_false_iff, List.any_eq_true]
      exact ⟨truthy, t, mem, covered⟩

/-! ## The gate -/

/-- An entry that decides that `node` is going to be executed. -/
def decides (node : String) : Event → Prop
  | .scheduled _ tasks => ∃ t ∈ tasks, t.name = node
  | e => ∃ send ∈ requestsOf e, send.node = node

/-- The workflow has paused, received a resume signal and gone on. -/
def Approved (b : List Event) : Prop :=
  ∃ entries value values,
    [Event.paused entries, .received (.resume value), .resumed values].Sublist b

/-- The workflow has paused after the nodes of a superstep. -/
def PausedAfter (b : List Event) : Prop :=
  ∃ entries node, Event.paused entries ∈ b ∧ PendingInterrupt.after node ∈ entries

/-- What the two interrupt settings ask of a history: every start of a node in
`interrupt_before` has been approved since it was decided, by whichever route,
and every start of a node in `interrupt_after` is followed by a pause before the
next superstep. -/
structure ApprovalGate (S : Setting Chan) (h : List Event) : Prop where
  before : Guarded (fun a e => ∀ node, covers S.input.interruptBefore node = true → starts node e →
    After (fun d b => decides node d → Approved b) a) h
  after : Guarded (fun a e => isScheduled e = true →
    After (fun d b => ∀ node, covers S.input.interruptAfter node = true → starts node d →
      PausedAfter b) a) h

/-- No Send or goto of the entry is to a node in `interrupt_before`; and one to a
node in `interrupt_after` is in a superstep that has a scheduled node in it. -/
def Ungated (S : Setting Chan) (a : List Event) (e : Event) : Prop :=
  ∀ send ∈ requestsOf e, covers S.input.interruptBefore send.node = false ∧
    (covers S.input.interruptAfter send.node = true →
      ∃ t ∈ scheduledTasks a, covers S.input.interruptAfter t.name = true)

theorem Approved.snoc {b : List Event} (e : Event) (approved : Approved b) : Approved (b ++ [e]) := by
  obtain ⟨entries, value, values, sub⟩ := approved
  exact ⟨entries, value, values, sub.trans (List.sublist_append_left _ _)⟩

theorem PausedAfter.snoc {b : List Event} (e : Event) (paused : PausedAfter b) :
    PausedAfter (b ++ [e]) := by
  obtain ⟨entries, node, mem, listed⟩ := paused
  exact ⟨entries, node, List.mem_append_left _ mem, listed⟩

/-- Nothing is decided by an entry without tasks and requests. -/
theorem not_decides {node : String} {e : Event} (unscheduled : isScheduled e = false)
    (none : requestsOf e = []) : ¬decides node e := by
  cases e with
  | scheduled => cases unscheduled
  | _ =>
      rintro ⟨send, mem, -⟩
      rw [none] at mem
      cases mem

/-- What keeps the gate closed is decided by `moves` entries only. -/
theorem not_decides_of_stays {node : String} {e : Event} (stays : moves e = false) :
    ¬decides node e := by
  cases e with
  | scheduled | collected => cases stays
  | _ => exact not_decides rfl rfl

theorem not_starts_of_moves {node : String} {e : Event} (ends : moves e = true) : ¬starts node e := by
  cases e with
  | dispatched | subgraphStarted => cases ends
  | _ => exact id

/-! ## The invariant -/

/-- A pause has ended its approval of everything decided before it. -/
theorem approved_by_resume {h : List Event} {ph : Phase} {self : LangGraphWorkflow Chan}
    (resumes : Resumes ⟨h, ph, self⟩) (paused : ph.stage.resume.isSome = true)
    (event : self.resumeEvent = true) (node : String) :
    After (fun d b => decides node d → Approved b) (h ++ [.resumed self.resumeValues]) := by
  obtain ⟨a, split⟩ := resumes.last paused
  change h = a ++ .paused (pending ph) :: recent h at split
  have silent : ∀ x ∈ recent h, moves x = false := (since_spec h).1
  have since : sincePause h = recent h := by
    rw [split]
    refine (since_append_cons rfl fun x mem => ?_).trans (since_append_cons rfl fun x mem => ?_).symm
    · have stays := silent x mem
      cases x with
      | paused => cases stays
      | _ => rfl
    · exact silent x mem
  have some : resumeSignals (recent h) ≠ [] := by
    rw [← since]
    exact (resumes.event ⟨pending ph, by rw [split]; simp⟩).mp event
  obtain ⟨value, received⟩ := List.exists_mem_of_ne_nil _ some
  have signal : Event.received (.resume value) ∈ recent h := mem_resumeSignals.mp received
  have settled : Approved (.paused (pending ph) :: (recent h ++ [.resumed self.resumeValues])) := by
    refine ⟨pending ph, value, self.resumeValues, List.Sublist.cons_cons _ ?_⟩
    exact (List.singleton_sublist.mpr signal).append (List.Sublist.refl _)
  have block : h ++ [.resumed self.resumeValues] =
      a ++ .paused (pending ph) :: (recent h ++ [.resumed self.resumeValues]) := by
    rw [← List.cons_append, ← List.append_assoc, ← split]
  rw [block]
  refine after_append.mpr ⟨after_of_forall fun d _ x _ => ?_, after_of_forall fun d mem b decided => ?_⟩
  · obtain ⟨entries, value', values, sub⟩ := settled
    exact ⟨entries, value', values, sub.trans (List.sublist_append_right x _)⟩
  · rcases List.mem_cons.mp mem with rfl | mem
    · exact absurd decided (not_decides rfl rfl)
    · rcases List.mem_append.mp mem with old | new
      · exact absurd decided (not_decides_of_stays (silent d old))
      · rw [List.mem_singleton.mp new] at decided
        exact absurd decided (not_decides rfl rfl)

/-- The gate, with what it needs to know of the superstep that is going on. -/
structure Gate (S : Setting Chan) (c : Config Chan) : Prop where
  gate : ApprovalGate S c.history
  cleared : c.phase.stage ≠ .before → c.phase.stage ≠ .pausedBefore → ∀ node,
    covers S.input.interruptBefore node = true →
      After (fun d b => decides node d → Approved b) c.history
  closed : c.phase.stage = .ready ∨ c.phase.stage = .pausedAfter ∨ c.phase.stage = .closing ∨
      interruptsAt S.input.interruptAfter c.phase.tasks = false →
    After (fun d b => ∀ node, covers S.input.interruptAfter node = true → starts node d →
      PausedAfter b) c.history

/-- What a superstep starts, it has paused for or will pause after. -/
theorem not_starts_covered {ph : Phase} {h : List Event} {self self' : LangGraphWorkflow Chan}
    {e : Event} {o : Outputs} (works : Works S ph h self e self') (on : OnCourse h ph o)
    (tasks : scheduledTasks h = ph.tasks) (ungated : Guarded (Ungated S) h)
    (goes : interruptsAt S.input.interruptAfter ph.tasks = false) {node : String}
    (covered : covers S.input.interruptAfter node = true) : ¬starts node e := by
  intro start
  rcases works.started on start with ⟨t, task, rfl⟩ | ⟨send, rfl, e', mem, asked⟩
  · rw [interruptsAt_of_covers task covered] at goes
    cases goes
  · have same : ∀ a x, isScheduled x = false → scheduledTasks (a ++ [x]) = scheduledTasks a :=
      fun _ _ => scheduledTasks_snoc
    obtain ⟨a, held, tasks_eq⟩ := ungated.since same mem
    obtain ⟨t, task, coveredTask⟩ := (held send asked).2 covered
    rw [tasks_eq, tasks] at task
    rw [interruptsAt_of_covers task coveredTask] at goes
    cases goes

theorem Gate.work {h : List Event} {ph : Phase} {self self' : LangGraphWorkflow Chan} {e : Event}
    {o : Outputs} (held : Gate S ⟨h, ph, self⟩) (works : Works S ph h self e self')
    (facts : ph.stage ≠ .ready → OnCourse h ph o ∧ scheduledTasks h = ph.tasks)
    (ungated : Guarded (Ungated S) h) : Gate S ⟨h ++ [e], ph, self'⟩ := by
  have busy : ∀ node, starts node e → ph.stage.executes = true := fun _ => Works.executes works
  refine ⟨⟨held.gate.before.snoc fun node covered start => ?_,
    held.gate.after.snoc fun scheduled => ?_⟩, fun notBefore notPaused node covered => ?_,
    fun past => ?_⟩
  · have executes := busy node start
    refine held.cleared (fun stage => ?_) (fun stage => ?_) node covered
    all_goals
      change ph.stage = _ at stage
      rw [stage] at executes
      cases executes
  · rw [works.not_scheduled] at scheduled
    cases scheduled
  · exact (held.cleared notBefore notPaused node covered).snoc
      (fun d b approved decided => (approved decided).snoc e)
      fun decided => absurd decided (not_decides_of_stays works.not_moves)
  · refine (held.closed past).snoc (fun d b paused node covered start => (paused node covered start).snoc e) ?_
    intro node covered start
    have executes := busy node start
    change ph.stage = _ ∨ ph.stage = _ ∨ ph.stage = _ ∨ _ at past
    rcases past with stage | stage | stage | goes
    · rw [stage] at executes; cases executes
    · rw [stage] at executes; cases executes
    · rw [stage] at executes; cases executes
    · have notReady : ph.stage ≠ .ready := fun stage => by rw [stage] at executes; cases executes
      obtain ⟨on, tasks⟩ := facts notReady
      exact absurd start (not_starts_covered works on tasks ungated goes covered)

/-- An entry between two phases that the settings do not look at. -/
theorem Gate.snoc {h : List Event} {ph ph' : Phase} {self self' : LangGraphWorkflow Chan} {e : Event}
    (held : Gate S ⟨h, ph, self⟩) (ends : moves e = true)
    (opens : isScheduled e = true → ph.stage = .ready)
    (cleared : ph'.stage ≠ .before → ph'.stage ≠ .pausedBefore →
      ph.stage ≠ .before ∧ ph.stage ≠ .pausedBefore ∧
        ∀ node, covers S.input.interruptBefore node = true → ¬decides node e)
    (closed : (ph'.stage = .ready ∨ ph'.stage = .pausedAfter ∨ ph'.stage = .closing ∨
        interruptsAt S.input.interruptAfter ph'.tasks = false) →
      ph.stage = .ready ∨ ph.stage = .pausedAfter ∨ ph.stage = .closing ∨
        interruptsAt S.input.interruptAfter ph.tasks = false) :
    Gate S ⟨h ++ [e], ph', self'⟩ := by
  have quiet : ∀ node, ¬starts node e := fun _ => not_starts_of_moves ends
  refine ⟨⟨held.gate.before.snoc fun node _ start => absurd start (quiet node),
    held.gate.after.snoc fun scheduled => held.closed (.inl (opens scheduled))⟩,
    fun notBefore notPaused node covered => ?_, fun past => ?_⟩
  · obtain ⟨notBefore', notPaused', fresh⟩ := cleared notBefore notPaused
    exact (held.cleared notBefore' notPaused' node covered).snoc
      (fun d b approved decided => (approved decided).snoc e)
      fun decided => absurd decided (fresh node covered)
  · exact (held.closed (closed past)).snoc
      (fun d b paused node covered start => (paused node covered start).snoc e)
      fun node _ start => absurd start (quiet node)

/-- A superstep that closes without a pause has no node to pause after. -/
theorem goes_of_completed {ph : Phase}
    (past : (completed S ph).stage = .ready ∨ (completed S ph).stage = .pausedAfter ∨
      (completed S ph).stage = .closing ∨
        interruptsAt S.input.interruptAfter (completed S ph).tasks = false) :
    interruptsAt S.input.interruptAfter ph.tasks = false := by
  rcases completed_cases S ph with ⟨-, phase⟩ | ⟨goes, -⟩
  · rw [phase] at past
    rcases past with done | done | done | goes
    · cases done
    · cases done
    · cases done
    · exact goes
  · exact goes

/-- The pause after the nodes is what those in `interrupt_after` have waited for. -/
theorem Gate.pauseAfter {h : List Event} {ph : Phase} {self self' : LangGraphWorkflow Chan}
    (held : Gate S ⟨h, ph, self⟩) (stage : ph.stage = .after) (some : ph.tasks ≠ []) :
    Gate S ⟨h ++ [.paused (pending ph)], { ph with stage := .pausedAfter }, self'⟩ := by
  have quiet : ∀ node, ¬starts node (.paused (pending ph)) := fun _ => not_starts_of_moves rfl
  obtain ⟨here, tasks, results, state⟩ := ph
  cases stage
  obtain ⟨t, rest, rfl⟩ := List.exists_cons_of_ne_nil some
  refine ⟨⟨held.gate.before.snoc fun node _ start => absurd start (quiet node),
    held.gate.after.snoc nofun⟩, fun _ _ node covered => ?_, fun _ => ?_⟩
  · exact (held.cleared nofun nofun node covered).snoc
      (fun d b approved decided => (approved decided).snoc _)
      fun decided => absurd decided (not_decides rfl rfl)
  · refine after_append.mpr ⟨after_of_forall fun d _ x node _ _ => ?_,
      after_of_forall fun d mem b node _ start => ?_⟩
    · exact ⟨_, t.name, List.mem_append_right _ List.mem_cons_self, List.mem_cons_self⟩
    · rw [List.mem_singleton.mp mem] at start
      exact absurd start (quiet node)

theorem Gate.pause {h : List Event} {ph : Phase} {stage : Stage} {self self' : LangGraphWorkflow Chan}
    (held : Gate S ⟨h, ph, self⟩) (pause : ph.stage.pause = some stage)
    (tasks : ph.stage ≠ .ready → ph.tasks ≠ []) :
    Gate S ⟨h ++ [.paused (pending ph)], { ph with stage }, self'⟩ := by
  cases here : ph.stage with
  | before =>
      rw [here] at pause
      cases pause
      exact held.snoc rfl nofun (fun _ notPaused => absurd rfl notPaused) (by simp [here])
  | interrupted =>
      rw [here] at pause
      cases pause
      exact held.snoc rfl nofun (fun _ _ => ⟨by rw [here]; nofun, by rw [here]; nofun,
        fun node _ => not_decides rfl rfl⟩) (by simp [here])
  | after =>
      rw [here] at pause
      cases pause
      exact held.pauseAfter here (tasks (by rw [here]; nofun))
  | _ =>
      rw [here] at pause
      cases pause

/-- A resume approves what has been decided before the pause. -/
theorem Gate.resume {h : List Event} {ph : Phase} {stage : Stage} {self self' : LangGraphWorkflow Chan}
    (held : Gate S ⟨h, ph, self⟩) (resume : ph.stage.resume = some stage)
    (event : self.resumeEvent = true) (resumes : Resumes ⟨h, ph, self⟩) :
    Gate S ⟨h ++ [.resumed self.resumeValues], enter S stage ph.tasks ph.results self, self'⟩ := by
  have paused : ph.stage.resume.isSome = true := by rw [resume]; rfl
  have quiet : ∀ node, ¬starts node (.resumed self.resumeValues) := fun _ => not_starts_of_moves rfl
  refine ⟨⟨held.gate.before.snoc fun node _ start => absurd start (quiet node),
    held.gate.after.snoc nofun⟩, fun _ _ node _ => approved_by_resume resumes paused event node,
    fun past => ?_⟩
  refine (held.closed ?_).snoc (fun d b paused node covered start => (paused node covered start).snoc _)
    fun node _ start => absurd start (quiet node)
  obtain ⟨here, tasks, results, state⟩ := ph
  cases here with
  | pausedAfter => exact .inr (.inl rfl)
  | pausedBefore | pausedInside =>
      cases resume
      rcases past with stage | stage | stage | goes
      · cases stage
      · cases stage
      · cases stage
      · exact .inr (.inr (.inr goes))
  | _ => cases resume

/-- What is collected does not go around the gate. -/
theorem Gate.collect {h : List Event} {ph : Phase} {route : Route} {outputs : List NodeActivityOutput}
    {self self' : LangGraphWorkflow Chan} (held : Gate S ⟨h, ph, self⟩) (route_eq : ph.stage.route = some route)
    (ungated : Ungated S h (.collected route outputs)) :
    Gate S ⟨h ++ [.collected route outputs], collected S ph outputs self, self'⟩ := by
  have fresh : ∀ node, covers S.input.interruptBefore node = true →
      ¬decides node (.collected route outputs) := by
    rintro node covered ⟨send, asked, rfl⟩
    rw [(ungated send asked).1] at covered
    cases covered
  obtain ⟨here, tasks, results, state⟩ := ph
  cases here with
  | executing | resuming | pushing | going =>
      refine held.snoc rfl nofun (fun _ _ => ⟨nofun, nofun, fresh⟩) fun past => ?_
      exact .inr (.inr (.inr (by simpa [collected, enter] using past)))
  | _ => cases route_eq

theorem Gate.move {h : List Event} {ph ph' : Phase} {self self' : LangGraphWorkflow Chan} {e : Event}
    (held : Gate S ⟨h, ph, self⟩) (moves : Moves S h ph self e ph' self')
    (resumes : Resumes ⟨h, ph, self⟩) (tasks : ph.stage ≠ .ready → ph.tasks ≠ [])
    (ungated : Ungated S h e) : Gate S ⟨h ++ [e], ph', self'⟩ := by
  cases moves with
  | @schedule tasks stage below prepared some =>
      refine held.snoc rfl (fun _ => stage) (fun notBefore _ => ⟨?_, ?_, ?_⟩) (fun _ => .inl stage)
      · rw [stage]; nofun
      · rw [stage]; nofun
      · rintro node covered ⟨t, task, rfl⟩
        apply notBefore
        rcases opened_cases S tasks self with ⟨-, phase⟩ | ⟨goes, -⟩
        · rw [phase]
        · rw [interruptsAt_of_covers task covered] at goes
          cases goes
  | pause pause => exact held.pause pause tasks
  | resume resume event => exact held.resume resume event resumes
  | collect route_eq collects => exact held.collect route_eq ungated
  | @serve results stage serves =>
      refine held.snoc rfl nofun (fun _ _ => ⟨by rw [stage]; nofun, by rw [stage]; nofun, fun _ _ =>
        not_decides rfl rfl⟩) fun past => .inr (.inr (.inr ?_))
      rcases served_cases S ph.tasks results self with ⟨-, phase⟩ | ⟨-, phase⟩
      · simpa [phase, enter] using past
      · simpa [phase] using past
  | skip stage silent =>
      exact held.snoc rfl nofun (fun _ _ => ⟨by rw [stage]; nofun, by rw [stage]; nofun, fun _ _ =>
        not_decides rfl rfl⟩) fun past => .inr (.inr (.inr (goes_of_completed past)))
  | apply stage some applied =>
      exact held.snoc rfl nofun (fun _ _ => ⟨by rw [stage]; nofun, by rw [stage]; nofun, fun _ _ =>
        not_decides rfl rfl⟩) fun past => .inr (.inr (.inr (goes_of_completed past)))
  | advance stage =>
      exact held.snoc rfl nofun (fun _ _ => ⟨by rw [stage]; nofun, by rw [stage]; nofun, fun _ _ =>
        not_decides rfl rfl⟩) fun _ => .inr (.inr (.inl stage))

/-- Before the main loop there is nothing to gate. -/
theorem gate_of_early {c : Config Chan} (early : ∀ e ∈ c.history, preliminary e = true) : Gate S c := by
  have quiet : ∀ e ∈ c.history, ∀ node, ¬decides node e ∧ ¬starts node e ∧ isScheduled e = false := by
    intro e mem node
    have kind := early e mem
    cases e with
    | discovering | discovered | received => exact ⟨not_decides rfl rfl, id, rfl⟩
    | _ => cases kind
  have within : ∀ {a e c'}, c.history = a ++ e :: c' → e ∈ c.history := by
    intro a e c' split
    rw [split]
    simp
  refine ⟨⟨fun a e c' split node _ start => ?_, fun a e c' split scheduled => ?_⟩,
    fun _ _ node _ => after_of_forall fun d mem b decided => ?_,
    fun _ => after_of_forall fun d mem b node _ start => ?_⟩
  · exact absurd start (quiet e (within split) node).2.1
  · rw [(quiet e (within split) "").2.2] at scheduled
    cases scheduled
  · exact absurd decided (quiet d mem node).1
  · exact absurd start (quiet d mem node).2.1

theorem gate_invariant : (workflowMachine S).Invariant fun c =>
    Guarded (Ungated S) c.history → Gate S c where
  init c initial _ := gate_of_early initial.history
  step c d reachable held step ungated := by
    cases step with
    | @work h ph self self' e works =>
        have before := held ungated.front
        by_cases ready : ph.stage = .ready
        · exact before.work (o := {}) works (fun busy => absurd ready busy) ungated.front
        · obtain ⟨o, on⟩ := course_invariant.holds reachable ready
          exact before.work works
            (fun busy => ⟨on, (tasks_invariant.holds reachable busy).2⟩) ungated.front
    | move moves =>
        exact (held ungated.front).move moves (resumes_invariant.holds reachable)
          (fun busy => (tasks_invariant.holds reachable busy).1) ungated.last

/-- **The approval gate holds in every run whose Sends and gotos do not go around
it**, for every graph, every node behaviour and every order of signals. -/
theorem approvalGate_of_ungated (S : Setting Chan) (threshold : Option Nat) (uuids : Nat → String)
    (script : List (Action Response Signal))
    (ungated : Guarded (Ungated S) (runHistory S threshold uuids script)) :
    ApprovalGate S (runHistory S threshold uuids script) := by
  revert ungated
  refine runHistory_holds (P := fun h => Guarded (Ungated S) h → ApprovalGate S h) (fun h early _ => ?_)
    (fun c reachable ungated => (gate_invariant.holds reachable ungated).gate) threshold uuids script
  have start : Gate S ⟨h, { stage := .ready }, init S.env⟩ := gate_of_early early
  exact start.gate

/-! ## A gate that holds, and one that is gone around -/

section Runs

open Reference

/-- `d` leads to `b` by its branch channel; the run pauses after `d` and before `b`. -/
def gatedSetting : Setting Channel :=
  setting [("d", ["in"]), ("b", [branchTo "b"]), ("c", [branchTo "c"])] (some (.names ["b"]))
    (some (.names ["d"]))

/-- `d` also goes to `c`, which no setting names. -/
def gatedScript : List (Action Response Signal) :=
  [.answer 0 (.output (going (.list [.str "c"]) (pulled "d" [(branchTo "b", .none)]))),
    .answer 0 (.output (pushed "c" [])), .signals [.resume (.str "go on")],
    .signals [.resume (.str "approved")], .answer 0 (.output (pulled "b" [("x", .int 1)]))]

theorem approvalGate_gatedScript :
    ApprovalGate gatedSetting (runHistory gatedSetting none (fun _ => "") gatedScript) := by
  refine approvalGate_of_ungated gatedSetting none _ gatedScript (guarded_of_forall fun e mem a send asked => ?_)
  have ungated : (history gatedSetting gatedScript).all (fun e => (requestsOf e).all fun send =>
      !covers gatedSetting.input.interruptBefore send.node &&
        !covers gatedSetting.input.interruptAfter send.node) = true := by decide
  have here := List.all_eq_true.mp (List.all_eq_true.mp ungated e mem) send asked
  rw [Bool.and_eq_true, Bool.not_eq_true', Bool.not_eq_true'] at here
  refine ⟨here.1, fun covered => ?_⟩
  rw [here.2] at covered
  cases covered

/-- `b` is in `interrupt_before`. -/
def gotoSetting : Setting Channel :=
  setting [("d", ["in"]), ("b", [branchTo "b"])] (some (.names ["b"])) none

/-- `d` returns `Command(goto=["b"])`. -/
def gotoHistory : List Event :=
  history gotoSetting
    [.answer 0 (.output (going (.list [.str "b"]) (pulled "d" []))),
      .answer 0 (.output (pushed "b" [("x", .int 1)]))]

/-- **A goto to a node in `interrupt_before` is executed without a pause.** -/
theorem goto_goes_around_gate : ¬ApprovalGate gotoSetting gotoHistory := by
  intro gate
  have quiet : gotoHistory.all (fun e => !isPaused e) = true := by decide
  have started : starts "b" gotoHistory[6] := rfl
  have decided : decides "b" (gotoHistory.take 6)[2] := ⟨⟨"b", .none⟩, .head _, rfl⟩
  obtain ⟨entries, value, values, sub⟩ :=
    (gate.before.at 6 (by decide) "b" rfl started).at 2 (by decide) decided
  have paused : Event.paused entries ∈ gotoHistory :=
    List.mem_of_mem_take (List.mem_of_mem_drop (sub.subset List.mem_cons_self))
  have none := List.all_eq_true.mp quiet _ paused
  cases none

end Runs

end LanggraphTemporal.Properties
