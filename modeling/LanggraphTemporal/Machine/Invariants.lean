/-
# Machine.Invariants -- what every reachable configuration knows of its history

The main invariants of the machine.

* `pause_invariant`: in a pause, the last pause of the history is this one, and
  the resume values are those received since then.
* `tasks_invariant`: the tasks of a phase are the last ones scheduled.
* `pinned_invariant` and `sticks_invariant`: with worker affinity, the workflow is
  pinned to a worker whenever it is not searching for one, and that worker is the
  one found last.
* `course_invariant`: the results of a phase are made of the outputs collected
  since then, and each list of outputs answers the list of executions it was
  collected for (`Course`).
-/
import LanggraphTemporal.Machine.Execution

namespace LanggraphTemporal.Machine

set_option autoImplicit false

open Theory Model Model.LangGraphWorkflow

variable {Chan : Type} {S : Setting Chan}

/-! ## The phases that a condition chooses -/

theorem opened_cases (S : Setting Chan) (tasks : List PregelTask) (self : LangGraphWorkflow Chan) :
    interruptsAt S.input.interruptBefore tasks = true ∧
        opened S tasks self = { stage := .before, tasks := tasks } ∨
      interruptsAt S.input.interruptBefore tasks = false ∧
        opened S tasks self = enter S .executing tasks [] self := by
  unfold opened
  by_cases interrupts : interruptsAt S.input.interruptBefore tasks = true
  · exact .inl ⟨interrupts, if_pos interrupts⟩
  · exact .inr ⟨by simpa using interrupts, if_neg interrupts⟩

theorem served_cases (S : Setting Chan) (tasks : List PregelTask) (results : List NodeActivityOutput)
    (self : LangGraphWorkflow Chan) :
    interruptedOf results = [] ∧ served S tasks results self = enter S .resuming tasks results self ∨
      interruptedOf results ≠ [] ∧
        served S tasks results self = { stage := .interrupted, tasks := tasks, results := results } := by
  unfold served
  by_cases none : interruptedOf results = []
  · exact .inl ⟨none, if_pos (by rw [none]; rfl)⟩
  · exact .inr ⟨none, if_neg (by simpa using none)⟩

theorem completed_cases (S : Setting Chan) (ph : Phase) :
    interruptsAt S.input.interruptAfter ph.tasks = true ∧ completed S ph = { ph with stage := .after } ∨
      interruptsAt S.input.interruptAfter ph.tasks = false ∧
        completed S ph = { ph with stage := .closing } := by
  unfold completed
  by_cases interrupts : interruptsAt S.input.interruptAfter ph.tasks = true
  · exact .inl ⟨interrupts, if_pos interrupts⟩
  · exact .inr ⟨by simpa using interrupts, if_neg interrupts⟩

@[simp] theorem opened_tasks (tasks : List PregelTask) (self : LangGraphWorkflow Chan) :
    (opened S tasks self).tasks = tasks := by
  rcases opened_cases S tasks self with ⟨-, phase⟩ | ⟨-, phase⟩ <;> rw [phase]
  rfl

@[simp] theorem opened_results (tasks : List PregelTask) (self : LangGraphWorkflow Chan) :
    (opened S tasks self).results = [] := by
  rcases opened_cases S tasks self with ⟨-, phase⟩ | ⟨-, phase⟩ <;> rw [phase]
  rfl

@[simp] theorem served_tasks (tasks : List PregelTask) (results : List NodeActivityOutput)
    (self : LangGraphWorkflow Chan) : (served S tasks results self).tasks = tasks := by
  rcases served_cases S tasks results self with ⟨-, phase⟩ | ⟨-, phase⟩ <;> rw [phase]
  rfl

@[simp] theorem served_results (tasks : List PregelTask) (results : List NodeActivityOutput)
    (self : LangGraphWorkflow Chan) : (served S tasks results self).results = results := by
  rcases served_cases S tasks results self with ⟨-, phase⟩ | ⟨-, phase⟩ <;> rw [phase]
  rfl

@[simp] theorem completed_tasks (ph : Phase) : (completed S ph).tasks = ph.tasks := by
  rcases completed_cases S ph with ⟨-, phase⟩ | ⟨-, phase⟩ <;> rw [phase]

@[simp] theorem completed_results (ph : Phase) : (completed S ph).results = ph.results := by
  rcases completed_cases S ph with ⟨-, phase⟩ | ⟨-, phase⟩ <;> rw [phase]

@[simp] theorem collected_tasks (ph : Phase) (outputs : List NodeActivityOutput)
    (self : LangGraphWorkflow Chan) : (collected S ph outputs self).tasks = ph.tasks := by
  unfold collected
  split <;> rfl

/-! ## Reading a history -/

def isScheduled : Event → Bool
  | .scheduled _ _ => true
  | _ => false

def isPaused : Event → Bool
  | .paused _ => true
  | _ => false

/-- The entries that complete a superstep. -/
def completes : Event → Bool
  | .skipped | .applied _ _ => true
  | _ => false

/-- The entries of the superstep that is going on. -/
def superstepOf (h : List Event) : List Event := History.since isScheduled h

/-- The tasks scheduled last. -/
def scheduledTasks (h : List Event) : List PregelTask :=
  h.foldl (fun tasks e => match e with | .scheduled _ ts => ts | _ => tasks) []

/-- The values of the resume signals. -/
def resumeSignals (h : List Event) : List PyVal :=
  h.filterMap fun e => match e with | .received (.resume value) => some value | _ => none

/-- The lists of outputs collected, each with its route. -/
def collectedIn (h : List Event) : List (Route × List NodeActivityOutput) :=
  h.filterMap fun e => match e with | .collected route outputs => some (route, outputs) | _ => none

/-- An entry that starts an execution of `node`. -/
def starts (node : String) : Event → Prop
  | .dispatched input _ => input.nodeName = node
  | .subgraphStarted name _ => name = node
  | _ => False

instance (node : String) : DecidablePred (starts node) := fun e => by
  cases e with
  | dispatched input call => exact inferInstanceAs (Decidable (input.nodeName = node))
  | subgraphStarted name call => exact inferInstanceAs (Decidable (name = node))
  | _ => exact inferInstanceAs (Decidable False)

theorem superstepOf_snoc {h : List Event} {e : Event} (stays : isScheduled e = false) :
    superstepOf (h ++ [e]) = superstepOf h ++ [e] := History.since_snoc_of_not stays

theorem superstepOf_scheduled (h : List Event) (step : Nat) (tasks : List PregelTask) :
    superstepOf (h ++ [.scheduled step tasks]) = [] := History.since_snoc_of rfl

theorem scheduledTasks_snoc {h : List Event} {e : Event} (stays : isScheduled e = false) :
    scheduledTasks (h ++ [e]) = scheduledTasks h := by
  unfold scheduledTasks
  rw [List.foldl_append]
  cases e with
  | scheduled => cases stays
  | _ => rfl

@[simp] theorem scheduledTasks_scheduled (h : List Event) (step : Nat) (tasks : List PregelTask) :
    scheduledTasks (h ++ [.scheduled step tasks]) = tasks := by
  simp [scheduledTasks]

theorem collectedIn_snoc {h : List Event} {e : Event} (plain : ∀ route outputs, e ≠ .collected route outputs) :
    collectedIn (h ++ [e]) = collectedIn h := by
  unfold collectedIn
  rw [List.filterMap_append]
  cases e with
  | collected route outputs => exact absurd rfl (plain route outputs)
  | _ => simp

@[simp] theorem collectedIn_collected (h : List Event) (route : Route)
    (outputs : List NodeActivityOutput) :
    collectedIn (h ++ [.collected route outputs]) = collectedIn h ++ [(route, outputs)] := by
  simp [collectedIn]

theorem mem_collectedIn {h : List Event} {route : Route} {outputs : List NodeActivityOutput} :
    (route, outputs) ∈ collectedIn h ↔ Event.collected route outputs ∈ h := by
  unfold collectedIn
  rw [List.mem_filterMap]
  constructor
  · rintro ⟨e, mem, same⟩
    cases e with
    | collected route' outputs' =>
        cases same
        exact mem
    | _ => cases same
  · intro mem
    exact ⟨_, mem, rfl⟩

theorem resumeSignals_snoc {h : List Event} {e : Event} (silent : ∀ value, e ≠ .received (.resume value)) :
    resumeSignals (h ++ [e]) = resumeSignals h := by
  unfold resumeSignals
  rw [List.filterMap_append]
  cases e with
  | received signal =>
      cases signal with
      | resume value => exact absurd rfl (silent value)
      | updateState writes => simp
  | _ => simp

@[simp] theorem resumeSignals_resume (h : List Event) (value : PyVal) :
    resumeSignals (h ++ [.received (.resume value)]) = resumeSignals h ++ [value] := by
  simp [resumeSignals]

theorem mem_resumeSignals {h : List Event} {value : PyVal} :
    value ∈ resumeSignals h ↔ Event.received (.resume value) ∈ h := by
  unfold resumeSignals
  rw [List.mem_filterMap]
  constructor
  · rintro ⟨e, mem, same⟩
    cases e with
    | received signal =>
        cases signal with
        | resume value' =>
            cases same
            exact mem
        | updateState writes => cases same
    | _ => cases same
  · intro mem
    exact ⟨_, mem, rfl⟩

/-- What holds of every entry that a step adds holds of every entry. -/
theorem guarded_invariant {P : List Event → Event → Prop} (early : ∀ h, Early S h → History.Guarded P h)
    (works : ∀ h ph self self' e, (workflowMachine S).Reachable ⟨h, ph, self⟩ →
      Works S ph h self e self' → P h e)
    (moves : ∀ h ph ph' self self' e, (workflowMachine S).Reachable ⟨h, ph, self⟩ →
      Moves S h ph self e ph' self' → P h e) :
    (workflowMachine S).Invariant fun c => History.Guarded P c.history where
  init c initial := early c.history initial.toEarly
  step c d reachable held step := by
    cases step with
    | work here => exact held.snoc (works _ _ _ _ _ reachable here)
    | move here => exact held.snoc (moves _ _ _ _ _ _ reachable here)

/-! ## Pauses -/

/-- The entries since the last pause. -/
def sincePause (h : List Event) : List Event := History.since isPaused h

theorem sincePause_snoc {h : List Event} {e : Event} (stays : isPaused e = false) :
    sincePause (h ++ [e]) = sincePause h ++ [e] := History.since_snoc_of_not stays

theorem Works.not_scheduled {ph : Phase} {h : List Event} {self self' : LangGraphWorkflow Chan}
    {e : Event} (works : Works S ph h self e self') : isScheduled e = false := by
  cases works <;> rfl

theorem Works.executes {ph : Phase} {h : List Event} {self self' : LangGraphWorkflow Chan}
    {e : Event} {node : String} (works : Works S ph h self e self') (start : starts node e) :
    ph.stage.executes = true := by
  cases works with
  | dispatch admitted => exact admitted.executes
  | subgraph stage => rw [stage]; rfl
  | _ => cases start

theorem Moves.moves {h : List Event} {ph ph' : Phase} {self self' : LangGraphWorkflow Chan}
    {e : Event} (moves : Moves S h ph self e ph' self') : Machine.moves e = true := by
  cases moves <;> rfl

/-- The resume event is set by a signal that also leaves a value. -/
theorem eventSet_invariant :
    (workflowMachine S).Invariant fun c => c.self.resumeEvent = true → c.self.resumeValues ≠ [] where
  init _ initial := initial.opened.event
  step c d _ holds step := by
    cases step with
    | work works =>
        cases works with
        | resume => exact fun _ => List.append_ne_nil_of_right_ne_nil _ (List.cons_ne_nil _ _)
        | update _ updated =>
            obtain ⟨out, rfl⟩ := updateStateSignal_eq updated
            exact holds
        | _ => exact holds
    | move moves =>
        cases moves with
        | pause => exact fun event => by cases event
        | _ => exact holds

/-- No step changes what `run` has read from its input. -/
theorem configured_invariant :
    (workflowMachine S).Invariant fun c => Configured S.graph S.input c.self where
  init _ initial := initial.configured
  step c d _ held step := by
    cases step with
    | work works =>
        cases works with
        | update _ updated =>
            obtain ⟨out, rfl⟩ := updateStateSignal_eq updated
            exact { held with }
        | _ => exact { held with }
    | move moves =>
        cases moves with
        | _ => exact { held with }

/-- With worker affinity, the sticky queue is set unless a search for a worker
is going on. -/
theorem pinned_invariant : (workflowMachine S).Invariant fun c => Pinned c.history c.self where
  init c initial affinity := by
    rw [initial.configured.affinity] at affinity
    exact iff_of_true (initial.opened.pinned affinity) initial.foundAll
  step c d _ held step := by
    cases step with
    | work works =>
        cases works with
        | discover => exact pinned_discovering
        | discovered queue _ _ named => exact pinned_discovered named
        | update _ updated =>
            obtain ⟨out, rfl⟩ := updateStateSignal_eq updated
            exact held.snoc nofun nofun rfl rfl
        | _ => exact held.snoc nofun nofun rfl rfl
    | move moves =>
        cases moves with
        | _ => exact held.snoc nofun nofun rfl rfl

/-- Unless a search is going on, the sticky queue is the one found last. -/
def Sticks (S : Setting Chan) (h : List Event) (self : LangGraphWorkflow Chan) : Prop :=
  FoundAll h → self.stickyTaskQueue = lastQueue S.input.stickyTaskQueue h

theorem Sticks.snoc {h : List Event} {self self' : LangGraphWorkflow Chan} {e : Event}
    (sticks : Sticks S h self) (other : ∀ queue, e ≠ .discovered queue)
    (sticky : self'.stickyTaskQueue = self.stickyTaskQueue) : Sticks S (h ++ [e]) self' := by
  intro foundAll
  rw [sticky, lastQueue_snoc other]
  exact sticks (foundAll.front other)

theorem sticks_invariant : (workflowMachine S).Invariant fun c => Sticks S c.history c.self where
  init c initial _ := initial.sticky
  step c d _ held step := by
    cases step with
    | work works =>
        cases works with
        | discover => exact fun foundAll => absurd foundAll not_foundAll_discovering
        | discovered queue => exact fun _ => (lastQueue_discovered _ _ queue).symm
        | update _ updated =>
            obtain ⟨out, rfl⟩ := updateStateSignal_eq updated
            exact held.snoc nofun rfl
        | _ => exact held.snoc nofun rfl
    | move moves =>
        cases moves with
        | _ => exact held.snoc nofun rfl

/-- Only a pause leads to a pause. -/
theorem Moves.unpaused {h : List Event} {ph ph' : Phase} {self self' : LangGraphWorkflow Chan}
    {e : Event} (moves : Moves S h ph self e ph' self') (stays : isPaused e = false) :
    ph'.stage.resume = none := by
  cases moves with
  | pause => cases stays
  | resume resume =>
      unfold Stage.resume at resume
      split at resume <;> cases resume <;> rfl
  | @schedule tasks =>
      rcases opened_cases S tasks self with ⟨-, phase⟩ | ⟨-, phase⟩ <;> rw [phase] <;> rfl
  | collect =>
      unfold collected
      split <;> rfl
  | @serve results =>
      rcases served_cases S ph.tasks results self with ⟨-, phase⟩ | ⟨-, phase⟩ <;> rw [phase] <;> rfl
  | skip | apply =>
      rcases completed_cases S ph with ⟨-, phase⟩ | ⟨-, phase⟩ <;> rw [phase] <;> rfl
  | advance => rfl

/-- The workflow is interrupted in a pause, and running everywhere else. -/
theorem status_invariant : (workflowMachine S).Invariant fun c =>
    c.self.status = if c.phase.stage.resume.isSome then .interrupted else .running where
  init c initial := by
    obtain ⟨before, opened, -, -, same⟩ := initial.opened.initialised
    rw [initial.phase, same]
    rfl
  step c d _ held step := by
    cases step with
    | work works =>
        cases works with
        | update _ updated =>
            obtain ⟨out, rfl⟩ := updateStateSignal_eq updated
            exact held
        | _ => exact held
    | @move h ph ph' self self' e moves =>
        have unpaused : isPaused e = false → ph'.stage.resume = none := moves.unpaused
        cases moves with
        | pause pause =>
            obtain ⟨here, tasks, results, state⟩ := ph
            cases here <;> cases pause <;> rfl
        | resume =>
            rw [unpaused rfl]
            rfl
        | schedule stage | serve stage | skip stage | apply stage | advance stage =>
            rw [unpaused rfl]
            rw [stage] at held
            exact held
        | collect route =>
            rw [unpaused rfl]
            obtain ⟨here, tasks, results, state⟩ := ph
            cases here <;> cases route <;> exact held

/-- The resume state of the workflow object, read off its history. -/
structure Resumes (c : Config Chan) : Prop where
  values : (∃ entries, Event.paused entries ∈ c.history) →
    c.self.resumeValues = resumeSignals (sincePause c.history)
  event : (∃ entries, Event.paused entries ∈ c.history) →
    (c.self.resumeEvent = true ↔ resumeSignals (sincePause c.history) ≠ [])
  last : c.phase.stage.resume.isSome = true →
    ∃ a, c.history = a ++ .paused (pending c.phase) :: recent c.history

/-- An entry that neither pauses nor brings a value changes nothing. -/
theorem Resumes.snoc {h : List Event} {ph ph' : Phase} {self self' : LangGraphWorkflow Chan}
    {e : Event} (held : Resumes ⟨h, ph, self⟩) (stays : isPaused e = false)
    (silent : ∀ value, e ≠ .received (.resume value))
    (values : self'.resumeValues = self.resumeValues) (event : self'.resumeEvent = self.resumeEvent)
    (last : ph'.stage.resume.isSome = true →
      ∃ a, h ++ [e] = a ++ .paused (pending ph') :: recent (h ++ [e])) :
    Resumes ⟨h ++ [e], ph', self'⟩ := by
  have before : (∃ entries, Event.paused entries ∈ h ++ [e]) → ∃ entries, Event.paused entries ∈ h := by
    rintro ⟨entries, mem⟩
    rcases List.mem_append.mp mem with old | new
    · exact ⟨entries, old⟩
    · rw [← List.mem_singleton.mp new] at stays
      cases stays
  refine ⟨fun paused => ?_, fun paused => ?_, last⟩
  · change self'.resumeValues = resumeSignals (sincePause (h ++ [e]))
    rw [values, sincePause_snoc stays, resumeSignals_snoc silent]
    exact held.values (before paused)
  · change self'.resumeEvent = true ↔ resumeSignals (sincePause (h ++ [e])) ≠ []
    rw [event, sincePause_snoc stays, resumeSignals_snoc silent]
    exact held.event (before paused)

theorem last_snoc {h : List Event} {e : Event} {p : Event} (stays : moves e = false)
    (last : ∃ a, h = a ++ p :: recent h) : ∃ a, h ++ [e] = a ++ p :: recent (h ++ [e]) := by
  obtain ⟨a, split⟩ := last
  refine ⟨a, ?_⟩
  rw [recent_snoc stays, ← List.cons_append, ← List.append_assoc, ← split]

theorem recent_moves {h : List Event} {e : Event} (ends : moves e = true) : recent (h ++ [e]) = [] :=
  History.since_snoc_of ends

/-- A pause is for what the phase before it had pending. -/
theorem pending_paused {ph : Phase} {stage : Stage} (pause : ph.stage.pause = some stage) :
    pending { ph with stage := stage } = pending ph := by
  obtain ⟨here, tasks, results, state⟩ := ph
  cases here with
  | before | interrupted | after =>
      cases pause
      rfl
  | _ => cases pause

theorem resumes_invariant : (workflowMachine S).Invariant Resumes where
  init c initial := by
    have none : ¬∃ entries, Event.paused entries ∈ c.history := by
      rintro ⟨entries, mem⟩
      cases initial.history _ mem
    refine ⟨fun paused => absurd paused none, fun paused => absurd paused none, fun paused => ?_⟩
    rw [initial.phase] at paused
    cases paused
  step c d _ held step := by
    cases step with
    | @work h ph self self' e works =>
        have last : ph.stage.resume.isSome = true →
            ∃ a, h ++ [e] = a ++ .paused (pending ph) :: recent (h ++ [e]) :=
          fun paused => last_snoc works.not_moves (held.last paused)
        cases works with
        | resume value =>
            have before : (∃ entries, Event.paused entries ∈ h ++ [.received (.resume value)]) →
                ∃ entries, Event.paused entries ∈ h := by
              rintro ⟨entries, mem⟩
              exact ⟨entries, by simpa using mem⟩
            refine ⟨fun paused => ?_, fun _ => ?_, last⟩
            · change self.resumeValues ++ [value] = resumeSignals (sincePause (h ++ [_]))
              rw [sincePause_snoc rfl, resumeSignals_resume, ← held.values (before paused)]
            · change true = true ↔ resumeSignals (sincePause (h ++ [_])) ≠ []
              rw [sincePause_snoc rfl, resumeSignals_resume]
              simp
        | update _ updated =>
            obtain ⟨out, rfl⟩ := updateStateSignal_eq updated
            exact held.snoc rfl nofun rfl rfl last
        | _ => exact held.snoc rfl nofun rfl rfl last
    | @move h ph ph' self self' e moves =>
        have unpaused := moves.unpaused
        cases moves with
        | @pause stage pause =>
            refine ⟨fun _ => ?_, fun _ => ?_, fun _ => ⟨h, ?_⟩⟩
            · change [] = resumeSignals (History.since isPaused (h ++ [_]))
              rw [History.since_snoc_of rfl]
              rfl
            · change false = true ↔ resumeSignals (History.since isPaused (h ++ [_])) ≠ []
              rw [History.since_snoc_of rfl]
              simp [resumeSignals]
            · change h ++ [_] = h ++ Event.paused (pending _) :: recent (h ++ [_])
              rw [recent_moves rfl, pending_paused pause]
        | _ =>
            refine held.snoc rfl nofun rfl rfl fun paused => ?_
            rw [unpaused rfl] at paused
            cases paused

/-- In a pause, the interrupts of the workflow object are those it is for. -/
theorem interrupts_invariant : (workflowMachine S).Invariant fun c =>
    c.phase.stage.resume.isSome = true → c.self.interrupts = pending c.phase where
  init c initial paused := by
    rw [initial.phase] at paused
    cases paused
  step c d _ held step := by
    cases step with
    | work works =>
        cases works with
        | update _ updated =>
            obtain ⟨out, rfl⟩ := updateStateSignal_eq updated
            exact held
        | _ => exact held
    | move moves =>
        have unpaused := moves.unpaused
        cases moves with
        | pause pause => exact fun _ => (pending_paused pause).symm
        | _ =>
            intro paused
            rw [unpaused rfl] at paused
            cases paused

/-- The last entry that ended a phase is a pause. -/
def inPause (h : List Event) : Prop := ∃ a entries, h = a ++ .paused entries :: recent h

theorem inPause_snoc {h : List Event} {e : Event} (stays : moves e = false) :
    inPause (h ++ [e]) ↔ inPause h := by
  constructor
  · rintro ⟨a, entries, split⟩
    rw [recent_snoc stays, ← List.cons_append, ← List.append_assoc] at split
    exact ⟨a, entries, (List.append_inj' split rfl).1⟩
  · rintro ⟨a, entries, split⟩
    obtain ⟨a', split'⟩ := last_snoc stays ⟨a, split⟩
    exact ⟨a', entries, split'⟩

theorem not_inPause_of_moves {h : List Event} {e : Event} (ends : moves e = true)
    (plain : isPaused e = false) : ¬inPause (h ++ [e]) := by
  rintro ⟨a, entries, split⟩
  rw [recent_moves ends] at split
  obtain ⟨-, last⟩ := List.append_inj' split rfl
  cases last
  cases plain

theorem inPause_invariant : (workflowMachine S).Invariant fun c =>
    inPause c.history → c.phase.stage.resume.isSome = true where
  init c initial := by
    rintro ⟨a, entries, split⟩
    have early := initial.history (.paused entries) (by rw [split]; simp)
    cases early
  step c d _ held step := by
    cases step with
    | work works =>
        intro paused
        exact held ((inPause_snoc works.not_moves).mp paused)
    | @move h ph ph' self self' e moves =>
        intro paused
        cases plain : isPaused e with
        | false => exact absurd paused (not_inPause_of_moves moves.moves plain)
        | true =>
            obtain ⟨here, tasks, results, state⟩ := ph
            cases moves with
            | pause pause =>
                cases here <;> cases pause <;> rfl
            | _ => cases plain

/-! ## Tasks -/

theorem Stage.busy_of_executes {stage : Stage} (executes : stage.executes = true) : stage ≠ .ready := by
  rintro rfl
  cases executes

/-- Only scheduling leaves the head of the loop. -/
theorem Moves.busy {h : List Event} {ph ph' : Phase} {self self' : LangGraphWorkflow Chan}
    {e : Event} (moves : Moves S h ph self e ph' self') (inside : isScheduled e = false) :
    ph.stage ≠ .ready := by
  intro ready
  cases moves with
  | schedule => cases inside
  | pause pause =>
      rw [ready] at pause
      cases pause
  | resume resume =>
      rw [ready] at resume
      cases resume
  | collect route_eq =>
      rw [ready] at route_eq
      cases route_eq
  | serve stage | skip stage | apply stage | advance stage =>
      rw [ready] at stage
      cases stage

/-- Only advancing returns to it. -/
theorem Moves.unready {h : List Event} {ph ph' : Phase} {self self' : LangGraphWorkflow Chan}
    {e : Event} (moves : Moves S h ph self e ph' self') (stays : e ≠ .advanced) :
    ph'.stage ≠ .ready := by
  cases moves with
  | @schedule tasks =>
      rcases opened_cases S tasks self with ⟨-, phase⟩ | ⟨-, phase⟩ <;> rw [phase] <;> nofun
  | pause pause =>
      obtain ⟨here, tasks, results, state⟩ := ph
      cases here <;> cases pause <;> nofun
  | resume resume =>
      obtain ⟨here, tasks, results, state⟩ := ph
      cases here <;> cases resume <;> nofun
  | collect =>
      unfold collected
      split <;> nofun
  | @serve results =>
      rcases served_cases S ph.tasks results self with ⟨-, phase⟩ | ⟨-, phase⟩ <;> rw [phase] <;> nofun
  | skip | apply =>
      rcases completed_cases S ph with ⟨-, phase⟩ | ⟨-, phase⟩ <;> rw [phase] <;> nofun
  | advance => exact absurd rfl stays

/-- The phases of one superstep share its tasks. -/
theorem Moves.tasks {h : List Event} {ph ph' : Phase} {self self' : LangGraphWorkflow Chan}
    {e : Event} (moves : Moves S h ph self e ph' self') (inside : isScheduled e = false) :
    ph'.stage = .ready ∨ ph.stage ≠ .ready ∧ ph'.tasks = ph.tasks := by
  have busy := moves.busy inside
  cases moves with
  | schedule => cases inside
  | advance => exact .inl rfl
  | pause | resume => exact .inr ⟨busy, rfl⟩
  | collect => exact .inr ⟨busy, collected_tasks _ _ _⟩
  | serve => exact .inr ⟨busy, served_tasks _ _ _⟩
  | skip | apply => exact .inr ⟨busy, completed_tasks _⟩

theorem tasks_invariant : (workflowMachine S).Invariant fun c =>
    c.phase.stage ≠ .ready → c.phase.tasks ≠ [] ∧ scheduledTasks c.history = c.phase.tasks where
  init c initial busy := absurd (by rw [initial.phase]) busy
  step c d _ held step busy := by
    cases step with
    | work works =>
        rw [scheduledTasks_snoc works.not_scheduled]
        exact held busy
    | @move h ph ph' self self' e moves =>
        cases scheduled : isScheduled e with
        | false =>
            rcases moves.tasks scheduled with ready | ⟨before, same⟩
            · exact absurd ready busy
            · change ph'.tasks ≠ [] ∧ scheduledTasks (h ++ [e]) = ph'.tasks
              rw [scheduledTasks_snoc scheduled, same]
              exact held before
        | true =>
            cases moves with
            | @schedule tasks stage below prepared some =>
                change (opened S tasks self).tasks ≠ [] ∧ _ = (opened S tasks self).tasks
                rw [opened_tasks]
                exact ⟨some, scheduledTasks_scheduled _ _ _⟩
            | _ => cases scheduled

/-! ## The interrupts of the last pause -/

/-- The interrupts of the last pause, if there has been one. -/
def lastPaused (h : List Event) : List PendingInterrupt :=
  h.foldl (fun entries e => match e with | .paused now => now | _ => entries) []

theorem lastPaused_snoc {h : List Event} {e : Event} (stays : isPaused e = false) :
    lastPaused (h ++ [e]) = lastPaused h := by
  rw [lastPaused, List.foldl_append]
  cases e with
  | paused entries => cases stays
  | _ => rfl

theorem lastPaused_paused (h : List Event) (entries : List PendingInterrupt) :
    lastPaused (h ++ [.paused entries]) = entries := by
  rw [lastPaused, List.foldl_append]
  rfl

/-- In a pause, the last pause is the current one. -/
theorem lastPaused_of_inPause {h a : List Event} {entries : List PendingInterrupt}
    (split : h = a ++ .paused entries :: recent h) : lastPaused h = entries := by
  have quiet : ∀ e ∈ recent h, isPaused e = false := by
    intro e mem
    have stays := (History.since_spec h).1 e mem
    cases e with
    | paused entries => cases stays
    | _ => rfl
  have before : ∀ b : List Event, (∀ e ∈ b, isPaused e = false) →
      lastPaused ((a ++ [.paused entries]) ++ b) = entries := by
    intro b
    induction b using List.reverseRecOn with
    | nil =>
        intro _
        rw [List.append_nil, lastPaused_paused]
    | append_singleton b e ih =>
        intro quiet
        rw [← List.append_assoc, lastPaused_snoc (quiet e (by simp))]
        exact ih fun e' mem => quiet e' (List.mem_append_left _ mem)
  rw [split, ← List.singleton_append, ← List.append_assoc]
  exact before (recent h) quiet

theorem lastPaused_spec (h : List Event) :
    (∀ entries, Event.paused entries ∉ h) ∧ lastPaused h = [] ∨ Event.paused (lastPaused h) ∈ h := by
  induction h using List.reverseRecOn with
  | nil => exact .inl ⟨fun _ => List.not_mem_nil, rfl⟩
  | append_singleton h e ih =>
      cases pauses : isPaused e with
      | true =>
          cases e with
          | paused entries =>
              rw [lastPaused_paused]
              exact .inr (List.mem_append_right _ List.mem_cons_self)
          | _ => cases pauses
      | false =>
          rw [lastPaused_snoc pauses]
          rcases ih with ⟨none, empty⟩ | mem
          · refine .inl ⟨fun entries mem => ?_, empty⟩
            rcases List.mem_append.mp mem with old | new
            · exact none entries old
            · rw [← List.mem_singleton.mp new] at pauses
              cases pauses
          · exact .inr (List.mem_append_left _ mem)

/-- The interrupts of a pause stay in the workflow object, also after it. -/
theorem lastPaused_invariant : (workflowMachine S).Invariant fun c =>
    c.self.interrupts = lastPaused c.history where
  init c initial := by
    rw [initial.opened.interrupts]
    rcases lastPaused_spec c.history with ⟨-, empty⟩ | mem
    · exact empty.symm
    · cases initial.history _ mem
  step c d _ held step := by
    cases step with
    | @work h ph self self' e works =>
        change self'.interrupts = lastPaused (h ++ [e])
        cases works with
        | update _ updated =>
            obtain ⟨out, rfl⟩ := updateStateSignal_eq updated
            rw [lastPaused_snoc rfl]
            exact held
        | _ =>
            rw [lastPaused_snoc rfl]
            exact held
    | @move h ph ph' self self' e moves =>
        change self'.interrupts = lastPaused (h ++ [e])
        cases moves with
        | pause pause => exact (lastPaused_paused _ _).symm
        | _ =>
            rw [lastPaused_snoc rfl]
            exact held

theorem raisedInterrupts_ne_nil {results : List NodeActivityOutput}
    (some : interruptedOf results ≠ []) : raisedInterrupts (interruptedOf results) ≠ [] := by
  obtain ⟨r, mem⟩ := List.exists_mem_of_ne_nil _ some
  have interrupted := (List.mem_filter.mp mem).2
  intro empty
  have none : r.interrupts.map PendingInterrupt.raised = [] :=
    List.flatMap_eq_nil_iff.mp empty r mem
  rw [NodeActivityOutput.interrupted, List.map_eq_nil_iff.mp none] at interrupted
  cases interrupted

/-- What leads to a pause: scheduling tasks, serving results with interrupted ones
among them, or applying the writes of the tasks. -/
theorem Moves.pauses {h : List Event} {ph ph' : Phase} {self self' : LangGraphWorkflow Chan}
    {e : Event} (moves : Moves S h ph self e ph' self') (pauses : ph'.stage.pause.isSome = true) :
    (∃ step tasks, e = .scheduled step tasks ∧ tasks ≠ [] ∧
      pending ph' = tasks.map fun t => .before t.name) ∨
    (∃ results, e = .served results ∧ interruptedOf results ≠ [] ∧
      pending ph' = raisedInterrupts (interruptedOf results)) ∨
    ((e = .skipped ∨ ∃ writes updated, e = .applied writes updated) ∧ ph.stage = .applying ∧
      pending ph' = ph.tasks.map fun t => .after t.name) := by
  cases moves with
  | @schedule tasks stage below prepared some =>
      rcases opened_cases S tasks self with ⟨-, phase⟩ | ⟨-, phase⟩
      · rw [phase]
        exact .inl ⟨_, tasks, rfl, some, rfl⟩
      · rw [phase] at pauses
        cases pauses
  | @serve results stage serves =>
      rcases served_cases S ph.tasks results self with ⟨-, phase⟩ | ⟨some, phase⟩
      · rw [phase] at pauses
        cases pauses
      · rw [phase]
        exact .inr (.inl ⟨results, rfl, some, rfl⟩)
  | skip stage =>
      rcases completed_cases S ph with ⟨-, phase⟩ | ⟨-, phase⟩
      · rw [phase]
        exact .inr (.inr ⟨.inl rfl, stage, rfl⟩)
      · rw [phase] at pauses
        cases pauses
  | apply stage =>
      rcases completed_cases S ph with ⟨-, phase⟩ | ⟨-, phase⟩
      · rw [phase]
        exact .inr (.inr ⟨.inr ⟨_, _, rfl⟩, stage, rfl⟩)
      · rw [phase] at pauses
        cases pauses
  | pause pause =>
      obtain ⟨here, tasks, results, state⟩ := ph
      cases here <;> cases pause <;> cases pauses
  | resume resume =>
      obtain ⟨here, tasks, results, state⟩ := ph
      cases here <;> cases resume <;> cases pauses
  | collect =>
      unfold collected at pauses
      split at pauses <;> cases pauses
  | advance => cases pauses

/-- A pause is made for something. -/
theorem pending_invariant : (workflowMachine S).Invariant fun c =>
    c.phase.stage.pause.isSome = true → pending c.phase ≠ [] where
  init c initial pauses := by
    rw [initial.phase] at pauses
    cases pauses
  step c d reachable held step := by
    have tasks := tasks_invariant.holds reachable
    cases step with
    | work works => exact held
    | @move h ph ph' self self' e moves =>
        intro pauses
        change pending ph' ≠ []
        rcases moves.pauses pauses with ⟨step, tasks, -, some, same⟩ | ⟨results, -, some, same⟩ |
          ⟨-, stage, same⟩
        · rw [same]
          exact fun empty => some (List.map_eq_nil_iff.mp empty)
        · rw [same]
          exact raisedInterrupts_ne_nil some
        · rw [same]
          exact fun empty => (tasks (by rw [stage]; nofun)).1 (List.map_eq_nil_iff.mp empty)

/-- Every pause was for something. -/
theorem paused_invariant : (workflowMachine S).Invariant fun c =>
    ∀ entries, Event.paused entries ∈ c.history → entries ≠ [] where
  init c initial entries mem := by cases initial.history _ mem
  step c d reachable held step entries mem := by
    cases step with
    | work works =>
        rcases List.mem_append.mp mem with old | new
        · exact held entries old
        · cases List.mem_singleton.mp new
          cases works
    | move moves =>
        rcases List.mem_append.mp mem with old | new
        · exact held entries old
        · cases List.mem_singleton.mp new
          cases moves with
          | pause pause => exact pending_invariant.holds reachable (by rw [pause]; rfl)

/-! ## The course of a superstep -/

/-- How many of its lists of outputs a superstep has collected, with the serving
of child requests counted in. -/
def Stage.level : Stage → Nat
  | ready | before | pausedBefore | executing => 0
  | serving => 1
  | interrupted | pausedInside | resuming => 2
  | pushing => 3
  | going => 4
  | applying | after | pausedAfter | closing => 5

theorem opened_level (tasks : List PregelTask) (self : LangGraphWorkflow Chan) :
    (opened S tasks self).stage.level = 0 := by
  rcases opened_cases S tasks self with ⟨-, phase⟩ | ⟨-, phase⟩ <;> rw [phase] <;> rfl

theorem served_level (tasks : List PregelTask) (results : List NodeActivityOutput)
    (self : LangGraphWorkflow Chan) : (served S tasks results self).stage.level = 2 := by
  rcases served_cases S tasks results self with ⟨-, phase⟩ | ⟨-, phase⟩ <;> rw [phase] <;> rfl

theorem completed_level (ph : Phase) : (completed S ph).stage.level = 5 := by
  rcases completed_cases S ph with ⟨-, phase⟩ | ⟨-, phase⟩ <;> rw [phase] <;> rfl

/-- The outputs of a superstep: what its tasks returned, the same with the child
requests served, what the interrupted ones returned when they were executed
again, and what the Sends and the goto targets returned. -/
structure Outputs where
  scheduled : List NodeActivityOutput := []
  served : List NodeActivityOutput := []
  resumed : List NodeActivityOutput := []
  push : List NodeActivityOutput := []
  goto : List NodeActivityOutput := []

namespace Outputs

variable (o : Outputs)

/-- The results that the Sends are extracted from. -/
def settled : List NodeActivityOutput := settledOf o.served ++ o.resumed

/-- The results that the goto targets are extracted from. -/
def afterPush : List NodeActivityOutput := o.settled ++ o.push

/-- The results whose writes are applied. -/
def final : List NodeActivityOutput := o.afterPush ++ o.goto

def collected : Nat → List (Route × List NodeActivityOutput)
  | 0 => []
  | 1 | 2 => [(.scheduled, o.scheduled)]
  | 3 => [(.scheduled, o.scheduled), (.resumed, o.resumed)]
  | 4 => [(.scheduled, o.scheduled), (.resumed, o.resumed), (.push, o.push)]
  | _ => [(.scheduled, o.scheduled), (.resumed, o.resumed), (.push, o.push), (.goto, o.goto)]

def results : Nat → List NodeActivityOutput
  | 0 => []
  | 1 => o.scheduled
  | 2 => o.served
  | 3 => o.settled
  | 4 => o.afterPush
  | _ => o.final

end Outputs

/-- `r` is an output of the scheduled task `t`, which `b` has started. -/
structure RanTask (b : List Event) (t : PregelTask) (r : NodeActivityOutput) : Prop where
  started : ∃ e ∈ b, starts t.name e
  name : r.nodeName = t.name
  path : r.taskPath = t.path
  bare : Bare r

/-- `r` is an output of the interrupted result `q`, executed again in `b` with
resume values. -/
structure RanAgain (b : List Event) (q r : NodeActivityOutput) : Prop where
  started : ∃ input call values, Event.dispatched input call ∈ b ∧ input.nodeName = q.nodeName ∧
    input.taskPath = q.taskPath ∧ input.resumeValues = some values ∧ values ≠ []
  name : r.nodeName = q.nodeName
  path : r.taskPath = q.taskPath
  bare : Bare r

/-- `r` is an output of the task that `b` has started for `send`. -/
structure RanSend (b : List Event) (send : SendRequest) (r : NodeActivityOutput) : Prop where
  started : ∃ input call, Event.dispatched input call ∈ b ∧ input.nodeName = send.node ∧
    input.sendInput = send.arg
  name : r.nodeName = send.node
  bare : Bare r

theorem RanTask.mono {b b' : List Event} {t : PregelTask} {r : NodeActivityOutput} (sub : b ⊆ b')
    (ran : RanTask b t r) : RanTask b' t r := by
  obtain ⟨e, mem, start⟩ := ran.started
  exact ⟨⟨e, sub mem, start⟩, ran.name, ran.path, ran.bare⟩

theorem RanAgain.mono {b b' : List Event} {q r : NodeActivityOutput} (sub : b ⊆ b')
    (ran : RanAgain b q r) : RanAgain b' q r := by
  obtain ⟨input, call, values, mem, rest⟩ := ran.started
  exact ⟨⟨input, call, values, sub mem, rest⟩, ran.name, ran.path, ran.bare⟩

theorem RanSend.mono {b b' : List Event} {send : SendRequest} {r : NodeActivityOutput}
    (sub : b ⊆ b') (ran : RanSend b send r) : RanSend b' send r := by
  obtain ⟨input, call, mem, rest⟩ := ran.started
  exact ⟨⟨input, call, sub mem, rest⟩, ran.name, ran.bare⟩

/-- A superstep of these tasks has got to this level with the outputs `o`. -/
structure Course (h : List Event) (tasks : List PregelTask) (level : Nat) (o : Outputs) : Prop where
  collected : collectedIn (superstepOf h) = o.collected level
  scheduled : 1 ≤ level → List.Forall₂ (RanTask (superstepOf h)) (sortTasks tasks) o.scheduled
  served : 2 ≤ level → List.Forall₂ Serves o.scheduled o.served
  resumed : 3 ≤ level → List.Forall₂ (RanAgain (superstepOf h)) (interruptedOf o.served) o.resumed
  push : 4 ≤ level →
    List.Forall₂ (RanSend (superstepOf h)) (extractPushSends o.settled) o.push
  goto : 5 ≤ level →
    List.Forall₂ (RanSend (superstepOf h)) (extractCommandGotos o.afterPush) o.goto
  logged : 2 ≤ level → Event.served o.served ∈ superstepOf h

/-- An entry that collects nothing changes nothing. -/
theorem Course.snoc {h : List Event} {tasks : List PregelTask} {level : Nat} {o : Outputs} {e : Event}
    (course : Course h tasks level o) (inside : isScheduled e = false)
    (plain : ∀ route outputs, e ≠ .collected route outputs) : Course (h ++ [e]) tasks level o := by
  have sub : superstepOf h ⊆ superstepOf (h ++ [e]) := by
    rw [superstepOf_snoc inside]
    exact List.subset_append_left _ _
  refine ⟨?_, fun past => ?_, course.served, fun past => ?_, fun past => ?_, fun past => ?_,
    fun past => sub (course.logged past)⟩
  · rw [superstepOf_snoc inside, collectedIn_snoc plain]
    exact course.collected
  · exact (course.scheduled past).imp fun _ _ => RanTask.mono sub
  · exact (course.resumed past).imp fun _ _ => RanAgain.mono sub
  · exact (course.push past).imp fun _ _ => RanSend.mono sub
  · exact (course.goto past).imp fun _ _ => RanSend.mono sub

theorem recent_subset (h : List Event) : recent h ⊆ superstepOf h := by
  refine History.since_subset (fun e scheduled => ?_) h
  cases e with
  | scheduled => rfl
  | _ => cases scheduled

theorem Executed.ran {h : List Event} {ph : Phase} {self : LangGraphWorkflow Chan} {t : PregelTask}
    {r : NodeActivityOutput} (executed : Executed S h ph self t r) : RanTask (superstepOf h) t r := by
  unfold Executed at executed
  split at executed
  · obtain ⟨⟨call, mem⟩, name, path, bare⟩ := executed
    exact ⟨⟨_, recent_subset h mem, rfl⟩, name, path, bare⟩
  · obtain ⟨⟨call, mem⟩, result, rfl⟩ := executed
    exact ⟨⟨_, recent_subset h mem, rfl⟩, rfl, rfl, fun interrupted => by cases interrupted⟩

theorem Reexecuted.ran {h : List Event} {ph : Phase} {self : LangGraphWorkflow Chan}
    {q r : NodeActivityOutput} (executed : Reexecuted h ph self q r) :
    RanAgain (superstepOf h) q r := by
  obtain ⟨values, some, -, ⟨call, mem⟩, name, path, bare⟩ := executed
  exact ⟨⟨_, call, values, recent_subset h mem, rfl, rfl, rfl, some⟩, name, path, bare⟩

theorem Sent.ran {h : List Event} {ph : Phase} {self : LangGraphWorkflow Chan} {send : SendRequest}
    {r : NodeActivityOutput} (sent : Sent h ph self send r) : RanSend (superstepOf h) send r := by
  obtain ⟨⟨call, mem⟩, name, -, bare⟩ := sent
  exact ⟨⟨_, call, recent_subset h mem, rfl, rfl⟩, name, bare⟩

/-- The phase is on the course `o`. -/
structure OnCourse (h : List Event) (ph : Phase) (o : Outputs) : Prop where
  course : Course h ph.tasks ph.stage.level o
  results : ph.results = o.results ph.stage.level

theorem OnCourse.snoc {h : List Event} {ph ph' : Phase} {o : Outputs} {e : Event}
    (on : OnCourse h ph o) (inside : isScheduled e = false)
    (plain : ∀ route outputs, e ≠ .collected route outputs) (level : ph'.stage.level = ph.stage.level)
    (tasks : ph'.tasks = ph.tasks) (results : ph'.results = ph.results) :
    OnCourse (h ++ [e]) ph' o := by
  refine ⟨?_, ?_⟩
  · rw [level, tasks]
    exact on.course.snoc inside plain
  · rw [results, level]
    exact on.results

/-- The first outputs of a superstep. -/
theorem Course.open {h : List Event} {tasks : List PregelTask} {o : Outputs}
    {outputs : List NodeActivityOutput} (course : Course h tasks 0 o)
    (ran : List.Forall₂ (RanTask (superstepOf h)) (sortTasks tasks) outputs) :
    Course (h ++ [.collected .scheduled outputs]) tasks 1 { scheduled := outputs } := by
  refine ⟨?_, fun _ => ?_, fun past => absurd past (by decide), fun past => absurd past (by decide),
    fun past => absurd past (by decide), fun past => absurd past (by decide),
    fun past => absurd past (by decide)⟩
  · rw [superstepOf_snoc rfl, collectedIn_collected, course.collected]
    rfl
  · refine ran.imp fun _ _ => RanTask.mono ?_
    rw [superstepOf_snoc rfl]
    exact List.subset_append_left _ _

/-- The outputs of one more stage join the course. -/
theorem Course.join {h : List Event} {tasks : List PregelTask} {level : Nat} {o o' : Outputs}
    {route : Route} {outputs : List NodeActivityOutput} (course : Course h tasks level o)
    (past : 2 ≤ level) (scheduled : o'.scheduled = o.scheduled) (served : o'.served = o.served)
    (collected : o'.collected (level + 1) = o.collected level ++ [(route, outputs)])
    (resumed : 2 ≤ level → List.Forall₂ (RanAgain (superstepOf h)) (interruptedOf o.served) o'.resumed)
    (push : 3 ≤ level → List.Forall₂ (RanSend (superstepOf h)) (extractPushSends o'.settled) o'.push)
    (goto : 4 ≤ level →
      List.Forall₂ (RanSend (superstepOf h)) (extractCommandGotos o'.afterPush) o'.goto) :
    Course (h ++ [.collected route outputs]) tasks (level + 1) o' := by
  have sub : superstepOf h ⊆ superstepOf (h ++ [.collected route outputs]) := by
    rw [superstepOf_snoc rfl]
    exact List.subset_append_left _ _
  refine ⟨?_, fun _ => ?_, fun _ => ?_, fun more => ?_, fun more => ?_, fun more => ?_, fun _ => ?_⟩
  · rw [superstepOf_snoc rfl, collectedIn_collected, course.collected, collected]
  · rw [scheduled]
    exact (course.scheduled (by omega)).imp fun _ _ => RanTask.mono sub
  · rw [scheduled, served]
    exact course.served past
  · rw [served]
    exact (resumed (by omega)).imp fun _ _ => RanAgain.mono sub
  · exact (push (by omega)).imp fun _ _ => RanSend.mono sub
  · exact (goto (by omega)).imp fun _ _ => RanSend.mono sub
  · rw [served]
    exact sub (course.logged past)

theorem OnCourse.collect {h : List Event} {ph : Phase} {self : LangGraphWorkflow Chan} {o : Outputs}
    {route : Route} {outputs : List NodeActivityOutput} (on : OnCourse h ph o)
    (route_eq : ph.stage.route = some route) (collects : Collects S h ph self outputs) :
    ∃ o', OnCourse (h ++ [.collected route outputs]) (Machine.collected S ph outputs self) o' := by
  obtain ⟨stage, tasks, results, state⟩ := ph
  obtain ⟨course, results_eq⟩ := on
  cases stage with
  | executing =>
      cases route_eq
      exact ⟨_, course.open (collects.imp fun _ _ executed => executed.ran), rfl⟩
  | resuming =>
      cases route_eq
      have same : results = o.served := results_eq
      subst same
      replace course : Course h tasks 2 o := course
      refine ⟨{ o with resumed := outputs }, course.join (by decide) rfl rfl rfl (fun _ => ?_) ?_ ?_, rfl⟩
      · exact List.Forall₂.imp (fun _ _ executed => executed.ran) collects
      · exact fun past => absurd past (by decide)
      · exact fun past => absurd past (by decide)
  | pushing =>
      cases route_eq
      have same : results = o.settled := results_eq
      subst same
      replace course : Course h tasks 3 o := course
      refine ⟨{ o with push := outputs }, course.join (by decide) rfl rfl rfl
        (fun _ => course.resumed (by decide)) (fun _ => ?_) ?_, rfl⟩
      · exact List.Forall₂.imp (fun _ _ sent => sent.ran) collects
      · exact fun past => absurd past (by decide)
  | going =>
      cases route_eq
      have same : results = o.afterPush := results_eq
      subst same
      replace course : Course h tasks 4 o := course
      refine ⟨{ o with goto := outputs }, course.join (by decide) rfl rfl rfl
        (fun _ => course.resumed (by decide)) (fun _ => course.push (by decide)) (fun _ => ?_), rfl⟩
      exact List.Forall₂.imp (fun _ _ sent => sent.ran) collects
  | _ => cases route_eq

theorem OnCourse.serve {h : List Event} {ph : Phase} {self : LangGraphWorkflow Chan} {o : Outputs}
    {results : List NodeActivityOutput} (on : OnCourse h ph o) (stage : ph.stage = .serving)
    (serves : List.Forall₂ Serves ph.results results) :
    ∃ o', OnCourse (h ++ [.served results]) (served S ph.tasks results self) o' := by
  obtain ⟨here, tasks, before, state⟩ := ph
  cases stage
  obtain ⟨course, results_eq⟩ := on
  have same : before = o.scheduled := results_eq
  subst same
  replace course : Course h tasks 1 o := course
  have next : Course (h ++ [.served results]) tasks 2 { o with served := results } := by
    have kept := course.snoc (e := .served results) rfl nofun
    refine ⟨kept.collected, fun _ => kept.scheduled (by decide), fun _ => serves, ?_, ?_, ?_, fun _ => ?_⟩
    · exact fun past => absurd past (by decide)
    · exact fun past => absurd past (by decide)
    · exact fun past => absurd past (by decide)
    · rw [superstepOf_snoc rfl]
      exact List.mem_append_right _ List.mem_cons_self
  refine ⟨{ o with served := results }, ?_, ?_⟩
  · rw [served_level, served_tasks]
    exact next
  · rw [served_level, served_results]
    rfl

/-- A superstep begins with no outputs. -/
theorem onCourse_opened (h : List Event) (step : Nat) (tasks : List PregelTask)
    (self : LangGraphWorkflow Chan) :
    OnCourse (h ++ [.scheduled step tasks]) (opened S tasks self) {} := by
  have start : Course (h ++ [.scheduled step tasks]) tasks 0 {} := by
    refine ⟨by rw [superstepOf_scheduled]; rfl, ?_, ?_, ?_, ?_, ?_, ?_⟩
    all_goals exact fun past => absurd past (by decide)
  refine ⟨?_, ?_⟩
  · rw [opened_level, opened_tasks]
    exact start
  · rw [opened_level, opened_results]
    rfl

/-- Completing a superstep keeps its outputs. -/
theorem OnCourse.complete {h : List Event} {ph : Phase} {o : Outputs} {e : Event}
    (on : OnCourse h ph o) (stage : ph.stage = .applying) (inside : isScheduled e = false)
    (plain : ∀ route outputs, e ≠ .collected route outputs) :
    OnCourse (h ++ [e]) (completed S ph) o := by
  have level : (completed S ph).stage.level = ph.stage.level := by
    rw [completed_level, stage]
    rfl
  exact on.snoc inside plain level (completed_tasks ph) (completed_results ph)

theorem course_invariant : (workflowMachine S).Invariant fun c =>
    c.phase.stage ≠ .ready → ∃ o, OnCourse c.history c.phase o where
  init c initial busy := absurd (by rw [initial.phase]) busy
  step c d _ held step busy := by
    cases step with
    | @work h ph self self' e works =>
        obtain ⟨o, on⟩ := held busy
        have plain : ∀ route outputs, e ≠ .collected route outputs := by
          rintro route outputs rfl
          cases works
        exact ⟨o, on.snoc works.not_scheduled plain rfl rfl rfl⟩
    | @move h ph ph' self self' e moves =>
        have before : isScheduled e = false → ph.stage ≠ .ready := moves.busy
        cases moves with
        | @schedule tasks => exact ⟨{}, onCourse_opened h self.step tasks self⟩
        | advance => exact absurd rfl busy
        | collect route_eq collects =>
            obtain ⟨o, on⟩ := held (before rfl)
            exact on.collect route_eq collects
        | @serve results stage serves =>
            obtain ⟨o, on⟩ := held (before rfl)
            exact on.serve stage serves
        | @pause stage pause =>
            obtain ⟨o, on⟩ := held (before rfl)
            obtain ⟨here, tasks, results, state⟩ := ph
            refine ⟨o, on.snoc rfl nofun ?_ rfl rfl⟩
            cases here <;> cases pause <;> rfl
        | @resume stage resume event =>
            obtain ⟨o, on⟩ := held (before rfl)
            obtain ⟨here, tasks, results, state⟩ := ph
            refine ⟨o, on.snoc rfl nofun ?_ rfl rfl⟩
            cases here <;> cases resume <;> rfl
        | skip stage | apply stage =>
            obtain ⟨o, on⟩ := held (before rfl)
            exact ⟨o, on.complete stage rfl nofun⟩

/-- A superstep completes at the end of its course, by applying the writes of
its results if there are any. -/
def CompletesCourse (S : Setting Chan) (a : List Event) (e : Event) : Prop :=
  completes e = true → ∃ tasks o, Course a tasks 5 o ∧
    (e = .skipped ∧ writesOf S.graph o.final = [] ∨
      ∃ updated, e = .applied (writesOf S.graph o.final) updated)

theorem Moves.completesCourse {h : List Event} {ph ph' : Phase} {self self' : LangGraphWorkflow Chan}
    {e : Event} (moves : Moves S h ph self e ph' self')
    (course : ph.stage ≠ .ready → ∃ o, OnCourse h ph o) : CompletesCourse S h e := by
  intro done
  have busy : ph.stage = .applying := by
    cases moves with
    | skip stage => exact stage
    | apply stage => exact stage
    | _ => cases done
  obtain ⟨o, on⟩ := course (by rw [busy]; nofun)
  obtain ⟨course, results⟩ := on
  rw [busy] at course results
  replace results : ph.results = o.final := results
  refine ⟨ph.tasks, o, course, ?_⟩
  rw [← results]
  cases moves with
  | skip stage silent => exact .inl ⟨rfl, silent⟩
  | apply stage some applied => exact .inr ⟨_, rfl⟩
  | _ => cases done

theorem Works.not_completes {ph : Phase} {h : List Event} {self self' : LangGraphWorkflow Chan}
    {e : Event} (works : Works S ph h self e self') : completes e = false := by
  cases works <;> rfl

theorem not_completes_of_preliminary {e : Event} (early : preliminary e = true) :
    completes e = false := by
  cases e with
  | discovering | discovered | received => rfl
  | _ => cases early

/-! ## Requests -/

/-- The Sends and gotos of an entry that the superstep goes on to execute: all
those of the scheduled and the resumed nodes, and the gotos of the Send tasks. -/
def requestsOf : Event → List SendRequest
  | .collected .scheduled outputs => extractPushSends outputs ++ extractCommandGotos outputs
  | .collected .resumed outputs => extractPushSends outputs ++ extractCommandGotos outputs
  | .collected .push outputs => extractCommandGotos outputs
  | _ => []

theorem mem_extractPushSends {results : List NodeActivityOutput} {send : SendRequest} :
    send ∈ extractPushSends results ↔ ∃ r ∈ results, send ∈ r.pushSends := List.mem_flatMap

theorem mem_extractCommandGotos {results : List NodeActivityOutput} {send : SendRequest} :
    send ∈ extractCommandGotos results ↔ ∃ r ∈ results, send ∈ commandGotos r := List.mem_flatMap

theorem Serves.same {r r' : NodeActivityOutput} (serves : Serves r r') :
    r'.nodeName = r.nodeName ∧ r'.taskPath = r.taskPath ∧ r'.interrupts = r.interrupts ∧
      r'.pushSends = r.pushSends ∧ r'.command = r.command := by
  obtain ⟨replies, rfl, -⟩ := serves
  exact ⟨rfl, rfl, rfl, rfl, rfl⟩

theorem Serves.commandGotos_eq {r r' : NodeActivityOutput} (serves : Serves r r') :
    commandGotos r' = commandGotos r := by
  unfold commandGotos
  rw [serves.same.2.2.2.2]

theorem forall₂_mem_right {α β : Type} {R : α → β → Prop} {as : List α} {bs : List β}
    (all : List.Forall₂ R as bs) {b : β} (mem : b ∈ bs) : ∃ a ∈ as, R a b := by
  induction all with
  | nil => cases mem
  | @cons a b' as bs here rest ih =>
      rcases List.mem_cons.mp mem with rfl | later
      · exact ⟨a, List.mem_cons_self, here⟩
      · obtain ⟨a', mem', held⟩ := ih later
        exact ⟨a', List.mem_cons_of_mem a mem', held⟩

theorem forall₂_mem_left {α β : Type} {R : α → β → Prop} {as : List α} {bs : List β}
    (all : List.Forall₂ R as bs) {a : α} (mem : a ∈ as) : ∃ b ∈ bs, R a b := by
  obtain ⟨b, mem', held⟩ := forall₂_mem_right all.flip mem
  exact ⟨b, mem', held⟩

variable {h : List Event} {tasks : List PregelTask} {level : Nat} {o : Outputs}

/-- A list of outputs in the course is one that was collected. -/
theorem Course.mem (course : Course h tasks level o) {route : Route}
    {outputs : List NodeActivityOutput} (listed : (route, outputs) ∈ o.collected level) :
    Event.collected route outputs ∈ superstepOf h := by
  rw [← course.collected] at listed
  exact mem_collectedIn.mp listed

/-- The nodes whose results a superstep has are those it scheduled. -/
theorem Course.served_name (course : Course h tasks level o) (past : 2 ≤ level)
    {r : NodeActivityOutput} (mem : r ∈ o.served) : ∃ t ∈ tasks, r.nodeName = t.name := by
  obtain ⟨r₀, mem₀, serves⟩ := forall₂_mem_right (course.served past) mem
  obtain ⟨t, scheduled, ran⟩ := forall₂_mem_right (course.scheduled (by omega)) mem₀
  refine ⟨t, (List.perm_insertionSort _ _).subset scheduled, ?_⟩
  rw [serves.same.1, ran.name]

/-- Every Send and goto that is extracted was collected in this superstep. -/
theorem Course.request_settled (course : Course h tasks level o) (past : 3 ≤ level)
    {r : NodeActivityOutput} (mem : r ∈ o.settled) {send : SendRequest}
    (emitted : send ∈ r.pushSends ∨ send ∈ commandGotos r) :
    ∃ e ∈ superstepOf h, send ∈ requestsOf e := by
  have requests : ∀ {outputs : List NodeActivityOutput} {r : NodeActivityOutput}, r ∈ outputs →
      send ∈ r.pushSends ∨ send ∈ commandGotos r →
      send ∈ extractPushSends outputs ++ extractCommandGotos outputs := by
    intro outputs r mem emitted
    rcases emitted with pushed | gone
    · exact List.mem_append_left _ (mem_extractPushSends.mpr ⟨r, mem, pushed⟩)
    · exact List.mem_append_right _ (mem_extractCommandGotos.mpr ⟨r, mem, gone⟩)
  have first : (Route.scheduled, o.scheduled) ∈ o.collected level ∧
      (Route.resumed, o.resumed) ∈ o.collected level := by
    match level, past with
    | 3, _ | 4, _ | _ + 5, _ => simp [Outputs.collected]
  rcases List.mem_append.mp mem with settled | resumed
  · obtain ⟨r₀, mem₀, serves⟩ := forall₂_mem_right (course.served (by omega)) (List.mem_filter.mp settled).1
    rw [serves.same.2.2.2.1, serves.commandGotos_eq] at emitted
    exact ⟨_, course.mem first.1, requests mem₀ emitted⟩
  · exact ⟨_, course.mem first.2, requests resumed emitted⟩

theorem Course.request_afterPush (course : Course h tasks level o) (past : 4 ≤ level)
    {send : SendRequest} (extracted : send ∈ extractCommandGotos o.afterPush) :
    ∃ e ∈ superstepOf h, send ∈ requestsOf e := by
  obtain ⟨r, mem, gone⟩ := mem_extractCommandGotos.mp extracted
  rcases List.mem_append.mp mem with settled | pushed
  · exact course.request_settled (by omega) settled (.inr gone)
  · have listed : (Route.push, o.push) ∈ o.collected level := by
      match level, past with
      | 4, _ | _ + 5, _ => simp [Outputs.collected]
    exact ⟨_, course.mem listed, mem_extractCommandGotos.mpr ⟨r, pushed, gone⟩⟩

/-- What a phase starts to execute is a scheduled node, or was asked for by a
Send or a goto of this superstep. -/
theorem Works.started {ph : Phase} {self self' : LangGraphWorkflow Chan} {e : Event}
    (works : Works S ph h self e self') (on : OnCourse h ph o) {node : String} (start : starts node e) :
    (∃ t ∈ ph.tasks, t.name = node) ∨
      ∃ send, send.node = node ∧ ∃ e ∈ superstepOf h, send ∈ requestsOf e := by
  obtain ⟨course, results⟩ := on
  cases works with
  | dispatch admitted =>
      cases admitted with
      | scheduled stage task => exact .inl ⟨_, task, start⟩
      | @resumed r values stage result =>
          rw [stage] at course results
          rw [results] at result
          obtain ⟨t, task, name⟩ := course.served_name (by decide) result
          exact .inl ⟨t, task, name.symm.trans start⟩
      | @push send stage extracted =>
          rw [stage] at course results
          rw [results] at extracted
          obtain ⟨r, mem, pushed⟩ := mem_extractPushSends.mp extracted
          exact .inr ⟨send, start, course.request_settled (by decide) mem (.inl pushed)⟩
      | @goto send stage extracted =>
          rw [stage] at course results
          rw [results] at extracted
          exact .inr ⟨send, start, course.request_afterPush (by decide) extracted⟩
  | subgraph stage task bound => exact .inl ⟨_, task, start⟩
  | _ => cases start

end LanggraphTemporal.Machine
