/-
# Machine.Channels -- the channels, read off the history

Only three kinds of entries change the channels: writes applied at the end of a
superstep, the checkpoint that follows them, and update signals.  `stateAfter`
replays them on the state the main loop started with, and agrees with the
workflow object of every reachable configuration (`tracked_invariant`).  The
snapshot a phase gives its executions is such a state (`snapshot_invariant`).
-/
import LanggraphTemporal.Machine.Refinement
import Mathlib.Data.List.TakeWhile

namespace LanggraphTemporal.Machine

set_option autoImplicit false

open Theory Model Model.LangGraphWorkflow

variable {Chan : Type}

/-- The writes of `tasks`, applied by LangGraph; refused writes change nothing. -/
def afterWrites (lg : Langgraph Chan) (tasks : List PregelTaskWrites) (self : LangGraphWorkflow Chan) :
    LangGraphWorkflow Chan :=
  match lg.applyWrites self.checkpoint self.channels tasks increment self.triggerToNodes with
  | .ok out => { self with checkpoint := out.checkpoint, channels := out.channels }
  | .error _ => self

/-- The effect of an entry on the channels and the checkpoint. It does not go by
the handlers of the workflow, but by what LangGraph makes of the writes. -/
def track (lg : Langgraph Chan) (self : LangGraphWorkflow Chan) : Event → LangGraphWorkflow Chan
  | .received (.updateState writes) => afterWrites lg [updateTask writes] self
  | .applied writes _ => afterWrites lg writes self
  | .advanced =>
      { self with
        checkpoint := lg.createCheckpoint self.checkpoint self.channels self.step
        step := self.step + 1 }
  | _ => self

/-- The state after the entries `b`. -/
def stateAfter (lg : Langgraph Chan) (start : LangGraphWorkflow Chan) (b : List Event) :
    LangGraphWorkflow Chan :=
  b.foldl (track lg) start

/-- Two workflow objects with the same channels, as far as these evolve. -/
structure SameChannels (left right : LangGraphWorkflow Chan) : Prop where
  channels : left.channels = right.channels
  checkpoint : left.checkpoint = right.checkpoint
  step : left.step = right.step
  triggers : left.triggerToNodes = right.triggerToNodes

variable {lg : Langgraph Chan} {self self' : LangGraphWorkflow Chan}

theorem SameChannels.refl (self : LangGraphWorkflow Chan) : SameChannels self self :=
  ⟨rfl, rfl, rfl, rfl⟩

theorem SameChannels.trans {self'' : LangGraphWorkflow Chan} (left : SameChannels self self')
    (right : SameChannels self' self'') : SameChannels self self'' :=
  ⟨left.channels.trans right.channels, left.checkpoint.trans right.checkpoint,
    left.step.trans right.step, left.triggers.trans right.triggers⟩

/-- The same writes have the same effect on the same channels. -/
theorem SameChannels.afterWrites (same : SameChannels self self') (tasks : List PregelTaskWrites) :
    SameChannels (afterWrites lg tasks self) (afterWrites lg tasks self') := by
  obtain ⟨channels, checkpoint, step, triggers⟩ := same
  simp only [Machine.afterWrites, channels, checkpoint, triggers]
  cases lg.applyWrites self'.checkpoint self'.channels tasks increment self'.triggerToNodes with
  | ok out => exact ⟨rfl, rfl, step, rfl⟩
  | error message => exact ⟨channels, checkpoint, step, triggers⟩

theorem afterWrites_of_applied {tasks : List PregelTaskWrites} {out : Applied Chan}
    (applied : lg.applyWrites self.checkpoint self.channels tasks increment self.triggerToNodes = .ok out) :
    afterWrites lg tasks self = self.withApplied out := by
  simp only [afterWrites, applied]
  rfl

/-- An entry has the same effect on the same channels. -/
theorem SameChannels.track (same : SameChannels self self') (e : Event) :
    SameChannels (track lg self e) (track lg self' e) := by
  cases e with
  | received signal =>
      cases signal with
      | resume value => exact same
      | updateState writes => exact same.afterWrites [updateTask writes]
  | applied writes updated => exact same.afterWrites writes
  | advanced =>
      obtain ⟨channels, checkpoint, step, triggers⟩ := same
      simp only [Machine.track, channels, checkpoint, step]
      exact ⟨rfl, rfl, rfl, triggers⟩
  | _ => exact same

variable {S : Setting Chan} {h : List Event} {ph ph' : Phase} {e : Event}

theorem Works.track (works : Works S ph h self e self') :
    SameChannels (track S.env.lg self e) self' := by
  cases works with
  | update _ updated =>
      obtain ⟨out, applied, rfl⟩ := updateStateSignal_applied updated
      simp only [Machine.track, afterWrites_of_applied applied]
      exact .refl _
  | _ => exact ⟨rfl, rfl, rfl, rfl⟩

theorem Moves.track (moves : Moves S h ph self e ph' self') :
    SameChannels (track S.env.lg self e) self' := by
  cases moves with
  | apply stage some applied =>
      simp only [Machine.track, afterWrites_of_applied applied]
      exact ⟨rfl, rfl, rfl, rfl⟩
  | _ => exact ⟨rfl, rfl, rfl, rfl⟩

/-! ## The main loop -/

/-- The object with which the main loop begins, as far as its channels go. -/
def startOf (S : Setting Chan) : LangGraphWorkflow Chan :=
  match initialise S.env S.graph S.input (configure S.graph S.input (init S.env)) with
  | .ok start => start
  | .error _ => init S.env

/-- The initialisation overwrites the channels and the checkpoint it finds. -/
theorem initialise_same {before before' opened : LangGraphWorkflow Chan}
    (triggers : before.triggerToNodes = before'.triggerToNodes)
    (initialised : initialise S.env S.graph S.input before = .ok opened) :
    ∃ opened', initialise S.env S.graph S.input before' = .ok opened' ∧ SameChannels opened' opened := by
  unfold initialise at initialised ⊢
  cases restored : S.input.restoredState with
  | some state =>
      rw [restored] at initialised
      cases initialised
      exact ⟨_, rfl, rfl, rfl, rfl, triggers.symm⟩
  | none =>
      rw [restored] at initialised
      cases data : S.input.inputData with
      | none =>
          rw [data] at initialised
          cases initialised
          exact ⟨_, rfl, rfl, rfl, rfl, triggers.symm⟩
      | some value =>
          simp only [data, restore, ← triggers] at initialised ⊢
          split at initialised
          · rename_i out applied
            cases initialised
            exact ⟨_, rfl, rfl, rfl, rfl, rfl⟩
          · cases initialised

theorem Opened.same {start : LangGraphWorkflow Chan} (opened : Opened S start) :
    SameChannels (startOf S) start := by
  obtain ⟨before, opened', triggers, initialised, rfl⟩ := opened.initialised
  obtain ⟨start, here, same⟩ : ∃ start, initialise S.env S.graph S.input
      (configure S.graph S.input (init S.env)) = .ok start ∧ SameChannels start opened' :=
    initialise_same triggers initialised
  unfold startOf
  rw [here]
  exact ⟨same.channels, same.checkpoint, same.step, same.triggers⟩

/-- The entries of the main loop. -/
def mainOf (h : List Event) : List Event := h.dropWhile preliminary

theorem mainOf_eq_nil {h : List Event} : mainOf h = [] ↔ ∀ e ∈ h, preliminary e = true :=
  List.dropWhile_eq_nil_iff

/-- An entry is one of the main loop once that has begun, and begins it if it is
not preliminary. -/
theorem mainOf_snoc {h : List Event} {e : Event} (begun : mainOf h ≠ [] ∨ preliminary e = false) :
    mainOf (h ++ [e]) = mainOf h ++ [e] := by
  unfold mainOf at begun ⊢
  rw [List.dropWhile_append]
  rcases begun with some | begins
  · rw [if_neg (by simpa using some)]
  · split
    · rename_i none
      rw [List.isEmpty_iff.mp none, List.dropWhile_cons_of_neg (by simp [begins])]
      rfl
    · rfl

theorem mainOf_append {a b : List Event} (begun : mainOf a ≠ []) : mainOf (a ++ b) = mainOf a ++ b := by
  unfold mainOf at begun ⊢
  rw [List.dropWhile_append, if_neg (by simpa using begun)]

theorem mainOf_split (h : List Event) : h.takeWhile preliminary ++ mainOf h = h :=
  List.takeWhile_append_dropWhile

/-- The main loop does not begin with a preliminary entry. -/
theorem mainOf_head {h b : List Event} {e : Event} (split : mainOf h = e :: b) : preliminary e = false := by
  have some : mainOf h ≠ [] := by
    rw [split]
    exact List.cons_ne_nil e b
  have first := List.head_dropWhile_not preliminary some
  simpa [mainOf] using (show (mainOf h).head some = e by simp [split]) ▸ first

theorem mainOf_append_cons {a b : List Event} {e : Event} (main : preliminary e = false) :
    mainOf (a ++ e :: b) = mainOf a ++ e :: b := by
  have begun : mainOf (a ++ [e]) = mainOf a ++ [e] := mainOf_snoc (.inr main)
  have some : mainOf (a ++ [e]) ≠ [] := by
    rw [begun]
    exact List.append_ne_nil_of_right_ne_nil _ (List.cons_ne_nil e [])
  rw [List.append_cons, mainOf_append some, begun, List.append_assoc, List.singleton_append]

/-- A part of the main loop is the main loop of the history up to its end. -/
theorem mainOf_front {h a b : List Event} (split : mainOf h = a ++ b) :
    mainOf (h.takeWhile preliminary ++ a) = a := by
  have early : mainOf (h.takeWhile preliminary) = [] :=
    mainOf_eq_nil.mpr fun e mem => List.mem_takeWhile_imp mem
  cases a with
  | nil => rw [List.append_nil, early]
  | cons e a =>
      have begins : preliminary e = false := mainOf_head split
      rw [mainOf_append_cons begins, early, List.nil_append]

theorem Works.waits (works : Works S ph h self e self') : ph.stage ≠ .ready := by
  cases works with
  | resume value waits => exact waits
  | update waits => exact waits
  | dispatch admitted => exact Stage.busy_of_executes admitted.executes
  | lose executes => exact Stage.busy_of_executes executes
  | discover executes => exact Stage.busy_of_executes executes
  | discovered queue executes => exact Stage.busy_of_executes executes
  | subgraph stage => rw [stage]; decide
  | subagent stage => rw [stage]; decide

theorem Moves.not_preliminary (moves : Moves S h ph self e ph' self') : preliminary e = false := by
  cases moves <;> rfl

theorem main_invariant : (workflowMachine S).Invariant fun c =>
    c.phase.stage ≠ .ready → mainOf c.history ≠ [] where
  init c initial stage := absurd (by rw [initial.phase]) stage
  step c d _ held step stage := by
    cases step with
    | work works =>
        rw [mainOf_snoc (.inl (held works.waits))]
        exact List.append_ne_nil_of_right_ne_nil _ (List.cons_ne_nil _ _)
    | move moves =>
        rw [mainOf_snoc (.inr moves.not_preliminary)]
        exact List.append_ne_nil_of_right_ne_nil _ (List.cons_ne_nil _ _)

/-- The workflow object after the history `h`, as far as its channels go. -/
def stateAt (S : Setting Chan) (h : List Event) : LangGraphWorkflow Chan :=
  stateAfter S.env.lg (startOf S) (mainOf h)

/-- The entries of the history account for the channels. -/
def Tracked (S : Setting Chan) (h : List Event) (self : LangGraphWorkflow Chan) : Prop :=
  SameChannels (stateAt S h) self

theorem Tracked.snoc (held : Tracked S h self) (begun : mainOf h ≠ [] ∨ preliminary e = false)
    (next : SameChannels (track S.env.lg self e) self') : Tracked S (h ++ [e]) self' := by
  unfold Tracked stateAt stateAfter
  rw [mainOf_snoc begun, List.foldl_append]
  exact (SameChannels.track held e).trans next

theorem tracked_invariant : (workflowMachine S).Invariant fun c => Tracked S c.history c.self where
  init c initial := by
    unfold Tracked stateAt
    rw [mainOf_eq_nil.mpr initial.history]
    exact initial.opened.same
  step c d reachable held step := by
    cases step with
    | work works => exact held.snoc (.inl (main_invariant.holds reachable works.waits)) works.track
    | move moves => exact held.snoc (.inr moves.not_preliminary) moves.track

theorem opened_invariant : (workflowMachine S).Invariant fun _ => ∃ start, Opened S start where
  init c initial := ⟨c.self, initial.opened⟩
  step _ _ _ held _ := held

/-! ## Snapshots -/

/-- `state` is the value of the channels at a time in this superstep before it
has applied any of its writes. -/
def Reads (S : Setting Chan) (h : List Event) (state : Dict PyVal) : Prop :=
  ∃ p m start step tasks b b', h = p ++ (m ++ .scheduled step tasks :: (b ++ b')) ∧
    (∀ e ∈ p, preliminary e = true) ∧ Opened S start ∧ (∀ e ∈ b ++ b', isScheduled e = false) ∧
      (∀ e ∈ b, completes e = false) ∧
        state = getChannelValues S.env.lg
          (stateAfter S.env.lg start (m ++ .scheduled step tasks :: b)).channels

theorem Reads.snoc {state : Dict PyVal} (reads : Reads S h state) (inside : isScheduled e = false) :
    Reads S (h ++ [e]) state := by
  obtain ⟨p, m, start, step, tasks, b, b', split, early, opened, quiet, before, values⟩ := reads
  refine ⟨p, m, start, step, tasks, b, b' ++ [e], by rw [split]; simp, early, opened, ?_, before, values⟩
  intro x mem
  rw [← List.append_assoc] at mem
  rcases List.mem_append.mp mem with old | new
  · exact quiet x old
  · rw [List.mem_singleton.mp new]
    exact inside

/-- The entries from the one that completes a superstep on. -/
def closes : Event → Bool
  | .skipped | .applied _ _ | .advanced => true
  | _ => false

theorem not_completes {e : Event} (quiet : closes e = false) : completes e = false := by
  cases e with
  | skipped | applied => cases quiet
  | _ => rfl

/-- A superstep has begun, and not completed. -/
def Open (h : List Event) : Prop :=
  (∃ a step tasks, h = a ++ .scheduled step tasks :: superstepOf h) ∧
    ∀ e ∈ superstepOf h, closes e = false

theorem Open.snoc (opened : Open h) (inside : isScheduled e = false) (quiet : closes e = false) :
    Open (h ++ [e]) := by
  obtain ⟨⟨a, step, tasks, split⟩, before⟩ := opened
  refine ⟨⟨a, step, tasks, ?_⟩, fun x mem => ?_⟩
  · rw [superstepOf_snoc inside, ← List.cons_append, ← List.append_assoc, ← split]
  · rw [superstepOf_snoc inside] at mem
    rcases List.mem_append.mp mem with old | new
    · exact before x old
    · rw [List.mem_singleton.mp new]
      exact quiet

theorem open_scheduled (h : List Event) (step : Nat) (tasks : List PregelTask) :
    Open (h ++ [.scheduled step tasks]) := by
  rw [Open, superstepOf_scheduled]
  exact ⟨⟨h, step, tasks, rfl⟩, fun x mem => absurd mem List.not_mem_nil⟩

/-- The same entries have the same effect on the same channels. -/
theorem SameChannels.after (same : SameChannels self self') (b : List Event) :
    SameChannels (stateAfter lg self b) (stateAfter lg self' b) := by
  induction b generalizing self self' with
  | nil => exact same
  | cons e b ih => exact ih (same.track e)

/-- The channels of an open superstep have none of its writes. -/
theorem Tracked.reads (tracked : Tracked S h self) (some : ∃ start, Opened S start) (opened : Open h) :
    Reads S h (getChannelValues S.env.lg self.channels) := by
  obtain ⟨start, begun⟩ := some
  obtain ⟨⟨a, step, tasks, split⟩, quiet⟩ := opened
  have inside : ∀ x ∈ superstepOf h, isScheduled x = false := (History.since_spec h).1
  have main : mainOf h = mainOf a ++ .scheduled step tasks :: superstepOf h := by
    conv_lhs => rw [split]
    rw [mainOf_append_cons rfl]
  have same : (stateAfter S.env.lg start (mainOf h)).channels = self.channels :=
    (begun.same.after (mainOf h)).channels.symm.trans tracked.channels
  refine ⟨a.takeWhile preliminary, mainOf a, start, step, tasks, superstepOf h, [], ?_,
    fun e mem => List.mem_takeWhile_imp mem, begun, ?_, fun e mem => not_completes (quiet e mem), ?_⟩
  · rw [List.append_nil, ← List.append_assoc, mainOf_split]
    exact split
  · rw [List.append_nil]
    exact inside
  · rw [← main, same]

/-- The stages of a superstep that has not applied its writes. -/
def Stage.unapplied : Stage → Bool
  | ready | after | pausedAfter | closing => false
  | _ => true

theorem Moves.unapplied (moves : Moves S h ph self e ph' self') (open_ : ph'.stage.unapplied = true) :
    isScheduled e = true ∨
      ph.stage.unapplied = true ∧ isScheduled e = false ∧ closes e = false := by
  obtain ⟨here, tasks, results, state⟩ := ph
  cases moves with
  | schedule => exact .inl rfl
  | pause pause =>
      cases here <;> cases pause <;> first | exact .inr ⟨rfl, rfl, rfl⟩ | cases open_
  | resume resume =>
      cases here <;> cases resume <;> first | exact .inr ⟨rfl, rfl, rfl⟩ | cases open_
  | collect route_eq =>
      cases here <;> cases route_eq <;> exact .inr ⟨rfl, rfl, rfl⟩
  | serve stage =>
      cases stage
      exact .inr ⟨rfl, rfl, rfl⟩
  | skip | apply =>
      rcases completed_cases S _ with ⟨-, phase⟩ | ⟨-, phase⟩ <;> rw [phase] at open_ <;> cases open_
  | advance => cases open_

theorem open_invariant : (workflowMachine S).Invariant fun c =>
    c.phase.stage.unapplied = true → Open c.history where
  init c initial open_ := by
    rw [initial.phase] at open_
    cases open_
  step c d _ held step open_ := by
    cases step with
    | @work h ph self self' e works =>
        have quiet : closes e = false := by
          cases works <;> rfl
        exact (held open_).snoc works.not_scheduled quiet
    | @move h ph ph' self self' e moves =>
        rcases moves.unapplied open_ with scheduled | ⟨before, inside, quiet⟩
        · cases e with
          | scheduled step tasks => exact open_scheduled h step tasks
          | _ => cases scheduled
        · exact (held before).snoc inside quiet

/-- A stage that executes has read the channels when it was entered. -/
theorem Moves.snapshot (moves : Moves S h ph self e ph' self') (executes : ph'.stage.executes = true) :
    ph'.state = getChannelValues S.env.lg self'.channels := by
  cases moves with
  | @schedule tasks =>
      rcases opened_cases S tasks self with ⟨-, phase⟩ | ⟨-, phase⟩
      · rw [phase] at executes
        cases executes
      · rw [phase]
        rfl
  | pause pause =>
      obtain ⟨here, tasks, results, state⟩ := ph
      cases here <;> cases pause <;> cases executes
  | resume => rfl
  | collect route_eq =>
      obtain ⟨here, tasks, results, state⟩ := ph
      cases here <;> cases route_eq <;> first | rfl | cases executes
  | @serve results =>
      rcases served_cases S ph.tasks results self with ⟨-, phase⟩ | ⟨-, phase⟩
      · rw [phase]
        rfl
      · rw [phase] at executes
        cases executes
  | skip | apply =>
      rcases completed_cases S ph with ⟨-, phase⟩ | ⟨-, phase⟩ <;> rw [phase] at executes <;> cases executes
  | advance => cases executes

theorem Stage.unapplied_of_executes {stage : Stage} (executes : stage.executes = true) :
    stage.unapplied = true := by
  cases stage with
  | executing | resuming | pushing | going => rfl
  | _ => cases executes

theorem reads_invariant : (workflowMachine S).Invariant fun c =>
    c.phase.stage.executes = true → Reads S c.history c.phase.state where
  init c initial executes := by
    rw [initial.phase] at executes
    cases executes
  step c d reachable held step executes := by
    have next := reachable.step step
    cases step with
    | work works => exact (held executes).snoc works.not_scheduled
    | move moves =>
        have opened := open_invariant.holds next (Stage.unapplied_of_executes executes)
        have reads := (tracked_invariant.holds next).reads (opened_invariant.holds next) opened
        rw [← moves.snapshot executes] at reads
        exact reads

/-- The history when the phase was entered that is going on. -/
def entered (h : List Event) : List Event := History.upTo moves h

theorem entered_append_recent (h : List Event) : entered h ++ recent h = h :=
  History.upTo_append_since moves h

/-- The values of the channels after the history `h`. -/
def valuesAt (S : Setting Chan) (h : List Event) : Dict PyVal :=
  getChannelValues S.env.lg (stateAt S h).channels

/-- From an entry of the main loop on, the state follows from what it was. -/
theorem stateAt_append_cons {a b : List Event} {e : Event} (main : preliminary e = false) :
    stateAt S (a ++ e :: b) = stateAfter S.env.lg (stateAt S a) (e :: b) := by
  unfold stateAt stateAfter
  rw [mainOf_append_cons main, List.foldl_append]

/-- A stage that executes hands out the values from when it was entered. -/
theorem snapshot_invariant : (workflowMachine S).Invariant fun c =>
    c.phase.stage.executes = true → c.phase.state = valuesAt S (entered c.history) where
  init c initial executes := by
    rw [initial.phase] at executes
    cases executes
  step c d reachable held step executes := by
    have next := reachable.step step
    cases step with
    | work works =>
        rw [entered, History.upTo_snoc_of_not works.not_moves]
        exact held executes
    | move moves =>
        rw [entered, History.upTo_snoc_of moves.moves, moves.snapshot executes, valuesAt,
          (tracked_invariant.holds next).channels]

end LanggraphTemporal.Machine
