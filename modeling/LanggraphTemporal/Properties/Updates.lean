/-
# Properties.Updates -- the updates a client makes to the state

An update signal is applied to the channels by its handler, at once and whenever
it arrives.  Once the main loop has begun, the channels are those that it began
with and all entries since applied to them, in order: no update is lost
(`updates_kept_of_afterStart`).  Before that there are no channels, and the
initialisation makes new ones: an update that arrives while a worker is searched
for is ignored (`early_update_lost`).

What a client edits during a pause is seen by everything that is dispatched after
it, in the same run and in those that continue it (`edits_seen`).
-/
import LanggraphTemporal.Machine.Channels
import LanggraphTemporal.Properties.ContinueAsNew

namespace LanggraphTemporal.Properties

set_option autoImplicit false

open Theory Theory.System Theory.History Model Model.LangGraphWorkflow Machine

variable {Chan : Type} {S : Setting Chan} {h : List Event} {w : Execution Chan} {threshold : Option Nat}
  {uuids : Nat → String} {arrived : List Signal} {script : List (Action Response Signal)}

/-! ## No update is lost -/

/-- An update that writes to a channel of the graph. -/
def touches (graph : Pregel Chan) : Event → Bool
  | .received (.updateState writes) => writes.any fun write => graph.channels.contains write.1
  | _ => false

/-- All channels of the graph are there. -/
def Built (graph : Pregel Chan) (wf : LangGraphWorkflow Chan) : Prop :=
  ∀ name, (graph.channels.get? name).isSome = true → (wf.channels.get? name).isSome = true

/-- Here LangGraph takes the writes of an update, to channels that are all
there. -/
def Takes (S : Setting Chan) (wf : LangGraphWorkflow Chan) (e : Event) : Prop :=
  ∀ writes, e = .received (.updateState writes) →
    Built S.graph wf ∧ ∃ out, S.env.lg.applyWrites wf.checkpoint wf.channels [updateTask writes] increment
      wf.triggerToNodes = .ok out

/-- The channels are those of the start with the entries `m` applied, in order
and each once; and each update among these was applied when it came. -/
structure Replays (S : Setting Chan) (m : List Event) (w : Execution Chan) : Prop where
  takes : Guarded (fun a e => Takes S (stateAfter S.env.lg (startOf S) a) e) m
  same : SameChannels (stateAfter S.env.lg (startOf S) m) w.self

/-- No update is lost: the channels account for all entries but some before the
main loop, and none of these is an update that has anything to write. -/
def UpdatesKept (S : Setting Chan) (w : Execution Chan) : Prop :=
  ∃ before after, w.history = before ++ after ∧
    (∀ e ∈ before, preliminary e = true ∧ touches S.graph e = false) ∧ (after = [] ∨ Replays S after w)

/-- Such an update comes only when the main loop has begun. -/
def AfterStart (S : Setting Chan) (a : List Event) (e : Event) : Prop :=
  touches S.graph e = true → ∃ x ∈ a, preliminary x = false

instance (S : Setting Chan) (a : List Event) (e : Event) : Decidable (AfterStart S a e) :=
  inferInstanceAs (Decidable (_ → _))

theorem Built.applied (keeps : S.env.lg.KeepsChannels) {wf wf' : LangGraphWorkflow Chan}
    (built : Built S.graph wf) {tasks : List PregelTaskWrites} {out : Applied Chan}
    (applied : S.env.lg.applyWrites wf.checkpoint wf.channels tasks increment wf.triggerToNodes = .ok out)
    (channels : wf'.channels = out.channels) : Built S.graph wf' := by
  intro name mem
  rw [channels]
  exact keeps.applied _ _ _ _ _ applied name (built name mem)

theorem built_start (keeps : S.env.lg.KeepsChannels) {before start : LangGraphWorkflow Chan}
    (initialised : initialise S.env S.graph S.input before = .ok start) : Built S.graph start := by
  have restored : ∀ checkpoint step, Built S.graph (restore S.env S.graph checkpoint step before) :=
    fun checkpoint step name mem => keeps.start S.graph.channels checkpoint name mem
  unfold initialise at initialised
  split at initialised
  · cases initialised
    exact restored _ _
  · dsimp only at initialised
    split at initialised
    · cases initialised
      exact restored _ _
    · split at initialised
      · rename_i out applied
        cases initialised
        exact (restored _ _).applied keeps applied rfl
      · cases initialised

/-- The channels are built before the main loop begins, and stay. -/
theorem built_invariant (keeps : S.env.lg.KeepsChannels) :
    (workflowMachine S).Invariant fun c => Built S.graph c.self where
  init c initial := by
    obtain ⟨before, start, -, initialised, same⟩ := initial.opened.initialised
    rw [same]
    exact fun name mem => built_start keeps initialised name mem
  step c d _ held step := by
    cases step with
    | work works =>
        cases works with
        | update _ updated =>
            obtain ⟨out, applied, rfl⟩ := updateStateSignal_applied updated
            exact held.applied keeps applied rfl
        | _ => exact held
    | move moves =>
        cases moves with
        | apply stage some applied => exact held.applied keeps applied rfl
        | _ => exact held

/-- An update has the same outcome on the same channels. -/
theorem takes_of_same {wf wf' wf'' : LangGraphWorkflow Chan} {writes : List (String × PyVal)}
    (same : SameChannels wf wf') (built : Built S.graph wf')
    (updated : wf'.updateStateSignal S.env.lg writes = .ok wf'') :
    Takes S wf (.received (.updateState writes)) := by
  intro writes' here
  cases here
  refine ⟨fun name mem => ?_, ?_⟩
  · rw [same.channels]
    exact built name mem
  · obtain ⟨out, applied, -⟩ := updateStateSignal_applied updated
    rw [same.checkpoint, same.channels, same.triggers]
    exact ⟨out, applied⟩

theorem takes_invariant (keeps : S.env.lg.KeepsChannels) : (workflowMachine S).Invariant fun c =>
    Guarded (fun a e => mainOf a ≠ [] → Takes S (stateAt S a) e) c.history where
  init c initial a e b split begun := by
    have none : mainOf a = [] :=
      mainOf_eq_nil.mpr fun x mem => initial.history x (by rw [split]; exact List.mem_append_left _ mem)
    exact absurd none begun
  step c d reachable held step := by
    cases step with
    | work works =>
        refine held.snoc ?_
        rintro - writes rfl
        cases works with
        | update _ updated =>
            exact takes_of_same (tracked_invariant.holds reachable)
              ((built_invariant keeps).holds reachable) updated writes rfl
    | move moves =>
        refine held.snoc ?_
        rintro - writes rfl
        cases moves

/-- **No update is lost in an execution where none comes before the main loop
has begun**, wherever it stands: ended, failed or waiting. -/
theorem updates_kept_of_afterStart (keeps : S.env.lg.KeepsChannels)
    (stopped : stoppedAt (replayExecution S threshold uuids arrived script) = some w)
    (onTime : Guarded (AfterStart S) (executionHistory S threshold uuids arrived script)) :
    UpdatesKept S w := by
  have timely : Guarded (AfterStart S) w.history := by
    rw [executionHistory, historyOf_eq, stopped] at onTime
    exact onTime
  have untouched : ∀ a b, w.history = a ++ b → (∀ e ∈ a, preliminary e = true) →
      ∀ e ∈ a, preliminary e = true ∧ touches S.graph e = false := by
    intro a b split early e mem
    refine ⟨early e mem, ?_⟩
    obtain ⟨a₁, a₂, rfl⟩ := List.append_of_mem mem
    by_contra touching
    rw [Bool.not_eq_false] at touching
    obtain ⟨x, here, main⟩ := timely a₁ e (a₂ ++ b) (by rw [split]; simp) touching
    have first := early x (List.mem_append_left _ here)
    rw [main] at first
    cases first
  rcases (execution_traced stopped).reached with early | ⟨ph, status, reachable⟩
  · exact ⟨w.history, [], (List.append_nil _).symm, untouched _ [] (List.append_nil _).symm early.history,
      .inl rfl⟩
  · have tracked := tracked_invariant.holds reachable
    refine ⟨w.history.takeWhile preliminary, mainOf w.history, (mainOf_split _).symm,
      untouched _ _ (mainOf_split _).symm fun e mem => List.mem_takeWhile_imp mem, .inr ⟨?_, ?_⟩⟩
    · intro a e b split
      have taken := (takes_invariant keeps).holds reachable (w.history.takeWhile preliminary ++ a) e b
        (by rw [List.append_assoc, ← split, mainOf_split])
      cases a with
      | nil =>
          rintro writes rfl
          cases mainOf_head split
      | cons x a =>
          have here := mainOf_front split
          rw [stateAt, here] at taken
          exact taken (List.cons_ne_nil x a)
    · exact ⟨tracked.channels, tracked.checkpoint, tracked.step, tracked.triggers⟩

section Runs

open Reference

/-- One node, on a worker that is found first. -/
def pinnedOnce : Setting Channel where
  env := env (graph [("d", ["in"])])
  graph := graph [("d", ["in"])]
  input := { graphDefinitionRef := "graph", inputData := some (.int 0), useWorkerAffinity := true }
  registered := rfl

/-- The update comes while the node runs. -/
def timelyScript : List (Action Response Signal) :=
  [.answer 0 (.queue "w1"), .signals [.updateState [("x", .int 5)]], .answer 0 (.output (pulled "d" []))]

theorem updatesKept_timelyScript :
    ∃ w, stoppedAt (replayExecution pinnedOnce none (fun _ => "") [] timelyScript) = some w ∧
      UpdatesKept pinnedOnce w := by
  have stops : (stoppedAt (replayExecution pinnedOnce none (fun _ => "") [] timelyScript)).isSome = true := rfl
  obtain ⟨w, stopped⟩ := Option.isSome_iff_exists.mp stops
  exact ⟨w, stopped, updates_kept_of_afterStart reference_keepsChannels stopped (by decide)⟩

/-- The update comes while a worker is searched for. -/
def earlyScript : List (Action Response Signal) :=
  [.signals [.updateState [("x", .int 5)]], .answer 0 (.queue "w1")]

/-- The value of the channel `x`. -/
def xOf (wf : LangGraphWorkflow Channel) : Option PyVal :=
  (wf.channels.get? "x").bind reference.get

/-- **An update that comes while a worker is searched for is lost.** -/
theorem early_update_lost :
    ∃ w, stoppedAt (replayExecution pinnedOnce none (fun _ => "") [] earlyScript) = some w ∧
      ¬UpdatesKept pinnedOnce w := by
  have stops : (stoppedAt (replayExecution pinnedOnce none (fun _ => "") [] earlyScript)).map
      (fun w => (w.history.map (touches pinnedOnce.graph), xOf w.self)) =
        some ([false, true, false, false, false], none) := rfl
  have replayed : (stoppedAt (replayExecution pinnedOnce none (fun _ => "") [] earlyScript)).map
      (fun w => (xOf (stateAfter reference (startOf pinnedOnce) w.history),
        xOf (stateAfter reference (startOf pinnedOnce) (w.history.drop 1)))) =
        some (some (.int 5), some (.int 5)) := rfl
  obtain ⟨w, stopped, facts⟩ := Option.map_eq_some_iff.mp stops
  obtain ⟨touched, lost⟩ := Prod.mk.inj facts
  rw [stopped] at replayed
  obtain ⟨first, second⟩ := Prod.mk.inj (Option.some.inj replayed)
  refine ⟨w, stopped, ?_⟩
  rintro ⟨before, after, split, untouched, kept⟩
  rw [split] at touched first second
  -- the entries left out are those before the update, so the others account for it
  have accounts : after ≠ [] ∧ xOf (stateAfter reference (startOf pinnedOnce) after) = some (.int 5) := by
    match before, untouched with
    | [], _ =>
        refine ⟨?_, first⟩
        rintro rfl
        simp at touched
    | [e], _ =>
        refine ⟨?_, second⟩
        rintro rfl
        simp at touched
    | e :: e' :: before, untouched =>
        obtain ⟨-, second, -⟩ : _ ∧ touches pinnedOnce.graph e' = true ∧ _ := by simpa using touched
        rw [(untouched e' (by simp)).2] at second
        cases second
  rcases kept with none | replays
  · exact accounts.1 none
  · have same : xOf (stateAfter reference (startOf pinnedOnce) after) = xOf w.self := by
      unfold xOf
      rw [← replays.same.channels]
      rfl
    rw [accounts.2, lost] at same
    cases same

end Runs

/-! ## Edits made while paused -/

/-- The channel values that an entry hands to the execution it starts. -/
def HandsOut (e : Event) (values : Dict PyVal) : Prop :=
  match e with
  | .dispatched input _ =>
      input.inputState = .ofDict values ∨
        input.nodeName = "__start__" ∧ input.inputState = values.getD "__start__" (.ofDict values)
  | .subgraphStarted _ call => call.input.inputData = some (.ofDict values)
  | _ => True

/-- The history when the state was read that the start `x`, after `a`, hands
out: a phase reads it once for its activities, a subgraph when it starts. -/
def readAt (a : List Event) (x : Event) : List Event :=
  match x with
  | .subgraphStarted _ _ => a
  | _ => entered a

/-- What starts after a pause is handed the channels of the pause, with all that
came since applied to them in order, up to a time in the phase that starts it. -/
def SeesEdits (S : Setting Chan) (a : List Event) (e : Event) : Prop :=
  ∀ b entries u values c, a = b ++ .paused entries :: (u ++ .resumed values :: c) →
    ∃ c₁ c₂, c = c₁ ++ c₂ ∧ (∀ x ∈ c₂, moves x = false) ∧
      HandsOut e (getChannelValues S.env.lg
        (stateAfter S.env.lg (stateAt S b) (.paused entries :: (u ++ .resumed values :: c₁))).channels)

theorem handsOut_of_admits {ph : Phase} {self : LangGraphWorkflow Chan} {input : NodeActivityInput}
    {call : ActivityCall} (admits : Admits S ph h self input) : HandsOut (.dispatched input call) ph.state := by
  cases admits with
  | @scheduled t stage task plain =>
      unfold HandsOut taskInput
      by_cases start : t.name = "__start__"
      · right
        simp [start]
      · left
        simp [start]
  | resumed | push | goto => exact .inl rfl

theorem handsOut_of_works {ph : Phase} {self self' : LangGraphWorkflow Chan} {e : Event}
    (reachable : (workflowMachine S).Reachable ⟨h, ph, self⟩) (works : Works S ph h self e self') :
    HandsOut e (valuesAt S (readAt h e)) := by
  cases works with
  | dispatch admitted =>
      show HandsOut _ (valuesAt S (entered h))
      rw [← snapshot_invariant.holds reachable admitted.executes]
      exact handsOut_of_admits admitted
  | subgraph stage task bound =>
      show HandsOut _ (valuesAt S h)
      rw [valuesAt, (tracked_invariant.holds reachable).channels]
      rfl
  | _ => trivial

theorem handsOut_of_moves {ph ph' : Phase} {self self' : LangGraphWorkflow Chan} {e : Event}
    (moves : Moves S h ph self e ph' self') (values : Dict PyVal) : HandsOut e values := by
  cases moves <;> trivial

theorem handsOut_of_preliminary {e : Event} (early : preliminary e = true) (values : Dict PyVal) :
    HandsOut e values := by
  cases e with
  | discovering | discovered | received => trivial
  | _ => cases early

/-- After a pause has ended, a state was read when a phase was entered later, or
now. -/
theorem readAt_of_resumed {b u c : List Event} {entries : List PendingInterrupt} {values : List PyVal}
    (e : Event) : ∃ c₁ c₂, c = c₁ ++ c₂ ∧ (∀ x ∈ c₂, moves x = false) ∧
      readAt (b ++ .paused entries :: (u ++ .resumed values :: c)) e =
        b ++ .paused entries :: (u ++ .resumed values :: c₁) := by
  have activity : ∃ c₁ c₂, c = c₁ ++ c₂ ∧ (∀ x ∈ c₂, moves x = false) ∧
      entered (b ++ .paused entries :: (u ++ .resumed values :: c)) =
        b ++ .paused entries :: (u ++ .resumed values :: c₁) := by
    have split : b ++ .paused entries :: (u ++ .resumed values :: c) =
        (b ++ .paused entries :: u) ++ .resumed values :: c := by simp
    obtain ⟨c₁, front, rest⟩ := upTo_of_hit (p := moves) (e := .resumed values) rfl split
    refine ⟨c₁, _, rest, (since_spec (p := moves) _).1, ?_⟩
    rw [entered, front]
    simp
  cases e with
  | subgraphStarted node call =>
      exact ⟨c, [], (List.append_nil c).symm, fun x mem => absurd mem List.not_mem_nil, rfl⟩
  | _ => exact activity

theorem seesEdits_of_handsOut {e : Event} (given : HandsOut e (valuesAt S (readAt h e))) :
    SeesEdits S h e := by
  rintro b entries u values c rfl
  obtain ⟨c₁, c₂, rest, quiet, here⟩ : ∃ c₁ c₂, c = c₁ ++ c₂ ∧ (∀ x ∈ c₂, moves x = false) ∧
      readAt (b ++ .paused entries :: (u ++ .resumed values :: c)) e =
        b ++ .paused entries :: (u ++ .resumed values :: c₁) := readAt_of_resumed e
  refine ⟨c₁, c₂, rest, quiet, ?_⟩
  rw [here, valuesAt, stateAt_append_cons rfl] at given
  exact given

/-- Every start hands out the state as it was when it was read. -/
theorem executionHistory_handsOut (threshold : Option Nat) (uuids : Nat → String) (arrived : List Signal)
    (script : List (Action Response Signal)) :
    Guarded (fun a e => HandsOut e (valuesAt S (readAt a e)))
      (executionHistory S threshold uuids arrived script) :=
  executionHistory_guarded (fun _ _ early => handsOut_of_preliminary early _)
    (fun _ _ _ _ _ reachable works => handsOut_of_works reachable works)
    (fun _ _ _ _ _ _ _ moves => handsOut_of_moves moves _) threshold uuids arrived script

theorem executionHistory_seesEdits (threshold : Option Nat) (uuids : Nat → String) (arrived : List Signal)
    (script : List (Action Response Signal)) :
    Guarded (SeesEdits S) (executionHistory S threshold uuids arrived script) :=
  (executionHistory_handsOut threshold uuids arrived script).mono fun _ _ => seesEdits_of_handsOut

/-- Once the main loop has begun, the entries account for the channels. -/
theorem states_tracked (stopped : stoppedAt (replayExecution S threshold uuids arrived script) = some w)
    (begun : mainOf w.history ≠ []) : SameChannels (stateAt S w.history) w.self := by
  rcases (execution_traced stopped).reached with early | ⟨ph, status, reachable⟩
  · exact absurd (mainOf_eq_nil.mpr early.history) begun
  · have tracked := tracked_invariant.holds reachable
    exact ⟨tracked.channels, tracked.checkpoint, tracked.step, tracked.triggers⟩

section Runs

open Reference

/-- A pause before each superstep of a node that triggers itself. -/
def editedLoop : Setting Channel :=
  setting [("d", ["in", branchTo "d"])] (some .all) none

/-- The client edits `x` twice in the first pause, and once while the node runs. -/
def editingScript : List (Action Response Signal) :=
  [.signals [.updateState [("x", .int 1)], .updateState [("x", .int 2)], .resume .none],
    .signals [.updateState [("x", .int 3)]], .answer 0 (.output (pulled "d" [(branchTo "d", .none)])),
    .signals [.resume .none]]

/-- The value of `x` that each activity is handed. -/
def handedX (h : List Event) : List (Option PyVal) :=
  h.filterMap fun e =>
    match e with
    | .dispatched input _ =>
        match input.inputState with
        | .dict kvs => some (kvs.lookup "x")
        | _ => some none
    | _ => none

example : handedX (historyOf (replayChain editedLoop 1 26 (fun _ => "") editingScript)) =
    [some (.int 2), some (.int 3)] := rfl

end Runs

end LanggraphTemporal.Properties
