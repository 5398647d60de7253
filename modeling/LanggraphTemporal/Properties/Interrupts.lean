/-
# Properties.Interrupts -- pauses, resume values and interrupted nodes

What a pause does with the resume signals it is given (`PausesTakeAll`), which
of them the nodes executed again are handed (`SharedValues`), and which
interrupted outputs are executed again before their superstep completes
without them (`InterruptsAnswered`).
-/
import LanggraphTemporal.Machine.Reference
import LanggraphTemporal.Machine.Streams

namespace LanggraphTemporal.Properties

set_option autoImplicit false

open Theory Theory.System Theory.History Model Model.LangGraphWorkflow Machine

variable {Chan : Type} {S : Setting Chan}

/-! ## What a pause takes -/

/-- A pause that ends has received some value since it began, and takes all it
has received. -/
def TakesAll (a : List Event) (e : Event) : Prop :=
  ∀ values, e = .resumed values → values ≠ [] ∧ values = resumeSignals (sincePause a)

theorem takesAll_of_moves {h : List Event} {ph ph' : Phase} {self self' : LangGraphWorkflow Chan}
    {e : Event} (moves : Moves S h ph self e ph' self')
    (reachable : (workflowMachine S).Reachable ⟨h, ph, self⟩) : TakesAll h e := by
  rintro values rfl
  cases moves with
  | resume resume event =>
      have resumes := resumes_invariant.holds reachable
      obtain ⟨a, split⟩ := resumes.last (by rw [resume]; rfl)
      have paused : ∃ entries, Event.paused entries ∈ h :=
        ⟨pending ph, by rw [show h = _ from split]; simp⟩
      have values := resumes.values paused
      have some := (resumes.event paused).mp event
      exact ⟨by rw [values]; exact some, values⟩

/-- What a pause does with the resume signals: it ends in the first activation
that brings one after it began, and takes all values received since then. While
it waits, none has been received. -/
structure PausesTakeAll (outcome : Outcome (Execution Chan) Request Response Signal RunError RunResult) :
    Prop where
  resumed : Guarded TakesAll (historyOf outcome)
  waiting : ∀ qs k w, outcome = .blocked qs k w → inPause w.history →
    qs = [.resumeEvent] ∧ resumeSignals (sincePause w.history) = []

/-- **Each pause ends as soon as an activation brings a resume signal, and takes
every value received since it began.** -/
theorem pauses_take_all (S : Setting Chan) (threshold : Option Nat) (uuids : Nat → String)
    (script : List (Action Response Signal)) : PausesTakeAll (replayRun S threshold uuids script) := by
  refine ⟨runHistory_guarded ?_ ?_ ?_ threshold uuids script, fun qs k w blocked paused => ?_⟩
  · rintro a e early values rfl
    cases early
  · rintro h ph self self' e reachable works values rfl
    cases works
  · exact fun h ph ph' self self' e reachable moves => takesAll_of_moves moves reachable
  · have holds := run_refines S threshold uuids script
    rw [blocked] at holds
    obtain ⟨waits, n, ph, here⟩ := holds.pause paused
    refine ⟨waits, ?_⟩
    have asleep := (workflowSystem S.env).replay_blocked _ _ _ blocked .resumeEvent (by rw [waits]; simp)
    have event : w.self.resumeEvent = false := by
      simp only [workflowSystem] at asleep
      split at asleep
      · cases asleep
      · rename_i off
        simpa using off
    obtain ⟨a, entries, split⟩ := paused
    have resumes := (resumes_invariant.holds here.reachable).event
      ⟨entries, by rw [show w.history = _ from split]; simp⟩
    by_contra some
    have on := resumes.mpr some
    rw [event] at on
    cases on

section Runs

open Reference

def isResumed : Event → Bool
  | .resumed _ => true
  | _ => false

/-- As many pauses end as there are values for, if that many occur. -/
def EachSignalCounts (h : List Event) : Prop :=
  min (h.countP isPaused) (resumeSignals h).length ≤ h.countP isResumed

/-- The script with every signal in an activation of its own. -/
def oneByOne (script : List (Action Response Signal)) : List (Action Response Signal) :=
  script.flatMap fun action =>
    match action with
    | .signals gs => gs.map fun g => .signals [g]
    | .answer i r => [.answer i r]

/-- The run pauses after `d`, and then before `b`, which `d` leads to. -/
def twoPauses : Setting Channel :=
  setting [("d", ["in"]), ("b", [branchTo "b"])] (some (.names ["b"])) (some (.names ["d"]))

/-- Two resume signals in one activation, after the first pause began. -/
def batchedScript : List (Action Response Signal) :=
  [.answer 0 (.output (pulled "d" [(branchTo "b", .none)])),
    .signals [.resume (.str "first"), .resume (.str "second")]]

/-- **Of two signals in one activation, the second is lost to the next pause**;
one activation each ends both pauses. -/
theorem batched_signal_lost :
    ¬EachSignalCounts (history twoPauses batchedScript) ∧
      EachSignalCounts (history twoPauses (oneByOne batchedScript)) ∧
      history twoPauses batchedScript ≠ history twoPauses (oneByOne batchedScript) := by
  have batched : (history twoPauses batchedScript).countP isPaused = 2 ∧
      (resumeSignals (history twoPauses batchedScript)).length = 2 ∧
      (history twoPauses batchedScript).countP isResumed = 1 := by decide
  have single : (history twoPauses (oneByOne batchedScript)).countP isPaused = 2 ∧
      (resumeSignals (history twoPauses (oneByOne batchedScript))).length = 2 ∧
      (history twoPauses (oneByOne batchedScript)).countP isResumed = 2 := by decide
  refine ⟨fun counts => ?_, ?_, fun same => ?_⟩
  · unfold EachSignalCounts at counts
    omega
  · unfold EachSignalCounts
    omega
  · rw [same] at batched
    omega

end Runs

/-! ## What the interrupted nodes are given -/

/-- A re-execution is given all values received since the pause began; one that
is repeated because its worker was lost, what it was given before. -/
def GivenReceived (a : List Event) (e : Event) : Prop :=
  ∀ input call values, e = .dispatched input call → input.resumeValues = some values →
    values ≠ [] ∧ values <+: resumeSignals (sincePause a) ∧
      (values = resumeSignals (sincePause a) ∨ ∃ call, Event.lost input call ∈ a)

theorem paused_of_resuming : (workflowMachine S).Invariant fun c =>
    c.phase.stage = .resuming → interruptedOf c.phase.results ≠ [] →
      ∃ entries, Event.paused entries ∈ c.history where
  init c initial resuming := by
    rw [initial.phase] at resuming
    cases resuming
  step c d reachable held step resuming some := by
    cases step with
    | work works =>
        obtain ⟨entries, mem⟩ := held resuming some
        exact ⟨entries, List.mem_append_left _ mem⟩
    | @move h ph ph' self self' e moves =>
        cases moves with
        | resume resume event =>
            obtain ⟨a, split⟩ := (resumes_invariant.holds reachable).last (by rw [resume]; rfl)
            refine ⟨pending ph, List.mem_append_left _ ?_⟩
            rw [show h = _ from split]
            simp
        | serve stage serves =>
            rcases served_cases S ph.tasks _ self with ⟨none, phase⟩ | ⟨-, phase⟩
            · rw [phase] at some
              exact absurd none some
            · rw [phase] at resuming
              cases resuming
        | pause pause =>
            obtain ⟨here, tasks, results, state⟩ := ph
            cases here <;> cases pause <;> cases resuming
        | @schedule tasks =>
            rcases opened_cases S tasks self with ⟨-, phase⟩ | ⟨-, phase⟩ <;>
              rw [phase] at resuming <;> cases resuming
        | collect route_eq =>
            obtain ⟨here, tasks, results, state⟩ := ph
            cases here <;> cases route_eq <;> cases resuming
        | skip | apply =>
            rcases completed_cases S ph with ⟨-, phase⟩ | ⟨-, phase⟩ <;>
              rw [phase] at resuming <;> cases resuming
        | advance => cases resuming

theorem givenReceived_of_works {h : List Event} {ph : Phase} {self self' : LangGraphWorkflow Chan}
    {e : Event} (works : Works S ph h self e self')
    (reachable : (workflowMachine S).Reachable ⟨h, ph, self⟩) : GivenReceived h e := by
  rintro input call values rfl given
  cases works with
  | dispatch admitted =>
      cases admitted with
      | @resumed r values' stage result interrupted some received latest =>
          cases given
          have pending : interruptedOf ph.results ≠ [] :=
            List.ne_nil_of_mem (List.mem_filter.mpr ⟨result, interrupted⟩)
          have paused := paused_of_resuming.holds reachable stage pending
          have all := (resumes_invariant.holds reachable).values paused
          change self.resumeValues = resumeSignals (sincePause h) at all
          rw [← all]
          refine ⟨some, received, latest.imp id fun lost => ?_⟩
          obtain ⟨call, mem⟩ := lost
          exact ⟨call, mem_of_mem_since mem⟩
      | scheduled => cases given
      | push => cases given
      | goto => cases given

/-- The resume values are one queue for all nodes executed again after a pause.
Each is given a non-empty initial part of it, so that all begin with the same
first value. -/
structure SharedValues (h : List Event) : Prop where
  given : Guarded GivenReceived h
  shared : ∀ a input call b input' call' c values values',
    h = a ++ .dispatched input call :: (b ++ .dispatched input' call' :: c) →
      (∀ e ∈ b, isPaused e = false) → input.resumeValues = some values →
        input'.resumeValues = some values' → values <+: values' ∨ values' <+: values

theorem shared_of_given {h : List Event} (given : Guarded GivenReceived h) : SharedValues h := by
  refine ⟨given, fun a input call b input' call' c values values' split quiet left right => ?_⟩
  obtain ⟨-, first, -⟩ := given a _ _ split input call values rfl left
  have split' : h = (a ++ .dispatched input call :: b) ++ .dispatched input' call' :: c := by
    simpa using split
  obtain ⟨-, second, -⟩ := given _ _ _ split' input' call' values' rfl right
  have block : ∀ e ∈ Event.dispatched input call :: b, isPaused e = false := by
    intro e mem
    rcases List.mem_cons.mp mem with rfl | mem
    · rfl
    · exact quiet e mem
  have later : resumeSignals (sincePause a) <+:
      resumeSignals (sincePause (a ++ .dispatched input call :: b)) := by
    rw [sincePause, sincePause, since_append block, resumeSignals, resumeSignals,
      List.filterMap_append]
    exact List.prefix_append _ _
  exact List.prefix_or_prefix_of_prefix (first.trans later) second

theorem runHistory_givenReceived (S : Setting Chan) (threshold : Option Nat) (uuids : Nat → String)
    (script : List (Action Response Signal)) :
    Guarded GivenReceived (runHistory S threshold uuids script) := by
  refine runHistory_guarded ?_ ?_ ?_ threshold uuids script
  · rintro a e early input call values rfl
    cases early
  · exact fun h ph self self' e reachable works => givenReceived_of_works works reachable
  · rintro h ph ph' self self' e reachable moves input call values rfl
    cases moves

/-- **All nodes executed again after a pause share its resume values**: each is
given the list received by then, whatever the order of signals and executions. -/
theorem resume_values_shared (S : Setting Chan) (threshold : Option Nat) (uuids : Nat → String)
    (script : List (Action Response Signal)) :
    SharedValues (runHistory S threshold uuids script) :=
  shared_of_given (runHistory_givenReceived S threshold uuids script)

section Runs

open Reference

/-- Two nodes executed again after one pause are handed different values: the
two lists together are among those received since the pause began. -/
def OwnValues (h : List Event) : Prop :=
  ∀ a input call b input' call' c values values',
    h = a ++ .dispatched input call :: (b ++ .dispatched input' call' :: c) →
      (∀ e ∈ b, isPaused e = false) → input.nodeName ≠ input'.nodeName →
        input.resumeValues = some values → input'.resumeValues = some values' →
          (values ++ values').Subperm (resumeSignals (sincePause (a ++ .dispatched input call :: b)))

/-- Both nodes are interrupted, one value is received, and both are executed
again with it. -/
def sharedHistory : List Event :=
  history (setting [("d", ["in"]), ("b", ["in"])] none none)
    [.answer 0 (.output (asking "b?" (pulled "b" []))), .answer 0 (.output (asking "d?" (pulled "d" []))),
      .signals [.resume (.str "yes")], .answer 0 (.output (pulled "b" [])),
      .answer 0 (.output (pulled "d" []))]

/-- **One value answers two nodes.** -/
theorem one_value_answers_two : ¬OwnValues sharedHistory := by
  intro own
  have both := own (sharedHistory.take 8) _ _ [] _ _ (sharedHistory.drop 10) _ _ rfl
    (fun e mem => absurd mem List.not_mem_nil) (by decide) rfl rfl
  exact absurd both.length_le (by decide)

end Runs

/-! ## Which interrupts are answered -/

/-- The workflow has paused for the interrupts of `r`, executed its node again
with resume values, and collected an output of that without interrupts. -/
def Answered (r : NodeActivityOutput) (b : List Event) : Prop :=
  ∃ entries input call values outputs,
    [Event.paused entries, .dispatched input call, .collected .resumed outputs].Sublist b ∧
      (∀ data ∈ r.interrupts, PendingInterrupt.raised data ∈ entries) ∧
      input.nodeName = r.nodeName ∧ input.taskPath = r.taskPath ∧
      input.resumeValues = some values ∧ values ≠ [] ∧
      ∃ r' ∈ outputs, r'.nodeName = r.nodeName ∧ r'.taskPath = r.taskPath ∧ r'.interrupted = false

/-- Every interrupted output among those collected is answered. -/
def AnswersAll (d : Event) (b : List Event) : Prop :=
  ∀ route outputs, d = .collected route outputs → ∀ r ∈ outputs, r.interrupted = true → Answered r b

/-- No superstep completes before each interrupted output it has collected, by
whichever route, is answered. -/
def AllAnswered (h : List Event) : Prop :=
  Guarded (fun a e => completes e = true → After AnswersAll a) h

/-- None of the results of the superstep that `e` completes is interrupted, and
what is committed are their writes. -/
def CompletesSettled (S : Setting Chan) (a : List Event) (e : Event) : Prop :=
  (∀ r ∈ resultsIn (superstepOf a), r.interrupted = false) ∧
    (e = .skipped ∧ writesOf S.graph (resultsIn (superstepOf a)) = [] ∨
      ∃ updated, e = .applied (writesOf S.graph (resultsIn (superstepOf a))) updated)

/-- Each interrupted output is answered before its superstep completes, with the
resume values received so far, in their order, and takes no part in completing
it. -/
structure InterruptsAnswered (S : Setting Chan) (h : List Event) : Prop where
  answered : AllAnswered h
  given : Guarded GivenReceived h
  settled : Guarded (fun a e => completes e = true → CompletesSettled S a e) h

/-- No re-execution, Send or goto task is interrupted. -/
def OneRound (_ : List Event) (e : Event) : Prop :=
  ∀ route outputs, e = .collected route outputs → route ≠ .scheduled →
    ∀ r ∈ outputs, r.interrupted = false

theorem Answered.append {r : NodeActivityOutput} {b : List Event} (c : List Event)
    (answered : Answered r b) : Answered r (b ++ c) := by
  obtain ⟨entries, input, call, values, outputs, sub, rest⟩ := answered
  exact ⟨entries, input, call, values, outputs, sub.trans (List.sublist_append_left _ _), rest⟩

theorem AnswersAll.append {d : Event} {b : List Event} (c : List Event) (answers : AnswersAll d b) :
    AnswersAll d (b ++ c) :=
  fun route outputs same r mem interrupted => (answers route outputs same r mem interrupted).append c

theorem answersAll_of_plain {d : Event} {b : List Event}
    (plain : ∀ route outputs, d ≠ .collected route outputs) : AnswersAll d b :=
  fun route outputs same => absurd same (plain route outputs)

/-- What a superstep has done about the outputs `outs` of its scheduled tasks, in
the entries `b` since it collected them. -/
structure Asking (ph : Phase) (h b : List Event) (outs : List NodeActivityOutput) : Prop where
  plain : ∀ e ∈ b, ∀ route outputs, e ≠ .collected route outputs
  first : ph.stage.level = 1 → ph.results = outs
  served : ph.stage.level = 2 → List.Forall₂ Serves outs ph.results
  paused : ph.stage = .pausedInside →
    Event.paused (raisedInterrupts (interruptedOf ph.results)) ∈ b
  resumed : ph.stage = .resuming → interruptedOf ph.results ≠ [] → ∃ u,
    b = u ++ recent h ∧ Event.paused (raisedInterrupts (interruptedOf ph.results)) ∈ u

/-- The state of the answers in a superstep. -/
structure Answering (c : Config Chan) : Prop where
  answered : AllAnswered c.history
  settled : c.phase.stage.level ≠ 1 → c.phase.stage.level ≠ 2 → After AnswersAll c.history
  asking : c.phase.stage.level = 1 ∨ c.phase.stage.level = 2 → ∃ a b outs,
    c.history = a ++ .collected .scheduled outs :: b ∧ After AnswersAll a ∧
      Asking c.phase c.history b outs

theorem Answering.work {h : List Event} {ph : Phase} {self self' : LangGraphWorkflow Chan} {e : Event}
    (held : Answering ⟨h, ph, self⟩) (works : Works S ph h self e self') :
    Answering ⟨h ++ [e], ph, self'⟩ := by
  have plain : ∀ route outputs, e ≠ .collected route outputs := by
    rintro route outputs rfl
    cases works
  have quiet : completes e = false := by
    cases works <;> rfl
  refine ⟨held.answered.snoc fun done => ?_, fun notFirst notServed => ?_, fun level => ?_⟩
  · rw [quiet] at done
    cases done
  · exact (held.settled notFirst notServed).snoc (fun d b answers => answers.append [e])
      (answersAll_of_plain plain)
  · obtain ⟨a, b, outs, split, before, asking⟩ := held.asking level
    refine ⟨a, b ++ [e], outs, by rw [show h = _ from split]; simp, before, ?_, asking.first,
      asking.served, fun paused => List.mem_append_left _ (asking.paused paused), fun resuming some => ?_⟩
    · intro x mem
      rcases List.mem_append.mp mem with old | new
      · exact asking.plain x old
      · rw [List.mem_singleton.mp new]
        exact plain
    · obtain ⟨u, block, paused⟩ := asking.resumed resuming some
      refine ⟨u, ?_, paused⟩
      rw [recent_snoc works.not_moves, block, List.append_assoc]

/-- The outputs of the re-executions answer the interrupted ones. -/
theorem answered_of_collects {h b : List Event} {ph : Phase} {self : LangGraphWorkflow Chan}
    {outs outputs : List NodeActivityOutput} (stage : ph.stage = .resuming)
    (asking : Asking ph h b outs) (collects : Collects S h ph self outputs)
    (oneRound : ∀ r' ∈ outputs, r'.interrupted = false)
    {r : NodeActivityOutput} (mem : r ∈ outs) (interrupted : r.interrupted = true) :
    Answered r (b ++ [.collected .resumed outputs]) := by
  obtain ⟨q, mem', serves⟩ := forall₂_mem_left (asking.served (by rw [stage]; rfl)) mem
  obtain ⟨name, path, interrupts, -, -⟩ := serves.same
  have pending : q ∈ interruptedOf ph.results := by
    refine List.mem_filter.mpr ⟨mem', ?_⟩
    rw [NodeActivityOutput.interrupted, interrupts]
    exact interrupted
  unfold Collects at collects
  rw [stage] at collects
  obtain ⟨r', collected, values, some, -, output⟩ := forall₂_mem_left collects pending
  obtain ⟨call, dispatched⟩ := output.started
  obtain ⟨u, block, paused⟩ := asking.resumed stage (List.ne_nil_of_mem pending)
  refine ⟨raisedInterrupts (interruptedOf ph.results), resumedInput self.graphRef ph.state values q,
    call, values, outputs, ?_, ?_, name, path, rfl, some, r', collected, ?_, ?_,
    oneRound r' collected⟩
  · rw [block, List.append_assoc]
    exact (List.singleton_sublist.mpr paused).append
      ((List.singleton_sublist.mpr dispatched).append (List.Sublist.refl _))
  · intro data raised
    refine List.mem_flatMap.mpr ⟨q, pending, ?_⟩
    rw [interrupts]
    exact List.mem_map_of_mem raised
  · rw [output.name]
    exact name
  · rw [output.path]
    exact path

/-- An entry that collects nothing and completes nothing, between two phases
whose results are the same as far as interrupts go. -/
theorem Answering.snoc {h : List Event} {ph ph' : Phase} {self self' : LangGraphWorkflow Chan}
    {e : Event} (held : Answering ⟨h, ph, self⟩) (plain : ∀ route outputs, e ≠ .collected route outputs)
    (quiet : completes e = true → ph.stage.level ≠ 1 ∧ ph.stage.level ≠ 2)
    (settled : ph'.stage.level ≠ 1 → ph'.stage.level ≠ 2 → ph.stage.level ≠ 1 ∧ ph.stage.level ≠ 2)
    (asking : ph'.stage.level = 1 ∨ ph'.stage.level = 2 →
      (ph.stage.level = 1 ∨ ph.stage.level = 2) ∧
        ∀ b outs, Asking ph h b outs → Asking ph' (h ++ [e]) (b ++ [e]) outs) :
    Answering ⟨h ++ [e], ph', self'⟩ := by
  refine ⟨held.answered.snoc fun done => held.settled (quiet done).1 (quiet done).2,
    fun notFirst notServed => ?_, fun level => ?_⟩
  · obtain ⟨notFirst', notServed'⟩ := settled notFirst notServed
    exact (held.settled notFirst' notServed').snoc (fun d b answers => answers.append [e])
      (answersAll_of_plain plain)
  · obtain ⟨level', next⟩ := asking level
    obtain ⟨a, b, outs, split, before, asks⟩ := held.asking level'
    exact ⟨a, b ++ [e], outs, by rw [show h = _ from split]; simp, before, next b outs asks⟩

theorem Asking.plain_snoc {h b : List Event} {ph : Phase} {outs : List NodeActivityOutput} {e : Event}
    (asking : Asking ph h b outs) (plain : ∀ route outputs, e ≠ .collected route outputs) :
    ∀ x ∈ b ++ [e], ∀ route outputs, x ≠ .collected route outputs := by
  intro x mem
  rcases List.mem_append.mp mem with old | new
  · exact asking.plain x old
  · rw [List.mem_singleton.mp new]
    exact plain

theorem Answering.collect {h : List Event} {ph : Phase} {self : LangGraphWorkflow Chan} {route : Route}
    {outputs : List NodeActivityOutput} (held : Answering ⟨h, ph, self⟩)
    (route_eq : ph.stage.route = some route) (collects : Collects S h ph self outputs)
    (oneRound : OneRound h (.collected route outputs)) :
    Answering ⟨h ++ [.collected route outputs], collected S ph outputs self, self⟩ := by
  obtain ⟨here, tasks, results, state⟩ := ph
  have quiet : ∀ {P : Prop}, completes (.collected route outputs) = true → P := nofun
  -- what is collected by another route than the first has no interrupts to answer
  have fresh : route ≠ .scheduled → AnswersAll (.collected route outputs) [] := by
    rintro other route' outputs' same r mem interrupted
    cases same
    rw [oneRound _ _ rfl other r mem] at interrupted
    cases interrupted
  cases here with
  | executing =>
      cases route_eq
      refine ⟨held.answered.snoc quiet, fun notFirst => absurd rfl notFirst, fun _ => ?_⟩
      have nothing : ∀ e ∈ ([] : List Event), ∀ route outputs, e ≠ .collected route outputs :=
        fun e mem => absurd mem List.not_mem_nil
      exact ⟨h, [], outputs, rfl, held.settled nofun nofun, nothing, fun _ => rfl, nofun, nofun, nofun⟩
  | resuming =>
      cases route_eq
      refine ⟨held.answered.snoc quiet, fun _ _ => ?_, fun level => by rcases level with level | level <;> cases level⟩
      obtain ⟨a, b, outs, split, before, asking⟩ := held.asking (.inr rfl)
      have whole : h ++ [.collected .resumed outputs] =
          a ++ (.collected .scheduled outs :: (b ++ [.collected .resumed outputs])) := by
        rw [show h = _ from split]
        simp
      change After AnswersAll (h ++ [.collected .resumed outputs])
      rw [whole, after_append, after_cons, after_append]
      refine ⟨fun a' d c split' => (before a' d c split').append _, ?_, ?_, ?_⟩
      · rintro route' outputs' same r mem interrupted
        cases same
        exact answered_of_collects rfl asking collects (oneRound _ _ rfl nofun) mem interrupted
      · exact after_of_forall fun d mem c => answersAll_of_plain (asking.plain d mem)
      · exact after_cons.mpr ⟨fresh nofun, after_nil⟩
  | pushing | going =>
      cases route_eq
      refine ⟨held.answered.snoc quiet, fun _ _ => ?_, fun level => by rcases level with level | level <;> cases level⟩
      exact (held.settled nofun nofun).snoc (fun d b answers => answers.append _) (fresh nofun)
  | _ => cases route_eq

theorem Answering.serve {h : List Event} {ph : Phase} {self : LangGraphWorkflow Chan}
    {results : List NodeActivityOutput} (held : Answering ⟨h, ph, self⟩) (stage : ph.stage = .serving)
    (serves : List.Forall₂ Serves ph.results results) :
    Answering ⟨h ++ [.served results], served S ph.tasks results self, self⟩ := by
  have level := served_level (S := S) ph.tasks results self
  have results_eq := served_results (S := S) ph.tasks results self
  refine held.snoc nofun nofun (fun _ notServed => absurd level notServed) fun _ => ?_
  refine ⟨.inl (by rw [stage]; rfl), fun b outs asking => ?_⟩
  refine ⟨asking.plain_snoc nofun, fun first => ?_, fun _ => ?_, fun paused => ?_, fun resuming some => ?_⟩
  · rw [level] at first
    cases first
  · rw [results_eq, ← asking.first (by rw [stage]; rfl)]
    exact serves
  · rcases served_cases S ph.tasks results self with ⟨-, phase⟩ | ⟨-, phase⟩ <;>
      rw [phase] at paused <;> cases paused
  · rw [results_eq] at some
    rcases served_cases S ph.tasks results self with ⟨none, -⟩ | ⟨-, phase⟩
    · exact absurd none some
    · rw [phase] at resuming
      cases resuming

theorem Answering.pause {h : List Event} {ph : Phase} {self : LangGraphWorkflow Chan} {stage : Stage}
    (held : Answering ⟨h, ph, self⟩) (pause : ph.stage.pause = some stage) :
    Answering ⟨h ++ [.paused (pending ph)], { ph with stage := stage },
      clearResume (interrupt (pending ph) self)⟩ := by
  obtain ⟨here, tasks, results, state⟩ := ph
  cases here with
  | before | after =>
      cases pause
      exact held.snoc nofun nofun (fun _ _ => ⟨nofun, nofun⟩) fun level => by
        rcases level with level | level <;> cases level
  | interrupted =>
      cases pause
      refine held.snoc nofun nofun (fun _ notServed => absurd rfl notServed) fun _ =>
        ⟨.inr rfl, fun b outs asking => ?_⟩
      exact ⟨asking.plain_snoc nofun, nofun, fun _ => asking.served rfl,
        fun _ => List.mem_append_right _ List.mem_cons_self, nofun⟩
  | _ => cases pause

theorem Answering.resume {h : List Event} {ph : Phase} {self self' : LangGraphWorkflow Chan}
    {stage : Stage} (held : Answering ⟨h, ph, self⟩) (resume : ph.stage.resume = some stage)
    (values : List PyVal) :
    Answering ⟨h ++ [.resumed values], enter S stage ph.tasks ph.results self, self'⟩ := by
  obtain ⟨here, tasks, results, state⟩ := ph
  cases here with
  | pausedBefore | pausedAfter =>
      cases resume
      exact held.snoc nofun nofun (fun _ _ => ⟨nofun, nofun⟩) fun level => by
        rcases level with level | level <;> cases level
  | pausedInside =>
      cases resume
      refine held.snoc nofun nofun (fun _ notServed => absurd rfl notServed) fun _ =>
        ⟨.inr rfl, fun b outs asking => ?_⟩
      refine ⟨asking.plain_snoc nofun, nofun, fun _ => asking.served rfl, nofun, fun _ _ => ?_⟩
      refine ⟨b ++ [.resumed values], ?_, List.mem_append_left _ (asking.paused rfl)⟩
      rw [recent_moves rfl, List.append_nil]
  | _ => cases resume

theorem Answering.complete {h : List Event} {ph : Phase} {self self' : LangGraphWorkflow Chan}
    {e : Event} (held : Answering ⟨h, ph, self⟩) (stage : ph.stage = .applying)
    (plain : ∀ route outputs, e ≠ .collected route outputs) :
    Answering ⟨h ++ [e], completed S ph, self'⟩ := by
  have level := completed_level (S := S) ph
  have here : ph.stage.level ≠ 1 ∧ ph.stage.level ≠ 2 := by
    rw [stage]
    exact ⟨nofun, nofun⟩
  refine held.snoc plain (fun _ => here) (fun _ _ => here) fun past => ?_
  rw [level] at past
  rcases past with past | past <;> cases past

theorem answering_of_early {c : Config Chan} (early : ∀ e ∈ c.history, preliminary e = true)
    (ready : c.phase.stage = .ready) : Answering c := by
  refine ⟨fun a e b split done => ?_, fun _ _ => after_of_forall fun d mem b => ?_, fun level => ?_⟩
  · have kind := early e (by rw [split]; simp)
    cases e with
    | discovering | discovered | received => cases done
    | _ => cases kind
  · refine answersAll_of_plain ?_
    rintro route outputs rfl
    cases early _ mem
  · rw [ready] at level
    rcases level with level | level <;> cases level

theorem answering_invariant : (workflowMachine S).Invariant fun c =>
    Guarded OneRound c.history → Answering c where
  init c initial _ := answering_of_early initial.history (by rw [initial.phase])
  step c d _ held step oneRound := by
    cases step with
    | work works => exact (held oneRound.front).work works
    | @move h ph ph' self self' e moves =>
        replace held := held oneRound.front
        cases moves with
        | @schedule tasks stage =>
            have level := opened_level (S := S) tasks self
            refine held.snoc nofun nofun (fun _ _ => ?_) fun past => ?_
            · rw [stage]
              exact ⟨nofun, nofun⟩
            · rw [level] at past
              rcases past with past | past <;> cases past
        | pause pause => exact held.pause pause
        | resume resume => exact held.resume resume _
        | collect route_eq collects => exact held.collect route_eq collects oneRound.last
        | serve stage serves => exact held.serve stage serves
        | skip stage => exact held.complete stage nofun
        | apply stage => exact held.complete stage nofun
        | advance stage =>
            refine held.snoc nofun nofun (fun _ _ => ?_) fun past => ?_
            · rw [stage]
              exact ⟨nofun, nofun⟩
            · rcases past with past | past <;> cases past

theorem runHistory_commits (S : Setting Chan) (threshold : Option Nat) (uuids : Nat → String)
    (script : List (Action Response Signal)) :
    Guarded (fun a e => completes e = true →
      e = .skipped ∧ writesOf S.graph (resultsIn (superstepOf a)) = [] ∨
        ∃ updated, e = .applied (writesOf S.graph (resultsIn (superstepOf a))) updated)
      (runHistory S threshold uuids script) := by
  refine runHistory_guarded (fun a e early done => ?_) (fun h ph self self' e _ works done => ?_)
    (fun h ph ph' self self' e reachable moves done => ?_) threshold uuids script
  · rw [not_completes_of_preliminary early] at done
    cases done
  · rw [works.not_completes] at done
    cases done
  · rcases commits_of_moves reachable moves done with skip | ⟨updated, same, -⟩
    · exact .inl skip
    · exact .inr ⟨updated, same⟩

/-- Of the results of a superstep, those of the first pass have been told apart,
and those of the others are not interrupted. -/
theorem settled_of_oneRound {a : List Event} (oneRound : Guarded OneRound a) :
    ∀ r ∈ resultsIn (superstepOf a), r.interrupted = false := by
  intro r mem
  rcases List.mem_append.mp mem with first | later
  · simpa using (List.mem_filter.mp first).2
  · obtain ⟨⟨route, outputs⟩, collected, inside⟩ := List.mem_flatMap.mp later
    split at inside
    · cases inside
    · rename_i other
      obtain ⟨_, here⟩ := oneRound.of_mem (mem_of_mem_since (mem_collectedIn.mp collected))
      exact here route outputs rfl other r inside

/-- **In a run whose re-executions, Sends and goto tasks are not interrupted,
every interrupt is answered before its superstep completes.** -/
theorem interrupts_answered_of_oneRound (S : Setting Chan) (threshold : Option Nat)
    (uuids : Nat → String) (script : List (Action Response Signal))
    (oneRound : Guarded OneRound (runHistory S threshold uuids script)) :
    InterruptsAnswered S (runHistory S threshold uuids script) := by
  refine ⟨?_, ?_, fun a e b split done => ⟨?_, ?_⟩⟩
  · revert oneRound
    refine runHistory_holds (P := fun h => Guarded OneRound h → AllAnswered h) (fun h early _ => ?_)
      (fun c reachable oneRound => (answering_invariant.holds reachable oneRound).answered)
      threshold uuids script
    have start : Answering ⟨h, { stage := .ready }, init S.env⟩ := answering_of_early early rfl
    exact start.answered
  · exact runHistory_givenReceived S threshold uuids script
  · refine settled_of_oneRound fun a' e' b' split' => oneRound a' e' (b' ++ e :: b) ?_
    rw [split, split']
    simp
  · exact runHistory_commits S threshold uuids script a e b split done

section Runs

open Reference

/-- One node, which asks a question. -/
def askingSetting : Setting Channel := setting [("d", ["in"])] none none

def oneRoundScript : List (Action Response Signal) :=
  [.answer 0 (.output (asking "first?" (pulled "d" []))), .signals [.resume (.str "yes")],
    .answer 0 (.output (pulled "d" [("x", .int 1)]))]

/-- Only the first pass is interrupted. -/
def settlesLater : Event → Bool
  | .collected .scheduled _ => true
  | .collected _ outputs => outputs.all fun r => !r.interrupted
  | _ => true

theorem interruptsAnswered_oneRoundScript :
    InterruptsAnswered askingSetting (runHistory askingSetting none (fun _ => "") oneRoundScript) := by
  refine interrupts_answered_of_oneRound askingSetting none _ oneRoundScript
    (guarded_of_forall fun e mem a => ?_)
  have settled : (history askingSetting oneRoundScript).all settlesLater = true := by decide
  rintro route outputs rfl later r collected
  have here := List.all_eq_true.mp settled _ mem
  cases route with
  | scheduled => exact absurd rfl later
  | resumed | push | goto => simpa using List.all_eq_true.mp here r collected

/-- The node asks a second question when it is executed again. -/
def secondRound : List Event :=
  history askingSetting
    [.answer 0 (.output (asking "first?" (pulled "d" []))), .signals [.resume (.str "yes")],
      .answer 0 (.output (asking "second?" (pulled "d" [])))]

/-- **A second interrupt is dropped**: the superstep completes without an answer. -/
theorem second_interrupt_dropped : ¬InterruptsAnswered askingSetting secondRound := by
  rintro ⟨answered, -, -⟩
  have done : completes secondRound[11] = true := rfl
  have asks := (answered.at 11 (by decide) done).at 8 (by decide) .resumed
    [asking "second?" (pulled "d" [])] rfl _ (.head _) rfl
  obtain ⟨entries, input, call, values, outputs, sub, -⟩ := asks
  have quiet : ((secondRound.take 11).drop 9).all (fun e => !isPaused e) = true := by decide
  have none := List.all_eq_true.mp quiet _ (sub.subset List.mem_cons_self)
  cases none

end Runs

end LanggraphTemporal.Properties
