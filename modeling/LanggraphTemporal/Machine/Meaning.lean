/-
# Machine.Meaning -- the coroutines compute the meaning of the graph

In an environment that answers by a `Behaviour` and sends its signals in pauses
only, every method of the workflow computes what `Model.Meaning` says of the
signals of its pauses, in whatever order its requests are answered: what it
awaits side by side leaves the workflow object as it is and returns in list
order (`Still.computes`), a pause takes the signals that the history has of it
(`pause_computes`), and the rest is composed by `Computes.bind`.
-/
import LanggraphTemporal.Theory.CoroutineOracle
import LanggraphTemporal.Model.Meaning
import LanggraphTemporal.Machine.Children

namespace LanggraphTemporal.Machine

set_option autoImplicit false

open Theory Theory.System Model Model.LangGraphWorkflow

variable {Chan α β : Type} {b : Behaviour} {env : Env Chan} {self : LangGraphWorkflow Chan}
  {h : List Event} {e : Event}

/-! ## The signals of a history -/

/-- The signals of the pauses that are over, pause by pause, and those since. -/
def listen (heard : List (List Signal) × List Signal) : Event → List (List Signal) × List Signal
  | .paused _ => (heard.1, [])
  | .received signal => (heard.1, heard.2 ++ [signal])
  | .resumed _ => (heard.1 ++ [heard.2], [])
  | _ => heard

def heardIn (h : List Event) : List (List Signal) × List Signal := h.foldl listen ([], [])

/-- The signals of each pause that is over. -/
def batchesOf (h : List Event) : List (List Signal) := (heardIn h).1

/-- The signals of the pause that is going on. -/
def pendingOf (h : List Event) : List Signal := (heardIn h).2

theorem heardIn_snoc (h : List Event) (e : Event) : heardIn (h ++ [e]) = listen (heardIn h) e :=
  List.foldl_append

/-- The entries that pauses and signals make. -/
def isTalk : Event → Bool
  | .paused _ | .received _ | .resumed _ => true
  | _ => false

theorem heardIn_quiet (quiet : isTalk e = false) : heardIn (h ++ [e]) = heardIn h := by
  rw [heardIn_snoc]
  cases e with
  | paused | received | resumed => cases quiet
  | _ => rfl

/-- No pause is going on, and no signal has come since the last one. -/
structure Between (h : List Event) : Prop where
  outside : ¬inPause h
  none : pendingOf h = []

theorem between_nil : Between [] := by
  refine ⟨?_, rfl⟩
  rintro ⟨a, entries, split⟩
  have size := congrArg List.length split
  simp at size

theorem Between.snoc (between : Between h) (quiet : isTalk e = false) : Between (h ++ [e]) := by
  refine ⟨?_, ?_⟩
  · by_cases ends : moves e = true
    · have plain : isPaused e = false := by
        cases e with
        | paused => cases quiet
        | _ => rfl
      exact not_inPause_of_moves ends plain
    · rw [inPause_snoc (by simpa using ends)]
      exact between.outside
  · unfold pendingOf
    rw [heardIn_quiet quiet]
    exact between.none

theorem inPause_paused (h : List Event) (entries : List PendingInterrupt) :
    inPause (h ++ [.paused entries]) := by
  refine ⟨h, entries, ?_⟩
  rw [recent_moves rfl]

theorem between_resumed (h : List Event) (values : List PyVal) : Between (h ++ [.resumed values]) := by
  refine ⟨not_inPause_of_moves rfl rfl, ?_⟩
  unfold pendingOf
  rw [heardIn_snoc]
  rfl

/-! ## The judgement -/

/-- A signal is heeded in a pause. -/
def Heeds (w : Execution Chan) : Prop := inPause w.history

/-- The environment that answers by `b`, and sends its signals in pauses only. -/
noncomputable def answering (env : Env Chan) (b : Behaviour) :
    System (Execution Chan) Request Response Signal RunError :=
  ((workflowSystem env).only b.Answers).heeding Heeds

/-- `t` is `w` after these further batches of signals. -/
def Listens (w t : Execution Chan) (heard : List (List Signal)) : Prop :=
  batchesOf t.history = batchesOf w.history ++ heard

/-- Between `w` and `t`, the workflow object has become what `m` makes of it, and
`m` has returned `a`. -/
def Returned (m : MeaningM Chan α) (w : Execution Chan) (a : α) (t : Execution Chan) : Prop :=
  Between t.history ∧ ∃ heard, Listens w t heard ∧
    ∀ later, m ⟨w.self, heard ++ later⟩ = .ok (a, ⟨t.self, later⟩)

/-- `m` fails, or it is the handler of a signal that does. -/
def Failed (env : Env Chan) (m : MeaningM Chan α) (w : Execution Chan) (e : RunError)
    (t : Execution Chan) : Prop :=
  ∃ heard, Listens w t heard ∧
    (m ⟨w.self, heard⟩ = .error (.failed e) ∨ ∃ signal, (workflowSystem env).handle signal t = .error e)

/-- `m` has come to a pause that is not over, and these signals to that pause. -/
def Paused (env : Env Chan) (m : MeaningM Chan α) (w t : Execution Chan) : Prop :=
  ∃ heard waiting, Listens w t heard ∧ m ⟨w.self, heard⟩ = .error (.paused waiting) ∧
    receiveAll env.lg (pendingOf t.history) waiting = .ok t.self

/-- From a workflow object `self` outside of pauses, the coroutine computes `m`. -/
def Computes (env : Env Chan) (b : Behaviour) (c : WorkflowM Chan α) (self : LangGraphWorkflow Chan)
    (m : MeaningM Chan α) : Prop :=
  ∀ w : Execution Chan, w.self = self → Between w.history →
    (answering env b).wp (Returned m w) (Failed env m w)
      (fun qs t => .resumeEvent ∈ qs → Paused env m w t) c w

namespace Computes

theorem ret (a : α) : Computes env b (.ret a : WorkflowM Chan α) self (pure a) :=
  fun _ _ between => ⟨between, [], (List.append_nil _).symm, fun _ => rfl⟩

theorem raise (e : RunError) : Computes env b (.raise e : WorkflowM Chan α) self (Meaning.fail e) :=
  fun _ _ _ => ⟨[], (List.append_nil _).symm, .inl rfl⟩

theorem bind {c : WorkflowM Chan α} {f : α → WorkflowM Chan β} {m : MeaningM Chan α}
    {g : α → MeaningM Chan β} (first : Computes env b c self m)
    (next : ∀ a self', (∃ heard later, m ⟨self, heard⟩ = .ok (a, ⟨self', later⟩)) →
      Computes env b (f a) self' (g a)) : Computes env b (c.bind f) self (m >>= g) := by
  intro w same between
  have bound : ∀ s, (m >>= g) s = (m s).bind fun p => g p.1 p.2 := fun _ => rfl
  rw [wp_bind]
  refine wp_mono ?_ ?_ ?_ (first w same between)
  · rintro a t ⟨between', heard, listens, returned⟩
    have ended : m ⟨self, heard⟩ = .ok (a, ⟨t.self, []⟩) := by
      rw [← same, ← List.append_nil heard]
      exact returned []
    -- what the rest makes of the batches after these
    have goes : ∀ later, (m >>= g) ⟨w.self, heard ++ later⟩ = g a ⟨t.self, later⟩ := fun later => by
      rw [bound, returned later]
      rfl
    have further : ∀ {u : Execution Chan} {more : List (List Signal)}, Listens t u more →
        Listens w u (heard ++ more) := fun {u more} listens' => by
      unfold Listens at *
      rw [listens', listens, List.append_assoc]
    refine wp_mono ?_ ?_ ?_ (next a t.self ⟨heard, [], ended⟩ t rfl between')
    · rintro a' u ⟨between'', more, listens', returned'⟩
      refine ⟨between'', heard ++ more, further listens', fun later => ?_⟩
      rw [List.append_assoc, goes]
      exact returned' later
    · rintro e u ⟨more, listens', failed⟩
      refine ⟨heard ++ more, further listens', ?_⟩
      rw [goes]
      exact failed
    · intro qs u paused asked
      obtain ⟨more, waiting, listens', pauses, received⟩ := paused asked
      refine ⟨heard ++ more, waiting, further listens', ?_, received⟩
      rw [goes]
      exact pauses
  · rintro e t ⟨heard, listens, failed | handled⟩
    · refine ⟨heard, listens, .inl ?_⟩
      rw [bound, failed]
      rfl
    · exact ⟨heard, listens, .inr handled⟩
  · intro qs t paused asked
    obtain ⟨heard, waiting, listens, pauses, received⟩ := paused asked
    refine ⟨heard, waiting, listens, ?_, received⟩
    rw [bound, pauses]
    rfl

theorem getSelf {f : LangGraphWorkflow Chan → WorkflowM Chan α} {g : LangGraphWorkflow Chan → MeaningM Chan α}
    (next : Computes env b (f self) self (g self)) :
    Computes env b (Model.getSelf.bind f) self (Meaning.getSelf >>= g) := by
  intro w same between
  subst same
  exact next w rfl between

theorem looks {f : LangGraphWorkflow Chan → WorkflowM Chan α} {m : MeaningM Chan α}
    (next : Computes env b (f self) self m) : Computes env b (Model.getSelf.bind f) self m := by
  intro w same between
  subst same
  exact next w rfl between

/-- The meaning may read what the coroutine has read before. -/
theorem reads {c : WorkflowM Chan α} {g : LangGraphWorkflow Chan → MeaningM Chan α}
    (next : Computes env b c self (g self)) : Computes env b c self (Meaning.getSelf >>= g) := by
  intro w same between
  subst same
  exact next w rfl between

theorem setSelf {g : LangGraphWorkflow Chan → LangGraphWorkflow Chan} {f : Unit → WorkflowM Chan α}
    {m : Unit → MeaningM Chan α} (next : Computes env b (f ()) (g self) (m ())) :
    Computes env b ((Model.setSelf g).bind f) self (Meaning.setSelf g >>= m) := by
  intro w same between
  subst same
  exact next (w.mapSelf g) rfl between

/-- The history is not part of the meaning, but for pauses and signals. -/
theorem record {f : Unit → WorkflowM Chan α} {m : MeaningM Chan α} (quiet : isTalk e = false)
    (next : Computes env b (f ()) self m) : Computes env b ((Model.record e).bind f) self m := by
  intro w same between
  have heard : batchesOf (w.log e).history = batchesOf w.history :=
    congrArg Prod.fst (heardIn_quiet quiet)
  have listens : ∀ {t : Execution Chan} {more : List (List Signal)}, Listens (w.log e) t more → Listens w t more :=
    fun {t more} later => by
      unfold Listens at *
      rw [later, heard]
  refine wp_mono ?_ ?_ ?_ (next (w.log e) same (between.snoc quiet))
  · rintro a t ⟨between', more, later, returned⟩
    exact ⟨between', more, listens later, returned⟩
  · rintro x t ⟨more, later, failed⟩
    exact ⟨more, listens later, failed⟩
  · intro qs t paused asked
    obtain ⟨more, waiting, later, rest⟩ := paused asked
    exact ⟨more, waiting, listens later, rest⟩

end Computes

/-! ## What is awaited side by side -/

/-- The workflow object is this one, outside of pauses, after these batches. -/
structure Rests (wf : LangGraphWorkflow Chan) (heard : List (List Signal)) (w : Execution Chan) : Prop where
  self : w.self = wf
  between : Between w.history
  heard : batchesOf w.history = heard

/-- The workflow object stays as it is, no pause begins, and nothing but
activities and child workflows is asked for. -/
def Still (b : Behaviour) (self : LangGraphWorkflow Chan) (post : α → Prop) (c : WorkflowM Chan α) : Prop :=
  ∀ heard, Yields (Rests self heard) (· ≠ .resumeEvent) b.Answers post c

theorem answers_answering {q : Request} {r : Response} {w : Execution Chan}
    (answered : (answering env b).Answers q r w) (other : q ≠ .resumeEvent) : b.Answers q r := by
  have given : ((workflowSystem env).only b.Answers).Answers q r w := answered
  rcases answers_only given with ready | ⟨-, gets⟩
  · cases q with
    | resumeEvent => exact absurd rfl other
    | _ => cases ready
  · exact gets

namespace Still

variable {post : α → Prop} {post' : β → Prop}

theorem ret {a : α} (held : post a) : Still b self post (.ret a : WorkflowM Chan α) := fun _ => held

theorem bind {c : WorkflowM Chan α} {f : α → WorkflowM Chan β} (still : Still b self post c)
    (next : ∀ a, post a → Still b self post' (f a)) : Still b self post' (c.bind f) :=
  fun heard => (still heard).bind fun a held => next a held heard

theorem record (quiet : isTalk e = false) :
    Still b self (fun _ => True) (Model.record e : WorkflowM Chan Unit) := by
  refine fun heard => Yields.modify fun w here => ⟨here.self, here.between.snoc quiet, ?_⟩
  have same : batchesOf (w.history ++ [e]) = batchesOf w.history := congrArg Prod.fst (heardIn_quiet quiet)
  exact same.trans here.heard

theorem getSelf : Still b self (· = self) (Model.getSelf : WorkflowM Chan _) :=
  fun _ => Yields.read.bind fun _ here => here.self

theorem request {q : Request} {f : Response → WorkflowM Chan α} (other : q ≠ .resumeEvent)
    (next : ∀ r, b.Answers q r → Still b self post (f r)) :
    Still b self post ((Coro.request q).bind f) := by
  have asked : Still b self (b.Answers q) (Coro.request q : WorkflowM Chan Response) :=
    fun _ => Yields.request other
  exact asked.bind next

/-- **What keeps the workflow object computes its result.** -/
theorem computes {a : α} {c : WorkflowM Chan α} (still : Still b self (· = a) c) :
    Computes env b c self (pure a) := by
  intro w same between
  have kept := (still (batchesOf w.history)).wp (S := answering env b) (s := w)
    (fun v g t here handled => ?_) (fun v g e here handled => ?_)
    (fun q r v asked answered => answers_answering answered asked) ⟨same, between, rfl⟩
  · refine wp_mono (fun a' t held => ?_) (fun _ _ absurd => absurd.elim) (fun qs t asked mem => ?_) kept
    · obtain ⟨rfl, here⟩ := held
      refine ⟨here.between, [], here.heard.trans (List.append_nil _).symm, fun later => ?_⟩
      rw [same, here.self]
      rfl
    · exact absurd rfl (asked _ mem)
  · have ignored : (answering env b).handle g v = .ok v := if_neg here.between.outside
    rw [ignored] at handled
    cases handled
    exact here
  · have ignored : (answering env b).handle g v = .ok v := if_neg here.between.outside
    rw [ignored] at handled
    cases handled

theorem bind_computes {a : α} {c : WorkflowM Chan α} {f : α → WorkflowM Chan β} {m : MeaningM Chan β}
    (still : Still b self (· = a) c) (next : Computes env b (f a) self m) :
    Computes env b (c.bind f) self m := by
  refine Computes.bind (m := pure a) (g := fun _ => m) still.computes ?_
  rintro a' self' ⟨heard, later, same⟩
  cases same
  exact next

end Still

theorem dispatchActivity_still (input : NodeActivityInput) (nodeName : String) :
    Still b self (· = some (b.node input)) (dispatchActivity input nodeName : WorkflowM Chan _) := by
  unfold dispatchActivity
  refine Still.getSelf.bind fun wf _ => (Still.record rfl).bind fun _ _ =>
    Still.request nofun fun r answered => ?_
  subst answered
  exact .ret rfl

theorem executeSingleActivity_still (input : NodeActivityInput) (nodeName : String) :
    Still b self (· = b.node input) (executeSingleActivity input nodeName : WorkflowM Chan _) := by
  unfold executeSingleActivity
  refine (dispatchActivity_still input nodeName).bind fun result same => ?_
  subst same
  exact .ret rfl

/-- Registering a graph draws an identifier. -/
theorem registerGraph_still (name : String) :
    Still b self (fun _ => True) (registerGraph name : WorkflowM Chan String) := by
  intro heard
  unfold registerGraph
  refine Yields.read.bind fun w _ => ?_
  exact (Yields.modify fun _ here => ⟨here.self, here.between, here.heard⟩).bind fun _ _ => trivial

theorem executeSubgraph_still (t : PregelTask) (name : String) :
    Still b self (· = subgraphOutput t (b.subgraph (env.workflowId ++ "/" ++ t.name)
        (some (.ofDict (getChannelValues env.lg self.channels)))))
      (executeSubgraphAsChildWorkflow env t name) := by
  unfold executeSubgraphAsChildWorkflow
  refine Still.getSelf.bind fun wf same => ?_
  subst same
  refine (registerGraph_still name).bind fun subRef _ => (Still.record rfl).bind fun _ _ =>
    Still.request nofun fun r answered => ?_
  subst answered
  exact .ret rfl

theorem executeTask_still (graph : Pregel Chan) (t : PregelTask) :
    Still b self (· = Meaning.taskOutput b env graph self t)
      (executeTask env graph self.graphRef (getChannelValues env.lg self.channels) t) := by
  unfold executeTask Meaning.taskOutput
  cases subgraphOf t.name graph with
  | some name => exact executeSubgraph_still t name
  | none => exact executeSingleActivity_still _ t.name

/-- One coroutine or several, the results are those of each, in list order. -/
theorem awaitAll_still {ι : Type} {f : ι → WorkflowM Chan NodeActivityOutput}
    {result : ι → NodeActivityOutput} (each : ∀ x, Still b self (· = result x) (f x)) (xs : List ι) :
    Still b self (· = xs.map result) (awaitAll (xs.map f)) := by
  cases xs with
  | nil => exact .ret rfl
  | cons x xs =>
      cases xs with
      | nil =>
          refine (each x).bind fun a same => ?_
          subst same
          exact .ret rfl
      | cons y ys => exact fun heard => Yields.gather (x :: y :: ys) fun z _ => each z heard

/-- One after the other, too. -/
theorem executeResumed_still (rs : List NodeActivityOutput) :
    Still b self (· = rs.map (Meaning.resumedOutput b env self))
      (executeResumed (getChannelValues env.lg self.channels) rs : WorkflowM Chan _) := by
  induction rs with
  | nil => exact .ret rfl
  | cons r rs ih =>
      unfold executeResumed
      refine Still.getSelf.bind fun wf same => ?_
      subst same
      refine (executeSingleActivity_still _ r.nodeName).bind fun result same => ih.bind fun results rest => ?_
      subst same rest
      exact .ret rfl

theorem dispatchChildWorkflow_still (input : WorkflowInput) (p : ChildRequest × Nat) :
    Still b self (· = Meaning.subagentResult b env input self p)
      (dispatchChildWorkflow env p.1 input p.2).attempt := by
  rw [dispatchChildWorkflow_attempt]
  refine Still.getSelf.bind fun wf same => (Still.record rfl).bind fun _ _ =>
    Still.request nofun fun r answered => ?_
  subst same answered
  show Still b wf _ (Coro.ret (childResult (b.child _)))
  unfold Behaviour.child Meaning.subagentResult
  cases b.subagent (childCall env wf p.1 input p.2) with
  | ok output => exact .ret rfl
  | error message => exact .ret rfl

/-! ## Pauses -/

/-- What one signal does to the workflow object. -/
theorem receiveAll_of_handled {signal : Signal} {t u : Execution Chan}
    (handled : (workflowSystem env).handle signal t = .ok u) :
    receiveAll env.lg [signal] t.self = .ok u.self := by
  cases signal with
  | resume value =>
      cases handled
      rfl
  | updateState writes =>
      simp only [workflowSystem] at handled
      unfold receiveAll
      cases updated : t.self.updateStateSignal env.lg writes with
      | ok self =>
          rw [updated] at handled
          cases handled
          rfl
      | error e =>
          rw [updated] at handled
          cases handled

/-- A pause that began after the batches `heard`, and the signals that have come
in it. -/
structure Collecting (env : Env Chan) (heard : List (List Signal)) (waiting : LangGraphWorkflow Chan)
    (t : Execution Chan) : Prop where
  inside : inPause t.history
  heard : batchesOf t.history = heard
  received : receiveAll env.lg (pendingOf t.history) waiting = .ok t.self

theorem Collecting.signal {heard : List (List Signal)} {waiting : LangGraphWorkflow Chan} {signal : Signal}
    {t u : Execution Chan} (collecting : Collecting env heard waiting t)
    (handled : (answering env b).handle signal t = .ok u) : Collecting env heard waiting u := by
  have heeded : (workflowSystem env).handle signal t = .ok u := by
    rw [← handled]
    exact (handle_heeding (S := (workflowSystem env).only b.Answers) collecting.inside).symm
  have history := handle_history heeded
  refine ⟨?_, ?_, ?_⟩
  · rw [history]
    exact (inPause_snoc rfl).mpr collecting.inside
  · rw [history, batchesOf, heardIn_snoc]
    exact collecting.heard
  · rw [history, pendingOf, heardIn_snoc]
    show receiveAll env.lg (pendingOf t.history ++ [signal]) waiting = _
    rw [receiveAll_append, collecting.received]
    exact receiveAll_of_handled heeded

/-- **A pause computes what its signals make of the workflow object.** -/
theorem pause_computes (entries : List PendingInterrupt) :
    Computes env b ((setSelf (interrupt entries)).bind fun _ => waitForResume) self
      (Meaning.pause env entries) := by
  intro w same between
  subst same
  obtain ⟨begun, begins⟩ : ∃ begun, begun = (w.mapSelf fun self => clearResume (interrupt entries self)).log
      (.paused (clearResume (interrupt entries w.self)).interrupts) := ⟨_, rfl⟩
  have start : Collecting env (batchesOf w.history) (clearResume (interrupt entries w.self)) begun := by
    subst begins
    refine ⟨inPause_paused _ _, ?_, ?_⟩
    · show batchesOf (w.history ++ [_]) = _
      rw [batchesOf, heardIn_snoc]
      rfl
    · show receiveAll env.lg (pendingOf (w.history ++ [_])) _ = _
      rw [pendingOf, heardIn_snoc]
      rfl
  have asks : (answering env b).wp (fun _ t => Collecting env (batchesOf w.history)
        (clearResume (interrupt entries w.self)) t) (Failed env (Meaning.pause env entries) w)
      (fun qs t => .resumeEvent ∈ qs → Paused env (Meaning.pause env entries) w t)
      (Coro.request .resumeEvent : WorkflowM Chan Response) begun := by
    refine wp_request (Collecting env (batchesOf w.history) (clearResume (interrupt entries w.self))) start
      (fun t g u collecting handled => collecting.signal handled) (fun t collecting _ => ?_)
      (fun t g e collecting handled => ?_) fun t r collecting _ => collecting
    · exact ⟨[], _, collecting.heard.trans (List.append_nil _).symm, rfl, collecting.received⟩
    · have heeded : (workflowSystem env).handle g t = .error e := by
        rw [← handled]
        exact (handle_heeding (S := (workflowSystem env).only b.Answers) collecting.inside).symm
      exact ⟨[], collecting.heard.trans (List.append_nil _).symm, .inr ⟨g, heeded⟩⟩
  -- what `_wait_for_resume` does once it is woken
  have rest : (answering env b).wp (Returned (Meaning.pause env entries) w)
      (Failed env (Meaning.pause env entries) w)
      (fun qs t => .resumeEvent ∈ qs → Paused env (Meaning.pause env entries) w t)
      ((Coro.request .resumeEvent).bind fun _ => (setSelf wake).bind fun _ =>
        getSelf.bind fun self => record (.resumed self.resumeValues)) begun := by
    refine wp_bind.mpr (wp_mono (fun r t collecting => ?_) (fun _ _ => id) (fun _ _ => id) asks)
    refine ⟨between_resumed t.history _, [pendingOf t.history], ?_, fun later => ?_⟩
    · show batchesOf (t.history ++ [_]) = _
      rw [batchesOf, heardIn_snoc, ← collecting.heard]
      rfl
    · unfold Meaning.pause
      dsimp only [List.singleton_append]
      rw [collecting.received]
      rfl
  subst begins
  exact rest

theorem interruptCheck_computes (nodes : Option InterruptNodes) (entry : String → PendingInterrupt)
    (tasks : List PregelTask) :
    Computes env b (LangGraphWorkflow.interruptCheck nodes entry tasks) self
      (Meaning.interruptCheck env nodes entry tasks) := by
  unfold LangGraphWorkflow.interruptCheck Meaning.interruptCheck
  by_cases interrupts : interruptsAt nodes tasks = true
  · rw [if_pos interrupts, if_pos interrupts]
    exact pause_computes _
  · rw [if_neg interrupts, if_neg interrupts]
    exact .ret ()

/-! ## Supersteps -/

theorem executeNodes_computes (graph : Pregel Chan) (tasks : List PregelTask) :
    Computes env b (LangGraphWorkflow.executeNodes env graph tasks) self
      (Meaning.executeNodes b env graph tasks) :=
  .getSelf (awaitAll_still (executeTask_still graph) (sortTasks tasks)).computes

theorem serveRequests_computes (input : WorkflowInput) (r : NodeActivityOutput) :
    Computes env b (LangGraphWorkflow.serveRequests env input r) self
      (Meaning.serveRequests b env input r) := by
  unfold LangGraphWorkflow.serveRequests Meaning.serveRequests
  by_cases silent : r.childWorkflowRequests.isEmpty = true
  · rw [if_pos silent, if_pos silent]
    exact .ret r
  · rw [if_neg silent, if_neg silent]
    have gathered : Still b self (· = r.childWorkflowRequests.zipIdx.map
          (Meaning.subagentResult b env input self))
        (Coro.gather (r.childWorkflowRequests.zipIdx.map fun p =>
          (dispatchChildWorkflow env p.1 input p.2).attempt)) :=
      fun heard => Yields.gather _ fun p _ => dispatchChildWorkflow_still input p heard
    refine gathered.bind_computes (.reads ?_)
    dsimp only
    cases List.mapM (fun p => toolReply env p.1 p.2) (r.childWorkflowRequests.zip
        (r.childWorkflowRequests.zipIdx.map (Meaning.subagentResult b env input self))) with
    | ok replies => exact .ret _
    | error e => exact .raise _

theorem processChildWorkflowRequests_computes (input : WorkflowInput) (rs : List NodeActivityOutput) :
    Computes env b (LangGraphWorkflow.processChildWorkflowRequests env input rs) self
      (Meaning.processChildWorkflowRequests b env input rs) := by
  induction rs generalizing self with
  | nil => exact .ret []
  | cons r rs ih =>
      refine Computes.bind (serveRequests_computes input r) fun result self' _ => ?_
      exact Computes.bind ih fun results self'' _ => .ret _

/-- The re-executions read the workflow object that the pause has left. -/
theorem handleInterrupted_computes (results : List NodeActivityOutput) :
    Computes env b (LangGraphWorkflow.handleInterrupted env results) self
      (Meaning.handleInterrupted b env results) := by
  unfold LangGraphWorkflow.handleInterrupted Meaning.handleInterrupted
  by_cases settled : (results.filter NodeActivityOutput.interrupted).isEmpty = true
  · simp only [settled, if_true]
    exact .record rfl (.ret results)
  · simp only [settled]
    rw [if_neg Bool.false_ne_true, if_neg Bool.false_ne_true]
    simp only [Coro.bind_eq]
    rw [← Coro.bind_assoc]
    refine Computes.bind (pause_computes _) fun _ self' _ => ?_
    unfold executeResumedNodes
    simp only [Coro.bind_eq, Coro.bind_assoc]
    refine .getSelf ((executeResumed_still _).bind_computes (.record rfl (.ret _)))

theorem handleSends_computes (route : Route) (sends : List SendRequest)
    (results : List NodeActivityOutput) :
    Computes env b (LangGraphWorkflow.handleSends env route sends results) self
      (Meaning.handleSends b env sends results) := by
  unfold LangGraphWorkflow.handleSends Meaning.handleSends
  cases sends with
  | nil =>
      refine .reads ?_
      simp only [List.map_nil, List.append_nil]
      exact .record rfl (.ret results)
  | cons send sends =>
      unfold executePushTasks
      simp only [Coro.bind_eq, Coro.bind_assoc]
      refine .getSelf (Still.bind_computes (awaitAll_still ?_ (send :: sends)) (.record rfl (.ret _)))
      exact fun s => executeSingleActivity_still _ s.node

/-- The writes of a superstep, applied. -/
theorem applyResults_computes (graph : Pregel Chan) (results : List NodeActivityOutput) :
    Computes env b (LangGraphWorkflow.applyResults env graph results) self
      (Meaning.applyResults env graph results) := by
  unfold LangGraphWorkflow.applyResults Meaning.applyResults
  by_cases silent : (writesOf graph results).isEmpty = true
  · simp only [silent, if_true]
    exact .record rfl (.ret ())
  · simp only [silent]
    rw [if_neg Bool.false_ne_true, if_neg Bool.false_ne_true]
    refine .getSelf ?_
    cases env.lg.applyWrites self.checkpoint self.channels (writesOf graph results) increment
        self.triggerToNodes with
    | ok out => exact .setSelf (m := fun _ => pure ()) (.record rfl (.ret ()))
    | error message => exact .raise _

/-- **A superstep of the coroutines computes a superstep.** -/
theorem superstep_computes (graph : Pregel Chan) (input : WorkflowInput) (tasks : List PregelTask) :
    Computes env b (LangGraphWorkflow.superstep env graph input tasks) self
      (Meaning.superstep b env graph input tasks) := by
  refine Computes.bind (interruptCheck_computes _ _ _) fun _ _ _ => ?_
  refine Computes.bind (executeNodes_computes graph tasks) fun outputs _ _ => .record rfl ?_
  refine Computes.bind (processChildWorkflowRequests_computes input outputs) fun served _ _ => .record rfl ?_
  refine Computes.bind (handleInterrupted_computes served) fun settled _ _ => ?_
  refine Computes.bind (handleSends_computes .push _ settled) fun pushed _ _ => ?_
  refine Computes.bind (handleSends_computes .goto _ pushed) fun results _ _ => ?_
  refine Computes.bind (applyResults_computes graph results) fun _ _ _ => .setSelf ?_
  refine Computes.bind (interruptCheck_computes _ _ _) fun _ _ _ => ?_
  exact .setSelf (m := fun _ => pure ()) (.record rfl (.ret ()))

/-! ## Runs -/

theorem finish_computes : Computes env b (LangGraphWorkflow.finish env) self (Meaning.finish env) :=
  .setSelf (.getSelf (.ret _))

/-- The loop ends when its supersteps are used up. -/
theorem loop_computes (graph : Pregel Chan) (input : WorkflowInput) (threshold : Option Nat) :
    ∀ (remaining n : Nat) (self : LangGraphWorkflow Chan),
      (input.recursionLimit - self.step).toNat = remaining →
        Computes env b (LangGraphWorkflow.loop env threshold graph input (remaining + 1) n) self
          (Meaning.loop b env graph input threshold remaining n)
  | 0, n, self, count => by
      unfold LangGraphWorkflow.loop Meaning.loop
      refine .looks ?_
      rw [if_neg (by omega)]
      exact finish_computes
  | remaining + 1, n, self, count => by
      unfold LangGraphWorkflow.loop Meaning.loop
      refine .getSelf ?_
      rw [if_pos (by omega)]
      by_cases idle : (env.lg.prepareNextTasks self.checkpoint graph.nodes self.channels self.step
          input.recursionLimit self.triggerToNodes).isEmpty = true
      · simp only [idle, if_true]
        exact .setSelf finish_computes
      · simp only [idle]
        rw [if_neg Bool.false_ne_true, if_neg Bool.false_ne_true]
        refine .record rfl (Computes.bind (superstep_computes graph input _) fun _ self' advanced => ?_)
        obtain ⟨heard, later, advanced⟩ := advanced
        have further : self'.step = self.step + 1 :=
          Meaning.superstep_steps b env graph input _ ⟨self, heard⟩ () ⟨self', later⟩ advanced
        by_cases full : reached threshold (n + 1) = true
        · simp only [full, if_true]
          exact .getSelf (.ret _)
        · simp only [full]
          exact loop_computes graph input threshold remaining (n + 1) self' (by omega)

/-- The search for a worker finds the one there is. -/
theorem discover_computes {f : Unit → WorkflowM Chan α} {m : Unit → MeaningM Chan α}
    (next : Computes env b (f ()) { self with stickyTaskQueue := some b.queue } (m ())) :
    Computes env b (getAvailableTaskQueue.bind fun queue =>
      (setSelf fun self => { self with stickyTaskQueue := some queue }).bind f) self
      (Meaning.setSelf (fun self => { self with stickyTaskQueue := some b.queue }) >>= m) := by
  have found : Still b self (· = b.queue) (getAvailableTaskQueue : WorkflowM Chan String) := by
    unfold getAvailableTaskQueue
    refine (Still.record rfl).bind fun _ _ => Still.request nofun fun r answered => ?_
    subst answered
    exact (Still.record rfl).bind fun _ _ => .ret rfl
  exact found.bind_computes (.setSelf next)

theorem opening_computes (S : Setting Chan) (threshold : Option Nat) :
    Computes S.env b (opening S threshold) self
      (Meaning.opening b S.env S.graph S.input threshold) := by
  unfold opening Meaning.opening
  refine .getSelf ?_
  cases initialise S.env S.graph S.input self with
  | error e => exact .raise e
  | ok self => exact .setSelf (loop_computes S.graph S.input threshold _ 0 _ rfl)

/-- **A run computes the meaning of its graph.** -/
theorem run_computes (S : Setting Chan) (threshold : Option Nat) :
    Computes S.env b (LangGraphWorkflow.run S.env threshold S.input) self
      (Meaning.run b S.env S.graph S.input threshold) := by
  rw [run_eq]
  unfold Meaning.run
  refine .setSelf (.setSelf ?_)
  by_cases needed : (S.input.useWorkerAffinity && !truthy S.input.stickyTaskQueue) = true
  · have pins : Meaning.pinned b S.input =
        fun self : LangGraphWorkflow Chan => { self with stickyTaskQueue := some b.queue } :=
      funext fun _ => if_pos needed
    rw [if_pos needed, pins]
    exact discover_computes (opening_computes S threshold)
  · have keeps : Meaning.pinned b S.input = fun self : LangGraphWorkflow Chan => self :=
      funext fun _ => if_neg needed
    rw [if_neg needed, keeps]
    exact fun w same between => opening_computes S threshold w same between

end LanggraphTemporal.Machine
