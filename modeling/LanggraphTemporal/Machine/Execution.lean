/-
# Machine.Execution -- what the activities of one phase do

Inside a phase the coroutines of several activities run side by side.  `Within`
is one step of any of them, or of a signal handler; `During` is any number of
them.  Each coroutine that executes nodes is shown to keep `During`, to leave
no search for a worker unfinished, and to return an output of the execution it
was asked for (`OutputOf`), whatever the others do in the meantime (`Does`);
`Keeps.gather` puts them together.
-/
import LanggraphTemporal.Theory.CoroutineLogic
import LanggraphTemporal.Machine.Transitions

namespace LanggraphTemporal.Machine

set_option autoImplicit false

open Theory Theory.System Model Model.LangGraphWorkflow

/-! ## Searches for a worker -/

theorem foundAll_append {h later : List Event} (before : FoundAll h) (after : FoundAll later) :
    FoundAll (h ++ later) := by
  refine History.after_append.mpr ⟨fun a e b split searching => ?_, after⟩
  obtain ⟨queue, found⟩ := before a e b split searching
  exact ⟨queue, List.mem_append_left _ found⟩

theorem foundAll_of_quiet {h : List Event} (quiet : ∀ e ∈ h, e ≠ .discovering) : FoundAll h :=
  History.after_of_forall fun e mem _ searching => absurd searching (quiet e mem)

theorem foundAll_singleton {e : Event} (quiet : e ≠ .discovering) : FoundAll [e] :=
  foundAll_of_quiet fun x mem => by rwa [List.mem_singleton.mp mem]

theorem FoundAll.snoc {h : List Event} {e : Event} (foundAll : FoundAll h) (quiet : e ≠ .discovering) :
    FoundAll (h ++ [e]) :=
  foundAll_append foundAll (foundAll_singleton quiet)

theorem foundAll_discovered {h : List Event} {queue : String} :
    FoundAll (h ++ [.discovered queue]) := by
  intro a d b split searching
  rcases History.snoc_eq_append_cons.mp split with ⟨-, rfl, -⟩ | ⟨b', rfl, -⟩
  · cases searching
  · exact ⟨queue, List.mem_append_right _ List.mem_cons_self⟩

/-- An entry of another kind has not found a worker. -/
theorem FoundAll.front {h : List Event} {e : Event} (foundAll : FoundAll (h ++ [e]))
    (other : ∀ queue, e ≠ .discovered queue) : FoundAll h := by
  intro a d b split searching
  obtain ⟨queue, found⟩ := (History.after_append.mp foundAll).1 a d b split searching
  rcases List.mem_append.mp found with before | last
  · exact ⟨queue, before⟩
  · exact absurd (List.mem_singleton.mp last).symm (other queue)

/-- An entry that is not about a search changes nothing. -/
theorem foundAll_snoc_iff {h : List Event} {e : Event} (quiet : e ≠ .discovering)
    (other : ∀ queue, e ≠ .discovered queue) : FoundAll (h ++ [e]) ↔ FoundAll h :=
  ⟨fun foundAll => foundAll.front other, fun foundAll => foundAll.snoc quiet⟩

theorem not_foundAll_discovering {h : List Event} : ¬FoundAll (h ++ [.discovering]) := by
  intro foundAll
  obtain ⟨queue, found⟩ := foundAll h .discovering [] rfl rfl
  cases found

/-- Is a search for a worker going on? -/
def searching (h : List Event) : Bool :=
  h.foldl (fun on e => match e with | .discovering => true | .discovered _ => false | _ => on) false

theorem foundAll_iff {h : List Event} : FoundAll h ↔ searching h = false := by
  induction h using List.reverseRecOn with
  | nil => exact iff_of_true History.after_nil rfl
  | append_singleton h e ih =>
      have last : searching (h ++ [e]) =
          match e with | .discovering => true | .discovered _ => false | _ => searching h := by
        unfold searching
        rw [List.foldl_append]
        rfl
      cases e with
      | discovering => exact iff_of_false not_foundAll_discovering (by rw [last]; nofun)
      | discovered queue => exact iff_of_true foundAll_discovered last
      | _ =>
          rw [last, ← ih]
          exact foundAll_snoc_iff nofun nofun

instance (h : List Event) : Decidable (FoundAll h) := decidable_of_iff _ foundAll_iff.symm

theorem lastQueue_snoc {configured : Option String} {h : List Event} {e : Event}
    (other : ∀ queue, e ≠ .discovered queue) : lastQueue configured (h ++ [e]) = lastQueue configured h := by
  unfold lastQueue
  rw [List.foldl_append]
  cases e with
  | discovered queue => exact absurd rfl (other queue)
  | _ => rfl

theorem lastQueue_append (configured : Option String) (a b : List Event) :
    lastQueue configured (a ++ b) = lastQueue (lastQueue configured a) b := List.foldl_append

theorem lastQueue_of_quiet {configured : Option String} {h : List Event}
    (quiet : ∀ e ∈ h, ∀ queue, e ≠ .discovered queue) : lastQueue configured h = configured := by
  induction h using List.reverseRecOn with
  | nil => rfl
  | append_singleton h e ih =>
      rw [lastQueue_snoc (quiet e (by simp)), ih fun x mem => quiet x (by simp [mem])]

@[simp] theorem lastQueue_discovered (configured : Option String) (h : List Event) (queue : String) :
    lastQueue configured (h ++ [.discovered queue]) = some queue := by
  simp [lastQueue]

/-! ### Each search finds one worker -/

def isSearch : Event → Bool
  | .discovering => true
  | _ => false

def isFind : Event → Bool
  | .discovered _ => true
  | _ => false

/-- At no time have more workers been found than were searched for. -/
def Paired (h : List Event) : Prop := ∀ a, a <+: h → a.countP isFind ≤ a.countP isSearch

theorem paired_append {h b : List Event} (front : Paired h)
    (back : ∀ a, a <+: b → (h ++ a).countP isFind ≤ (h ++ a).countP isSearch) : Paired (h ++ b) := by
  rintro a ⟨rest, split⟩
  rcases List.append_eq_append_iff.mp split with ⟨more, rfl, -⟩ | ⟨more, rfl, rfl⟩
  · exact front a ⟨more, rfl⟩
  · exact back more ⟨rest, rfl⟩

theorem paired_nil : Paired [] := by
  intro a initial
  rw [List.prefix_nil.mp initial]
  exact Nat.le_refl _

theorem paired_snoc {h : List Event} {e : Event} (paired : Paired h)
    (last : (h ++ [e]).countP isFind ≤ (h ++ [e]).countP isSearch) : Paired (h ++ [e]) := by
  intro a initial
  rcases List.prefix_concat_iff.mp initial with rfl | shorter
  · exact last
  · exact paired a shorter

/-- An entry that finds no worker. -/
theorem Paired.snoc {h : List Event} {e : Event} (paired : Paired h) (other : isFind e = false) :
    Paired (h ++ [e]) := by
  refine paired_snoc paired ?_
  have before := paired h List.prefix_rfl
  rw [List.countP_append, List.countP_append, List.countP_singleton, other]
  exact Nat.le_trans before (Nat.le_add_right _ _)

/-- What the coroutines of a phase write: the searches of each are its own. -/
def paired : LogInvariant Event where
  Holds := Paired
  nil := paired_nil
  interleaves {a b c} inter := by
    induction inter with
    | nil => exact fun _ _ => paired_nil
    | @left a b c new before ih =>
        intro left right
        refine paired_append (ih (fun p initial => left p (initial.trans (List.prefix_append a new))) right)
          fun p initial => ?_
        have mine := left (a ++ p) ((List.prefix_append_right_inj a).mpr initial)
        have others := right b List.prefix_rfl
        simp only [List.countP_append, before.countP] at mine ⊢
        omega
    | @right a b c new before ih =>
        intro left right
        refine paired_append (ih left fun p initial => right p (initial.trans (List.prefix_append b new)))
          fun p initial => ?_
        have mine := left a List.prefix_rfl
        have others := right (b ++ p) ((List.prefix_append_right_inj b).mpr initial)
        simp only [List.countP_append, before.countP] at others ⊢
        omega

theorem paired_singleton {e : Event} (other : isFind e = false) : Paired [e] :=
  paired_nil.snoc other

theorem paired_search {queue : String} : Paired [.discovering, .discovered queue] := by
  have begun : Paired [.discovering] := paired_singleton rfl
  exact paired_snoc begun (Nat.le_refl 1)

variable {Chan : Type} (S : Setting Chan) (ph : Phase)

/-- With worker affinity, the sticky queue is set unless a search is going on. -/
def Pinned (h : List Event) (self : LangGraphWorkflow Chan) : Prop :=
  self.useWorkerAffinity = true → (truthy self.stickyTaskQueue = true ↔ FoundAll h)

/-- An entry that is not about a search leaves the pin. -/
theorem Pinned.snoc {h : List Event} {self self' : LangGraphWorkflow Chan} {e : Event}
    (pinned : Pinned h self) (quiet : e ≠ .discovering) (other : ∀ queue, e ≠ .discovered queue)
    (affinity : self'.useWorkerAffinity = self.useWorkerAffinity)
    (sticky : self'.stickyTaskQueue = self.stickyTaskQueue) : Pinned (h ++ [e]) self' := by
  unfold Pinned
  rw [affinity, sticky, foundAll_snoc_iff quiet other]
  exact pinned

theorem pinned_discovering {h : List Event} {self : LangGraphWorkflow Chan} :
    Pinned (h ++ [.discovering]) { self with stickyTaskQueue := none } :=
  fun _ => iff_of_false nofun not_foundAll_discovering

theorem pinned_discovered {h : List Event} {self : LangGraphWorkflow Chan} {queue : String}
    (named : queue ≠ "") :
    Pinned (h ++ [.discovered queue]) { self with stickyTaskQueue := some queue } :=
  fun _ => iff_of_true (by simpa [truthy] using named) foundAll_discovered

/-! ## Moving within a phase -/

/-- One step of the phase, or a draw of random digits. -/
inductive Within (w w' : Execution Chan) : Prop
  | work {e : Event} (works : Works S ph w.history w.self e w'.self)
      (history : w'.history = w.history ++ [e])
  | draw (self : w'.self = w.self) (history : w'.history = w.history)

def During : Execution Chan → Execution Chan → Prop := Relation.ReflTransGen (Within S ph)

instance : IsPreorder (Execution Chan) (During S ph) where
  refl _ := .refl
  trans _ _ _ := .trans

variable {S ph} {w w' : Execution Chan}

/-- The task as which an update reaches the channels: it has no triggers. -/
def updateTask (writes : List (String × PyVal)) : PregelTaskWrites where
  path := [.str "__update__"]
  name := "__update__"
  writes := writes
  triggers := []

/-- An update signal applies its writes as those of its task. -/
theorem updateStateSignal_applied {lg : Langgraph Chan} {writes : List (String × PyVal)}
    {self self' : LangGraphWorkflow Chan} (updated : self.updateStateSignal lg writes = .ok self') :
    ∃ out, lg.applyWrites self.checkpoint self.channels [updateTask writes] increment
      self.triggerToNodes = .ok out ∧ self' = self.withApplied out := by
  unfold updateStateSignal at updated
  dsimp only at updated
  split at updated
  · rename_i out applied
    cases updated
    exact ⟨out, applied, rfl⟩
  · cases updated

theorem updateStateSignal_eq {lg : Langgraph Chan} {writes : List (String × PyVal)}
    {self self' : LangGraphWorkflow Chan} (updated : self.updateStateSignal lg writes = .ok self') :
    ∃ out, self' = self.withApplied out := by
  obtain ⟨out, -, same⟩ := updateStateSignal_applied updated
  exact ⟨out, same⟩

/-- What no step of a phase changes, and what only grows. -/
structure Kept (w w' : Execution Chan) : Prop where
  graphRef : w'.self.graphRef = w.self.graphRef
  step : w'.self.step = w.self.step
  triggers : w'.self.triggerToNodes = w.self.triggerToNodes
  interrupts : w'.self.interrupts = w.self.interrupts
  resumeEvent : w.self.resumeEvent = true → w'.self.resumeEvent = true
  resumeValues : w.self.resumeValues <+: w'.self.resumeValues
  recent : recent w.history <+: recent w'.history
  affinity : w'.self.useWorkerAffinity = w.self.useWorkerAffinity
  pinned : Pinned w.history w.self → Pinned w'.history w'.self

theorem Works.not_moves {h : List Event} {self self' : LangGraphWorkflow Chan} {e : Event}
    (works : Works S ph h self e self') : moves e = false := by
  cases works <;> rfl

theorem recent_snoc {h : List Event} {e : Event} (stays : moves e = false) :
    recent (h ++ [e]) = recent h ++ [e] := History.since_snoc_of_not stays

theorem mem_recent_snoc {h : List Event} {e : Event} (stays : moves e = false) :
    e ∈ recent (h ++ [e]) := by
  rw [recent_snoc stays]
  exact List.mem_append_right _ List.mem_cons_self

theorem Within.kept (within : Within S ph w w') : Kept w w' := by
  cases within with
  | draw same history =>
      refine ⟨by rw [same], by rw [same], by rw [same], by rw [same], by rw [same]; exact id,
        same ▸ List.prefix_rfl, history ▸ List.prefix_rfl, by rw [same], ?_⟩
      rw [same, history]
      exact id
  | @work e works history =>
      have grows : recent w.history <+: recent w'.history := by
        rw [history, recent_snoc works.not_moves]
        exact List.prefix_append _ _
      obtain ⟨self', h', uuids', drawn'⟩ := w'
      obtain ⟨self, h, uuids, drawn⟩ := w
      cases history
      cases works with
      | resume =>
          exact ⟨rfl, rfl, rfl, rfl, fun _ => rfl, List.prefix_append _ _, grows, rfl,
            fun pinned => pinned.snoc nofun nofun rfl rfl⟩
      | update _ updated =>
          obtain ⟨out, rfl⟩ := updateStateSignal_eq updated
          exact ⟨rfl, rfl, rfl, rfl, id, List.prefix_rfl, grows, rfl,
            fun pinned => pinned.snoc nofun nofun rfl rfl⟩
      | discover =>
          exact ⟨rfl, rfl, rfl, rfl, id, List.prefix_rfl, grows, rfl, fun _ => pinned_discovering⟩
      | discovered queue _ _ named =>
          exact ⟨rfl, rfl, rfl, rfl, id, List.prefix_rfl, grows, rfl, fun _ => pinned_discovered named⟩
      | _ =>
          exact ⟨rfl, rfl, rfl, rfl, id, List.prefix_rfl, grows, rfl,
            fun pinned => pinned.snoc nofun nofun rfl rfl⟩

theorem During.kept (during : During S ph w w') : Kept w w' := by
  induction during with
  | refl => exact ⟨rfl, rfl, rfl, rfl, id, List.prefix_rfl, List.prefix_rfl, rfl, id⟩
  | tail _ within ih =>
      have step := within.kept
      exact ⟨step.graphRef.trans ih.graphRef, step.step.trans ih.step,
        step.triggers.trans ih.triggers, step.interrupts.trans ih.interrupts,
        fun event => step.resumeEvent (ih.resumeEvent event), ih.resumeValues.trans step.resumeValues,
        ih.recent.trans step.recent, step.affinity.trans ih.affinity,
        fun pinned => step.pinned (ih.pinned pinned)⟩

theorem During.reachable (during : During S ph w w')
    (reachable : (workflowMachine S).Reachable ⟨w.history, ph, w.self⟩) :
    (workflowMachine S).Reachable ⟨w'.history, ph, w'.self⟩ := by
  induction during with
  | refl => exact reachable
  | tail _ within ih =>
      cases within with
      | work works history =>
          rw [history]
          exact .step ih (.work works)
      | draw self history =>
          rw [self, history]
          exact ih

/-- A signal is a step of every phase that waits. -/
theorem During.signal {signal : Signal} (waits : ph.stage ≠ .ready)
    (handled : (workflowSystem S.env).handle signal w = .ok w') : During S ph w w' := by
  cases signal with
  | resume value =>
      cases handled
      exact .single (.work (.resume w.self value waits) rfl)
  | updateState writes =>
      simp only [workflowSystem] at handled
      split at handled
      · rename_i self updated
        cases handled
        exact .single (.work (.update waits updated) rfl)
      · cases handled

theorem handle_error {env : Env Chan} {signal : Signal} {e : RunError}
    (failing : (workflowSystem env).handle signal w = .error e) : ∃ message, e = .invalidUpdate message := by
  cases signal with
  | resume value => cases failing
  | updateState writes =>
      simp only [workflowSystem] at failing
      split at failing
      · cases failing
      · rename_i e' failed
        cases failing
        unfold updateStateSignal at failed
        dsimp only at failed
        split at failed
        · cases failed
        · cases failed
          exact ⟨_, rfl⟩

/-! ## Executions once started -/

theorem Started.later {input : NodeActivityInput} (started : Started w.history input)
    (during : During S ph w w') : Started w'.history input := by
  obtain ⟨call, dispatched⟩ := started
  exact ⟨call, during.kept.recent.subset dispatched⟩

theorem OutputOf.later {input : NodeActivityInput} {r : NodeActivityOutput}
    (output : OutputOf w.history input r) (during : During S ph w w') :
    OutputOf w'.history input r :=
  ⟨output.started.later during, output.name, output.path, output.bare⟩

/-- What a request for an activity can be answered with. -/
theorem activity_answer {env : Env Chan} {name : String} {input : NodeActivityInput}
    {call : ActivityCall} {r : Response}
    (answer : (workflowSystem env).Answers (.executeActivity name input call) r w) :
    (∃ o, r = .output o ∧ o.nodeName = input.nodeName ∧ o.taskPath = input.taskPath ∧ Bare o) ∨
      ∃ message, r = .activityError message := by
  rcases answer with ready | permitted
  · cases ready
  · cases r with
    | output o =>
        left
        simp only [workflowSystem, Bool.and_eq_true, decide_eq_true_eq, Bool.or_eq_true,
          Bool.not_eq_true', List.isEmpty_iff, Option.isNone_iff_eq_none] at permitted
        obtain ⟨⟨⟨name_eq, path_eq⟩, -⟩, bare⟩ := permitted
        refine ⟨o, rfl, name_eq, path_eq, fun interrupted => ?_⟩
        rcases bare with not | ⟨⟨⟨⟨writes, sends⟩, command⟩, -⟩, requests⟩
        · rw [not] at interrupted
          cases interrupted
        · exact ⟨writes, sends, command, requests⟩
    | activityError message => exact .inr ⟨message, rfl⟩
    | queue name => cases permitted
    | childOutput o => cases permitted
    | childError message => cases permitted
    | woken => cases permitted

/-! ## Coroutines of a phase -/

section Keeps

variable {sys : System (Execution Chan) Request Response Signal RunError} {α : Type}
  {Rel : Execution Chan → Execution Chan → Prop} {post : α → List Event → Execution Chan → Prop}
  {err : RunError → Execution Chan → Execution Chan → Prop} {inv : LogInvariant Event}
  {own : List Event} {s₀ s : Execution Chan}

theorem keeps_setSelf {g : LangGraphWorkflow Chan → LangGraphWorkflow Chan}
    {f : Unit → WorkflowM Chan α} :
    sys.Keeps Execution.history inv Rel post err ((setSelf g).bind f) own s₀ s ↔
      sys.Keeps Execution.history inv Rel post err (f ()) own s₀ (s.mapSelf g) :=
  Keeps.modify_bind_same rfl

theorem keeps_record {e : Event} {f : Unit → WorkflowM Chan α} :
    sys.Keeps Execution.history inv Rel post err ((record e).bind f) own s₀ s ↔
      sys.Keeps Execution.history inv Rel post err (f ()) (own ++ [e]) s₀ (s.log e) :=
  Keeps.modify_bind rfl

theorem keeps_registerGraph {name : String} {f : String → WorkflowM Chan α} :
    sys.Keeps Execution.history inv Rel post err ((registerGraph name).bind f) own s₀ s ↔
      sys.Keeps Execution.history inv Rel post err (f (name ++ "_" ++ (s.uuids s.drawn).take 8)) own s₀
        { s with drawn := s.drawn + 1 } :=
  Keeps.modify_bind_same (g := fun w : Execution Chan => { w with drawn := w.drawn + 1 })
    (f := fun _ => f (name ++ "_" ++ (s.uuids s.drawn).take 8)) rfl

theorem awaitAll_keeps [IsPreorder _ Rel] [Absorbs Rel err] {ι : Type}
    {f : ι → WorkflowM Chan NodeActivityOutput}
    {post : ι → NodeActivityOutput → List Event → Execution Chan → Prop}
    {P : Execution Chan → Prop} (stable : ∀ x, Stable Rel (post x)) (moved : Rel s₀ s)
    (begins : P s) (xs : List ι)
    (each : ∀ x ∈ xs, ∀ t, Rel s₀ t → P t →
      sys.Keeps Execution.history inv Rel (post x) err (f x) [] t t)
    (stays : ∀ x ∈ xs, ∀ t u, P t → (settle (f x) t).state = some u → P u) :
    sys.Keeps Execution.history inv Rel
      (fun rs own t => Gathers (fun x r own => post x r own t) xs rs own) err
      (awaitAll (xs.map f)) [] s₀ s := by
  match xs with
  | [] => exact Keeps.gather stable moved begins [] each stays
  | [x] =>
      refine Keeps.bind (Keeps.start moved (each x List.mem_cons_self s moved begins)) ?_
      exact fun r own s₁ t later ok held => ⟨later, ok, .cons held .nil (History.interleaves_nil_right own)⟩
  | x :: y :: xs => exact Keeps.gather stable moved begins (x :: y :: xs) each stays

end Keeps

/-- The errors of a coroutine: never the one of the loop counter. -/
def Fails (S : Setting Chan) (ph : Phase) (e : RunError) (s₀ s : Execution Chan) : Prop :=
  During S ph s₀ s ∧ e ≠ .outOfFuel

instance : Absorbs (During S ph) (Fails S ph) where
  absorb before fails := ⟨before.trans fails.1, fails.2⟩

/-- The coroutine takes steps of the phase only, and finds every worker that it
searches for. -/
def Does (S : Setting Chan) (ph : Phase) {α : Type} (post : α → Execution Chan → Prop)
    (c : WorkflowM Chan α) (s₀ s : Execution Chan) : Prop :=
  (workflowSystem S.env).Keeps Execution.history paired (During S ph)
    (fun a own t => FoundAll own ∧ post a t) (Fails S ph) c [] s₀ s

namespace Does

variable {α β : Type} {post post' : α → Execution Chan → Prop} {c : WorkflowM Chan α}
  {s₀ s : Execution Chan}

theorem ret {a : α} (moved : During S ph s₀ s) (held : post a s) : Does S ph post (.ret a) s₀ s :=
  ⟨moved, paired_nil, And.intro History.after_nil held⟩

theorem raise {e : RunError} (moved : During S ph s₀ s) (fuel : e ≠ .outOfFuel) :
    Does S ph post (.raise e) s₀ s :=
  ⟨paired_nil, moved, fuel⟩

theorem start {s₁ : Execution Chan} (before : During S ph s₀ s₁) (does : Does S ph post c s₁ s) :
    Does S ph post c s₀ s :=
  Keeps.start before does

theorem mono (weaker : ∀ a t, post a t → post' a t) (does : Does S ph post c s₀ s) :
    Does S ph post' c s₀ s :=
  Keeps.mono (fun a _ t held => ⟨held.1, weaker a t held.2⟩) (fun _ _ _ => id) does

theorem later {u : Execution Chan} (before : During S ph u s₀) (does : Does S ph post c s₀ s) :
    Does S ph (fun a t => post a t ∧ During S ph u t) c s₀ s :=
  Keeps.mono (fun _ _ _ held => ⟨held.1.1, held.1.2, held.2⟩) (fun _ _ _ => id)
    (Keeps.later before does)

theorem bind {post' : β → Execution Chan → Prop} {f : α → WorkflowM Chan β}
    (does : Does S ph post c s₀ s)
    (next : ∀ a s₁ t, During S ph s₁ t → post a t → Does S ph post' (f a) s₁ t) :
    Does S ph post' (c.bind f) s₀ s := by
  refine Keeps.bind does fun a own s₁ t later ok held => ?_
  refine Keeps.mono ?_ (fun _ _ _ => id) (Keeps.frame ok (next a s₁ t later held.2))
  rintro b all u ⟨own', rfl, held'⟩
  exact ⟨foundAll_append held.1 held'.1, held'.2⟩

theorem getSelf {post : β → Execution Chan → Prop} {f : LangGraphWorkflow Chan → WorkflowM Chan β}
    (next : Does S ph post (f s.self) s₀ s) : Does S ph post (getSelf.bind f) s₀ s :=
  next

/-- Write an entry, and go on. -/
theorem record {post : β → Execution Chan → Prop} {e : Event} {f : Unit → WorkflowM Chan β}
    (quiet : e ≠ .discovering) (other : isFind e = false) (next : Does S ph post (f ()) s₀ (s.log e)) :
    Does S ph post ((record e).bind f) s₀ s := by
  refine keeps_record.mpr (Keeps.mono ?_ (fun _ _ _ => id) (Keeps.frame (paired_singleton other) next))
  rintro b all u ⟨own, rfl, held⟩
  exact ⟨foundAll_append (foundAll_singleton quiet) held.1, held.2⟩

theorem request {post : β → Execution Chan → Prop} {q : Request} {f : Response → WorkflowM Chan β}
    (moved : During S ph s₀ s)
    (next : ∀ t r, During S ph s t → (workflowSystem S.env).Answers q r t → Does S ph post (f r) t t) :
    Does S ph post ((Coro.request q).bind f) s₀ s :=
  Keeps.request_bind moved paired_nil next

/-- Several coroutines of the phase that have found their workers, each its own. -/
theorem of_gathers {ι : Type} {c : WorkflowM Chan (List α)} {post : ι → α → Execution Chan → Prop}
    {xs : List ι} (keeps : (workflowSystem S.env).Keeps Execution.history paired (During S ph)
      (fun as own t => Gathers (fun x a own => FoundAll own ∧ post x a t) xs as own) (Fails S ph)
      c [] s₀ s) :
    Does S ph (fun as t => List.Forall₂ (fun x a => post x a t) xs as) c s₀ s := by
  refine Keeps.mono (fun as own t gathers => ⟨?_, ?_⟩) (fun _ _ _ => id) keeps
  · refine gathers.after (fun e r r' sub found searching => ?_) fun x a own held => held.1
    obtain ⟨queue, mem⟩ := found searching
    exact ⟨queue, sub mem⟩
  · exact gathers.results fun x a own held => held.2

end Does

/-! ## Activities -/

/-- `input` may be dispatched now, and again if its worker is lost. -/
structure Admitted (S : Setting Chan) (ph : Phase) (w : Execution Chan) (input : NodeActivityInput) :
    Prop where
  now : Admits S ph w.history w.self input
  again : ∀ w', During S ph w w' → (∃ call, Event.lost input call ∈ recent w'.history) →
    Admits S ph w'.history w'.self input

theorem Admits.executes {h : List Event} {self : LangGraphWorkflow Chan} {input : NodeActivityInput}
    (admits : Admits S ph h self input) : ph.stage.executes = true := by
  cases admits with
  | scheduled stage | resumed stage | push stage | goto stage => rw [stage]; rfl

/-- A search that follows a loss at once, and ends with a worker. -/
theorem rediscoverWorker_does {s₀ s : Execution Chan} (executes : ph.stage.executes = true)
    (affinity : s.self.useWorkerAffinity = true) (foundAll : FoundAll s.history)
    (lost : ∃ a input call, s.history = a ++ [.lost input call]) (moved : During S ph s₀ s) :
    Does S ph (fun _ t => FoundAll t.history) rediscoverWorker s₀ s := by
  have discovering : Within S ph s (((s.mapSelf fun self => { self with stickyTaskQueue := none })).log
      .discovering) := .work (.discover s.self executes affinity foundAll lost) rfl
  unfold Does rediscoverWorker getAvailableTaskQueue
  simp only [Coro.bind_eq, Coro.bind_assoc]
  refine keeps_setSelf.mpr (keeps_record.mpr ?_)
  refine Keeps.request_bind (moved.tail discovering) (paired_singleton rfl) fun t r later answer => ?_
  rcases answer with ready | permitted
  · cases ready
  · cases r with
    | queue name =>
        have named : name ≠ "" := by simpa [workflowSystem] using permitted
        have affinityLater : t.self.useWorkerAffinity = true := later.kept.affinity.trans affinity
        have found : Within S ph t ((t.log (.discovered name)).mapSelf fun self =>
            { self with stickyTaskQueue := some name }) :=
          .work (.discovered t.self name executes affinityLater named) rfl
        have foundAll : FoundAll [.discovering, .discovered name] :=
          foundAll_discovered (h := [.discovering])
        simp only [Coro.bind_assoc]
        refine keeps_record.mpr ?_
        exact ⟨[], (List.append_nil _).symm, .single found, paired_search,
          And.intro foundAll foundAll_discovered⟩
    | activityError message => exact ⟨paired_singleton rfl, .refl, nofun⟩
    | output o => cases permitted
    | childOutput o => cases permitted
    | childError message => cases permitted
    | woken => cases permitted

/-- What `dispatchActivity` comes to: an output, or a loss it may recover from. -/
def Dispatched (input : NodeActivityInput) (result : Option NodeActivityOutput) (t : Execution Chan) :
    Prop :=
  match result with
  | some r => OutputOf t.history input r
  | none => t.self.useWorkerAffinity = true ∧ FoundAll t.history ∧
      ∃ a call, t.history = a ++ [.lost input call]

theorem dispatchActivity_does {input : NodeActivityInput} {s₀ s : Execution Chan}
    (moved : During S ph s₀ s) (admits : Admits S ph s.history s.self input)
    (foundAll : FoundAll s.history) (pinned : Pinned s.history s.self) :
    Does S ph (Dispatched input) (dispatchActivity input input.nodeName) s₀ s := by
  have dispatched : Within S ph s
      (s.log (.dispatched input (s.self.activityCall input.nodeName))) :=
    .work (.dispatch admits foundAll) rfl
  have started : .dispatched input (s.self.activityCall input.nodeName) ∈
      recent (s.log (.dispatched input (s.self.activityCall input.nodeName))).history :=
    mem_recent_snoc rfl
  refine .getSelf (.record nofun rfl (.request (moved.tail dispatched) fun t r later answer => ?_))
  have startedNow : .dispatched input (s.self.activityCall input.nodeName) ∈ recent t.history :=
    later.kept.recent.subset started
  rcases activity_answer answer with ⟨o, rfl, name, path, bare⟩ | ⟨message, rfl⟩
  · exact .ret .refl ⟨⟨_, startedNow⟩, name, path, bare⟩
  · have lost : Within S ph t (t.log (.lost input (s.self.activityCall input.nodeName))) :=
      .work (.lose admits.executes startedNow) rfl
    have pinnedNow : Pinned (t.history ++ [.lost input (s.self.activityCall input.nodeName)]) t.self :=
      lost.kept.pinned (later.kept.pinned (dispatched.kept.pinned pinned))
    refine .record nofun rfl (.getSelf ?_)
    split
    · rename_i falls
      obtain ⟨affinity, sticky⟩ := Bool.and_eq_true_iff.mp falls
      exact .ret (.single lost) ⟨affinity, (pinnedNow affinity).mp sticky, _, _, rfl⟩
    · exact .raise (.single lost) nofun

theorem executeSingleActivity_does {input : NodeActivityInput} {s₀ s : Execution Chan}
    (moved : During S ph s₀ s) (admitted : Admitted S ph s input) (foundAll : FoundAll s.history)
    (pinned : Pinned s.history s.self) :
    Does S ph (fun r t => OutputOf t.history input r)
      (executeSingleActivity input input.nodeName) s₀ s := by
  have executes := admitted.now.executes
  have first := dispatchActivity_does .refl admitted.now foundAll pinned
  refine .bind (.start moved (.later .refl first)) fun result s₁ t later held => ?_
  obtain ⟨held, since⟩ := held
  cases result with
  | some r => exact .ret later held
  | none =>
      obtain ⟨affinity, foundAll, a, call, lost⟩ := held
      have rediscovery : Does S ph (fun _ u => FoundAll u.history) rediscoverWorker t t :=
        rediscoverWorker_does executes affinity foundAll ⟨a, input, call, lost⟩ .refl
      have lostHere : .lost input call ∈ recent t.history := by
        rw [lost]
        exact mem_recent_snoc rfl
      refine .bind (.start later (.later .refl rediscovery)) fun _ s₂ u later' during => ?_
      have lostLater : .lost input call ∈ recent u.history := during.2.kept.recent.subset lostHere
      have pinnedLater : Pinned u.history u.self := during.2.kept.pinned (since.kept.pinned pinned)
      refine .bind (dispatchActivity_does later' (admitted.again u (since.trans during.2)
        ⟨call, lostLater⟩) during.1 pinnedLater) fun result' s₃ v later'' held' => ?_
      cases result' with
      | some r => exact .ret later'' held'
      | none => exact .raise later'' nofun

/-! ## The executions of a phase -/

/-- A result that stays true during the phase. -/
def StableDuring (S : Setting Chan) (ph : Phase) {α : Type} (post : α → Execution Chan → Prop) : Prop :=
  ∀ a w w', post a w → During S ph w w' → post a w'

theorem executed_stable (t : PregelTask) :
    StableDuring S ph fun r w => Executed S w.history ph w.self t r := by
  intro r w w' executed during
  unfold Executed at *
  rw [during.kept.graphRef]
  split at executed
  · exact executed.later during
  · obtain ⟨⟨call, started⟩, output⟩ := executed
    exact ⟨⟨call, during.kept.recent.subset started⟩, output⟩

theorem sent_stable (send : SendRequest) :
    StableDuring S ph fun r w => Sent w.history ph w.self send r := by
  intro r w w' sent during
  unfold Sent at *
  rw [during.kept.graphRef]
  exact sent.later during

theorem reexecuted_stable (q : NodeActivityOutput) :
    StableDuring S ph fun r w => Reexecuted w.history ph w.self q r := by
  rintro r w w' ⟨values, some, received, output⟩ during
  rw [← during.kept.graphRef] at output
  exact ⟨values, some, received.trans during.kept.resumeValues, output.later during⟩

/-- Side by side, each begins while no search is going on. -/
theorem awaitAll_does {ι : Type} {f : ι → WorkflowM Chan NodeActivityOutput}
    {post : ι → NodeActivityOutput → Execution Chan → Prop} (stable : ∀ x, StableDuring S ph (post x))
    {s₀ s : Execution Chan} (moved : During S ph s₀ s) (foundAll : FoundAll s.history) (xs : List ι)
    (each : ∀ x ∈ xs, ∀ t, During S ph s₀ t → FoundAll t.history → Does S ph (post x) (f x) t t)
    (stays : ∀ x ∈ xs, ∀ t u, FoundAll t.history → (settle (f x) t).state = some u →
      FoundAll u.history) :
    Does S ph (fun rs t => List.Forall₂ (fun x r => post x r t) xs rs) (awaitAll (xs.map f)) s₀ s :=
  .of_gathers (awaitAll_keeps (fun x r _ t u held during => ⟨held.1, stable x r t u held.2 during⟩)
    moved foundAll xs each stays)

/-- An activity is dispatched before anything is awaited. -/
theorem executeSingleActivity_settle (input : NodeActivityInput) (node : String) (s : Execution Chan) :
    (settle (executeSingleActivity input node) s).state =
      some (s.log (.dispatched input (s.self.activityCall node))) := rfl

theorem executeSingleActivity_stays {input : NodeActivityInput} {node : String} {s t : Execution Chan}
    (foundAll : FoundAll s.history) (stops : (settle (executeSingleActivity input node) s).state = some t) :
    FoundAll t.history := by
  rw [executeSingleActivity_settle] at stops
  cases stops
  exact foundAll.snoc nofun

theorem executeTask_stays {env : Env Chan} {graph : Pregel Chan} {graphRef : String}
    {state : Dict PyVal} {task : PregelTask} {s t : Execution Chan} (foundAll : FoundAll s.history)
    (stops : (settle (executeTask env graph graphRef state task) s).state = some t) :
    FoundAll t.history := by
  unfold executeTask at stops
  split at stops
  · cases stops
    exact foundAll.snoc nofun
  · exact executeSingleActivity_stays foundAll stops

theorem executeSubgraph_does {t : PregelTask} {name : String} {s₀ s : Execution Chan}
    (moved : During S ph s₀ s) (stage : ph.stage = .executing) (task : t ∈ ph.tasks)
    (bound : subgraphOf t.name S.graph = some name) :
    Does S ph
      (fun r w => (∃ call, Event.subgraphStarted t.name call ∈ recent w.history) ∧
        ∃ result, r = subgraphOutput t result)
      (executeSubgraphAsChildWorkflow S.env t name) s₀ s := by
  have drawn : Within S ph s { s with drawn := s.drawn + 1 } := .draw rfl rfl
  have started : Within S ph { s with drawn := s.drawn + 1 }
      (Execution.log (.subgraphStarted t.name (subgraphCall S.env t
        (name ++ "_" ++ (s.uuids s.drawn).take 8) (getChannelValues S.env.lg s.self.channels)))
        { s with drawn := s.drawn + 1 }) := .work (.subgraph s.self stage task bound) rfl
  refine .getSelf (keeps_registerGraph.mpr ?_)
  refine Does.record nofun rfl (.request ((moved.tail drawn).tail started) fun u r later answer => ?_)
  rcases answer with ready | permitted
  · cases ready
  · cases r with
    | childOutput result =>
        exact .ret .refl ⟨⟨_, later.kept.recent.subset (mem_recent_snoc rfl)⟩, result, rfl⟩
    | childError message => exact .raise .refl nofun
    | output o => cases permitted
    | activityError message => cases permitted
    | queue name => cases permitted
    | woken => cases permitted

theorem executeTask_does {t : PregelTask} {s : Execution Chan} (stage : ph.stage = .executing)
    (task : t ∈ ph.tasks) (foundAll : FoundAll s.history) (pinned : Pinned s.history s.self) :
    Does S ph (fun r w => Executed S w.history ph w.self t r)
      (executeTask S.env S.graph s.self.graphRef ph.state t) s s := by
  unfold executeTask Executed
  cases bound : subgraphOf t.name S.graph with
  | some name => exact executeSubgraph_does .refl stage task bound
  | none =>
      have admitted : Admitted S ph s (taskInput s.self.graphRef ph.state t) := by
        refine ⟨.scheduled stage task bound, fun w' during _ => ?_⟩
        rw [← during.kept.graphRef]
        exact .scheduled stage task bound
      refine .mono ?_ (.later .refl (executeSingleActivity_does .refl admitted foundAll pinned))
      rintro r w ⟨output, during⟩
      rw [during.kept.graphRef]
      exact output

/-- The nodes scheduled for a superstep, all executed. -/
theorem executeNodes_does {tasks : List PregelTask} {s : Execution Chan}
    (phase : ph = enter S .executing tasks [] s.self) (foundAll : FoundAll s.history)
    (pinned : Pinned s.history s.self) :
    Does S ph (fun rs w => Collects S w.history ph w.self rs)
      (executeNodes S.env S.graph tasks) s s := by
  have stage : ph.stage = .executing := by rw [phase]; rfl
  have tasks_eq : ph.tasks = tasks := by rw [phase]; rfl
  have state : ph.state = getChannelValues S.env.lg s.self.channels := by rw [phase]; rfl
  unfold Collects
  simp only [stage, tasks_eq]
  refine .getSelf (awaitAll_does executed_stable .refl foundAll _ (fun t task w during found => ?_)
    fun t task w u found stops => executeTask_stays found stops)
  have scheduled : t ∈ ph.tasks := by
    rw [tasks_eq]
    exact (List.perm_insertionSort _ _).subset task
  rw [← during.kept.graphRef, ← state]
  exact executeTask_does stage scheduled found (during.kept.pinned pinned)

/-- One interrupted node, executed again with the resume values received by then. -/
theorem executeResumedNode_does {q : NodeActivityOutput} {s : Execution Chan}
    (stage : ph.stage = .resuming) (result : q ∈ ph.results) (interrupted : q.interrupted = true)
    (some : s.self.resumeValues ≠ []) (foundAll : FoundAll s.history) (pinned : Pinned s.history s.self) :
    Does S ph (fun r t => Reexecuted t.history ph t.self q r ∧ t.self.resumeValues ≠ [] ∧ During S ph s t)
      (executeSingleActivity (resumedInput s.self.graphRef ph.state s.self.resumeValues q) q.nodeName)
      s s := by
  have admitted : Admitted S ph s (resumedInput s.self.graphRef ph.state s.self.resumeValues q) := by
    refine ⟨.resumed stage result interrupted some List.prefix_rfl (.inl rfl),
      fun w' during lost => ?_⟩
    rw [← during.kept.graphRef] at lost ⊢
    exact .resumed stage result interrupted some during.kept.resumeValues (.inr lost)
  refine .mono ?_ (.later .refl (executeSingleActivity_does .refl admitted foundAll pinned))
  rintro r t ⟨output, during⟩
  rw [← during.kept.graphRef] at output
  refine ⟨⟨_, some, during.kept.resumeValues, output⟩, fun empty => some ?_, during⟩
  have received := during.kept.resumeValues
  rw [empty] at received
  exact List.prefix_nil.mp received

/-- The tasks of a list of Sends, all executed. -/
theorem executePushTasks_does {sends : List SendRequest} {s : Execution Chan}
    (state : ph.state = getChannelValues S.env.lg s.self.channels)
    (admits : ∀ send ∈ sends, ∀ h (self : LangGraphWorkflow Chan),
      Admits S ph h self (pushInput self.graphRef ph.state send))
    (foundAll : FoundAll s.history) (pinned : Pinned s.history s.self) :
    Does S ph (fun rs w => List.Forall₂ (Sent w.history ph w.self) sends rs)
      (executePushTasks S.env sends) s s := by
  refine .getSelf (awaitAll_does sent_stable .refl foundAll _ (fun send mem w during found => ?_)
    fun send mem w u found stops => executeSingleActivity_stays found stops)
  rw [← during.kept.graphRef, ← state]
  have admitted : Admitted S ph w (pushInput w.self.graphRef ph.state send) := by
    refine ⟨admits send mem _ _, fun w' later _ => ?_⟩
    rw [← later.kept.graphRef]
    exact admits send mem _ _
  refine .mono ?_ (.later .refl (executeSingleActivity_does .refl admitted found
    (during.kept.pinned pinned)))
  rintro r w' ⟨output, later⟩
  unfold Sent
  rw [later.kept.graphRef]
  exact output

/-! ## Child workflow requests -/

/-- A child workflow that fails is a result like any other. -/
def childResult : Response → Except RunError WorkflowOutput
  | .childOutput output => .ok output
  | .childError message => .error (.childWorkflowError message)
  | _ => .error .unexpectedAnswer

theorem dispatchChildWorkflow_attempt {env : Env Chan} {req : ChildRequest} {input : WorkflowInput}
    {index : Nat} :
    (dispatchChildWorkflow env req input index).attempt =
      getSelf.bind fun self => (record (.subagentStarted (childCall env self req input index))).bind
        fun _ => (Coro.request (.executeChildWorkflow (childCall env self req input index))).bind
          fun response => .ret (childResult response) := by
  unfold dispatchChildWorkflow getSelf record
  simp only [Coro.bind_eq, Coro.read, Coro.modify, Coro.request, Coro.bind, Coro.attempt, Coro.pure_eq]
  congr 1
  funext w
  congr 1
  funext w'
  congr 2
  funext i response
  cases response <;> rfl

theorem dispatchChildWorkflow_does {r : NodeActivityOutput} {req : ChildRequest} {index : Nat}
    {s : Execution Chan} (stage : ph.stage = .serving) (result : r ∈ ph.results)
    (request : r.childWorkflowRequests[index]? = some req) :
    Does S ph (fun _ _ => True) (dispatchChildWorkflow S.env req S.input index).attempt s s := by
  have started : Within S ph s (s.log (.subagentStarted (childCall S.env s.self req S.input index))) :=
    .work (.subagent s.self stage result request) rfl
  rw [dispatchChildWorkflow_attempt]
  refine .getSelf (.record nofun rfl (.request (.single started) fun t response later answer => ?_))
  exact .ret .refl trivial

theorem toolReply_error {env : Env Chan} {req : ChildRequest} {outcome : Except RunError WorkflowOutput}
    {e : RunError} (failed : toolReply env req outcome = .error e) : e ≠ .outOfFuel := by
  unfold toolReply at failed
  cases outcome with
  | error e' => cases failed
  | ok output =>
      dsimp only at failed
      split at failed
      · cases last : lastItem (output.channelValues.getD "messages" (.list [])) with
        | some m =>
            rw [last] at failed
            cases m <;> cases failed
        | none =>
            rw [last] at failed
            cases failed
            cases output.channelValues.getD "messages" (.list []) <;> nofun
      · cases failed

theorem toolReplies_error {env : Env Chan} {e : RunError} :
    ∀ {ps : List (ChildRequest × Except RunError WorkflowOutput)},
      (ps.mapM fun p => toolReply env p.1 p.2) = .error e → e ≠ .outOfFuel
  | [], failed => by cases failed
  | p :: ps, failed => by
      rw [List.mapM_cons] at failed
      cases first : toolReply env p.1 p.2 with
      | error e' =>
          rw [first] at failed
          cases failed
          exact toolReply_error first
      | ok reply =>
          rw [first] at failed
          cases rest : ps.mapM fun p => toolReply env p.1 p.2 with
          | error e' =>
              rw [rest] at failed
              cases failed
              exact toolReplies_error rest
          | ok replies =>
              rw [rest] at failed
              cases failed

theorem serveRequests_does {r : NodeActivityOutput} {s : Execution Chan}
    (stage : ph.stage = .serving) (result : r ∈ ph.results) :
    Does S ph (fun r' _ => Serves r r') (serveRequests S.env S.input r) s s := by
  unfold serveRequests
  split
  · exact .ret .refl ⟨[], by simp, fun _ => rfl⟩
  · rename_i some
    have each : ∀ p ∈ r.childWorkflowRequests.zipIdx, ∀ t, During S ph s t → True →
        Does S ph (fun _ _ => True) (dispatchChildWorkflow S.env p.1 S.input p.2).attempt t t := by
      intro p mem t _ _
      exact dispatchChildWorkflow_does stage result (List.mem_zipIdx_iff_getElem?.mp mem)
    have replies := Does.of_gathers (Keeps.gather (fun _ _ _ _ _ held _ => held) .refl trivial _ each
      fun _ _ _ _ _ _ => trivial)
    refine .bind replies fun outputs s₁ t later _ => ?_
    split
    · rename_i replies _
      refine .ret later ⟨replies, rfl, fun empty => ?_⟩
      rw [empty] at some
      exact absurd rfl some
    · rename_i failed
      exact .raise later (toolReplies_error failed)

theorem processChildWorkflowRequests_does (stage : ph.stage = .serving)
    (rs : List NodeActivityOutput) (results : ∀ r ∈ rs, r ∈ ph.results) {s₀ s : Execution Chan}
    (moved : During S ph s₀ s) :
    Does S ph (fun rs' _ => List.Forall₂ Serves rs rs')
      (processChildWorkflowRequests S.env S.input rs) s₀ s := by
  induction rs generalizing s₀ s with
  | nil => exact .ret moved .nil
  | cons r rs ih =>
      refine .bind (.start moved
        (serveRequests_does stage (results r List.mem_cons_self))) fun r' s₁ t later serves => ?_
      refine .bind (ih (fun q mem => results q (List.mem_cons_of_mem r mem)) later)
        fun rs' s₂ u later' rest => ?_
      exact .ret later' (.cons serves rest)

end LanggraphTemporal.Machine
