/-
# Machine.Triggers -- writes that trigger the next superstep

A write to the branch channel of a node schedules that node for the next
superstep, be it of the same run or of the one that continues it.  Nothing but
signals comes in between, and what they write expires nothing; and the
checkpoint hands the channel over.  So the branch channels that the last
superstep wrote to stay fresh in a run (`poised_invariant`) and from one run to
the next (`inherits_of_continuedWith`), and the next superstep schedules each of
their nodes, once (`schedulesWritten_of_continuedWith`).
-/
import LanggraphTemporal.Machine.Channels
import LanggraphTemporal.Machine.Trees

namespace LanggraphTemporal.Machine

set_option autoImplicit false

open Theory Theory.History Model Model.LangGraphWorkflow

variable {Chan : Type} {S : Setting Chan} {p h : List Event} {writes : List PregelTaskWrites}

/-- What is assumed of LangGraph for a write to the branch channel of a node to
trigger it, once. -/
structure TriggersBranches (lg : Langgraph Chan) : Prop where
  schedules : lg.SchedulesTriggered
  once : lg.SchedulesOnce
  copies : lg.CopiesVersions
  restores : lg.RestoresBranches
  consistent : lg.KeepsConsistent
  channels : lg.KeepsChannels
  writes : lg.WritesFresh
  keeps : lg.KeepsFresh

/-! ## What the last superstep wrote -/

/-- `writes` were applied, and no superstep has been scheduled since. -/
def WrittenLast (h : List Event) (writes : List PregelTaskWrites) : Prop :=
  ∃ a updated b, h = a ++ .applied writes updated :: b ∧ ∀ x ∈ b, isScheduled x = false

theorem WrittenLast.last {e : Event} (written : WrittenLast (h ++ [e]) writes) :
    (∃ updated, e = .applied writes updated) ∨ (isScheduled e = false ∧ WrittenLast h writes) := by
  obtain ⟨a, updated, b, split, quiet⟩ := written
  rcases snoc_eq_append_cons.mp split with ⟨-, here, -⟩ | ⟨b', rfl, inner⟩
  · exact .inl ⟨updated, here⟩
  · exact .inr ⟨quiet e (by simp), a, updated, b', inner, fun x mem => quiet x (List.mem_append_left _ mem)⟩

/-- Before its main loop begins, a run writes nothing. -/
theorem WrittenLast.of_preliminary (early : ∀ e ∈ h, preliminary e = true)
    (written : WrittenLast (p ++ h) writes) : WrittenLast p writes := by
  induction h using List.reverseRecOn with
  | nil => rwa [List.append_nil] at written
  | append_singleton h e ih =>
      rw [← List.append_assoc] at written
      rcases written.last with ⟨updated, rfl⟩ | ⟨-, before⟩
      · cases early (.applied writes updated) (by simp)
      · exact ih (fun x mem => early x (List.mem_append_left _ mem)) before

/-- A superstep is its own, whatever came before its run. -/
theorem superstepOf_append {a : List Event} (opened : ∃ x ∈ h, isScheduled x = true) :
    superstepOf (a ++ h) = superstepOf h :=
  since_append_of_hit opened

theorem Open.scheduled (opened : Open h) : ∃ x ∈ h, isScheduled x = true := by
  obtain ⟨⟨a, step, tasks, split⟩, -⟩ := opened
  exact ⟨.scheduled step tasks, by rw [split]; simp, rfl⟩

/-- A superstep that has not completed has written nothing. -/
theorem Open.not_writtenLast (opened : Open h) : ¬WrittenLast (p ++ h) writes := by
  rintro ⟨a, updated, b, split, quiet⟩
  have inside : Event.applied writes updated ∈ superstepOf (p ++ h) := by
    rw [split, superstepOf, since_append (b := .applied writes updated :: b)]
    · exact List.mem_append_right _ List.mem_cons_self
    · intro x mem
      rcases List.mem_cons.mp mem with rfl | rest
      · rfl
      · exact quiet x rest
  rw [superstepOf_append opened.scheduled] at inside
  cases opened.2 _ inside

/-! ## It stays fresh -/

/-- The branch channels of the graph that these tasks wrote to are available at
a version that no node has seen. -/
def AllFresh (lg : Langgraph Chan) (G : Pregel Chan) (cp : Checkpoint) (channels : Dict Chan)
    (writes : List PregelTaskWrites) : Prop :=
  ∀ t ∈ writes, ∀ w ∈ t.writes, ∀ node, w.1 = branchTo node → (G.channels.get? w.1).isSome = true →
    lg.available channels w.1 ∧ cp.Fresh w.1

/-- What a run finds in its input, after the history `p` of the runs before it. -/
structure Inherits (lg : Langgraph Chan) (G : Pregel Chan) (p : List Event) (input : WorkflowInput) :
    Prop where
  consistent : ∀ restored, input.restoredState = some restored → restored.checkpoint.Consistent
  fresh : ∀ writes, WrittenLast p writes → ∃ restored, input.restoredState = some restored ∧
    AllFresh lg G restored.checkpoint (lg.channelsFromCheckpoint G.channels restored.checkpoint) writes

/-- The checkpoint is consistent, the channels of the graph are there, and what
the last superstep wrote to branch channels is fresh. -/
structure Poised (S : Setting Chan) (p : List Event) (c : Config Chan) : Prop where
  consistent : c.self.checkpoint.Consistent
  channels : ∀ chan, (S.graph.channels.get? chan).isSome = true →
    (c.self.channels.get? chan).isSome = true
  fresh : ∀ writes, WrittenLast (p ++ c.history) writes →
    AllFresh S.env.lg S.graph c.self.checkpoint c.self.channels writes

section Machine

variable {ph ph' : Phase} {self self' : LangGraphWorkflow Chan} {e : Event}

/-- What an entry other than `apply_writes` has to leave as it is. -/
theorem Poised.snoc (poised : Poised S p ⟨h, ph, self⟩) (plain : ∀ writes updated, e ≠ .applied writes updated)
    (consistent : self'.checkpoint.Consistent)
    (channels : ∀ chan, (self.channels.get? chan).isSome = true → (self'.channels.get? chan).isSome = true)
    (keeps : ∀ node, S.env.lg.available self.channels (branchTo node) → self.checkpoint.Fresh (branchTo node) →
      S.env.lg.available self'.channels (branchTo node) ∧ self'.checkpoint.Fresh (branchTo node)) :
    Poised S p ⟨h ++ [e], ph', self'⟩ := by
  refine ⟨consistent, fun chan there => channels chan (poised.channels chan there), fun writes written => ?_⟩
  dsimp only at written
  rw [← List.append_assoc] at written
  rcases written.last with ⟨updated, here⟩ | ⟨-, before⟩
  · exact absurd here (plain writes updated)
  · intro t task w write node name there
    obtain ⟨available, new⟩ := poised.fresh writes before t task w write node name there
    rw [name] at available new ⊢
    exact keeps node available new

/-- Versions and channels that stay as they are stay fresh. -/
theorem Poised.same (poised : Poised S p ⟨h, ph, self⟩) (plain : ∀ writes updated, e ≠ .applied writes updated)
    (channels : self'.channels = self.channels)
    (versions : self'.checkpoint.channelVersions = self.checkpoint.channelVersions)
    (seen : self'.checkpoint.versionsSeen = self.checkpoint.versionsSeen) :
    Poised S p ⟨h ++ [e], ph', self'⟩ := by
  have consistent : self'.checkpoint.Consistent := by
    intro node before chan known
    rw [seen] at known
    obtain ⟨top, below⟩ := poised.consistent node before chan known
    refine ⟨top, ?_⟩
    unfold Checkpoint.version
    rw [versions]
    exact below
  refine poised.snoc plain consistent (by rw [channels]; exact fun _ => id) fun node available new => ?_
  unfold Checkpoint.Fresh Checkpoint.version at *
  rw [channels, versions, seen]
  exact ⟨available, new⟩

theorem Poised.applied {tasks : List PregelTaskWrites} {ttn : Dict (List String)} {out : Applied Chan}
    (lg : TriggersBranches S.env.lg) (poised : Poised S p ⟨h, ph, self⟩) (opened : Open h)
    (applied : S.env.lg.applyWrites self.checkpoint self.channels tasks increment ttn = .ok out)
    (checkpoint : self'.checkpoint = out.checkpoint) (channels : self'.channels = out.channels) :
    Poised S p ⟨h ++ [.applied tasks out.updated], ph', self'⟩ := by
  refine ⟨?_, fun chan there => ?_, fun writes written => ?_⟩
  · rw [checkpoint]
    exact lg.consistent.applied _ _ _ _ _ applied poised.consistent
  · rw [channels]
    exact lg.channels.applied _ _ _ _ _ applied chan (poised.channels chan there)
  · dsimp only at written
    rw [← List.append_assoc] at written
    rcases written.last with ⟨updated, here⟩ | ⟨-, before⟩
    · cases here
      intro t task w write node name there
      rw [checkpoint, channels]
      exact lg.writes _ _ _ _ _ applied poised.consistent t task w write node name (poised.channels _ there)
    · -- one superstep is applied once
      exact absurd before opened.not_writtenLast

theorem poised_opened {start : LangGraphWorkflow Chan} (lg : TriggersBranches S.env.lg)
    (inherits : Inherits S.env.lg S.graph p S.input) (opened : Opened S start)
    (early : ∀ e ∈ h, preliminary e = true) : Poised S p ⟨h, ph, start⟩ := by
  obtain ⟨before, self, -, initialised, rfl⟩ := opened.initialised
  -- a run without a restored state is the first one
  have first : S.input.restoredState = none → ∀ writes, ¬WrittenLast (p ++ h) writes := by
    intro none writes written
    obtain ⟨state, given, -⟩ := inherits.fresh writes (written.of_preliminary early)
    rw [none] at given
    cases given
  have fresh : ∀ chan, (S.graph.channels.get? chan).isSome = true →
      ((S.env.lg.channelsFromCheckpoint S.graph.channels S.env.lg.emptyCheckpoint).get? chan).isSome = true :=
    lg.channels.start S.graph.channels S.env.lg.emptyCheckpoint
  unfold initialise at initialised
  split at initialised
  · rename_i state given
    cases initialised
    refine ⟨inherits.consistent state given, lg.channels.start S.graph.channels state.checkpoint,
      fun writes written => ?_⟩
    obtain ⟨state', given', held⟩ := inherits.fresh writes (written.of_preliminary early)
    rw [given] at given'
    cases given'
    exact held
  · rename_i none
    dsimp only at initialised
    split at initialised
    · cases initialised
      exact ⟨lg.consistent.start, fresh, fun writes written => absurd written (first none writes)⟩
    · split at initialised
      · rename_i out applied
        cases initialised
        exact ⟨lg.consistent.applied _ _ _ _ _ applied lg.consistent.start,
          fun chan there => lg.channels.applied _ _ _ _ _ applied chan (fresh chan there),
          fun writes written => absurd written (first none writes)⟩
      · cases initialised

theorem poised_invariant (lg : TriggersBranches S.env.lg) (inherits : Inherits S.env.lg S.graph p S.input) :
    (workflowMachine S).Invariant (Poised S p) where
  init c initial := poised_opened lg inherits initial.opened initial.history
  step c d reachable held step := by
    cases step with
    | work works =>
        cases works with
        | update _ updated =>
            obtain ⟨out, applied, rfl⟩ := updateStateSignal_applied updated
            refine held.snoc nofun (lg.consistent.applied _ _ _ _ _ applied held.consistent)
              (lg.channels.applied _ _ _ _ _ applied) fun node => lg.keeps _ _ _ _ _ applied (fun t mem => ?_) _
            rw [List.mem_singleton.mp mem]
            rfl
        | _ => exact held.same nofun rfl rfl rfl
    | @move h ph ph' self self' e moves =>
        cases moves with
        | apply stage some applied =>
            exact held.applied lg (open_invariant.holds reachable (by rw [stage]; rfl)) applied rfl rfl
        | advance =>
            obtain ⟨versions, seen⟩ := lg.copies self.checkpoint self.channels self.step
            exact held.same nofun rfl versions seen
        | _ => exact held.same nofun rfl rfl rfl

/-- The next superstep schedules the nodes whose branch channels were written to,
and no node twice. -/
def SchedulesWritten (G : Pregel Chan) (a : List Event) (e : Event) : Prop :=
  ∀ step tasks, e = .scheduled step tasks → (tasks.map PregelTask.name).Nodup ∧
    ∀ writes, WrittenLast a writes → ∀ t ∈ writes, ∀ w ∈ t.writes, ∀ node n, w.1 = branchTo node →
      G.nodes.get? node = some n → branchTo node ∈ n.triggers →
        (G.channels.get? (branchTo node)).isSome = true → node ∈ tasks.map PregelTask.name

theorem schedulesWritten_of_moves (lg : TriggersBranches S.env.lg)
    (inherits : Inherits S.env.lg S.graph p S.input) (moves : Moves S h ph self e ph' self')
    (reachable : (workflowMachine S).Reachable ⟨h, ph, self⟩) : SchedulesWritten S.graph (p ++ h) e := by
  rintro step tasks rfl
  cases moves with
  | schedule stage below prepared some =>
      refine ⟨by rw [prepared]; exact lg.once _ _ _ _ _ _, ?_⟩
      intro writes written t task w write node n name found trigger there
      have poised := (poised_invariant lg inherits).holds reachable
      obtain ⟨available, new⟩ := poised.fresh writes written t task w write node name (by rw [name]; exact there)
      have triggered : S.env.lg.Triggered self.checkpoint self.channels node n.triggers := by
        rw [name] at available new
        exact ⟨_, trigger, available, new.unseen node⟩
      rw [prepared]
      exact (lg.schedules self.checkpoint S.graph.nodes self.channels self.step S.input.recursionLimit
        self.triggerToNodes node).mpr ⟨n, found, triggered⟩

end Machine

/-! ## All runs of an execution -/

/-- A run of this graph, with this LangGraph. -/
def RunOf (lg : Langgraph Chan) (G : Pregel Chan) (S : Setting Chan) (_ _ : List Event) : Prop :=
  S.env.lg = lg ∧ S.graph = G

/-- What a run that continues as new hands over. -/
theorem inherits_continued (lg : TriggersBranches S.env.lg) (inherits : Inherits S.env.lg S.graph p S.input)
    {next : WorkflowInput} {w : Execution Chan} (ends : Ends S (.continueAsNew next) w) :
    Inherits S.env.lg S.graph (p ++ w.history) next := by
  obtain ⟨n, here, rfl⟩ := ends
  have poised := (poised_invariant lg inherits).holds here.reachable
  obtain ⟨versions, seen⟩ := lg.copies w.self.checkpoint w.self.channels w.self.step
  have same : ∀ chan, w.self.checkpoint.Fresh chan →
      (S.env.lg.createCheckpoint w.self.checkpoint w.self.channels w.self.step).Fresh chan := by
    intro chan new
    unfold Checkpoint.Fresh Checkpoint.version at *
    rw [versions, seen]
    exact new
  refine ⟨fun restored given => ?_, fun writes written => ⟨_, rfl, ?_⟩⟩
  · cases given
    intro node before chan known
    rw [seen] at known
    obtain ⟨top, below⟩ := poised.consistent node before chan known
    refine ⟨top, ?_⟩
    unfold Checkpoint.version
    rw [versions]
    exact below
  · intro t task w write node name there
    obtain ⟨available, new⟩ := poised.fresh writes written t task w write node name there
    rw [name] at available new there ⊢
    exact ⟨lg.restores _ _ _ _ node there new.1 available, same _ new⟩

variable {lg : Langgraph Chan} {G : Pregel Chan} {threshold : Option Nat} {first : Setting Chan}

theorem inherits_of_continuedWith (triggers : TriggersBranches lg)
    (restored : ∀ state, first.input.restoredState = some state → state.checkpoint.Consistent)
    (runs : ContinuedWith threshold (RunOf lg G) first h S) : Inherits lg G h S.input := by
  induction runs with
  | start =>
      refine ⟨restored, fun writes written => ?_⟩
      obtain ⟨a, updated, b, split, -⟩ := written
      exact absurd split (by simp)
  | next before continued named meets ih =>
      obtain ⟨rfl, rfl⟩ := meets
      exact inherits_continued triggers ih (continued_ends continued).2

/-- **Over all runs of an execution, a superstep schedules each node whose branch
channel the one before it wrote to, once.** -/
theorem schedulesWritten_of_continuedWith (triggers : TriggersBranches lg)
    (restored : ∀ state, first.input.restoredState = some state → state.checkpoint.Consistent)
    (runs : ContinuedWith threshold (RunOf lg G) first h S) {uuids : Nat → String} {arrived : List Signal}
    {script : List (Action Response Signal)}
    (meets : RunOf lg G S h (executionHistory S threshold uuids arrived script)) :
    Guarded (SchedulesWritten G) (h ++ executionHistory S threshold uuids arrived script) := by
  have each : ∀ {S : Setting Chan} {h : List Event} (uuids : Nat → String) (arrived : List Signal)
      (script : List (Action Response Signal)), ContinuedWith threshold (RunOf lg G) first h S →
      RunOf lg G S h (executionHistory S threshold uuids arrived script) →
        Guarded (fun a e => SchedulesWritten G (h ++ a) e)
          (executionHistory S threshold uuids arrived script) := by
    intro S h uuids arrived script runs meets
    have inherits := inherits_of_continuedWith triggers restored runs
    obtain ⟨rfl, rfl⟩ := meets
    refine executionHistory_guarded ?_ ?_ ?_ threshold uuids arrived script
    · rintro a e early step tasks rfl
      cases early
    · rintro h' ph self self' e reachable works step tasks rfl
      cases works
    · exact fun h' ph ph' self self' e reachable moves =>
        schedulesWritten_of_moves triggers inherits moves reachable
  exact guarded_append.mpr ⟨runs.guarded each, each uuids arrived script runs meets⟩

/-- The course of a superstep is its own, whatever came before its run. -/
theorem Course.append {tasks : List PregelTask} {level : Nat} {o : Outputs} {a : List Event}
    (opened : ∃ x ∈ h, isScheduled x = true) (course : Course h tasks level o) :
    Course (a ++ h) tasks level o := by
  obtain ⟨collected, scheduled, served, resumed, push, goto, logged⟩ := course
  rw [← superstepOf_append (a := a) opened] at collected scheduled resumed push goto logged
  exact ⟨collected, scheduled, served, resumed, push, goto, logged⟩

/-- Over all runs of an execution, every superstep that completes does so at the
end of its course. -/
theorem completesCourse_of_continuedWith (runs : ContinuedWith threshold (RunOf lg G) first h S)
    {uuids : Nat → String} {arrived : List Signal} {script : List (Action Response Signal)}
    (meets : RunOf lg G S h (executionHistory S threshold uuids arrived script)) :
    Guarded (CompletesCourse S) (h ++ executionHistory S threshold uuids arrived script) := by
  have graph := meets.2
  have each : ∀ {S' : Setting Chan} {h : List Event} (uuids : Nat → String) (arrived : List Signal)
      (script : List (Action Response Signal)), ContinuedWith threshold (RunOf lg G) first h S' →
      RunOf lg G S' h (executionHistory S' threshold uuids arrived script) →
        Guarded (fun a e => CompletesCourse S (h ++ a) e)
          (executionHistory S' threshold uuids arrived script) := by
    intro S' h uuids arrived script _ meets
    refine executionHistory_guarded ?_ ?_ ?_ threshold uuids arrived script
    · intro a e early done
      rw [not_completes_of_preliminary early] at done
      cases done
    · intro h' ph self self' e _ works done
      rw [works.not_completes] at done
      cases done
    · intro h' ph ph' self self' e reachable moves done
      have stage : ph.stage.unapplied = true := by
        cases moves with
        | skip stage | apply stage => rw [stage]; rfl
        | _ => cases done
      obtain ⟨tasks, o, course, ended⟩ := moves.completesCourse (course_invariant.holds reachable) done
      refine ⟨tasks, o, course.append (open_invariant.holds reachable stage).scheduled, ?_⟩
      rw [graph, ← meets.2]
      exact ended
  exact guarded_append.mpr ⟨runs.guarded each, each uuids arrived script runs meets⟩

end LanggraphTemporal.Machine
