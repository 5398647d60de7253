/-
# Properties.Versions -- which nodes are scheduled again

`prepare_next_tasks` schedules a node when a trigger channel is available at a
version that the node has not seen, and `apply_writes` records what a node has
seen for the tasks it is given.  The workflow gives it the results that have
writes.  So a run in which every node writes something schedules a node again
only when one of its trigger channels has been updated since
(`noSpurious_of_writing`); a node that writes nothing is scheduled again at once.
-/
import LanggraphTemporal.Machine.Channels
import LanggraphTemporal.Machine.Reference

namespace LanggraphTemporal.Properties

set_option autoImplicit false

open Theory Theory.History Model Model.LangGraphWorkflow Machine

variable {Chan : Type} {S : Setting Chan}

/-- A trigger channel of `node` is among those that the entries of `b` updated. -/
def Retriggered (S : Setting Chan) (node : String) (b : List Event) : Prop :=
  ∃ writes updated, Event.applied writes updated ∈ b ∧
    ∃ n, S.graph.nodes.get? node = some n ∧ ∃ chan ∈ n.triggers, chan ∈ updated

/-- A node is scheduled again only if the writes of a superstep since then, the
one it was scheduled in included, updated one of its trigger channels. -/
def NoSpurious (S : Setting Chan) (h : List Event) : Prop :=
  Guarded (fun a e => ∀ step tasks, e = .scheduled step tasks → ∀ t ∈ tasks,
    After (fun d b => ∀ step' tasks', d = .scheduled step' tasks' → (∃ t' ∈ tasks', t'.name = t.name) →
      Retriggered S t.name b) a) h

/-- Every result that a superstep keeps has writes: those that were not
interrupted, and those of the nodes executed again. -/
def Writing (_ : List Event) (e : Event) : Prop :=
  (∀ results, e = .served results → ∀ r ∈ results, r.interrupted = false → r.writes ≠ []) ∧
    ∀ outputs, e = .collected .resumed outputs → ∀ r ∈ outputs, r.writes ≠ []

theorem Retriggered.append {node : String} {b : List Event} (c : List Event)
    (retriggered : Retriggered S node b) : Retriggered S node (b ++ c) := by
  obtain ⟨writes, updated, mem, rest⟩ := retriggered
  exact ⟨writes, updated, List.mem_append_left c mem, rest⟩

/-! ## Triggers -/

/-- `node` would be scheduled now. -/
def Pending (S : Setting Chan) (self : LangGraphWorkflow Chan) (node : String) : Prop :=
  ∃ n, S.graph.nodes.get? node = some n ∧
    S.env.lg.Triggered self.checkpoint self.channels node n.triggers

/-- `Pending` looks at the channels, the versions and the versions seen. -/
theorem Pending.congr {self self' : LangGraphWorkflow Chan} {node : String}
    (channels : self'.channels = self.channels)
    (versions : self'.checkpoint.channelVersions = self.checkpoint.channelVersions)
    (seen : self'.checkpoint.versionsSeen = self.checkpoint.versionsSeen)
    (pending : Pending S self' node) : Pending S self node := by
  obtain ⟨n, found, chan, mem, available, unseen⟩ := pending
  refine ⟨n, found, chan, mem, channels ▸ available, ?_⟩
  unfold Checkpoint.unseen Checkpoint.version at *
  rw [versions, seen] at unseen
  exact unseen

/-- After `apply_writes`, a node that it was not given, or whose triggers it has
updated, may be pending; no other. -/
theorem pending_applied {self : LangGraphWorkflow Chan} {out : Applied Chan} {node : String}
    {tasks : List PregelTaskWrites} {inc : Option Nat → Nat} {ttn : Dict (List String)}
    (records : S.env.lg.RecordsSeen) (reports : S.env.lg.ReportsUpdated)
    (applied : S.env.lg.applyWrites self.checkpoint self.channels tasks inc ttn = .ok out)
    (triggers : ∀ w ∈ tasks, ∀ n, S.graph.nodes.get? w.name = some n → w.triggers = n.triggers)
    (pending : Pending S (self.withApplied out) node) :
    (∃ n, S.graph.nodes.get? node = some n ∧ ∃ chan ∈ n.triggers, chan ∈ out.updated) ∨
      (node ∉ tasks.map PregelTaskWrites.name ∧ Pending S self node) := by
  obtain ⟨n, found, chan, mem, available, unseen⟩ := pending
  by_cases updated : chan ∈ out.updated
  · exact .inl ⟨n, found, chan, mem, updated⟩
  · right
    obtain ⟨before, version⟩ := reports _ _ _ _ _ _ applied chan updated available
    obtain ⟨recorded, others⟩ := records _ _ _ _ _ _ applied
    change out.checkpoint.unseen node chan at unseen
    unfold Checkpoint.unseen at unseen
    rw [version] at unseen
    have absent : node ∉ tasks.map PregelTaskWrites.name := by
      intro given
      obtain ⟨w, task, rfl⟩ := List.mem_map.mp given
      obtain ⟨seen, known, above⟩ := recorded w task
      have reached := above chan (by rw [triggers w task n found]; exact mem)
      rw [known] at unseen
      change seen.getD chan 0 < self.checkpoint.version chan at unseen
      omega
    refine ⟨absent, n, found, chan, mem, before, ?_⟩
    unfold Checkpoint.unseen
    rw [← others node absent]
    exact unseen

/-! ## The invariant -/

/-- What is known of a node since a superstep that scheduled it: it has been
triggered again, or it is not pending, or that superstep is not complete. -/
def Settled (S : Setting Chan) (self : LangGraphWorkflow Chan) (ph : Phase) (node : String)
    (b : List Event) : Prop :=
  Retriggered S node b ∨ ¬Pending S self node ∨
    (ph.stage.unapplied = true ∧ ∃ t ∈ ph.tasks, t.name = node)

def AllSettled (S : Setting Chan) (c : Config Chan) : Prop :=
  After (fun d b => ∀ step tasks, d = .scheduled step tasks → ∀ t ∈ tasks,
    Settled S c.self c.phase t.name b) c.history

theorem Settled.mono {self self' : LangGraphWorkflow Chan} {ph ph' : Phase} {node : String}
    {b : List Event} (c : List Event) (settled : Settled S self ph node b)
    (pending : Pending S self' node → Pending S self node)
    (open_ : ph.stage.unapplied = true → ph'.stage.unapplied = true ∧ ph'.tasks = ph.tasks) :
    Settled S self' ph' node (b ++ c) := by
  rcases settled with retriggered | quiet | ⟨unapplied, t, task, name⟩
  · exact .inl (retriggered.append c)
  · exact .inr (.inl fun now => quiet (pending now))
  · obtain ⟨unapplied', same⟩ := open_ unapplied
    exact .inr (.inr ⟨unapplied', t, same ▸ task, name⟩)

/-- An entry that schedules nothing and changes no channel keeps what is settled. -/
theorem AllSettled.snoc {h : List Event} {ph ph' : Phase} {self self' : LangGraphWorkflow Chan}
    {e : Event} (settled : AllSettled S ⟨h, ph, self⟩) (stays : isScheduled e = false)
    (pending : ∀ node, Pending S self' node → Pending S self node)
    (open_ : ph.stage.unapplied = true → ph'.stage.unapplied = true ∧ ph'.tasks = ph.tasks) :
    AllSettled S ⟨h ++ [e], ph', self'⟩ := by
  refine After.snoc (R := fun d b => ∀ step tasks, d = .scheduled step tasks → ∀ t ∈ tasks,
    Settled S self' ph' t.name b) (fun a d b split step tasks same t task => ?_) ?_ ?_
  · have before := settled a d b split step tasks same t task
    simpa using before.mono [] (pending t.name) open_
  · intro d b before step tasks same t task
    exact (before step tasks same t task).mono [e] id fun unapplied => ⟨unapplied, rfl⟩
  · rintro step tasks rfl
    cases stays

/-- Every node scheduled for a superstep is among the tasks whose writes are
applied, when every result has writes. -/
theorem written_of_course {h : List Event} {ph : Phase} {o : Outputs} (on : OnCourse h ph o)
    (stage : ph.stage = .applying) (writing : Guarded Writing h) {t : PregelTask}
    (task : t ∈ ph.tasks) : ∃ w ∈ writesOf S.graph ph.results, w.name = t.name := by
  obtain ⟨course, results⟩ := on
  rw [stage] at course results
  replace course : Course h ph.tasks 5 o := course
  replace results : ph.results = o.final := results
  have within : ∀ {e}, e ∈ superstepOf h → e ∈ h := mem_of_mem_since
  have found : ∃ r ∈ ph.results, r.nodeName = t.name ∧ r.writes ≠ [] := by
    have sorted : t ∈ sortTasks ph.tasks := (List.perm_insertionSort _ _).mem_iff.mpr task
    obtain ⟨r₀, mem₀, ran⟩ := forall₂_mem_left (course.scheduled (by decide)) sorted
    obtain ⟨r, mem, serves⟩ := forall₂_mem_left (course.served (by decide)) mem₀
    have name : r.nodeName = t.name := serves.same.1.trans ran.name
    obtain ⟨_, served⟩ := writing.of_mem (within (course.logged (by decide)))
    cases asked : r.interrupted with
    | false =>
        refine ⟨r, ?_, name, served.1 _ rfl r mem asked⟩
        have kept : r ∈ settledOf o.served := List.mem_filter.mpr ⟨mem, by rw [asked]; rfl⟩
        rw [results]
        simp [Outputs.final, Outputs.afterPush, Outputs.settled, kept]
    | true =>
        have again : r ∈ interruptedOf o.served := List.mem_filter.mpr ⟨mem, asked⟩
        obtain ⟨r', mem', ranAgain⟩ := forall₂_mem_left (course.resumed (by decide)) again
        have collected : Event.collected .resumed o.resumed ∈ superstepOf h :=
          course.mem (by simp [Outputs.collected])
        obtain ⟨_, resumed⟩ := writing.of_mem (within collected)
        refine ⟨r', ?_, ranAgain.name.trans name, resumed.2 _ rfl r' mem'⟩
        rw [results]
        simp [Outputs.final, Outputs.afterPush, Outputs.settled, mem']
  obtain ⟨r, mem, name, writes⟩ := found
  refine ⟨taskWrites S.graph r, List.mem_map_of_mem (List.mem_filter.mpr ⟨mem, ?_⟩), name⟩
  simpa using writes

/-- The tasks whose writes are applied carry the triggers of their nodes. -/
theorem triggers_of_writesOf {results : List NodeActivityOutput} {w : PregelTaskWrites}
    (mem : w ∈ writesOf S.graph results) {n : PregelNode}
    (found : S.graph.nodes.get? w.name = some n) : w.triggers = n.triggers := by
  obtain ⟨r, -, rfl⟩ := List.mem_map.mp mem
  unfold taskWrites at *
  dsimp only at *
  rw [found]

/-- What is settled when the writes of a superstep are applied. -/
theorem AllSettled.apply {h : List Event} {ph : Phase} {self self' : LangGraphWorkflow Chan}
    {out : Applied Chan} {o : Outputs} (settled : AllSettled S ⟨h, ph, self⟩) (on : OnCourse h ph o)
    (stage : ph.stage = .applying) (writing : Guarded Writing h) (records : S.env.lg.RecordsSeen)
    (reports : S.env.lg.ReportsUpdated)
    (applied : S.env.lg.applyWrites self.checkpoint self.channels (writesOf S.graph ph.results)
      increment self.triggerToNodes = .ok out)
    (channels : self'.channels = out.channels) (checkpoint : self'.checkpoint = out.checkpoint) :
    AllSettled S ⟨h ++ [.applied (writesOf S.graph ph.results) out.updated], completed S ph, self'⟩ := by
  have known : ∀ node b, Settled S self ph node b →
      Settled S self' (completed S ph) node (b ++ [.applied (writesOf S.graph ph.results) out.updated]) := by
    intro node b before
    by_cases updated : ∃ n, S.graph.nodes.get? node = some n ∧ ∃ chan ∈ n.triggers, chan ∈ out.updated
    · exact .inl ⟨_, out.updated, List.mem_append_right _ List.mem_cons_self, updated⟩
    · rcases before with retriggered | quiet | ⟨-, t, task, name⟩
      · exact .inl (retriggered.append _)
      all_goals
        refine .inr (.inl fun now => ?_)
        have after : Pending S (self.withApplied out) node :=
          now.congr channels (by rw [checkpoint]; rfl) (by rw [checkpoint]; rfl)
        rcases pending_applied records reports applied (fun w mem n => triggers_of_writesOf mem) after
          with fresh | ⟨absent, pending⟩
        · exact updated fresh
      · exact quiet pending
      · obtain ⟨w, mem, same⟩ := written_of_course (S := S) on stage writing task
        exact absent (List.mem_map.mpr ⟨w, mem, same.trans name⟩)
  intro a d b split step tasks same t task
  rcases snoc_eq_append_cons.mp split with ⟨rfl, rfl, rfl⟩ | ⟨b', rfl, inner⟩
  · cases same
  · exact known t.name b' (settled a d b' inner step tasks same t task)

/-- A superstep has a task, and every task has writes, so some are applied. -/
theorem AllSettled.skip {h : List Event} {ph ph' : Phase} {self : LangGraphWorkflow Chan} {o : Outputs}
    {e : Event} (settled : AllSettled S ⟨h, ph, self⟩) (on : OnCourse h ph o)
    (stage : ph.stage = .applying) (writing : Guarded Writing h)
    (silent : writesOf S.graph ph.results = []) (stays : isScheduled e = false) :
    AllSettled S ⟨h ++ [e], ph', self⟩ := by
  intro a d b split step tasks same t task
  rcases snoc_eq_append_cons.mp split with ⟨-, rfl, -⟩ | ⟨b', rfl, inner⟩
  · rw [same] at stays
    cases stays
  · rcases settled a d b' inner step tasks same t task with retriggered | quiet | ⟨-, t', task', -⟩
    · exact .inl (retriggered.append _)
    · exact .inr (.inl quiet)
    · obtain ⟨w, mem, -⟩ := written_of_course (S := S) on stage writing task'
      rw [silent] at mem
      cases mem

/-- The property of the history, with what is settled now. -/
structure Versions (S : Setting Chan) (c : Config Chan) : Prop where
  noSpurious : NoSpurious S c.history
  settled : AllSettled S c

theorem versions_of_early {c : Config Chan} (early : ∀ e ∈ c.history, preliminary e = true) :
    Versions S c := by
  refine ⟨?_, ?_⟩
  · rintro a e b split step tasks rfl
    have kind := early (.scheduled step tasks) (by rw [split]; simp)
    cases kind
  · rintro a d b split step tasks rfl
    have kind := early (.scheduled step tasks) (by rw [split]; simp)
    cases kind

/-- A run without update signals in which every result that is kept has writes. -/
structure AllWriting (h : List Event) : Prop where
  writing : Guarded Writing h
  noUpdates : ∀ writes, Event.received (.updateState writes) ∉ h

theorem AllWriting.front {h : List Event} {e : Event} (all : AllWriting (h ++ [e])) : AllWriting h :=
  ⟨all.writing.front, fun writes mem => all.noUpdates writes (List.mem_append_left _ mem)⟩

theorem Versions.work {h : List Event} {ph : Phase} {self self' : LangGraphWorkflow Chan} {e : Event}
    (held : Versions S ⟨h, ph, self⟩) (works : Works S ph h self e self')
    (noUpdates : ∀ writes, e ≠ .received (.updateState writes)) : Versions S ⟨h ++ [e], ph, self'⟩ := by
  refine ⟨held.noSpurious.snoc ?_, held.settled.snoc works.not_scheduled ?_ fun unapplied => ⟨unapplied, rfl⟩⟩
  · rintro step tasks rfl
    cases works
  · intro node pending
    cases works with
    | update => exact absurd rfl (noUpdates _)
    | _ => exact pending

/-- Whatever is scheduled is pending, so it has been triggered again since. -/
theorem Versions.schedule {h : List Event} {ph : Phase} {self : LangGraphWorkflow Chan}
    {tasks : List PregelTask} (schedules : S.env.lg.SchedulesTriggered) (held : Versions S ⟨h, ph, self⟩)
    (stage : ph.stage = .ready)
    (prepared : tasks = S.env.lg.prepareNextTasks self.checkpoint S.graph.nodes self.channels
      self.step S.input.recursionLimit self.triggerToNodes) :
    Versions S ⟨h ++ [.scheduled self.step tasks], opened S tasks self, self⟩ := by
  have pending : ∀ t ∈ tasks, Pending S self t.name := by
    intro t task
    rw [prepared] at task
    exact (schedules _ _ _ _ _ _ _).mp (List.mem_map_of_mem task)
  have closed : ph.stage.unapplied = true → False := by
    intro unapplied
    rw [stage] at unapplied
    cases unapplied
  have entered : (opened S tasks self).stage.unapplied = true := by
    rcases opened_cases S tasks self with ⟨-, phase⟩ | ⟨-, phase⟩ <;> rw [phase] <;> rfl
  refine ⟨held.noSpurious.snoc ?_, ?_⟩
  · rintro step tasks' same t task a d b split step' tasks'' rfl ⟨t', task', name⟩
    cases same
    have settled := held.settled a _ b split step' tasks'' rfl t' task'
    rw [name] at settled
    rcases settled with retriggered | quiet | ⟨unapplied, -⟩
    · exact retriggered
    · exact absurd (pending t task) quiet
    · exact (closed unapplied).elim
  · intro a d b split step tasks' same t task
    rcases snoc_eq_append_cons.mp split with ⟨-, here, -⟩ | ⟨b', rfl, inner⟩
    · rw [← here] at same
      cases same
      exact .inr (.inr ⟨entered, t, (opened_tasks tasks self).symm ▸ task, rfl⟩)
    · exact (held.settled a d b' inner step tasks' same t task).mono _ id fun unapplied =>
        (closed unapplied).elim

theorem Versions.move {h : List Event} {ph ph' : Phase} {self self' : LangGraphWorkflow Chan}
    {e : Event} (schedules : S.env.lg.SchedulesTriggered) (records : S.env.lg.RecordsSeen)
    (reports : S.env.lg.ReportsUpdated) (copies : S.env.lg.CopiesVersions)
    (held : Versions S ⟨h, ph, self⟩) (moves : Moves S h ph self e ph' self')
    (course : ph.stage ≠ .ready → ∃ o, OnCourse h ph o) (writing : Guarded Writing h) :
    Versions S ⟨h ++ [e], ph', self'⟩ := by
  have spared : isScheduled e = false → NoSpurious S (h ++ [e]) := by
    intro stays
    refine held.noSpurious.snoc ?_
    rintro step tasks rfl
    cases stays
  obtain ⟨here, tasks, results, state⟩ := ph
  cases moves with
  | schedule stage below prepared some => exact held.schedule schedules stage prepared
  | pause pause =>
      refine ⟨spared rfl, held.settled.snoc rfl (fun _ => id) fun unapplied => ⟨?_, rfl⟩⟩
      cases here <;> cases pause <;> first | rfl | cases unapplied
  | resume resume =>
      refine ⟨spared rfl, held.settled.snoc rfl (fun _ => id) fun unapplied => ⟨?_, rfl⟩⟩
      cases here <;> cases resume <;> first | rfl | cases unapplied
  | collect route_eq =>
      refine ⟨spared rfl, held.settled.snoc rfl (fun _ => id) fun _ => ?_⟩
      cases here <;> cases route_eq <;> exact ⟨rfl, rfl⟩
  | @serve results' stage =>
      refine ⟨spared rfl, held.settled.snoc rfl (fun _ => id) fun _ => ⟨?_, served_tasks _ _ _⟩⟩
      rcases served_cases S tasks results' self with ⟨-, phase⟩ | ⟨-, phase⟩ <;> rw [phase] <;> rfl
  | skip stage silent =>
      obtain ⟨o, on⟩ := course (by rw [stage]; nofun)
      exact ⟨spared rfl, held.settled.skip on stage writing silent rfl⟩
  | apply stage some applied =>
      obtain ⟨o, on⟩ := course (by rw [stage]; nofun)
      exact ⟨spared rfl, held.settled.apply on stage writing records reports applied rfl rfl⟩
  | advance stage =>
      obtain ⟨versions, seen⟩ := copies self.checkpoint self.channels self.step
      have kept : ∀ node, Pending S (advance S.env.lg self) node → Pending S self node := by
        intro node pending
        refine Pending.congr ?_ ?_ ?_ pending
        · rfl
        · exact versions
        · exact seen
      refine ⟨spared rfl, held.settled.snoc rfl kept ?_⟩
      intro unapplied
      cases stage
      cases unapplied

theorem versions_invariant (schedules : S.env.lg.SchedulesTriggered) (records : S.env.lg.RecordsSeen)
    (reports : S.env.lg.ReportsUpdated) (copies : S.env.lg.CopiesVersions) :
    (workflowMachine S).Invariant fun c => AllWriting c.history → Versions S c where
  init c initial _ := versions_of_early initial.history
  step c d reachable held step all := by
    cases step with
    | @work h ph self self' e works =>
        refine (held all.front).work works ?_
        rintro writes rfl
        exact all.noUpdates writes (List.mem_append_right _ List.mem_cons_self)
    | move moves =>
        exact (held all.front).move schedules records reports copies moves
          (course_invariant.holds reachable) all.front.writing

/-- **In a run whose nodes all write something, a node is scheduled again only
when one of its trigger channels has been updated.** -/
theorem noSpurious_of_writing (S : Setting Chan) (schedules : S.env.lg.SchedulesTriggered)
    (records : S.env.lg.RecordsSeen) (reports : S.env.lg.ReportsUpdated)
    (copies : S.env.lg.CopiesVersions) (threshold : Option Nat) (uuids : Nat → String)
    (script : List (Action Response Signal))
    (all : AllWriting (runHistory S threshold uuids script)) :
    NoSpurious S (runHistory S threshold uuids script) := by
  revert all
  refine runHistory_holds (P := fun h => AllWriting h → NoSpurious S h) (fun h early _ => ?_)
    (fun c reachable all =>
      ((versions_invariant schedules records reports copies).holds reachable all).noSpurious)
    threshold uuids script
  have start : Versions S ⟨h, { stage := .ready }, init S.env⟩ := versions_of_early early
  exact start.noSpurious

section Runs

open Reference

/-- `d` triggers itself. -/
def loopSetting : Setting Channel := setting [("d", ["in", branchTo "d"])] none none

def loopScript : List (Action Response Signal) :=
  [.answer 0 (.output (pulled "d" [(branchTo "d", .none)])), .answer 0 (.output (pulled "d" [("x", .int 1)]))]

/-- What has settled writes something, and no signal writes. -/
def settledWrites : Event → Bool
  | .served results => results.all fun r => r.interrupted || !r.writes.isEmpty
  | .collected .resumed outputs => outputs.all fun r => !r.writes.isEmpty
  | .received (.updateState _) => false
  | _ => true

theorem noSpurious_loopScript :
    NoSpurious loopSetting (runHistory loopSetting none (fun _ => "") loopScript) := by
  have writing : (history loopSetting loopScript).all settledWrites = true := by decide
  refine noSpurious_of_writing loopSetting reference_schedulesTriggered reference_recordsSeen
    reference_reportsUpdated reference_copiesVersions none _ loopScript
    ⟨guarded_of_forall fun e mem a => ?_, fun writes mem => ?_⟩
  · have here := List.all_eq_true.mp writing e mem
    refine ⟨?_, ?_⟩
    · rintro results rfl r result settled
      have kept := List.all_eq_true.mp here r result
      rw [settled] at kept
      simpa using kept
    · rintro outputs rfl r output
      simpa using List.all_eq_true.mp here r output
  · have here := List.all_eq_true.mp writing _ mem
    cases here

/-- `d` is triggered by the input, and returns nothing. -/
def silentHistory : List Event :=
  history (setting [("d", ["in"])] none none) [.answer 0 (.output (pulled "d" []))]

/-- **A node that writes nothing is scheduled again**, with none of its triggers
updated. -/
theorem silent_node_scheduled_again : ¬NoSpurious (setting [("d", ["in"])] none none) silentHistory := by
  intro noSpurious
  obtain ⟨writes, updated, mem, -⟩ := (noSpurious.at 9 (by decide) _ _ rfl _ (.head _)).at 0 (by decide)
    _ _ rfl ⟨_, .head _, rfl⟩
  have quiet : silentHistory.all (fun e => match e with | .applied _ _ => false | _ => true) = true := by
    decide
  have applied := List.mem_of_mem_take (List.mem_of_mem_drop mem)
  have none := List.all_eq_true.mp quiet _ applied
  cases none

end Runs

end LanggraphTemporal.Properties
