/-
# Model.Reference -- a LangGraph to run the model on

The parameter `Langgraph` with two kinds of channels, `LastValue` and
`EphemeralValue(guard=False)`, and with the bookkeeping of versions, triggers
and expiry that `langgraph.pregel._algo` documents for them.  It has every
documented fact that `Langgraph` lists, for all graphs and checkpoints
(`reference_schedulesTriggered` and those after it), so no result that assumes
them is empty; examples of runs are runs on it.  `untracking` adds
`UntrackedValue` to these kinds.
-/
import LanggraphTemporal.Model.Langgraph

namespace LanggraphTemporal.Model

set_option autoImplicit false

open Theory

/-! ## Channels -/

inductive Channel where
  | lastValue (value : Option PyVal)
  | ephemeral (value : Option PyVal)

namespace Channel

def get : Channel → Option PyVal
  | lastValue value => value
  | ephemeral value => value

def isAvailable (c : Channel) : Bool := c.get.isSome

/-- `from_checkpoint`: a channel of the same kind with this value. -/
def restore : Channel → Option PyVal → Channel
  | lastValue _, value => .lastValue value
  | ephemeral _, value => .ephemeral value

/-- `update`: the channel afterwards, and whether it changed; `none` when a
`LastValue` is given two values. -/
def update : Channel → List PyVal → Option (Channel × Bool)
  | lastValue value, [] => some (.lastValue value, false)
  | lastValue _, [v] => some (.lastValue (some v), true)
  | lastValue _, _ :: _ :: _ => none
  | ephemeral value, [] => some (.ephemeral none, value.isSome)
  | ephemeral _, v :: vs => some (.ephemeral ((v :: vs).getLast?), true)

/-- What one `apply_writes` does to a channel: it is given the values written to
it, and if there are none and the call ends a step, it is told of the step. -/
def receive (ends : Bool) (c : Channel) (values : List PyVal) : Option (Channel × Bool) :=
  if values.isEmpty && !ends then some (c, false) else c.update values

end Channel

/-! ## Checkpoints -/

namespace Reference

/-- The versions that the trigger channels of a task have, added to those seen. -/
def see (versions : Dict Nat) (triggers : List String) (seen : Dict Nat) : Dict Nat :=
  triggers.foldl (fun seen chan =>
    match versions.get? chan with
    | some v => seen.set chan v
    | none => seen) seen

/-- `versions_seen`, after these tasks. -/
def seeAll (versions : Dict Nat) (tasks : List PregelTaskWrites) (all : Dict (Dict Nat)) :
    Dict (Dict Nat) :=
  tasks.foldl (fun all t => all.set t.name (see versions t.triggers (all.getD t.name ∅))) all

/-- Give all these channels the version `next`. -/
def bump (next : Nat) (chans : List String) (versions : Dict Nat) : Dict Nat :=
  chans.foldl (fun versions chan => versions.set chan next) versions

def maxVersion (versions : Dict Nat) : Option Nat := (versions.entries.map Prod.snd).max?

/-- The values that the tasks write to a channel. -/
def written (tasks : List PregelTaskWrites) (chan : String) : List PyVal :=
  tasks.flatMap fun t => (t.writes.filter fun w => w.1 = chan).map Prod.snd

/-- Does this call end a step? Not if no task has triggers. -/
def ends (tasks : List PregelTaskWrites) : Bool := tasks.any fun t => !t.triggers.isEmpty

/-- Every channel with what it is after the call, and whether it changed. -/
def received (channels : Dict Channel) (tasks : List PregelTaskWrites) : Dict (Channel × Bool) :=
  channels.filterMap fun chan c => c.receive (ends tasks) (written tasks chan)

def changed (channels : Dict Channel) (tasks : List PregelTaskWrites) : List String :=
  ((received channels tasks).entries.filter fun e => e.2.2).map Prod.fst

def applyWrites (cp : Checkpoint) (channels : Dict Channel) (tasks : List PregelTaskWrites)
    (increment : Option Nat → Nat) (_ : Dict (List String)) : Except String (Applied Channel) :=
  if channels.entries.all fun e => (e.2.receive (ends tasks) (written tasks e.1)).isSome then
    .ok
      { checkpoint :=
          { cp with
            channelVersions := bump (increment (maxVersion cp.channelVersions))
              (changed channels tasks) cp.channelVersions
            versionsSeen := seeAll cp.channelVersions tasks cp.versionsSeen }
        channels := (received channels tasks).filterMap fun _ p => some p.1
        updated :=
          ((received channels tasks).entries.filter fun e => e.2.2 && e.2.1.isAvailable).map Prod.fst }
  else .error "Can receive only one value per step."

/-- `_triggers`, of a node with these trigger channels. -/
def triggered (cp : Checkpoint) (channels : Dict Channel) (node : String) (triggers : List String) :
    Bool :=
  triggers.any fun chan =>
    (match channels.get? chan with | some c => c.isAvailable | none => false) &&
      (match cp.versionsSeen.get? node with
        | some seen => decide (seen.getD chan 0 < cp.version chan)
        | none => true)

/-- `prepare_next_tasks` -/
def prepareNextTasks (cp : Checkpoint) (nodes : Dict PregelNode) (channels : Dict Channel)
    (_ : Nat) (_ : Int) (_ : Dict (List String)) : List PregelTask :=
  (nodes.filterMap fun name n =>
    if triggered cp channels name n.triggers then
      some ⟨name, [.str "__pregel_pull", .str name]⟩ else none).entries.map Prod.snd

/-- `create_checkpoint`: the values of the channels that have a version. -/
def createCheckpoint (cp : Checkpoint) (channels : Dict Channel) (_ : Nat) : Checkpoint :=
  { cp with
    channelValues := channels.filterMap fun chan c =>
      if cp.channelVersions.contains chan then c.get else none }

end Reference

/-- LangGraph, for these two kinds of channels. -/
def reference : Langgraph Channel where
  get := Channel.get
  isAvailable := Channel.isAvailable
  emptyCheckpoint := {}
  channelsFromCheckpoint specs cp :=
    specs.filterMap fun chan c => some (c.restore (cp.channelValues.get? chan))
  createCheckpoint := Reference.createCheckpoint
  prepareNextTasks := Reference.prepareNextTasks
  applyWrites := Reference.applyWrites

/-! ## The documented facts hold -/

namespace Reference

theorem triggered_iff {cp : Checkpoint} {channels : Dict Channel} {node : String}
    {triggers : List String} :
    triggered cp channels node triggers = true ↔ reference.Triggered cp channels node triggers := by
  unfold triggered Langgraph.Triggered
  rw [List.any_eq_true]
  refine exists_congr fun chan => and_congr_right fun _ => ?_
  rw [Bool.and_eq_true]
  refine and_congr ?_ ?_
  · unfold Langgraph.available
    cases channels.get? chan with
    | none => simp
    | some c => simp [reference]
  · unfold Checkpoint.unseen
    cases cp.versionsSeen.get? node with
    | none => simp
    | some seen => simp

theorem get?_bump (next : Nat) (chans : List String) (versions : Dict Nat) (chan : String) :
    (bump next chans versions).get? chan = if chan ∈ chans then some next else versions.get? chan := by
  unfold bump
  induction chans generalizing versions with
  | nil => simp
  | cons c chans ih =>
      rw [List.foldl_cons, ih, Dict.get?_set]
      by_cases later : chan ∈ chans
      · simp [later]
      · by_cases here : chan = c
        · simp [here]
        · simp [later, here]

theorem get?_see (versions : Dict Nat) (triggers : List String) (seen : Dict Nat) (chan : String) :
    (see versions triggers seen).get? chan =
      if chan ∈ triggers ∧ (versions.get? chan).isSome then versions.get? chan else seen.get? chan := by
  unfold see
  induction triggers generalizing seen with
  | nil => simp
  | cons c triggers ih =>
      rw [List.foldl_cons, ih]
      by_cases later : chan ∈ triggers ∧ (versions.get? chan).isSome
      · simp [later]
      · rw [if_neg later]
        by_cases here : chan = c
        · subst here
          cases version : versions.get? chan with
          | none => simp
          | some v => simp
        · have other : ¬(chan ∈ c :: triggers ∧ (versions.get? chan).isSome) := by
            rintro ⟨mem, known⟩
            rcases List.mem_cons.mp mem with same | rest
            · exact here same
            · exact later ⟨rest, known⟩
          rw [if_neg other]
          cases versions.get? c with
          | none => rfl
          | some v => exact Dict.get?_set_ne _ _ here

/-- The versions that a node has seen are at least those of its channels. -/
def Sees (versions : Dict Nat) (triggers : List String) (seen : Option (Dict Nat)) : Prop :=
  ∃ d, seen = some d ∧ ∀ chan ∈ triggers, versions.getD chan 0 ≤ d.getD chan 0

theorem sees_see (versions : Dict Nat) (triggers : List String) (seen : Dict Nat) :
    Sees versions triggers (some (see versions triggers seen)) := by
  refine ⟨_, rfl, fun chan mem => ?_⟩
  unfold Dict.getD
  rw [get?_see]
  cases version : versions.get? chan with
  | none => simp
  | some v => simp [mem]

/-- Another task of the same node does not make it forget. -/
theorem Sees.see {versions : Dict Nat} {triggers more : List String} {d : Dict Nat}
    (sees : Sees versions triggers (some d)) :
    Sees versions triggers (some (see versions more d)) := by
  obtain ⟨d', same, below⟩ := sees
  cases same
  refine ⟨_, rfl, fun chan mem => ?_⟩
  have before := below chan mem
  unfold Dict.getD at *
  rw [get?_see]
  split
  · exact Nat.le_refl _
  · exact before

theorem sees_seeAll {versions : Dict Nat} {tasks : List PregelTaskWrites} {t : PregelTaskWrites} :
    ∀ {all : Dict (Dict Nat)}, t ∈ tasks ∨ Sees versions t.triggers (all.get? t.name) →
      Sees versions t.triggers ((seeAll versions tasks all).get? t.name) := by
  unfold seeAll
  induction tasks with
  | nil => exact fun known => known.resolve_left List.not_mem_nil
  | cons u tasks ih =>
      intro all known
      rw [List.foldl_cons]
      refine ih ?_
      by_cases later : t ∈ tasks
      · exact .inl later
      · refine .inr ?_
        rcases known with mem | before
        · rcases List.mem_cons.mp mem with rfl | rest
          · rw [Dict.get?_set_self]
            exact sees_see _ _ _
          · exact absurd rest later
        · by_cases same : t.name = u.name
          · rw [same, Dict.get?_set_self]
            rw [same] at before
            obtain ⟨d, found, below⟩ := before
            unfold Dict.getD
            rw [found]
            exact Sees.see ⟨d, rfl, below⟩
          · rw [Dict.get?_set_ne _ _ same]
            exact before

theorem seeAll_other {versions : Dict Nat} {tasks : List PregelTaskWrites} {node : String}
    (other : node ∉ tasks.map PregelTaskWrites.name) (all : Dict (Dict Nat)) :
    (seeAll versions tasks all).get? node = all.get? node := by
  unfold seeAll
  induction tasks generalizing all with
  | nil => rfl
  | cons u tasks ih =>
      rw [List.map_cons, List.mem_cons, not_or] at other
      rw [List.foldl_cons, ih other.2, Dict.get?_set_ne _ _ other.1]

theorem applyWrites_ok {cp : Checkpoint} {channels : Dict Channel} {tasks : List PregelTaskWrites}
    {inc : Option Nat → Nat} {ttn : Dict (List String)} {out : Applied Channel}
    (applied : applyWrites cp channels tasks inc ttn = .ok out) :
    (∀ e ∈ channels.entries, (e.2.receive (ends tasks) (written tasks e.1)).isSome = true) ∧
      out =
        { checkpoint :=
            { cp with
              channelVersions := bump (inc (maxVersion cp.channelVersions)) (changed channels tasks)
                cp.channelVersions
              versionsSeen := seeAll cp.channelVersions tasks cp.versionsSeen }
          channels := (received channels tasks).filterMap fun _ p => some p.1
          updated := ((received channels tasks).entries.filter fun e =>
            e.2.2 && e.2.1.isAvailable).map Prod.fst } := by
  unfold applyWrites at applied
  split at applied
  · rename_i all
    cases applied
    exact ⟨List.all_eq_true.mp all, rfl⟩
  · cases applied

/-- The version of a trigger channel is recorded as seen, and stays recorded. -/
theorem recorded_seeAll {versions : Dict Nat} {node chan : String} {v : Nat}
    (version : versions.get? chan = some v) {tasks : List PregelTaskWrites} :
    ∀ {all : Dict (Dict Nat)}, ((∃ t ∈ tasks, t.name = node ∧ chan ∈ t.triggers) ∨
      ∃ seen, all.get? node = some seen ∧ seen.get? chan = some v) →
        ∃ seen, (seeAll versions tasks all).get? node = some seen ∧ seen.get? chan = some v := by
  unfold seeAll
  induction tasks with
  | nil =>
      rintro all (⟨t, mem, -⟩ | known)
      · cases mem
      · exact known
  | cons u tasks ih =>
      intro all known
      rw [List.foldl_cons]
      refine ih ?_
      by_cases later : ∃ t ∈ tasks, t.name = node ∧ chan ∈ t.triggers
      · exact .inl later
      · right
        by_cases here : node = u.name
        · subst here
          refine ⟨_, Dict.get?_set_self _ _ _, ?_⟩
          rw [get?_see]
          split
          · exact version
          · rename_i untriggered
            rcases known with ⟨t, mem, name, trigger⟩ | ⟨seen, before, recorded⟩
            · rcases List.mem_cons.mp mem with rfl | rest
              · exact absurd ⟨trigger, by rw [version]; rfl⟩ untriggered
              · exact absurd ⟨t, rest, name, trigger⟩ later
            · unfold Dict.getD
              rw [before]
              exact recorded
        · rw [Dict.get?_set_ne _ _ here]
          rcases known with ⟨t, mem, name, trigger⟩ | before
          · rcases List.mem_cons.mp mem with rfl | rest
            · exact absurd name.symm here
            · exact absurd ⟨t, rest, name, trigger⟩ later
          · exact before

/-- A channel that has not changed is as it was. -/
theorem unchanged {ends : Bool} {c c' : Channel} {values : List PyVal}
    (received : c.receive ends values = some (c', false)) (available : c'.isAvailable = true) :
    c' = c := by
  unfold Channel.receive at received
  split at received
  · cases received
    rfl
  · cases c with
    | lastValue value =>
        match values with
        | [] => cases received; rfl
        | [_] => cases received
        | _ :: _ :: _ => cases received
    | ephemeral value =>
        match values, received with
        | [], received =>
            obtain ⟨rfl, -⟩ := Prod.mk.inj (Option.some.inj received)
            cases available
        | _ :: _, received => cases received

end Reference

open Reference

theorem reference_schedulesTriggered : reference.SchedulesTriggered := by
  intro cp nodes channels step stop ttn node
  have tasks : reference.prepareNextTasks cp nodes channels step stop ttn =
      prepareNextTasks cp nodes channels step stop ttn := rfl
  rw [tasks]
  unfold prepareNextTasks Dict.filterMap
  simp only [List.mem_map, List.mem_filterMap, Option.map_eq_some_iff]
  constructor
  · rintro ⟨t, ⟨⟨name, t'⟩, ⟨⟨key, n⟩, mem, u, made, same⟩, rfl⟩, rfl⟩
    cases same
    dsimp only at made ⊢
    split at made
    · rename_i hit
      cases made
      exact ⟨n, Dict.get?_eq_some.mpr mem, triggered_iff.mp hit⟩
    · cases made
  · rintro ⟨n, found, hit⟩
    refine ⟨⟨node, [.str "__pregel_pull", .str node]⟩, ⟨⟨node, _⟩, ⟨⟨node, n⟩, ?_, _, ?_, rfl⟩, rfl⟩, rfl⟩
    · exact Dict.get?_eq_some.mp found
    · exact if_pos (triggered_iff.mpr hit)

theorem reference_schedulesOnce : reference.SchedulesOnce := by
  intro cp nodes channels step stop ttn
  let made : Dict PregelTask := nodes.filterMap fun name n =>
    if triggered cp channels name n.triggers then some ⟨name, [.str "__pregel_pull", .str name]⟩ else none
  have names : (made.entries.map Prod.snd).map PregelTask.name = made.keys := by
    rw [List.map_map]
    refine List.map_congr_left fun e mem => ?_
    obtain ⟨⟨name, n⟩, -, here⟩ := List.mem_filterMap.mp mem
    dsimp only at here
    split at here
    · cases here
      rfl
    · cases here
  change ((made.entries.map Prod.snd).map PregelTask.name).Nodup
  rw [names]
  exact made.nodup

theorem reference_recordsSeen : reference.RecordsSeen := by
  intro cp channels tasks inc ttn out applied
  replace applied : applyWrites cp channels tasks inc ttn = .ok out := applied
  obtain ⟨-, rfl⟩ := applyWrites_ok applied
  refine ⟨fun t mem => ?_, fun node other => seeAll_other other _⟩
  exact sees_seeAll (.inl mem)

theorem reference_recordsCurrent : reference.RecordsCurrent := by
  intro cp channels tasks inc ttn out applied t mem chan trigger v version
  replace applied : applyWrites cp channels tasks inc ttn = .ok out := applied
  obtain ⟨-, rfl⟩ := applyWrites_ok applied
  exact recorded_seeAll version (.inl ⟨t, mem, rfl, trigger⟩)

theorem reference_reportsUpdated : reference.ReportsUpdated := by
  intro cp channels tasks inc ttn out applied chan silent available
  replace applied : applyWrites cp channels tasks inc ttn = .ok out := applied
  obtain ⟨-, rfl⟩ := applyWrites_ok applied
  obtain ⟨c', found, open_⟩ := available
  rw [Dict.get?_filterMap, Option.bind_eq_some_iff] at found
  obtain ⟨⟨c'', flag⟩, got, same⟩ := found
  obtain rfl : c' = c'' := (Option.some.inj same).symm
  have mem := Dict.get?_eq_some.mp got
  have still : flag = false := by
    by_contra moved
    refine silent (List.mem_map.mpr ⟨_, List.mem_filter.mpr ⟨mem, ?_⟩, rfl⟩)
    change (flag && c'.isAvailable) = true
    change c'.isAvailable = true at open_
    rw [open_]
    simpa using moved
  subst still
  have entry := got
  unfold received at entry
  rw [Dict.get?_filterMap, Option.bind_eq_some_iff] at entry
  obtain ⟨c, there, given⟩ := entry
  obtain rfl : c' = c := unchanged given open_
  refine ⟨⟨c', there, open_⟩, ?_⟩
  have unbumped : chan ∉ changed channels tasks := by
    intro mem'
    obtain ⟨⟨key, after, flag⟩, mem'', rfl⟩ := List.mem_map.mp mem'
    obtain ⟨mem'', flagged⟩ := List.mem_filter.mp mem''
    have same := Dict.get?_eq_some.mpr mem''
    rw [got] at same
    cases same
    cases flagged
  change (bump _ _ _).getD chan 0 = _
  unfold Dict.getD
  rw [get?_bump, if_neg unbumped]
  rfl

theorem reference_copiesVersions : reference.CopiesVersions := fun _ _ _ => ⟨rfl, rfl⟩

namespace Reference

/-- The next version is above all others. -/
theorem version_lt_next (versions : Dict Nat) (chan : String) :
    versions.getD chan 0 < increment (maxVersion versions) := by
  unfold Dict.getD increment
  cases found : versions.get? chan with
  | none =>
      rw [Option.getD_none]
      exact Nat.succ_pos _
  | some v =>
      have mem : v ∈ versions.entries.map Prod.snd :=
        List.mem_map.mpr ⟨(chan, v), Dict.get?_eq_some.mp found, rfl⟩
      unfold maxVersion
      cases top : (versions.entries.map Prod.snd).max? with
      | none =>
          rw [List.max?_eq_none_iff] at top
          rw [top] at mem
          cases mem
      | some m =>
          have below := (List.max?_eq_some_iff.mp top).2 v mem
          simp only [Option.getD_some]
          omega

/-- Versions only grow. -/
theorem version_le_bump (versions : Dict Nat) (chans : List String) (chan : String) :
    versions.getD chan 0 ≤
      (bump (increment (maxVersion versions)) chans versions).getD chan 0 := by
  have next := version_lt_next versions chan
  unfold Dict.getD at *
  rw [get?_bump]
  split
  · rw [Option.getD_some]
    omega
  · exact Nat.le_refl _

/-- What is seen of a channel afterwards is its version before, or was seen before. -/
theorem seen_seeAll {versions : Dict Nat} {tasks : List PregelTaskWrites} {all : Dict (Dict Nat)}
    {node : String} {seen : Dict Nat} (found : (seeAll versions tasks all).get? node = some seen)
    (chan : String) :
    seen.getD chan 0 = versions.getD chan 0 ∧ (∃ t ∈ tasks, chan ∈ t.triggers) ∨
      seen.getD chan 0 = 0 ∨
      ∃ before, all.get? node = some before ∧ seen.getD chan 0 = before.getD chan 0 := by
  unfold seeAll at found
  induction tasks generalizing all with
  | nil => exact .inr (.inr ⟨seen, found, rfl⟩)
  | cons t tasks ih =>
      rw [List.foldl_cons] at found
      rcases ih found with ⟨same, t', mem, trigger⟩ | zero | ⟨before, known, same⟩
      · exact .inl ⟨same, t', List.mem_cons_of_mem t mem, trigger⟩
      · exact .inr (.inl zero)
      · by_cases here : node = t.name
        · subst here
          rw [Dict.get?_set_self] at known
          obtain rfl := Option.some.inj known
          unfold Dict.getD at same
          rw [get?_see] at same
          split at same
          · rename_i triggers
            exact .inl ⟨same, t, List.mem_cons_self, triggers.1⟩
          · unfold Dict.getD
            cases old : all.get? t.name with
            | none =>
                rw [old] at same
                exact .inr (.inl same)
            | some d =>
                rw [old] at same
                exact .inr (.inr ⟨d, rfl, same⟩)
        · rw [Dict.get?_set_ne _ _ here] at known
          exact .inr (.inr ⟨before, known, same⟩)

/-- A channel that is given values holds one, and has changed. -/
theorem receive_written {ends : Bool} {c : Channel} {v : PyVal} {values : List PyVal}
    {p : Channel × Bool} (mem : v ∈ values) (received : c.receive ends values = some p) :
    p.1.isAvailable = true ∧ p.2 = true := by
  unfold Channel.receive at received
  cases values with
  | nil => cases mem
  | cons x xs =>
      rw [List.isEmpty_cons, Bool.false_and, if_neg Bool.false_ne_true] at received
      cases c with
      | lastValue value =>
          cases xs with
          | nil =>
              cases received
              exact ⟨rfl, rfl⟩
          | cons y ys => cases received
      | ephemeral value =>
          cases received
          exact ⟨by simp [Channel.isAvailable, Channel.get], rfl⟩

/-- A channel that holds a value keeps one, unless the call ends a step. -/
theorem receive_kept {c : Channel} {values : List PyVal} {p : Channel × Bool}
    (received : c.receive false values = some p) (available : c.isAvailable = true) :
    p.1.isAvailable = true := by
  cases values with
  | nil =>
      cases received
      exact available
  | cons x xs => exact (receive_written (List.mem_cons_self) received).1

theorem get?_received {channels : Dict Channel} {tasks : List PregelTaskWrites} {chan : String}
    {c : Channel} (all : ∀ e ∈ channels.entries,
      (e.2.receive (ends tasks) (written tasks e.1)).isSome = true)
    (found : channels.get? chan = some c) :
    ∃ p, c.receive (ends tasks) (written tasks chan) = some p ∧
      (received channels tasks).get? chan = some p := by
  have some := all (chan, c) (Dict.get?_eq_some.mp found)
  obtain ⟨p, here⟩ := Option.isSome_iff_exists.mp some
  refine ⟨p, here, ?_⟩
  unfold received
  rw [Dict.get?_filterMap, found]
  exact here

theorem mem_changed {channels : Dict Channel} {tasks : List PregelTaskWrites} {chan : String}
    {c : Channel} (found : (received channels tasks).get? chan = some (c, true)) :
    chan ∈ changed channels tasks :=
  List.mem_map.mpr ⟨_, List.mem_filter.mpr ⟨Dict.get?_eq_some.mp found, rfl⟩, rfl⟩

theorem ends_false {tasks : List PregelTaskWrites} (none : ∀ t ∈ tasks, t.triggers = []) :
    ends tasks = false := by
  unfold ends
  rw [List.any_eq_false]
  intro t mem
  simp [none t mem]

end Reference

theorem reference_keepsConsistent : reference.KeepsConsistent where
  start node seen chan found := by
    cases found
  applied cp channels tasks ttn out applied consistent node seen chan found := by
    replace applied : applyWrites cp channels tasks increment ttn = .ok out := applied
    obtain ⟨-, rfl⟩ := applyWrites_ok applied
    have grows := version_le_bump cp.channelVersions (changed channels tasks)
    rcases seen_seeAll found chan with ⟨same, -⟩ | zero | ⟨before, known, same⟩
    · exact ⟨chan, same ▸ grows chan⟩
    · exact ⟨chan, by rw [zero]; exact Nat.zero_le _⟩
    · obtain ⟨top, below⟩ := consistent node before chan known
      exact ⟨top, by rw [same]; exact Nat.le_trans below (grows top)⟩

theorem reference_keepsChannels : reference.KeepsChannels where
  start specs cp chan there := by
    obtain ⟨c, found⟩ := Option.isSome_iff_exists.mp there
    change ((specs.filterMap _).get? chan).isSome = true
    rw [Dict.get?_filterMap, found]
    rfl
  applied cp channels tasks ttn out applied chan there := by
    replace applied : applyWrites cp channels tasks increment ttn = .ok out := applied
    obtain ⟨all, rfl⟩ := applyWrites_ok applied
    obtain ⟨c, found⟩ := Option.isSome_iff_exists.mp there
    obtain ⟨p, -, here⟩ := get?_received all found
    change (((received channels tasks).filterMap _).get? chan).isSome = true
    rw [Dict.get?_filterMap, here]
    rfl

theorem reference_writesFresh : reference.WritesFresh := by
  intro cp channels tasks ttn out applied consistent t task w write node _ there
  replace applied : applyWrites cp channels tasks increment ttn = .ok out := applied
  obtain ⟨all, rfl⟩ := applyWrites_ok applied
  obtain ⟨c, found⟩ := Option.isSome_iff_exists.mp there
  obtain ⟨⟨c', flag⟩, given, here⟩ := get?_received all found
  have value : w.2 ∈ written tasks w.1 :=
    List.mem_flatMap.mpr ⟨t, task, List.mem_map_of_mem (List.mem_filter.mpr ⟨write, by simp⟩)⟩
  obtain ⟨available, moved⟩ := receive_written value given
  change flag = true at moved
  subst moved
  have version : (bump (increment (maxVersion cp.channelVersions)) (changed channels tasks)
      cp.channelVersions).getD w.1 0 = increment (maxVersion cp.channelVersions) := by
    unfold Dict.getD
    rw [get?_bump, if_pos (mem_changed here), Option.getD_some]
  refine ⟨⟨c', ?_, available⟩, ?_, fun node' seen known => ?_⟩
  · change ((received channels tasks).filterMap _).get? w.1 = some c'
    rw [Dict.get?_filterMap, here]
    rfl
  · change 0 < Dict.getD (bump _ _ _) w.1 0
    rw [version]
    exact Nat.succ_pos _
  · change seen.getD w.1 0 < Dict.getD (bump _ _ _) w.1 0
    rw [version]
    rcases seen_seeAll known w.1 with ⟨same, -⟩ | zero | ⟨before, old, same⟩
    · rw [same]
      exact version_lt_next _ _
    · rw [zero]
      exact Nat.succ_pos _
    · obtain ⟨top, below⟩ := consistent node' before w.1 old
      rw [same]
      exact Nat.lt_of_le_of_lt below (version_lt_next _ _)

theorem reference_keepsVersions : reference.KeepsVersions := by
  intro cp channels tasks ttn out applied none chan unwritten
  replace applied : applyWrites cp channels tasks increment ttn = .ok out := applied
  obtain ⟨all, rfl⟩ := applyWrites_ok applied
  have silent : written tasks chan = [] := by
    refine List.flatMap_eq_nil_iff.mpr fun t mem => ?_
    have others : (t.writes.filter fun w => w.1 = chan) = [] :=
      List.filter_eq_nil_iff.mpr fun w write => by simpa using unwritten t mem w write
    rw [others]
    rfl
  have still : chan ∉ changed channels tasks := by
    intro mem
    obtain ⟨⟨key, c', flag⟩, entry, rfl⟩ := List.mem_map.mp mem
    obtain ⟨entry, flagged⟩ := List.mem_filter.mp entry
    change flag = true at flagged
    have found := Dict.get?_eq_some.mpr entry
    unfold received at found
    rw [Dict.get?_filterMap, Option.bind_eq_some_iff] at found
    obtain ⟨c, -, given⟩ := found
    rw [ends_false none, silent] at given
    cases given
    cases flagged
  change (bump _ _ _).get? chan = _
  rw [get?_bump, if_neg still]

theorem reference_keepsFresh : reference.KeepsFresh := by
  intro cp channels tasks ttn out applied none chan available fresh
  replace applied : applyWrites cp channels tasks increment ttn = .ok out := applied
  obtain ⟨all, rfl⟩ := applyWrites_ok applied
  obtain ⟨c, found, holds⟩ := available
  obtain ⟨p, given, here⟩ := get?_received all found
  rw [ends_false none] at given
  have grows := version_le_bump cp.channelVersions (changed channels tasks) chan
  obtain ⟨positive, above⟩ := fresh
  unfold Checkpoint.version at positive above
  refine ⟨⟨p.1, ?_, receive_kept given holds⟩, ?_, fun node seen known => ?_⟩
  · change ((received channels tasks).filterMap _).get? chan = some p.1
    rw [Dict.get?_filterMap, here]
    rfl
  · exact Nat.lt_of_lt_of_le positive grows
  · change seen.getD chan 0 < Dict.getD (bump _ _ _) chan 0
    rcases seen_seeAll known chan with ⟨-, t, task, trigger⟩ | zero | ⟨before, old, same⟩
    · rw [none t task] at trigger
      cases trigger
    · omega
    · have lower := above node before old
      omega

/-! ### Restored channels -/

namespace Reference

/-- The channels of `specs`, holding these values. -/
def holding (specs : Dict Channel) (value : String → Option PyVal) : Dict Channel :=
  specs.filterMap fun chan c => some (c.restore (value chan))

theorem get?_holding {specs : Dict Channel} {value : String → Option PyVal} {chan : String} :
    (holding specs value).get? chan = (specs.get? chan).map fun c => c.restore (value chan) := by
  unfold holding
  rw [Dict.get?_filterMap]
  cases specs.get? chan with
  | none => rfl
  | some c => rfl

@[simp] theorem get_restore (c : Channel) (value : Option PyVal) : (c.restore value).get = value := by
  cases c <;> rfl

/-- A channel stays of its kind. -/
theorem receive_restore {ends : Bool} {c : Channel} {value : Option PyVal} {values : List PyVal}
    {p : Channel × Bool} (received : (c.restore value).receive ends values = some p) :
    p.1 = c.restore p.1.get := by
  unfold Channel.receive at received
  split at received
  · cases received
    rw [get_restore]
  · cases c with
    | lastValue _ =>
        match values with
        | [] => cases received; rfl
        | [_] => cases received; rfl
        | _ :: _ :: _ => cases received
    | ephemeral _ =>
        match values, received with
        | [], received => cases received; rfl
        | _ :: _, received => cases received; rfl

/-- Every channel that holds a value has a version. -/
def Versioned (versions : Dict Nat) (channels : Dict Channel) : Prop :=
  ∀ chan c, channels.get? chan = some c → c.isAvailable = true → versions.contains chan = true

/-- Checkpoints and channels that LangGraph makes of `specs`, and that differ in
the values the checkpoints hold only. -/
structure Alike (specs : Dict Channel) (cp : Checkpoint) (channels : Dict Channel)
    (cp' : Checkpoint) (channels' : Dict Channel) : Prop where
  versions : cp.channelVersions = cp'.channelVersions
  seen : cp.versionsSeen = cp'.versionsSeen
  sameChannels : channels = channels'
  shaped : ∃ value, channels = holding specs value
  versioned : Versioned cp.channelVersions channels

theorem contains_bump {next : Nat} {chans : List String} {versions : Dict Nat} {chan : String}
    (known : chan ∈ chans ∨ versions.contains chan = true) :
    (bump next chans versions).contains chan = true := by
  unfold Dict.contains
  rw [get?_bump]
  split
  · rfl
  · rename_i other
    exact known.resolve_left other

/-- What `apply_writes` leaves has the channels of the graph, with versions. -/
theorem applied_versioned {cp : Checkpoint} {channels : Dict Channel} {tasks : List PregelTaskWrites}
    {ttn : Dict (List String)} {out : Applied Channel}
    (applied : applyWrites cp channels tasks increment ttn = .ok out)
    (versioned : Versioned cp.channelVersions channels) :
    Versioned out.checkpoint.channelVersions out.channels := by
  obtain ⟨-, rfl⟩ := applyWrites_ok applied
  intro chan c found available
  change ((received channels tasks).filterMap _).get? chan = some c at found
  rw [Dict.get?_filterMap, Option.bind_eq_some_iff] at found
  obtain ⟨⟨c', flag⟩, here, same⟩ := found
  obtain rfl : c' = c := Option.some.inj same
  refine contains_bump ?_
  cases flag with
  | true => exact .inl (mem_changed here)
  | false =>
      unfold received at here
      rw [Dict.get?_filterMap, Option.bind_eq_some_iff] at here
      obtain ⟨before, there, given⟩ := here
      obtain rfl : c' = before := unchanged given available
      exact .inr (versioned chan c' there available)

theorem applied_holding {cp : Checkpoint} {specs channels : Dict Channel}
    {tasks : List PregelTaskWrites} {ttn : Dict (List String)} {out : Applied Channel}
    (applied : applyWrites cp channels tasks increment ttn = .ok out)
    (shaped : ∃ value, channels = holding specs value) : ∃ value, out.channels = holding specs value := by
  obtain ⟨all, rfl⟩ := applyWrites_ok applied
  obtain ⟨value, rfl⟩ := shaped
  refine ⟨fun chan => ((received (holding specs value) tasks).get? chan).bind fun p => p.1.get, ?_⟩
  change ((received (holding specs value) tasks).filterMap fun _ p => some p.1) = holding specs _
  conv_lhs => unfold received holding
  rw [Dict.filterMap_filterMap, Dict.filterMap_filterMap]
  refine Dict.filterMap_congr fun chan c found => ?_
  have there : (holding specs value).get? chan = some (c.restore (value chan)) := by
    rw [get?_holding, found]
    rfl
  obtain ⟨p, given, here⟩ := get?_received all there
  simp only [here, given, Option.bind_some]
  exact congrArg some (receive_restore given)

/-- `create_checkpoint` keeps the value of every channel that has a version. -/
theorem created_value {cp : Checkpoint} {specs : Dict Channel} {value : String → Option PyVal}
    {step : Nat} {chan : String} {c : Channel} (versioned : Versioned cp.channelVersions (holding specs value))
    (found : specs.get? chan = some c) :
    (createCheckpoint cp (holding specs value) step).channelValues.get? chan = value chan := by
  have there : (holding specs value).get? chan = some (c.restore (value chan)) := by
    rw [get?_holding, found]
    rfl
  unfold createCheckpoint
  rw [Dict.get?_filterMap, there, Option.bind_some, get_restore]
  split
  · rfl
  · rename_i unversioned
    cases held : value chan with
    | none => rfl
    | some v =>
        refine absurd (versioned chan _ there ?_) unversioned
        unfold Channel.isAvailable
        rw [get_restore, held]
        rfl

end Reference

theorem reference_restoresBranches : reference.RestoresBranches := by
  intro specs cp channels step node there versioned available
  obtain ⟨spec, found⟩ := Option.isSome_iff_exists.mp there
  obtain ⟨c, here, holds⟩ := available
  have known : cp.channelVersions.contains (branchTo node) = true := by
    unfold Checkpoint.version Dict.getD at versioned
    unfold Dict.contains
    cases version : cp.channelVersions.get? (branchTo node) with
    | none =>
        rw [version] at versioned
        cases versioned
    | some v => rfl
  have value : (createCheckpoint cp channels step).channelValues.get? (branchTo node) = c.get := by
    unfold createCheckpoint
    rw [Dict.get?_filterMap, here]
    exact if_pos known
  refine ⟨spec.restore c.get, ?_, ?_⟩
  · change (specs.filterMap _).get? _ = _
    rw [Dict.get?_filterMap, found, ← value]
    rfl
  · change (spec.restore c.get).get.isSome = true
    rw [get_restore]
    exact holds

theorem reference_restores (specs : Dict Channel) : reference.Restores specs {} (Alike specs) where
  symm cp channels cp' channels' same := by
    obtain ⟨versions, seen, rfl, shaped, versioned⟩ := same
    exact ⟨versions.symm, seen.symm, rfl, shaped, versions ▸ versioned⟩
  trans cp channels cp' channels' cp'' channels'' same same' :=
    ⟨same.versions.trans same'.versions, same.seen.trans same'.seen,
      same.sameChannels.trans same'.sameChannels, same.shaped, same.versioned⟩
  initial := by
    refine ⟨rfl, rfl, rfl, ⟨fun _ => none, rfl⟩, fun chan c found available => ?_⟩
    have empty : (holding specs fun _ => none).get? chan = some c := found
    rw [get?_holding, Option.map_eq_some_iff] at empty
    obtain ⟨spec, -, rfl⟩ := empty
    unfold Channel.isAvailable at available
    rw [get_restore] at available
    cases available
  values cp channels cp' channels' same := by rw [same.sameChannels]
  prepare cp channels cp' channels' same nodes step stop ttn := by
    change Reference.prepareNextTasks cp nodes channels step stop ttn =
      Reference.prepareNextTasks cp' nodes channels' step stop ttn
    unfold Reference.prepareNextTasks triggered Checkpoint.version
    rw [same.versions, same.seen, same.sameChannels]
  applied cp channels cp' channels' same tasks ttn := by
    obtain ⟨values, versions, seen⟩ := cp
    obtain ⟨values', versions', seen'⟩ := cp'
    obtain ⟨sameVersions, sameSeen, sameChannels, shaped, versioned⟩ := same
    cases sameVersions
    cases sameSeen
    cases sameChannels
    by_cases all : (channels.entries.all fun e =>
        (e.2.receive (ends tasks) (written tasks e.1)).isSome) = true
    · have left : Reference.applyWrites ⟨values, versions, seen⟩ channels tasks increment ttn = .ok _ :=
        if_pos all
      exact .inl ⟨_, _, left, if_pos all, rfl, rfl, rfl, rfl, applied_holding left shaped,
        applied_versioned left versioned⟩
    · exact .inr ⟨_, if_neg all, if_neg all⟩
  created cp channels cp' channels' same step :=
    ⟨same.versions, same.seen, same.sameChannels, same.shaped, same.versioned⟩
  restored cp channels step same := by
    obtain ⟨-, -, -, ⟨value, rfl⟩, versioned⟩ := same
    have back : holding specs (createCheckpoint cp (holding specs value) step).channelValues.get? =
        holding specs value :=
      Dict.filterMap_congr fun chan c found => by rw [created_value versioned found]
    change Alike specs _ (holding specs (createCheckpoint cp (holding specs value) step).channelValues.get?)
      cp (holding specs value)
    rw [back]
    exact ⟨rfl, rfl, rfl, ⟨value, rfl⟩, versioned⟩

/-! ## Channels that are not tracked -/

/-- A channel of the reference LangGraph, or an `UntrackedValue`, which is updated
as a `LastValue` is, and is not part of a checkpoint. -/
inductive AnyChannel where
  | tracked (c : Channel)
  | untrackedValue (value : Option PyVal)

namespace AnyChannel

def channel : AnyChannel → Channel
  | tracked c => c
  | untrackedValue value => .lastValue value

/-- The same kind of channel, with the value of another. -/
def hold : AnyChannel → Channel → AnyChannel
  | tracked _, c => .tracked c
  | untrackedValue _, c => .untrackedValue c.get

/-- `from_checkpoint` -/
def restore : AnyChannel → Option PyVal → AnyChannel
  | tracked c, value => .tracked (c.restore value)
  | untrackedValue _, _ => .untrackedValue none

/-- `isinstance(c, UntrackedValue)` -/
def isUntracked : AnyChannel → Bool
  | tracked _ => false
  | untrackedValue _ => true

/-- `isinstance(c, EphemeralValue)` -/
def isEphemeral : AnyChannel → Bool
  | tracked (.ephemeral _) => true
  | _ => false

end AnyChannel

/-- LangGraph, for these channels. -/
def untracking : Langgraph AnyChannel where
  get c := c.channel.get
  isAvailable c := c.channel.isAvailable
  emptyCheckpoint := {}
  channelsFromCheckpoint specs cp := specs.filterMap fun chan c => some (c.restore (cp.channelValues.get? chan))
  createCheckpoint cp channels := Reference.createCheckpoint cp (channels.filterMap fun _ c =>
    match c with
    | .tracked c => some c
    | .untrackedValue _ => none)
  prepareNextTasks cp nodes channels :=
    Reference.prepareNextTasks cp nodes (channels.filterMap fun _ c => some c.channel)
  applyWrites cp channels tasks increment ttn :=
    match Reference.applyWrites cp (channels.filterMap fun _ c => some c.channel) tasks increment ttn with
    | .ok out =>
        .ok { out with channels := channels.filterMap fun chan c => (out.channels.get? chan).map c.hold }
    | .error message => .error message

namespace Reference

theorem untracking_restored {specs : Dict AnyChannel} {cp : Checkpoint} {chan : String} {c : AnyChannel}
    (there : (untracking.channelsFromCheckpoint specs cp).get? chan = some c) :
    ∃ spec, specs.get? chan = some spec ∧ c = spec.restore (cp.channelValues.get? chan) := by
  change (specs.filterMap fun chan c => some (c.restore (cp.channelValues.get? chan))).get? chan = some c at there
  rw [Dict.get?_filterMap, Option.bind_eq_some_iff] at there
  obtain ⟨spec, specified, restored⟩ := there
  cases restored
  exact ⟨spec, specified, rfl⟩

/-- What a channel is after the writes. -/
theorem untracking_applied {cp : Checkpoint} {channels : Dict AnyChannel} {tasks : List PregelTaskWrites}
    {ttn : Dict (List String)} {out : Applied AnyChannel}
    (applied : untracking.applyWrites cp channels tasks increment ttn = .ok out) {chan : String}
    {c' : AnyChannel} (there' : out.channels.get? chan = some c') :
    ∃ c p, channels.get? chan = some c ∧ c.channel.receive (ends tasks) (written tasks chan) = some p ∧
      c' = c.hold p.1 := by
  change (match Reference.applyWrites cp (channels.filterMap fun _ c => some c.channel) tasks increment ttn with
    | .ok out =>
        .ok { out with channels := channels.filterMap fun chan c => (out.channels.get? chan).map c.hold }
    | .error message => .error message) = Except.ok out at applied
  split at applied
  · rename_i inner written
    cases applied
    rw [Dict.get?_filterMap, Option.bind_eq_some_iff] at there'
    obtain ⟨c, there, held⟩ := there'
    obtain ⟨d, found, rfl⟩ := Option.map_eq_some_iff.mp held
    obtain ⟨all, rfl⟩ := applyWrites_ok written
    have stripped : (channels.filterMap fun _ c => some c.channel).get? chan = some c.channel := by
      rw [Dict.get?_filterMap, there]
      rfl
    obtain ⟨p, given, here⟩ := get?_received all stripped
    dsimp only at found
    rw [Dict.get?_filterMap, here] at found
    cases found
    exact ⟨c, p, there, given, rfl⟩
  · cases applied

/-- An `EphemeralValue` holds its old value or one that was written to it. -/
theorem receive_ephemeral {ends : Bool} {old : Option PyVal} {values : List PyVal} {p : Channel × Bool} {v : PyVal}
    (given : (Channel.ephemeral old).receive ends values = some p) (value : p.1.get = some v) :
    old = some v ∨ v ∈ values := by
  unfold Channel.receive at given
  split at given
  · cases given
    exact .inl value
  · match values with
    | [] =>
        cases given
        cases value
    | u :: us =>
        cases given
        exact .inr (List.mem_of_getLast? value)

theorem mem_written {tasks : List PregelTaskWrites} {chan : String} {v : PyVal} :
    v ∈ written tasks chan ↔ ∃ t ∈ tasks, (chan, v) ∈ t.writes := by
  unfold written
  rw [List.mem_flatMap]
  refine exists_congr fun t => and_congr_right fun _ => ?_
  rw [List.mem_map]
  constructor
  · rintro ⟨w, mem, rfl⟩
    obtain ⟨write, same⟩ := List.mem_filter.mp mem
    rw [← of_decide_eq_true same]
    exact write
  · intro write
    exact ⟨(chan, v), List.mem_filter.mpr ⟨write, by simp⟩, rfl⟩

end Reference

open Reference

theorem untracking_untracks : untracking.Untracks AnyChannel.isUntracked where
  restored specs cp chan c there := by
    obtain ⟨spec, specified, rfl⟩ := untracking_restored there
    cases spec with
    | tracked spec => exact ⟨⟨_, specified, rfl⟩, nofun⟩
    | untrackedValue value => exact ⟨⟨_, specified, rfl⟩, fun _ => rfl⟩
  applied cp channels tasks ttn out applied chan c' there' := by
    obtain ⟨c, p, there, given, rfl⟩ := untracking_applied applied there'
    refine ⟨c, there, ?_, fun untracked empty unwritten => ?_⟩
    · cases c <;> rfl
    · have silent : written tasks chan = [] := by
        refine List.eq_nil_iff_forall_not_mem.mpr fun v mem => ?_
        obtain ⟨t, task, write⟩ := mem_written.mp mem
        exact unwritten t task _ write rfl
      rw [silent] at given
      cases c with
      | tracked c => cases untracked
      | untrackedValue value =>
          cases value with
          | some v => cases empty
          | none =>
              unfold Channel.receive at given
              split at given <;> cases given <;> rfl

theorem untracking_holdsWritten : untracking.HoldsWritten AnyChannel.isEphemeral where
  empty := rfl
  restored specs cp chan c there := by
    obtain ⟨spec, specified, rfl⟩ := untracking_restored there
    cases spec with
    | tracked spec =>
        refine ⟨⟨_, specified, ?_⟩, fun _ v value => ?_⟩
        · cases spec <;> rfl
        · cases spec <;> exact value
    | untrackedValue value => exact ⟨⟨_, specified, rfl⟩, nofun⟩
  applied cp channels tasks ttn out applied chan c' there' := by
    obtain ⟨c, p, there, given, rfl⟩ := untracking_applied applied there'
    refine ⟨c, there, ?_, fun ephemeral v value => ?_⟩
    · cases c with
      | untrackedValue => rfl
      | tracked c =>
          have same : c.restore c.get = c := by cases c <;> rfl
          have kept : p.1 = c.restore p.1.get := by
            rw [← same] at given
            have restored := receive_restore given
            cases c <;> exact restored
          show AnyChannel.isEphemeral (.tracked p.1) = AnyChannel.isEphemeral (.tracked c)
          rw [kept]
          cases c <;> rfl
    · cases c with
      | untrackedValue => cases ephemeral
      | tracked c =>
          cases c with
          | lastValue => cases ephemeral
          | ephemeral old =>
              rcases receive_ephemeral given value with same | mem
              · exact .inl same
              · exact .inr (mem_written.mp mem)
  created cp channels step chan v found := by
    change ((channels.filterMap fun _ c =>
      match c with
      | .tracked c => some c
      | .untrackedValue _ => none).filterMap fun chan c =>
        if cp.channelVersions.contains chan then c.get else none).get? chan = some v at found
    rw [Dict.get?_filterMap, Dict.get?_filterMap, Option.bind_eq_some_iff] at found
    obtain ⟨c', there', value⟩ := found
    obtain ⟨c, there, tracked⟩ := Option.bind_eq_some_iff.mp there'
    refine ⟨c, there, fun _ => ?_⟩
    cases c with
    | untrackedValue => cases tracked
    | tracked c =>
        cases tracked
        split at value
        · exact value
        · cases value

end LanggraphTemporal.Model
