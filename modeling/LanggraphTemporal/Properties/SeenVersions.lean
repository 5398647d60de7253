/-
# Properties.SeenVersions -- what a node is marked as having seen

At the end of a superstep `apply_writes` marks the trigger channels of each node
that wrote as seen, at the versions they have by then.  The node was handed the
channels when its phase began.  An update that writes to a trigger channel in
between is marked as seen by an execution that has not seen it, and triggers
nothing: `unseen_update_marked`.  Without such an update, a version marked seen
was really seen (`seen_was_read_of_undisturbed`).
-/
import LanggraphTemporal.Properties.Updates

namespace LanggraphTemporal.Properties

set_option autoImplicit false

open Theory Theory.System Theory.History Model Model.LangGraphWorkflow Machine

variable {Chan : Type} {S : Setting Chan} {h : List Event}

/-! ## The statement -/

/-- What the execution of `node` that was started before `rest` returned is kept:
it was not an interrupted output, to be replaced by that of a re-execution. -/
def Kept (node : String) (rest : List Event) : Prop :=
  ∃ d route outputs c r, rest = d ++ .collected route outputs :: c ∧ (∀ e ∈ d, moves e = false) ∧
    (∀ e ∈ c, isScheduled e = false) ∧ r ∈ outputs ∧ r.nodeName = node ∧
      (route = .scheduled → r.interrupted = false)

/-- `apply_writes`, at the entry `e` after `a`, marks `chan` as seen by `node` at
the version `v`. -/
def Marks (S : Setting Chan) (a : List Event) (e : Event) (node chan : String) (v : Nat) : Prop :=
  ((stateAt S a).checkpoint.channelVersions.get? chan).isSome = true ∧
    ∃ seen, (stateAt S (a ++ [e])).checkpoint.versionsSeen.get? node = some seen ∧ seen.get? chan = some v

/-- A version marked as seen is the version that `chan` had when the state was
read for each kept execution of the node in this superstep. -/
def SeenWasRead (S : Setting Chan) (a : List Event) (e : Event) : Prop :=
  ∀ writes updated, e = .applied writes updated → ∀ t ∈ writes, ∀ chan ∈ t.triggers, ∀ v,
    Marks S a e t.name chan v → ∀ b x rest, a = b ++ x :: rest → starts t.name x → Kept t.name rest →
      (stateAt S (readAt b x)).checkpoint.channelVersions.get? chan = some v

/-- Every start hands out the state read at that time, and a version marked as
seen was really seen. -/
structure SeenRead (S : Setting Chan) (h : List Event) : Prop where
  reads : Guarded (fun a e => HandsOut e (valuesAt S (readAt a e))) h
  seen : Guarded (SeenWasRead S) h

/-- No update that comes after the state was read for a kept execution of a
node, and before its writes are applied, writes to a trigger channel of it. -/
def Undisturbed (a : List Event) (e : Event) : Prop :=
  ∀ writes updated, e = .applied writes updated → ∀ t ∈ writes, ∀ chan ∈ t.triggers,
    ∀ b x rest, a = b ++ x :: rest → starts t.name x → Kept t.name rest →
      ∀ later, a = readAt b x ++ later → ∀ update, .received (.updateState update) ∈ later →
        ∀ w ∈ update, w.1 ≠ chan

/-! ## Versions that stay -/

theorem track_version (keeps : S.env.lg.KeepsVersions) {wf : LangGraphWorkflow Chan} {e : Event}
    {chan : String} (quiet : closes e = false)
    (unwritten : ∀ update, e = .received (.updateState update) → ∀ w ∈ update, w.1 ≠ chan) :
    (track S.env.lg wf e).checkpoint.channelVersions.get? chan =
      wf.checkpoint.channelVersions.get? chan := by
  cases e with
  | received signal =>
      cases signal with
      | resume value => rfl
      | updateState update =>
          unfold track afterWrites
          dsimp only
          split
          · rename_i out applied
            refine keeps _ _ _ _ _ applied (fun t mem => ?_) chan fun t mem => ?_
            · rw [List.mem_singleton.mp mem]
              rfl
            · rw [List.mem_singleton.mp mem]
              exact unwritten update rfl
          · rfl
  | applied | advanced => cases quiet
  | _ => rfl

/-- Where nothing is applied and no update writes to a channel, it keeps its
version. -/
theorem stateAfter_version (keeps : S.env.lg.KeepsVersions) {chan : String} (later : List Event)
    (quiet : ∀ e ∈ later, closes e = false)
    (unwritten : ∀ update, .received (.updateState update) ∈ later → ∀ w ∈ update, w.1 ≠ chan)
    (wf : LangGraphWorkflow Chan) :
    (stateAfter S.env.lg wf later).checkpoint.channelVersions.get? chan =
      wf.checkpoint.channelVersions.get? chan := by
  induction later generalizing wf with
  | nil => rfl
  | cons e later ih =>
      have rest := ih (fun x mem => quiet x (List.mem_cons_of_mem e mem))
        (fun update mem => unwritten update (List.mem_cons_of_mem e mem)) (track S.env.lg wf e)
      have here : (track S.env.lg wf e).checkpoint.channelVersions.get? chan =
          wf.checkpoint.channelVersions.get? chan := by
        refine track_version keeps (quiet e List.mem_cons_self) ?_
        rintro update rfl
        exact unwritten update List.mem_cons_self
      exact rest.trans here

/-! ## When it holds -/

section Seen

variable {ph ph' : Phase} {self self' : LangGraphWorkflow Chan} {e : Event}

theorem not_scheduled_of_not_moves {e : Event} (quiet : moves e = false) : isScheduled e = false := by
  cases e with
  | scheduled => cases quiet
  | _ => rfl

/-- The state for a kept execution was read in the superstep that applies its
writes. -/
theorem readAt_split {b rest : List Event} {x : Event} {node : String} (start : starts node x)
    (kept : Kept node rest) :
    ∃ later, b ++ x :: rest = readAt b x ++ later ∧ ∀ e ∈ later, isScheduled e = false := by
  have inside : ∀ e ∈ x :: rest, isScheduled e = false := by
    obtain ⟨d, route, outputs, c, r, rfl, quiet, inside, -⟩ := kept
    intro e mem
    rcases List.mem_cons.mp mem with rfl | mem
    · cases e with
      | scheduled => cases start
      | _ => rfl
    · rcases List.mem_append.mp mem with front | back
      · exact not_scheduled_of_not_moves (quiet e front)
      · rcases List.mem_cons.mp back with rfl | after
        · rfl
        · exact inside e after
  have activity : ∃ later, b ++ x :: rest = entered b ++ later ∧ ∀ e ∈ later, isScheduled e = false := by
    refine ⟨recent b ++ x :: rest, by rw [← List.append_assoc, entered_append_recent], fun e mem => ?_⟩
    rcases List.mem_append.mp mem with old | new
    · exact not_scheduled_of_not_moves ((since_spec (p := moves) b).1 e old)
    · exact inside e new
  cases x with
  | subgraphStarted node call => exact ⟨_, rfl, inside⟩
  | _ => exact activity

/-- In an open superstep nothing has been applied since. -/
theorem stateAt_of_open {a later : List Event} (opened : Open (a ++ later))
    (inside : ∀ e ∈ later, isScheduled e = false) :
    stateAt S (a ++ later) = stateAfter S.env.lg (stateAt S a) later ∧ ∀ e ∈ later, closes e = false := by
  have superstep : superstepOf (a ++ later) = superstepOf a ++ later := since_append inside
  obtain ⟨⟨p, step, tasks, split⟩, quiet⟩ := opened
  rw [superstep] at split quiet
  have whole : a ++ later = (p ++ .scheduled step tasks :: superstepOf a) ++ later := by
    rw [split]
    simp
  have front : a = p ++ .scheduled step tasks :: superstepOf a := List.append_cancel_right whole
  have begun : mainOf a ≠ [] := by
    rw [front, mainOf_append_cons rfl]
    exact List.append_ne_nil_of_right_ne_nil _ (List.cons_ne_nil _ _)
  refine ⟨?_, fun e mem => quiet e (List.mem_append_right _ mem)⟩
  unfold stateAt stateAfter
  rw [mainOf_append begun, List.foldl_append]

/-- What is marked as seen is the version at the time of the call. -/
theorem marks_current (records : S.env.lg.RecordsCurrent)
    (reachable : (workflowMachine S).Reachable ⟨h, ph, self⟩) {writes : List PregelTaskWrites}
    {updated : List String} (moves : Moves S h ph self (.applied writes updated) ph' self')
    {t : PregelTaskWrites} (mem : t ∈ writes) {chan : String} (trigger : chan ∈ t.triggers) {v : Nat}
    (marks : Marks S h (.applied writes updated) t.name chan v) :
    (stateAt S h).checkpoint.channelVersions.get? chan = some v := by
  obtain ⟨known, seen, found, marked⟩ := marks
  obtain ⟨v', version⟩ := Option.isSome_iff_exists.mp known
  have before := (tracked_invariant.holds reachable).checkpoint
  have after := (tracked_invariant.holds (reachable.step (.move moves))).checkpoint
  cases moves with
  | @apply out stage some applied =>
      rw [before] at version
      obtain ⟨seen', found', marked'⟩ := records _ _ _ _ _ _ applied t mem chan trigger v' version
      have same : (stateAt S (h ++ [.applied (writesOf S.graph ph.results) out.updated])).checkpoint =
          out.checkpoint := after
      rw [same, found'] at found
      obtain rfl := Option.some.inj found
      rw [marked'] at marked
      rw [before, version, marked]

theorem seenWasRead_of_moves (records : S.env.lg.RecordsCurrent) (keeps : S.env.lg.KeepsVersions)
    (reachable : (workflowMachine S).Reachable ⟨h, ph, self⟩) (moves : Moves S h ph self e ph' self')
    (undisturbed : Undisturbed h e) : SeenWasRead S h e := by
  rintro writes updated rfl t mem chan trigger v marks b x rest split start kept
  have current := marks_current records reachable moves mem trigger marks
  have opened : Open h := by
    refine open_invariant.holds reachable ?_
    cases moves with
    | apply stage =>
        show ph.stage.unapplied = true
        rw [stage]
        rfl
  obtain ⟨later, whole, inside⟩ := readAt_split (b := b) start kept
  have unwritten := undisturbed writes updated rfl t mem chan trigger b x rest split start kept later
    (split.trans whole)
  rw [split.trans whole] at opened current
  obtain ⟨state, quiet⟩ := stateAt_of_open (S := S) opened inside
  rw [state, stateAfter_version keeps later quiet unwritten] at current
  exact current

end Seen

/-- **When no update comes between the reading of a state and the end of its
superstep, a version marked as seen was really seen.** -/
theorem seen_was_read_of_undisturbed (records : S.env.lg.RecordsCurrent) (keeps : S.env.lg.KeepsVersions)
    (threshold : Option Nat) (uuids : Nat → String) (arrived : List Signal)
    (script : List (Action Response Signal))
    (undisturbed : Guarded Undisturbed (executionHistory S threshold uuids arrived script)) :
    SeenRead S (executionHistory S threshold uuids arrived script) := by
  have seen : Guarded (fun a e => Undisturbed a e → SeenWasRead S a e)
      (executionHistory S threshold uuids arrived script) := by
    refine executionHistory_guarded (fun a e early _ => ?_) (fun h ph self self' e _ works _ => ?_)
      (fun h ph ph' self self' e reachable moves => seenWasRead_of_moves records keeps reachable moves)
      threshold uuids arrived script
    · rintro writes updated rfl
      cases early
    · rintro writes updated rfl
      cases works
  exact ⟨executionHistory_handsOut threshold uuids arrived script, fun a e c split => seen a e c split (undisturbed a e c split)⟩

section Runs

open Reference

/-- `d` is triggered by the input, and by the state channel `x`. -/
def watching (before : Option InterruptNodes) : Setting Channel :=
  setting [("d", ["in", "x"])] before none

def isStart : Event → Bool
  | .dispatched _ _ | .subgraphStarted _ _ => true
  | _ => false

def isUpdate : Event → Bool
  | .received (.updateState _) => true
  | _ => false

/-- All updates come before an entry at which a phase begins, and all starts
after it. -/
theorem undisturbed_of_split {p q : List Event} {e : Event} (move : moves e = true)
    (none : ∀ x ∈ p ++ [e], isStart x = false) (quiet : ∀ x ∈ q, isUpdate x = false) :
    Guarded Undisturbed (p ++ e :: q) := by
  rintro a applied c split writes updated rfl t mem chan trigger b x rest rfl start kept later whole
    update updating
  have late : x ∉ p ++ [e] := by
    intro early
    have idle := none x early
    cases x with
    | dispatched | subgraphStarted => cases idle
    | _ => cases start
  obtain ⟨b', rfl, rest'⟩ : ∃ b', b = p ++ e :: b' ∧
      q = b' ++ x :: (rest ++ .applied writes updated :: c) := by
    have same : (p ++ [e]) ++ q = b ++ x :: (rest ++ .applied writes updated :: c) := by
      simpa using split
    rcases List.append_eq_append_iff.mp same with ⟨b', front, back⟩ | ⟨d, front, back⟩
    · exact ⟨b', by rw [front]; simp, back⟩
    · cases d with
      | nil => exact ⟨[], by simpa using front.symm, back.symm⟩
      | cons y d =>
          obtain ⟨rfl, -⟩ := List.cons_eq_cons.mp back
          exact absurd (by rw [front]; simp) late
  have suffix : ∀ y ∈ later, y ∈ q := by
    obtain ⟨c₁, front, back⟩ : ∃ c₁, entered (p ++ e :: b') = p ++ e :: c₁ ∧
        b' = c₁ ++ recent (p ++ e :: b') := upTo_of_hit move rfl
    have tail : ∃ c₂, readAt (p ++ e :: b') x = p ++ e :: c₂ := by
      cases x with
      | subgraphStarted node call => exact ⟨b', rfl⟩
      | _ => exact ⟨c₁, front⟩
    obtain ⟨c₂, here⟩ := tail
    rw [here] at whole
    have between : b' ++ x :: rest = c₂ ++ later := by simpa using whole
    have ends : q = (c₂ ++ later) ++ .applied writes updated :: c := by
      rw [rest', ← between]
      simp
    intro y mem
    rw [ends]
    simp [mem]
  cases quiet _ (suffix _ updating)

/-- The update comes during the pause before `d` runs. -/
def pausedUpdateScript : List (Action Response Signal) :=
  [.signals [.updateState [("x", .int 5)], .resume .none],
    .answer 0 (.output (pulled "d" [(branchTo "d", .none)]))]

def pausedHistory : List Event :=
  executionHistory (watching (some .all)) none (fun _ => "") [] pausedUpdateScript

/-- Here the pause ends with the fifth entry. -/
theorem seenRead_pausedUpdateScript : SeenRead (watching (some .all)) pausedHistory := by
  refine seen_was_read_of_undisturbed reference_recordsCurrent reference_keepsVersions _ _ _ _ ?_
  have split : pausedHistory = pausedHistory.take 4 ++ pausedHistory[4] :: pausedHistory.drop 5 := rfl
  change Guarded Undisturbed pausedHistory
  rw [split]
  exact undisturbed_of_split rfl (by decide) (by decide)

/-- The update comes while `d` runs. -/
def runningUpdateScript : List (Action Response Signal) :=
  [.signals [.updateState [("x", .int 5)]], .answer 0 (.output (pulled "d" [(branchTo "d", .none)]))]

def runningHistory : List Event :=
  executionHistory (watching none) none (fun _ => "") [] runningUpdateScript

example : stepsOf runningHistory = [0] := by decide

/-- **An update of `x` while `d` runs is marked as seen by it**, and the run ends. -/
theorem unseen_update_marked : ¬SeenRead (watching none) runningHistory := by
  rintro ⟨-, seen⟩
  have applied := seen.at 8 (by decide)
  have marks : Marks (watching none) (runningHistory.take 8) runningHistory[8] "d" "x" 2 :=
    ⟨rfl, _, rfl, rfl⟩
  have kept : Kept "d" ((runningHistory.take 8).drop 2) := by
    refine ⟨(runningHistory.take 3).drop 2, .scheduled, _, (runningHistory.take 8).drop 4, _, rfl, by decide,
      by decide, List.mem_singleton_self _, rfl, fun _ => rfl⟩
  have read := applied _ _ rfl _ (List.mem_singleton_self _) "x" (by decide) 2 marks
    (runningHistory.take 1) runningHistory[1] ((runningHistory.take 8).drop 2) rfl rfl kept
  have unread : Dict.get? (stateAt (watching none) (readAt (runningHistory.take 1)
      runningHistory[1])).checkpoint.channelVersions "x" = none := rfl
  rw [unread] at read
  cases read

end Runs

end LanggraphTemporal.Properties
