/-
# Properties.StickyQueue -- the queue of a pinned workflow

With worker affinity, every node activity is dispatched on the queue that was
found last, through all runs of a chain, and none while a queue is searched for
(`dispatched_on_sticky`).

A failure leads to a search without a look at the queue it comes from: the
failure of an activity that was sent to a queue since replaced evicts the worker
that has replaced it (`stale_failure_evicts`).  When no failure comes that late,
a worker stays until an activity sent to it is lost (`pin_stays_of_onTime`).
-/
import LanggraphTemporal.Machine.Chains
import LanggraphTemporal.Machine.Reference

namespace LanggraphTemporal.Properties

set_option autoImplicit false

open Theory Theory.System Theory.History Model Model.LangGraphWorkflow Machine

variable {Chan : Type} {S last : Setting Chan} {threshold : Option Nat} {configured : Option String}
  {h : List Event} {outcome : RunOutcome Chan}

/-! ## The sticky queue -/

/-- An activity is dispatched on the queue found last, by its name, and not
while one is searched for. -/
def OnSticky (configured : Option String) (a : List Event) (e : Event) : Prop :=
  ∀ input call, e = .dispatched input call →
    FoundAll a ∧ call.taskQueue = lastQueue configured a ∧
      ∃ queue, queue ≠ "" ∧ call.taskQueue = some queue

theorem named_of_truthy {queue : Option String} (set : truthy queue = true) :
    ∃ name, name ≠ "" ∧ queue = some name := by
  cases queue with
  | none => cases set
  | some name => exact ⟨name, by simpa [truthy] using set, rfl⟩

theorem onSticky_of_works {ph : Phase} {self self' : LangGraphWorkflow Chan} {e : Event}
    (affinity : S.input.useWorkerAffinity = true) (reachable : (workflowMachine S).Reachable ⟨h, ph, self⟩)
    (works : Works S ph h self e self') : OnSticky S.input.stickyTaskQueue h e := by
  rintro input call rfl
  cases works with
  | dispatch admitted foundAll =>
      have configured := configured_invariant.holds reachable
      have set : truthy self.stickyTaskQueue = true :=
        (pinned_invariant.holds reachable (configured.affinity.trans affinity)).mpr foundAll
      have sticks : self.stickyTaskQueue = lastQueue S.input.stickyTaskQueue h :=
        sticks_invariant.holds reachable foundAll
      have queue : (self.activityCall input.nodeName).taskQueue = self.stickyTaskQueue := if_pos set
      refine ⟨foundAll, queue.trans sticks, ?_⟩
      rw [queue]
      exact named_of_truthy set

theorem onSticky_of_run (affinity : S.input.useWorkerAffinity = true) (uuids : Nat → String)
    (arrived : List Signal) (script : List (Action Response Signal)) :
    Guarded (OnSticky S.input.stickyTaskQueue) (executionHistory S threshold uuids arrived script) := by
  refine executionHistory_guarded ?_ ?_ ?_ threshold uuids arrived script
  · rintro a e early input call rfl
    cases early
  · exact fun h ph self self' e reachable works => onSticky_of_works affinity reachable works
  · rintro h ph ph' self self' e reachable moves input call rfl
    cases moves

/-- What holds of a queue found in a later run holds of it in the chain. -/
theorem OnSticky.after {a : List Event} {e : Event} (found : FoundAll h)
    (on : OnSticky (lastQueue configured h) a e) : OnSticky configured (h ++ a) e := by
  intro input call same
  obtain ⟨foundAll, queue, named⟩ := on input call same
  rw [lastQueue_append]
  exact ⟨foundAll_append found foundAll, queue, named⟩

theorem onSticky_of_chain (affinity : S.input.useWorkerAffinity = true)
    (chained : Chained threshold S h last outcome) : Guarded (OnSticky S.input.stickyTaskQueue) h := by
  refine chained.history_holds (P := fun S h => S.input.useWorkerAffinity = true →
    Guarded (OnSticky S.input.stickyTaskQueue) h) ?_ ?_ affinity
  · exact fun S uuids arrived script affinity => onSticky_of_run affinity uuids arrived script
  · intro S S' w h ends here later affinity
    obtain ⟨found, handed, sticky, -⟩ := ends.handover
    have rest := later (handed.trans affinity)
    rw [sticky] at rest
    exact guarded_append.mpr ⟨here affinity, rest.mono fun a e on => on.after found⟩

/-- **Every node activity of a pinned workflow goes to the sticky queue**, the
configured one or the one found last, in every run of every chain. -/
theorem dispatched_on_sticky (affinity : S.input.useWorkerAffinity = true)
    (chained : Chained threshold S h last outcome) : Guarded (OnSticky S.input.stickyTaskQueue) h :=
  onSticky_of_chain affinity chained

/-! ## Failures that come late -/

/-- A search, other than the one a run may begin with, follows the failure of an
activity that was dispatched on the queue found last. -/
def Timely (configured : Option String) (a : List Event) (e : Event) : Prop :=
  e = .discovering →
    (truthy configured = false ∧ ∀ x ∈ a, isReceived x) ∨
      ∃ b input call, a = b ++ [.lost input call] ∧ FoundAll b ∧
        call.taskQueue = lastQueue configured b

/-- The queue was obtained at the end of `b`, from the input or by a search. -/
def Obtained (configured : Option String) (queue : String) (b : List Event) : Prop :=
  (b = [] ∧ configured = some queue ∧ queue ≠ "") ∨ ∃ b', b = b' ++ [.discovered queue]

/-- No activity that was dispatched on the queue has failed. -/
def Lives (queue : String) (c : List Event) : Prop :=
  ∀ input call, .lost input call ∈ c → call.taskQueue ≠ some queue

/-- Once a queue is obtained, activities are dispatched on it as long as its
worker lives. -/
def Stays (configured : Option String) (a : List Event) (e : Event) : Prop :=
  ∀ input call, e = .dispatched input call → ∀ b c queue, a = b ++ c →
    Obtained configured queue b → Lives queue c → call.taskQueue = some queue

/-- No activity fails after the queue it was sent to has been replaced. -/
def OnTime (configured : Option String) (a : List Event) (e : Event) : Prop :=
  ∀ input call, e = .lost input call → FoundAll a → call.taskQueue = lastQueue configured a

def lostCall : Event → Option ActivityCall
  | .lost _ call => some call
  | _ => none

theorem onTime_iff {a : List Event} {e : Event} : OnTime configured a e ↔
    ∀ call ∈ lostCall e, FoundAll a → call.taskQueue = lastQueue configured a := by
  constructor
  · intro onTime call lost
    cases e with
    | lost input call' =>
        cases lost
        exact onTime input call rfl
    | _ => cases lost
  · rintro onTime input call rfl
    exact onTime call rfl

instance (configured : Option String) (a : List Event) (e : Event) :
    Decidable (OnTime configured a e) :=
  decidable_of_iff _ onTime_iff.symm

theorem lives_iff {queue : String} {c : List Event} :
    Lives queue c ↔ ∀ e ∈ c, ∀ call ∈ lostCall e, call.taskQueue ≠ some queue := by
  constructor
  · intro lives e mem call lost
    cases e with
    | lost input call' =>
        cases lost
        exact lives input call mem
    | _ => cases lost
  · exact fun lives input call mem => lives _ mem call rfl

instance (queue : String) (c : List Event) : Decidable (Lives queue c) :=
  decidable_of_iff _ lives_iff.symm

/-! ### Searches follow failures -/

theorem timely_of_early (early : Early S h) : Guarded (Timely S.input.stickyTaskQueue) h :=
  early.searches.mono fun _ _ needed searching => .inl (needed searching).2

/-- A search of the main loop follows a failure. -/
theorem timely_invariant : (workflowMachine S).Invariant fun c =>
    Guarded (OnTime S.input.stickyTaskQueue) c.history →
      Guarded (Timely S.input.stickyTaskQueue) c.history where
  init c initial _ := timely_of_early initial.toEarly
  step c d _ held step onTime := by
    cases step with
    | work works =>
        refine (held onTime.front).snoc fun searching => .inr ?_
        cases works with
        | discover _ _ foundAll lost =>
            obtain ⟨b, input, call, rfl⟩ := lost
            have found : FoundAll b := foundAll.front nofun
            exact ⟨b, input, call, rfl, found, onTime.front.last input call rfl found⟩
        | _ => cases searching
    | move moves =>
        refine (held onTime.front).snoc fun searching => ?_
        cases searching
        cases moves

theorem timely_of_onTime (affinity : S.input.useWorkerAffinity = true)
    (chained : Chained threshold S h last outcome) (onTime : Guarded (OnTime S.input.stickyTaskQueue) h) :
    Guarded (Timely S.input.stickyTaskQueue) h := by
  refine chained.history_holds (P := fun S h => S.input.useWorkerAffinity = true →
    Guarded (OnTime S.input.stickyTaskQueue) h → Guarded (Timely S.input.stickyTaskQueue) h)
    ?_ ?_ affinity onTime
  · intro S uuids arrived script _
    exact executionHistory_holds (P := fun h => Guarded (OnTime S.input.stickyTaskQueue) h →
      Guarded (Timely S.input.stickyTaskQueue) h) (fun h early _ => timely_of_early early)
      (fun c reachable => timely_invariant.holds reachable) threshold uuids arrived script
  · intro S S' w h ends here later affinity onTime
    obtain ⟨found, handed, sticky, set⟩ := ends.handover
    obtain ⟨front, back⟩ := guarded_append.mp onTime
    have backOnTime : Guarded (OnTime S'.input.stickyTaskQueue) h := by
      refine back.mono fun a e onTime input call lost foundAll => ?_
      rw [sticky, ← lastQueue_append]
      exact onTime input call lost (foundAll_append found foundAll)
    have rest := later (handed.trans affinity) backOnTime
    refine guarded_append.mpr ⟨here affinity front, rest.mono fun a e timely searching => ?_⟩
    rcases timely searching with ⟨unset, -⟩ | ⟨b, input, call, rfl, foundAll, queue⟩
    · rw [set affinity] at unset
      cases unset
    · rw [sticky, ← lastQueue_append] at queue
      exact .inr ⟨w.history ++ b, input, call, (List.append_assoc _ _ _).symm,
        foundAll_append found foundAll, queue⟩

/-! ### Searches come one at a time -/

/-- A search begins only when none is going on. -/
def Alone (a : List Event) (e : Event) : Prop := e = .discovering → FoundAll a

theorem alone_of_early (early : Early S h) : Guarded Alone h :=
  early.searches.mono fun _ _ needed searching => foundAll_of_received (needed searching).2.2

theorem alone_of_run (uuids : Nat → String) (arrived : List Signal)
    (script : List (Action Response Signal)) :
    Guarded Alone (executionHistory S threshold uuids arrived script) := by
  refine executionHistory_guarded_of_early (fun h early => alone_of_early early) ?_ ?_ threshold uuids
    arrived script
  · rintro h ph self self' e reachable works rfl
    cases works with
    | discover _ _ foundAll => exact foundAll
  · rintro h ph ph' self self' e reachable moves rfl
    cases moves

theorem searches_of_chain (chained : Chained threshold S h last outcome) : Guarded Alone h ∧ Paired h := by
  refine chained.history_holds (P := fun _ h => Guarded Alone h ∧ Paired h) ?_ ?_
  · intro S uuids arrived script
    exact ⟨alone_of_run uuids arrived script, executionHistory_paired S threshold uuids arrived script⟩
  · rintro S S' w h ends ⟨alone, pairs⟩ ⟨alone', pairs'⟩
    obtain ⟨found, -⟩ := ends.handover
    refine ⟨guarded_append.mpr ⟨alone, alone'.mono fun a e alone searching => ?_⟩,
      paired.append pairs pairs'⟩
    exact foundAll_append found (alone searching)

/-- When no search is going on, each one has found its worker. -/
theorem searches_found (alone : Guarded Alone h) :
    (FoundAll h → h.countP isSearch ≤ h.countP isFind) ∧ h.countP isSearch ≤ h.countP isFind + 1 := by
  induction h using List.reverseRecOn with
  | nil => exact ⟨fun _ => Nat.le_refl _, Nat.zero_le _⟩
  | append_singleton h e ih =>
      obtain ⟨settled, atMost⟩ := ih alone.front
      rw [List.countP_append, List.countP_append]
      cases e with
      | discovering =>
          have before := settled (alone.last rfl)
          refine ⟨fun foundAll => absurd foundAll not_foundAll_discovering, ?_⟩
          change h.countP isSearch + 1 ≤ h.countP isFind + 0 + 1
          omega
      | discovered queue =>
          constructor
          · intro _
            change h.countP isSearch + 0 ≤ h.countP isFind + 1
            omega
          · change h.countP isSearch + 0 ≤ h.countP isFind + 1 + 1
            omega
      | _ => exact ⟨fun foundAll => settled (foundAll.front nofun), atMost⟩

/-- Without a search no worker is found. -/
theorem not_found {b c : List Event} (alone : Guarded Alone (b ++ c)) (pairs : Paired (b ++ c))
    (found : FoundAll b) (none : ∀ e ∈ c, e ≠ .discovering) : ∀ e ∈ c, ∀ queue, e ≠ .discovered queue := by
  have before := (searches_found (guarded_append.mp alone).1).1 found
  have after := pairs (b ++ c) List.prefix_rfl
  have quiet : c.countP isSearch = 0 := by
    refine List.countP_eq_zero.mpr fun e mem search => ?_
    cases e with
    | discovering => exact none _ mem rfl
    | _ => cases search
  rw [List.countP_append, List.countP_append, quiet] at after
  have finds : c.countP isFind = 0 := by omega
  rintro e mem queue rfl
  exact List.countP_eq_zero.mp finds _ mem rfl

/-! ### A worker stays -/

section Stays

variable {b c : List Event} {queue : String}

theorem Obtained.foundAll (obtained : Obtained configured queue b) : FoundAll b := by
  rcases obtained with ⟨rfl, -⟩ | ⟨b', rfl⟩
  · exact after_nil
  · exact foundAll_discovered

theorem Obtained.lastQueue_eq (obtained : Obtained configured queue b) : lastQueue configured b = some queue := by
  rcases obtained with ⟨rfl, same, -⟩ | ⟨b', rfl⟩
  · exact same
  · exact lastQueue_discovered _ _ _

theorem lastQueue_of_quiet_since (alone : Guarded Alone (b ++ c)) (pairs : Paired (b ++ c))
    (obtained : Obtained configured queue b) (none : ∀ e ∈ c, e ≠ .discovering) :
    lastQueue configured (b ++ c) = some queue := by
  rw [lastQueue_append, obtained.lastQueue_eq]
  exact lastQueue_of_quiet (not_found alone pairs obtained.foundAll none)

/-- A queue is not obtained by a failure. -/
theorem Obtained.lost_last {b' : List Event} {input : NodeActivityInput} {call : ActivityCall}
    (obtained : Obtained configured queue b) (split : b ++ c = b' ++ [.lost input call]) :
    ∃ c', c = c' ++ [.lost input call] ∧ b' = b ++ c' := by
  rcases List.append_eq_append_iff.mp split with ⟨c', rfl, rfl⟩ | ⟨d, rfl, rest⟩
  · exact ⟨c', rfl, rfl⟩
  · cases d with
    | nil => exact ⟨[], rest.symm, by simp⟩
    | cons x d =>
        obtain ⟨rfl, none⟩ := List.cons_eq_cons.mp rest
        obtain ⟨rfl, rfl⟩ := List.append_eq_nil_iff.mp none.symm
        rcases obtained with ⟨none, -⟩ | ⟨b'', found⟩
        · exact absurd none (by simp)
        · cases (List.append_inj' found rfl).2

/-- While its worker lives, a queue is not searched for anew. -/
theorem not_searched (timely : Guarded (Timely configured) (b ++ c)) (alone : Guarded Alone (b ++ c))
    (pairs : Paired (b ++ c)) (obtained : Obtained configured queue b) (lives : Lives queue c) :
    ∀ e ∈ c, e ≠ .discovering := by
  induction c using List.reverseRecOn with
  | nil => exact fun e mem => absurd mem List.not_mem_nil
  | append_singleton c e ih =>
      rw [← List.append_assoc] at timely alone pairs
      have earlier := ih timely.front alone.front
        (fun a initial => pairs a (initial.trans (List.prefix_append _ _)))
        (fun input call mem => lives input call (List.mem_append_left _ mem))
      intro x mem
      rcases List.mem_append.mp mem with old | new
      · exact earlier x old
      rw [List.mem_singleton.mp new]
      intro searching
      rcases timely.last searching with ⟨unset, received⟩ | ⟨b', input, call, split, found, sent⟩
      · -- the search a run begins with: no queue was obtained before it
        rcases obtained with ⟨rfl, same, named⟩ | ⟨b', rfl⟩
        · rw [same] at unset
          simp [truthy, named] at unset
        · exact received (.discovered queue) (by simp)
      · obtain ⟨c', rfl, rfl⟩ := obtained.lost_last split
        have front : Guarded Alone (b ++ c') := by
          have whole := alone.front
          rw [← List.append_assoc] at whole
          exact whole.front
        have current : lastQueue configured (b ++ c') = some queue := by
          refine lastQueue_of_quiet_since front (fun a initial => pairs a (initial.trans ?_)) obtained
            fun z mem => earlier z (List.mem_append_left _ mem)
          exact ⟨[.lost input call, e], by simp⟩
        exact lives input call (by simp) (sent.trans current)

end Stays

/-- **When no failure comes late, a worker stays as long as it lives**: a search
follows only a failure on the current queue, and until then all activities go to
that queue, in every run of every chain. -/
theorem pin_stays_of_onTime (affinity : S.input.useWorkerAffinity = true)
    (chained : Chained threshold S h last outcome) (onTime : Guarded (OnTime S.input.stickyTaskQueue) h) :
    Guarded (Timely S.input.stickyTaskQueue) h ∧ Guarded (Stays S.input.stickyTaskQueue) h := by
  have timely := timely_of_onTime affinity chained onTime
  obtain ⟨alone, pairs⟩ := searches_of_chain chained
  refine ⟨timely, ?_⟩
  rintro a e rest rfl input call rfl b c queue rfl obtained lives
  have whole : (b ++ c) <+: b ++ c ++ .dispatched input call :: rest := List.prefix_append _ _
  have timelyHere := (guarded_append.mp timely).1
  have aloneHere := (guarded_append.mp alone).1
  have pairsHere : Paired (b ++ c) := fun a initial => pairs a (initial.trans whole)
  have none := not_searched timelyHere aloneHere pairsHere obtained lives
  obtain ⟨-, onLast, -⟩ := onSticky_of_chain affinity chained (b ++ c) _ rest rfl input call rfl
  rw [onLast]
  exact lastQueue_of_quiet_since aloneHere pairsHere obtained none

section Runs

open Reference

/-- Two tasks of one superstep on the worker that is found first. -/
def bothPinned : Setting Channel where
  env := env (graph [("a", ["in"]), ("b", ["in"])])
  graph := graph [("a", ["in"]), ("b", ["in"])]
  input := { graphDefinitionRef := "graph", inputData := some (.int 0), useWorkerAffinity := true }
  registered := rfl

/-- The worker of both tasks is lost; only the first one notices. -/
def onTimeScript : List (Action Response Signal) :=
  [.answer 0 (.queue "w1"), .answer 0 (.activityError "gone"), .answer 0 (.queue "w2"),
    .answer 0 (.output (pulled "a" [])), .answer 0 (.output (pulled "b" []))]

theorem dispatched_on_sticky_onTimeScript :
    Guarded (OnSticky none) (executionHistory bothPinned none (fun _ => "") [] onTimeScript) :=
  dispatched_on_sticky (S := bothPinned) rfl (.run bothPinned _ _ _)

theorem pin_stays_onTimeScript :
    Guarded (Timely none) (executionHistory bothPinned none (fun _ => "") [] onTimeScript) ∧
      Guarded (Stays none) (executionHistory bothPinned none (fun _ => "") [] onTimeScript) :=
  pin_stays_of_onTime (S := bothPinned) rfl (.run bothPinned _ _ _) (by decide)

/-- The second failure comes when `w2` has been found already. -/
def lateScript : List (Action Response Signal) :=
  [.answer 0 (.queue "w1"), .answer 0 (.activityError "gone"), .answer 0 (.queue "w2"),
    .answer 1 (.activityError "gone"), .answer 1 (.queue "w3"),
    .answer 0 (.output (pulled "a" [])), .answer 0 (.output (pulled "b" []))]

def lateHistory : List Event := executionHistory bothPinned none (fun _ => "") [] lateScript

/-- **A failure on `w1` evicts `w2`**, and the tasks end up on two workers. -/
theorem stale_failure_evicts : ¬Guarded (Timely none) lateHistory ∧ ¬Guarded (Stays none) lateHistory := by
  constructor
  · intro timely
    have search := timely.at 10 (by decide) rfl
    rcases search with ⟨-, received⟩ | ⟨b, input, call, split, -, sent⟩
    · have first : isReceived .discovering := received (lateHistory.take 10)[0] (List.getElem_mem _)
      exact first
    · have failed : ((lateHistory.take 10).getLast?.bind lostCall).map ActivityCall.taskQueue =
          some (some "w1") := rfl
      have before : lastQueue none (lateHistory.take 10).dropLast = some "w2" := rfl
      rw [split] at failed before
      simp only [List.getLast?_append, List.getLast?_singleton, Option.some_or, Option.bind_some, lostCall,
        Option.map_some, Option.some.injEq] at failed
      rw [List.dropLast_concat, ← sent, failed] at before
      exact absurd before (by decide)
  · intro stays
    have sent := stays.at 12 (by decide) _ _ rfl (lateHistory.take 8) ((lateHistory.take 12).drop 8) "w2" rfl
      (.inr ⟨lateHistory.take 7, rfl⟩) (by decide)
    change some "w3" = some "w2" at sent
    exact absurd sent (by decide)

end Runs

end LanggraphTemporal.Properties
