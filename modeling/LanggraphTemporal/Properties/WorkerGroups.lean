/-
# Properties.WorkerGroups -- starting and stopping a group of workers

A `WorkerGroup` enters its workers in order and exits them in reverse, without
handlers.  When a worker raises on entry, those before it have been entered, and
none is exited (`aenter_raises`); when one raises on exit, those before it are not
exited (`aexit_raises`).  So a group is all or nothing exactly if on entry no
worker raises or the first one does, and on exit none but the first, which comes
last (`all_or_nothing_iff`).
-/
import LanggraphTemporal.Model.Worker
import Mathlib.Data.List.Count

namespace LanggraphTemporal.Properties

set_option autoImplicit false

open Theory Model

section Groups

variable {W ε : Type} {group : WorkerGroup W} {enterRaises exitRaises : Nat → Option ε}

/-- A group is started as a whole or not at all, and stopped as a whole. -/
structure AllOrNothing (group : WorkerGroup W) (enterRaises exitRaises : Nat → Option ε) : Prop where
  /-- If it raises on entry, what has been entered has been exited. -/
  enter : (group.aenter enterRaises).raised ≠ none → ∀ p,
    .entered p ∈ (group.aenter enterRaises).events → .exited p ∈ (group.aenter enterRaises).events
  /-- Every worker is exited once. -/
  exit : ∀ p < group.workers.length, (group.aexit exitRaises).events.count (.exited p) = 1

/-- The positions below one, and those above it. -/
theorem range_split {n p : Nat} (below : p < n) :
    List.range n = List.range p ++ p :: List.range' (p + 1) (n - p - 1) := by
  have total : n = p + (n - p - 1 + 1) := by omega
  conv_lhs => rw [total, List.range_eq_range', ← List.range'_append_1, ← List.range_eq_range', Nat.zero_add,
    List.range'_succ]

/-- A start that fails leaves the workers before the one that has raised. -/
theorem aenter_raises {p : Nat} {e : ε} (below : p < group.workers.length)
    (before : ∀ q < p, enterRaises q = none) (here : enterRaises p = some e) :
    group.aenter enterRaises = ⟨(List.range p).map .entered, some e⟩ := by
  have front : ∀ q ∈ List.range p, enterRaises q = none := fun q mem => before q (List.mem_range.mp mem)
  rw [WorkerGroup.aenter, range_split below, Loop.run_append_cons front here]
  rfl

/-- A stop that fails leaves them too. -/
theorem aexit_raises {p : Nat} {e : ε} (below : p < group.workers.length)
    (after : ∀ q < group.workers.length, p < q → exitRaises q = none) (here : exitRaises p = some e) :
    group.aexit exitRaises =
      ⟨(List.range' p (group.workers.length - p)).reverse.map .exited, some e⟩ := by
  have front : ∀ q ∈ (List.range' (p + 1) (group.workers.length - p - 1)).reverse, exitRaises q = none := by
    intro q mem
    rw [List.mem_reverse, List.mem_range'_1] at mem
    exact after q (by omega) (by omega)
  have positions : List.range' p (group.workers.length - p) =
      p :: List.range' (p + 1) (group.workers.length - p - 1) := by
    rw [← List.range'_succ]
    congr 1
    omega
  have run := @Loop.run_append_cons _ _ exitRaises _ (List.range p).reverse _ _ front here
  rw [WorkerGroup.aexit, range_split below, List.reverse_append, List.reverse_cons, List.append_assoc,
    List.singleton_append, run, positions, List.reverse_cons]
  rfl

theorem aenter_raised : (group.aenter enterRaises).raised ≠ none ↔
    ¬∀ p < group.workers.length, enterRaises p = none := by
  have quiet : (Loop.run enterRaises (List.range group.workers.length)).raised = none ↔
      ∀ p < group.workers.length, enterRaises p = none := by
    simp only [Loop.raised_eq_none, List.mem_range]
  rw [← quiet]
  simp [WorkerGroup.aenter]

/-- Nobody is entered if the first one raises, or there is none. -/
theorem aenter_enters_none : (∀ p, .entered p ∉ (group.aenter enterRaises).events) ↔
    (0 < group.workers.length → enterRaises 0 ≠ none) := by
  have nothing : (∀ p, .entered p ∉ (group.aenter enterRaises).events) ↔
      (Loop.run enterRaises (List.range group.workers.length)).returned = [] := by
    simp [WorkerGroup.aenter, List.eq_nil_iff_forall_not_mem]
  rw [nothing, Loop.returned_eq_nil]
  cases group.workers.length with
  | zero => simp
  | succ n => simp [List.range_succ_eq_map]

theorem enter_iff :
    ((group.aenter enterRaises).raised ≠ none → ∀ p,
      .entered p ∈ (group.aenter enterRaises).events → .exited p ∈ (group.aenter enterRaises).events) ↔
      (∀ p < group.workers.length, enterRaises p = none) ∨
        0 < group.workers.length ∧ enterRaises 0 ≠ none := by
  -- Nothing is exited on entry, so nothing may have been entered.
  have exited (p : Nat) : .exited p ∉ (group.aenter enterRaises).events := by
    simp [WorkerGroup.aenter]
  simp only [exited, imp_false]
  rw [aenter_enters_none, aenter_raised]
  constructor
  · intro undone
    by_cases all : ∀ p < group.workers.length, enterRaises p = none
    · exact .inl all
    · obtain ⟨p, failed⟩ := not_forall.mp all
      have pos : 0 < group.workers.length := by
        by_contra empty
        exact failed fun below => by omega
      exact .inr ⟨pos, undone all pos⟩
  · rintro (all | ⟨-, here⟩) some
    · exact absurd all some
    · exact fun _ => here

theorem exit_iff :
    (∀ p < group.workers.length, (group.aexit exitRaises).events.count (.exited p) = 1) ↔
      ∀ p < group.workers.length, 0 < p → exitRaises p = none := by
  have injective : Function.Injective GroupEvent.exited := fun _ _ same => GroupEvent.exited.inj same
  have nodup : (List.range group.workers.length).reverse.Nodup := List.nodup_reverse.mpr List.nodup_range
  have last (p : Nat) : p ∈ (List.range group.workers.length).reverse.dropLast ↔
      p < group.workers.length ∧ 0 < p := by
    rw [List.dropLast_reverse, List.mem_reverse, List.range_eq_range', List.tail_range', List.mem_range'_1]
    omega
  have whole := @Loop.count_called_iff _ _ exitRaises _ _ nodup
  simp only [List.mem_reverse, List.mem_range] at whole
  simp only [WorkerGroup.aexit, List.count_map_of_injective _ _ injective]
  rw [whole, Loop.called_eq_iff]
  simp only [last, and_imp]

/-- **A group is all or nothing if and only if on entry no worker raises or the
first one does, and on exit no other worker than the first raises.** -/
theorem all_or_nothing_iff (group : WorkerGroup W) (enterRaises exitRaises : Nat → Option ε) :
    AllOrNothing group enterRaises exitRaises ↔
      ((∀ p < group.workers.length, enterRaises p = none) ∨
        0 < group.workers.length ∧ enterRaises 0 ≠ none) ∧
        ∀ p < group.workers.length, 0 < p → exitRaises p = none := by
  rw [← enter_iff, ← exit_iff]
  exact ⟨fun ⟨enter, exit⟩ => ⟨enter, exit⟩, fun ⟨enter, exit⟩ => ⟨enter, exit⟩⟩

end Groups

/-- The two workers of `create_worker`, by their queues. -/
def queuePair : WorkerGroup String := ⟨["queue", "queue-worker-0f3c9a4be1d2"]⟩

def secondRaises (p : Nat) : Option String := if p = 1 then some "RuntimeError" else none

/-- **The shared worker is left running**, when the other one cannot be started,
and when it cannot be stopped. -/
theorem shared_worker_left :
    ¬AllOrNothing queuePair secondRaises (fun _ => none) ∧
      ¬AllOrNothing queuePair (fun _ => none) secondRaises := by
  constructor
  · intro whole
    have undone := whole.enter (by decide) 0 (by decide)
    revert undone
    decide
  · intro whole
    have once := whole.exit 0 (by decide)
    revert once
    decide

end LanggraphTemporal.Properties
