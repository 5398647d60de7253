/-
# Theory.Loop -- loops that stop at the first exception

A loop that calls a function on each element of a list, without handlers.  The
calls return one after another until one raises; what comes after it in the list
is not called.
-/
import Mathlib.Data.List.Nodup
import Mathlib.Data.List.Perm.Subperm

namespace LanggraphTemporal.Theory

set_option autoImplicit false

/-- What a loop has done. -/
structure Loop (α ε : Type) where
  /-- The elements whose call has returned. -/
  returned : List α
  /-- The element whose call has raised, and what. -/
  raised : Option (α × ε)

namespace Loop

variable {α ε : Type} {raises : α → Option ε} {as : List α}

def run (raises : α → Option ε) : List α → Loop α ε
  | [] => ⟨[], none⟩
  | a :: as =>
      match raises a with
      | some e => ⟨[], some (a, e)⟩
      | none => ⟨a :: (run raises as).returned, (run raises as).raised⟩

/-- The elements that have been called. -/
def called (loop : Loop α ε) : List α := loop.returned ++ (loop.raised.map Prod.fst).toList

theorem run_cons_raises {a : α} {e : ε} (here : raises a = some e) :
    run raises (a :: as) = ⟨[], some (a, e)⟩ := by
  rw [run, here]

theorem run_cons_returns {a : α} (here : raises a = none) :
    run raises (a :: as) = ⟨a :: (run raises as).returned, (run raises as).raised⟩ := by
  rw [run, here]

/-- The loop ends at the first element that raises. -/
theorem run_append_cons {front back : List α} {a : α} {e : ε} (before : ∀ x ∈ front, raises x = none)
    (here : raises a = some e) : run raises (front ++ a :: back) = ⟨front, some (a, e)⟩ := by
  induction front with
  | nil => exact run_cons_raises here
  | cons x front ih =>
      have rest := ih fun y mem => before y (List.mem_cons_of_mem _ mem)
      rw [List.cons_append, run_cons_returns (before x List.mem_cons_self), rest]

theorem raised_eq_none : (run raises as).raised = none ↔ ∀ a ∈ as, raises a = none := by
  induction as with
  | nil => simp [run]
  | cons a as ih =>
      cases here : raises a with
      | some e => simp [run_cons_raises here, here]
      | none => simp [run_cons_returns here, here, ih]

/-- Nothing has returned: the first call, if there is one, has raised. -/
theorem returned_eq_nil : (run raises as).returned = [] ↔ ∀ a, as.head? = some a → raises a ≠ none := by
  cases as with
  | nil => simp [run]
  | cons a as =>
      cases here : raises a with
      | some e => simp [run_cons_raises here, here]
      | none => simp [run_cons_returns here, here]

theorem called_cons_raises {a : α} {e : ε} (here : raises a = some e) :
    (run raises (a :: as)).called = [a] := by
  rw [run_cons_raises here]
  rfl

theorem called_cons_returns {a : α} (here : raises a = none) :
    (run raises (a :: as)).called = a :: (run raises as).called := by
  rw [run_cons_returns here]
  rfl

theorem called_sublist : (run raises as).called.Sublist as := by
  induction as with
  | nil => exact .slnil
  | cons a as ih =>
      cases here : raises a with
      | some e =>
          rw [called_cons_raises here]
          exact (List.nil_sublist as).cons_cons a
      | none =>
          rw [called_cons_returns here]
          exact ih.cons_cons a

/-- All are called exactly when none before the last one raises. -/
theorem called_eq_iff : (run raises as).called = as ↔ ∀ a ∈ as.dropLast, raises a = none := by
  induction as with
  | nil => simp [run, called]
  | cons a as ih =>
      cases as with
      | nil =>
          cases here : raises a with
          | some e => simp [called_cons_raises here]
          | none =>
              rw [called_cons_returns here]
              simp [run, called]
      | cons b as =>
          cases here : raises a with
          | some e => simp [called_cons_raises here, here]
          | none => simp [called_cons_returns here, here, ih]

/-- Each is called once exactly when all are called. -/
theorem count_called_iff [DecidableEq α] (nodup : as.Nodup) :
    (∀ a ∈ as, (run raises as).called.count a = 1) ↔ (run raises as).called = as := by
  constructor
  · intro once
    refine called_sublist.eq_of_length_le (List.Subperm.length_le ?_)
    refine List.subperm_of_subset nodup fun a mem => List.count_pos_iff.mp ?_
    rw [once a mem]
    exact Nat.one_pos
  · intro all a mem
    rw [all, List.count_eq_one_of_mem nodup mem]

end Loop

end LanggraphTemporal.Theory
