/-
# Theory.Descent -- many weights that cannot sink for ever

A system of parts comes to rest if every part has a weight in a well-founded
order, and whatever happens replaces a part by lighter ones.  The weights of all
parts then sink in the order of Dershowitz and Manna: when one part is replaced
(`replaced_lt`), and when parts get lighter and a new one comes that is lighter
than one of them was (`added_lt`).  What only ever sinks comes to rest (`settles`).
-/
import Mathlib.Data.Multiset.DershowitzManna
import Mathlib.Order.WellFounded

namespace LanggraphTemporal.Theory

set_option autoImplicit false

open Multiset

variable {α : Type*} {ι : Type}

/-- A part of a system in which one has been replaced. -/
theorem mem_replaced {front back : List ι} {x y z : ι} (mem : z ∈ front ++ y :: back) :
    z = y ∨ z ∈ front ++ x :: back := by
  rcases List.mem_append.mp mem with inFront | rest
  · exact .inr (List.mem_append_left _ inFront)
  rcases List.mem_cons.mp rest with here | inBack
  · exact .inl here
  · exact .inr (List.mem_append_right _ (List.mem_cons_of_mem _ inBack))

/-- The weights of the parts. -/
def weights (weight : ι → α) (xs : List ι) : Multiset α := (xs.map weight : List α)

variable {f g : ι → α}

theorem weights_congr {xs : List ι} (same : ∀ x ∈ xs, g x = f x) : weights g xs = weights f xs := by
  unfold weights
  rw [List.map_congr_left same]

theorem weights_append (xs ys : List ι) : weights f (xs ++ ys) = weights f xs + weights f ys := by
  unfold weights
  rw [List.map_append, coe_add]

theorem weights_split (f : ι → α) (p : ι → Bool) (xs : List ι) :
    weights f xs = weights f (xs.filter p) + weights f (xs.filter fun x => !p x) := by
  rw [← weights_append]
  unfold weights
  exact coe_eq_coe.mpr ((List.filter_append_perm p xs).map f).symm

theorem weights_around (h : ι → α) (front back : List ι) (x : ι) :
    weights h (front ++ x :: back) = weights h (front ++ back) + {h x} := by
  refine (coe_eq_coe.mpr ?_ : _ = ((front ++ back).map h : Multiset α) + ([h x] : List α))
  rw [List.map_append, List.map_append, List.map_cons]
  exact List.perm_middle.trans (List.perm_append_singleton _ _).symm

/-- One part is replaced by another of the same weight. -/
theorem replaced_eq {front back : List ι} {x y : ι} (equal : g y = f x)
    (same : ∀ z ∈ front ++ back, g z = f z) :
    weights g (front ++ y :: back) = weights f (front ++ x :: back) := by
  rw [weights_around, weights_around, weights_congr same, equal]

variable [LinearOrder α]

/-- One part is replaced by a lighter one. -/
theorem replaced_lt {front back : List ι} {x y : ι} (lighter : g y < f x)
    (same : ∀ z ∈ front ++ back, g z = f z) :
    IsDershowitzMannaLT (weights g (front ++ y :: back)) (weights f (front ++ x :: back)) := by
  refine ⟨weights f (front ++ back), {g y}, {f x}, singleton_ne_zero _, ?_, weights_around f _ _ x, ?_⟩
  · rw [weights_around g, weights_congr same]
  · intro a mem
    rw [mem_singleton.mp mem]
    exact ⟨f x, mem_singleton_self _, lighter⟩

/-- No part gets heavier, one gets lighter, and a new one comes that is lighter
than that one was. -/
theorem added_lt {xs : List ι} {x new : ι} (mem : x ∈ xs) (lighter : g x < f x)
    (no_heavier : ∀ y ∈ xs, g y ≤ f y) (light : g new < f x) :
    IsDershowitzMannaLT (weights g (new :: xs)) (weights f xs) := by
  have changes : x ∈ xs.filter fun y => !decide (g y = f y) :=
    List.mem_filter.mpr ⟨mem, by simpa using lighter.ne⟩
  refine ⟨weights f (xs.filter fun y => decide (g y = f y)),
    weights g (new :: xs.filter fun y => !decide (g y = f y)),
    weights f (xs.filter fun y => !decide (g y = f y)), ?_, ?_, weights_split f _ xs, ?_⟩
  · intro none
    have some : f x ∈ weights f (xs.filter fun y => !decide (g y = f y)) :=
      mem_coe.mpr (List.mem_map_of_mem changes)
    rw [none] at some
    exact notMem_zero _ some
  · have kept : weights g (xs.filter fun y => decide (g y = f y)) =
        weights f (xs.filter fun y => decide (g y = f y)) :=
      weights_congr fun y mem => of_decide_eq_true (List.mem_filter.mp mem).2
    have all : weights g (new :: xs) = weights g [new] + weights g xs := weights_append [new] xs
    have changed : weights g (new :: xs.filter fun y => !decide (g y = f y)) =
        weights g [new] + weights g (xs.filter fun y => !decide (g y = f y)) := weights_append [new] _
    rw [all, changed, weights_split g (fun y => decide (g y = f y)) xs, kept, add_left_comm]
  · intro a mem
    obtain ⟨y, from_y, rfl⟩ := List.mem_map.mp (mem_coe.mp mem)
    rcases List.mem_cons.mp from_y with rfl | old
    · exact ⟨f x, mem_coe.mpr (List.mem_map_of_mem changes), light⟩
    · obtain ⟨member, differs⟩ := List.mem_filter.mp old
      have differs : g y ≠ f y := by simpa using differs
      exact ⟨f y, mem_coe.mpr (List.mem_map_of_mem old), lt_of_le_of_ne (no_heavier y member) differs⟩

/-- Fewer satisfy what implies the other, and is false once where that is true. -/
theorem countP_lt {p q : ι → Bool} {xs : List ι} {x : ι} (mem : x ∈ xs) (implied : ∀ y ∈ xs, p y = true → q y = true)
    (fails : ¬p x = true) (holds : q x = true) : xs.countP p < xs.countP q := by
  obtain ⟨front, back, rfl⟩ := List.append_of_mem mem
  have before : front.countP p ≤ front.countP q :=
    List.countP_mono_left fun y mem => implied y (List.mem_append_left _ mem)
  have after : back.countP p ≤ back.countP q :=
    List.countP_mono_left fun y mem => implied y (List.mem_append_right _ (List.mem_cons_of_mem _ mem))
  rw [List.countP_append, List.countP_append, List.countP_cons_of_neg fails, List.countP_cons_of_pos holds]
  omega

/-- **What only ever sinks comes to rest.** -/
theorem settles {β : Type*} {r : β → β → Prop} (wellFounded : WellFounded r) (f : Nat → β)
    (sinks : ∀ n, f (n + 1) = f n ∨ r (f (n + 1)) (f n)) : ∃ n, ∀ m ≥ n, f m = f n := by
  obtain ⟨_, ⟨n, rfl⟩, least⟩ := wellFounded.has_min (Set.range f) ⟨_, 0, rfl⟩
  refine ⟨n, fun m later => ?_⟩
  induction m, later using Nat.le_induction with
  | base => rfl
  | succ m _ ih =>
      rcases sinks m with same | sinks
      · rw [same, ih]
      · rw [ih] at sinks
        exact absurd sinks (least _ ⟨m + 1, rfl⟩)

end LanggraphTemporal.Theory
