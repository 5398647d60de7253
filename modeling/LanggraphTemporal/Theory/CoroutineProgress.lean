/-
# Theory.CoroutineProgress -- coroutines that come to an end

A coroutine is `Attentive` if it never waits for nothing; a replay of it that is
blocked then waits for some request (`replay_attentive`).

An answer makes a coroutine go on inside itself.  This cannot go on for ever
(`inside_wellFounded`), so a coroutine has a `rank`, and what a replay has come to
has a `distance` from its end.  Every answer lowers it (`distance_answered`), and
no signal raises it (`distance_signalled`).
-/
import LanggraphTemporal.Theory.CoroutineOracle
import LanggraphTemporal.Theory.CoroutineSteps
import Mathlib.SetTheory.Ordinal.Rank

namespace LanggraphTemporal.Theory

set_option autoImplicit false

variable {σ Q R G ε α β ι : Type}

namespace Coro

/-! ## Waiting for something -/

/-- Whenever the coroutine waits, it waits for something. -/
def Attentive : Coro σ Q R ε α → Prop
  | .ret _ => True
  | .raise _ => True
  | .get k => ∀ s, Attentive (k s)
  | .put _ k => Attentive k
  | .await qs k => qs ≠ [] ∧ ∀ i r, Attentive (k i r)

namespace Attentive

theorem bind {c : Coro σ Q R ε α} {f : α → Coro σ Q R ε β} (first : Attentive c)
    (next : ∀ a, Attentive (f a)) : Attentive (c.bind f) := by
  induction c with
  | ret a => exact next a
  | raise e => trivial
  | get k ih => exact fun s => ih s (first s)
  | put s k ih => exact ih first
  | await qs k ih => exact ⟨first.1, fun i r => ih i r (first.2 i r)⟩

theorem request (q : Q) : Attentive (Coro.request q : Coro σ Q R ε R) :=
  ⟨List.cons_ne_nil q [], fun _ _ => trivial⟩

theorem attempt {c : Coro σ Q R ε α} (attentive : Attentive c) : Attentive c.attempt := by
  induction c with
  | ret a => trivial
  | raise e => trivial
  | get k ih => exact fun s => ih s (attentive s)
  | put s k ih => exact ih attentive
  | await qs k ih => exact ⟨attentive.1, fun i r => ih i r (attentive.2 i r)⟩

theorem parBlocked {qs : List Q} {resume : Nat → R → Coro σ Q R ε β → Coro σ Q R ε (α × β)}
    {d : Coro σ Q R ε β} (some : qs ≠ [])
    (next : ∀ i r (d : Coro σ Q R ε β), Attentive d → Attentive (resume i r d)) (right : Attentive d) :
    Attentive (Coro.parBlocked qs resume d) := by
  induction d with
  | ret b => exact ⟨some, fun i r => next i r _ right⟩
  | raise e => trivial
  | get k ih => exact fun s => ih s (right s)
  | put s k ih => exact ih right
  | await qs' k ih =>
      refine ⟨fun none => some (List.append_eq_nil_iff.mp none).1, fun i r => ?_⟩
      by_cases left : i < qs.length
      · simp only [left, if_true]
        exact next i r _ right
      · simp only [left, if_false]
        exact ih _ r (right.2 _ r)

theorem par {c : Coro σ Q R ε α} {d : Coro σ Q R ε β} (left : Attentive c) (right : Attentive d) :
    Attentive (Coro.par c d) := by
  induction c generalizing d with
  | ret a => exact right.bind fun _ => trivial
  | raise e => trivial
  | get k ih => exact fun s => ih s (left s) right
  | put s k ih => exact ih left right
  | await qs k ih => exact parBlocked left.1 (fun i r d right => ih i r (left.2 i r) right) right

theorem gather {f : ι → Coro σ Q R ε α} (each : ∀ x, Attentive (f x)) (xs : List ι) :
    Attentive (Coro.gather (xs.map f)) := by
  induction xs with
  | nil => trivial
  | cons x xs ih => exact ((each x).par ih).bind fun _ => trivial

end Attentive

/-! ## Going on inside -/

/-- `c` is what is left of a coroutine later on. -/
def Inside (c : Coro σ Q R ε α) : Coro σ Q R ε α → Prop
  | .ret _ => False
  | .raise _ => False
  | .get k => ∃ s, c = k s ∨ Inside c (k s)
  | .put _ k => c = k ∨ Inside c k
  | .await _ k => ∃ i r, c = k i r ∨ Inside c (k i r)

theorem inside_wellFounded : WellFounded (Inside : Coro σ Q R ε α → Coro σ Q R ε α → Prop) := by
  -- what is left of an accessible coroutine, or is all of it, is accessible
  have part {c d : Coro σ Q R ε α} (acc : Acc Inside d) (left : c = d ∨ Inside c d) : Acc Inside c := by
    rcases left with rfl | inside
    · exact acc
    · exact acc.inv inside
  refine ⟨fun d => ?_⟩
  induction d with
  | ret a => exact ⟨_, fun c inside => inside.elim⟩
  | raise e => exact ⟨_, fun c inside => inside.elim⟩
  | get k ih => exact ⟨_, fun c ⟨s, left⟩ => part (ih s) left⟩
  | put s k ih => exact ⟨_, fun c left => part ih left⟩
  | await qs k ih => exact ⟨_, fun c ⟨i, r, left⟩ => part (ih i r) left⟩

instance : IsWellFounded (Coro σ Q R ε α) Inside := ⟨inside_wellFounded⟩

/-- How far a coroutine is from its end. -/
noncomputable def rank (c : Coro σ Q R ε α) : Ordinal := IsWellFounded.rank Inside c

end Coro

/-- How far from its end a replay has come. -/
noncomputable def Outcome.distance : Outcome σ Q R G ε α → Ordinal
  | .blocked qs k _ => Order.succ (Coro.await qs k).rank
  | _ => 0

namespace System

open Coro

variable {S : System σ Q R G ε}

theorem wait_attentive {qs qs' : List Q} {k k' : Nat → R → Coro σ Q R ε α} {t : σ}
    {go : Nat → R → List (Action R G) → σ → Outcome σ Q R G ε α} (some : qs ≠ [])
    (run : ∀ i r script s, go i r script s = .blocked qs' k' t → qs' ≠ []) :
    ∀ (script : List (Action R G)) (s : σ), S.wait qs k go script s = .blocked qs' k' t → qs' ≠ []
  | script, s, blocked => by
      unfold wait at blocked
      split at blocked
      · exact run _ _ _ _ blocked
      · cases script with
        | nil =>
            cases blocked
            exact some
        | cons action rest =>
            cases action with
            | signals gs =>
                dsimp only at blocked
                split at blocked
                · exact wait_attentive some run rest _ blocked
                · cases blocked
            | answer i r =>
                dsimp only at blocked
                split at blocked
                · exact run _ _ _ _ blocked
                · cases blocked

/-- A replay that is blocked waits for something. -/
theorem replay_attentive {qs : List Q} {k : Nat → R → Coro σ Q R ε α} {t : σ} {c : Coro σ Q R ε α}
    (attentive : Attentive c) :
    ∀ (script : List (Action R G)) (s : σ), S.replay c script s = .blocked qs k t → qs ≠ [] := by
  induction c with
  | ret a => exact fun _ _ blocked => by cases blocked
  | raise e => exact fun _ _ blocked => by cases blocked
  | get k ih => exact fun script s blocked => ih s (attentive s) script s blocked
  | put s k ih => exact fun script _ blocked => ih attentive script s blocked
  | await qs k ih => exact wait_attentive attentive.1 fun i r script s => ih i r (attentive.2 i r) script s

theorem wait_inside {qs qs' : List Q} {k k' : Nat → R → Coro σ Q R ε α} {t : σ}
    {go : Nat → R → List (Action R G) → σ → Outcome σ Q R G ε α}
    (run : ∀ i r script s, go i r script s = .blocked qs' k' t →
      .await qs' k' = k i r ∨ Inside (.await qs' k') (k i r)) :
    ∀ (script : List (Action R G)) (s : σ), S.wait qs k go script s = .blocked qs' k' t →
      (.await qs' k' : Coro σ Q R ε α) = .await qs k ∨ Inside (.await qs' k') (.await qs k)
  | script, s, blocked => by
      unfold wait at blocked
      split at blocked
      · exact .inr ⟨_, _, run _ _ _ _ blocked⟩
      · cases script with
        | nil =>
            cases blocked
            exact .inl rfl
        | cons action rest =>
            cases action with
            | signals gs =>
                dsimp only at blocked
                split at blocked
                · exact wait_inside run rest _ blocked
                · cases blocked
            | answer i r =>
                dsimp only at blocked
                split at blocked
                · exact .inr ⟨_, _, run _ _ _ _ blocked⟩
                · cases blocked

/-- What a blocked replay waits in is left of its coroutine. -/
theorem replay_inside {qs : List Q} {k : Nat → R → Coro σ Q R ε α} {t : σ} (c : Coro σ Q R ε α) :
    ∀ (script : List (Action R G)) (s : σ), S.replay c script s = .blocked qs k t →
      .await qs k = c ∨ Inside (.await qs k) c := by
  induction c with
  | ret a => exact fun _ _ blocked => by cases blocked
  | raise e => exact fun _ _ blocked => by cases blocked
  | get k ih => exact fun script s blocked => .inr ⟨s, ih s script s blocked⟩
  | put s k ih => exact fun script _ blocked => .inr (ih script s blocked)
  | await qs k ih => exact wait_inside ih

theorem rank_of_part {c d : Coro σ Q R ε α} (part : c = d ∨ Inside c d) : c.rank ≤ d.rank := by
  rcases part with rfl | inside
  · exact le_rfl
  · exact (IsWellFounded.rank_lt_of_rel inside).le

theorem distance_replay (c : Coro σ Q R ε α) (script : List (Action R G)) (s : σ) :
    (S.replay c script s).distance ≤ Order.succ c.rank := by
  cases outcome : S.replay c script s with
  | blocked qs k t => exact Order.succ_le_succ (rank_of_part (replay_inside c script s outcome))
  | _ => exact zero_le

/-- What goes on is nearer to its end. -/
theorem distance_resumed (qs : List Q) (k : Nat → R → Coro σ Q R ε α) (i : Nat) (r : R)
    (script : List (Action R G)) (s : σ) :
    (S.replay (k i r) script s).distance < Order.succ (Coro.await qs k).rank := by
  have inside : Inside (k i r) (.await qs k) := ⟨i, r, .inl rfl⟩
  have lower : (k i r).rank < (Coro.await qs k).rank := IsWellFounded.rank_lt_of_rel inside
  exact (distance_replay _ script s).trans_lt (Order.succ_lt_succ lower)

/-- **An answer brings it nearer to its end.** -/
theorem distance_answered {qs : List Q} {k : Nat → R → Coro σ Q R ε α} {s : σ} {i : Nat} {r : R}
    (asleep : S.firstReady s 0 qs = none) :
    (S.replay (.await qs k) [.answer i r] s).distance <
      (Outcome.blocked qs k s : Outcome σ Q R G ε α).distance := by
  by_cases answered : S.answers qs i r s = true
  · rw [replay_answer asleep answered]
    exact distance_resumed qs k i r [] s
  · have refused : S.replay (.await qs k) [.answer i r] s = .refused := by
      show S.wait qs k _ [.answer i r] s = _
      unfold wait
      rw [asleep]
      exact if_neg answered
    rw [refused]
    exact Order.bot_lt_succ _

/-- Signals bring it nearer to its end, or leave it waiting for the same. -/
theorem distance_signalled {qs : List Q} {k : Nat → R → Coro σ Q R ε α} {s : σ} {gs : List G}
    (asleep : S.firstReady s 0 qs = none) :
    (S.replay (.await qs k) [.signals gs] s).distance <
        (Outcome.blocked qs k s : Outcome σ Q R G ε α).distance ∨
      ∃ t, S.replay (.await qs k) [.signals gs] s = .blocked qs k t := by
  cases delivered : S.deliver gs s with
  | error failure =>
      have failed : S.replay (.await qs k) [.signals gs] s = .failed failure.1 failure.2 := by
        show S.wait qs k _ [.signals gs] s = _
        unfold wait
        rw [asleep]
        simp only [delivered]
      rw [failed]
      exact .inl (Order.bot_lt_succ _)
  | ok t =>
      rw [replay_signals asleep delivered]
      cases ready : S.firstReady t 0 qs with
      | none => exact .inr ⟨t, replay_waits ready⟩
      | some answer =>
          rw [replay_ready ready]
          exact .inl (distance_resumed qs k _ _ [] t)

/-- An answer that is permitted is accepted. -/
theorem answer_accepted {qs : List Q} {k : Nat → R → Coro σ Q R ε α} {s : σ} {i : Nat} {r : R} {q : Q}
    (asleep : S.firstReady s 0 qs = none) (asked : qs[i]? = some q) (permitted : S.permits q r s = true) :
    S.replay (.await qs k) [.answer i r] s ≠ .refused := by
  have answered : S.answers qs i r s = true := by
    unfold answers
    rw [asked]
    exact permitted
  rw [replay_answer asleep answered]
  exact replay_accepted (k i r) [] s rfl

end System

end LanggraphTemporal.Theory
