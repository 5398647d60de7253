/-
# Theory.CoroutineRequests -- coroutines up to a change of their requests

Two coroutines may do the same except for some part of what they ask, a part
that the environment does not look at.  `mapRequests f` replaces every request
by what `f` makes of it; when `f` is invisible to a system (`Invisible`), the
coroutine comes to the same with its requests replaced (`replay_mapRequests`).
So it is enough to compare the two coroutines after they have been replaced.
-/
import LanggraphTemporal.Theory.Coroutine

namespace LanggraphTemporal.Theory

set_option autoImplicit false

variable {σ Q Q' R G ε α β ι : Type}

namespace Coro

/-- Every request replaced. -/
def mapRequests (f : Q → Q') : Coro σ Q R ε α → Coro σ Q' R ε α
  | .ret a => .ret a
  | .raise e => .raise e
  | .get k => .get fun s => (k s).mapRequests f
  | .put s k => .put s (k.mapRequests f)
  | .await qs k => .await (qs.map f) fun i r => (k i r).mapRequests f

variable {f : Q → Q'}

theorem mapRequests_bind (c : Coro σ Q R ε α) (g : α → Coro σ Q R ε β) :
    (c.bind g).mapRequests f = (c.mapRequests f).bind fun a => (g a).mapRequests f := by
  induction c with
  | ret a => rfl
  | raise e => rfl
  | get k ih => simp only [bind, mapRequests, ih]
  | put s k ih => simp only [bind, mapRequests, ih]
  | await qs k ih => simp only [bind, mapRequests, ih]

theorem mapRequests_attempt (c : Coro σ Q R ε α) :
    c.attempt.mapRequests f = (c.mapRequests f).attempt := by
  induction c with
  | ret a => rfl
  | raise e => rfl
  | get k ih => simp only [attempt, mapRequests, ih]
  | put s k ih => simp only [attempt, mapRequests, ih]
  | await qs k ih => simp only [attempt, mapRequests, ih]

theorem mapRequests_parBlocked {qs : List Q}
    {resume : Nat → R → Coro σ Q R ε β → Coro σ Q R ε (α × β)}
    {resume' : Nat → R → Coro σ Q' R ε β → Coro σ Q' R ε (α × β)}
    (same : ∀ i r d, (resume i r d).mapRequests f = resume' i r (d.mapRequests f))
    (d : Coro σ Q R ε β) :
    (parBlocked qs resume d).mapRequests f = parBlocked (qs.map f) resume' (d.mapRequests f) := by
  induction d with
  | ret b => simp only [parBlocked, mapRequests, same]
  | raise e => rfl
  | get k ih => simp only [parBlocked, mapRequests, ih]
  | put s k ih => simp only [parBlocked, mapRequests, ih]
  | await qs' k ih =>
      simp only [parBlocked, mapRequests, List.map_append, List.length_map]
      congr 1
      funext i r
      split
      · rw [same]
        rfl
      · rw [ih]

theorem mapRequests_par (c : Coro σ Q R ε α) (d : Coro σ Q R ε β) :
    (par c d).mapRequests f = par (c.mapRequests f) (d.mapRequests f) := by
  induction c generalizing d with
  | ret a =>
      show (d.bind fun b => ret (a, b)).mapRequests f = _
      rw [mapRequests_bind]
      rfl
  | raise e => rfl
  | get k ih => simp only [par, mapRequests, ih]
  | put s k ih => simp only [par, mapRequests, ih]
  | await qs k ih => exact mapRequests_parBlocked ih d

theorem mapRequests_gather (g : ι → Coro σ Q R ε α) (xs : List ι) :
    (gather (xs.map g)).mapRequests f = gather (xs.map fun x => (g x).mapRequests f) := by
  induction xs with
  | nil => rfl
  | cons x xs ih =>
      show ((par (g x) (gather (xs.map g))).bind _).mapRequests f = _
      rw [mapRequests_bind, mapRequests_par, ih]
      rfl

end Coro

namespace System

open Coro

/-- The environment does not look at what `f` changes. -/
structure Invisible (S : System σ Q R G ε) (f : Q → Q) : Prop where
  ready : ∀ q s, S.ready (f q) s = S.ready q s
  permits : ∀ q r s, S.permits (f q) r s = S.permits q r s

/-- What a replay comes to, with its requests replaced. -/
def Outcome.mapRequests (f : Q → Q') : Outcome σ Q R G ε α → Outcome σ Q' R G ε α
  | .done a rest s => .done a rest s
  | .failed e s => .failed e s
  | .blocked qs k s => .blocked (qs.map f) (fun i r => (k i r).mapRequests f) s
  | .refused => .refused

variable {S : System σ Q R G ε} {f : Q → Q} (invisible : S.Invisible f)
include invisible

theorem firstReady_map (s : σ) : ∀ (n : Nat) (qs : List Q),
    S.firstReady s n (qs.map f) = S.firstReady s n qs
  | _, [] => rfl
  | n, q :: qs => by
      have later := firstReady_map s (n + 1) qs
      simp only [List.map_cons, firstReady, invisible.ready, later]

theorem answers_map (qs : List Q) (i : Nat) (r : R) (s : σ) :
    S.answers (qs.map f) i r s = S.answers qs i r s := by
  unfold answers
  rw [List.getElem?_map]
  cases qs[i]? with
  | none => rfl
  | some q => exact invisible.permits q r s

theorem wait_map {qs : List Q} {k : Nat → R → Coro σ Q R ε α}
    {go go' : Nat → R → List (Action R G) → σ → Outcome σ Q R G ε α}
    (run : ∀ i r script s, go' i r script s = Outcome.mapRequests f (go i r script s)) :
    ∀ (script : List (Action R G)) (s : σ),
      S.wait (qs.map f) (fun i r => (k i r).mapRequests f) go' script s =
        Outcome.mapRequests f (S.wait qs k go script s)
  | script, s => by
      unfold wait
      rw [firstReady_map invisible]
      cases S.firstReady s 0 qs with
      | some answer => exact run _ _ _ _
      | none =>
          cases script with
          | nil => rfl
          | cons action rest =>
              cases action with
              | signals gs =>
                  dsimp only
                  cases S.deliver gs s with
                  | ok t => exact wait_map run rest t
                  | error failure => rfl
              | answer i r =>
                  dsimp only
                  rw [answers_map invisible]
                  split
                  · exact run _ _ _ _
                  · rfl

/-- **A replay with its requests replaced is the same replay.** -/
theorem replay_mapRequests (c : Coro σ Q R ε α) :
    ∀ (script : List (Action R G)) (s : σ),
      S.replay (c.mapRequests f) script s = Outcome.mapRequests f (S.replay c script s) := by
  induction c with
  | ret a => exact fun _ _ => rfl
  | raise e => exact fun _ _ => rfl
  | get k ih => exact fun script s => ih s script s
  | put t k ih => exact fun script _ => ih script t
  | await qs k ih => exact wait_map invisible ih

end System

end LanggraphTemporal.Theory
