/-
# Theory.CoroutineStarts -- what side by side coroutines do before they wait

Coroutines that run side by side each get as far as their first wait before any
of them is answered.  So when each of them waits at once, what all of them do
before their waits is done first, in the order in which they are listed, and
nothing comes in between (`gather_launches`).
-/
import LanggraphTemporal.Theory.CoroutineSim
import LanggraphTemporal.Theory.CoroutineSteps

namespace LanggraphTemporal.Theory

set_option autoImplicit false

open Coro

variable {σ Q R G ε α β ι : Type}

/-- Run from `s`, the coroutine first waits in `t`, for `qs`, and whatever the
answer, it goes on along `Rel` and never waits for `q`. -/
def Launches (Rel : σ → σ → Prop) (q : Q) (c : Coro σ Q R ε α) (s : σ) (qs : List Q) (t : σ) : Prop :=
  q ∉ qs ∧ ∃ k, settle c s = .await qs k t ∧ ∀ i r u, Steps Rel (Avoids q) (k i r) u

namespace Launches

variable {Rel : σ → σ → Prop} {q : Q} {qs qs' : List Q} {s t u : σ}

theorem steps_await {k : Nat → R → Coro σ Q R ε α} (avoids : q ∉ qs)
    (later : ∀ i r u, Steps Rel (Avoids q) (k i r) u) (u : σ) :
    Steps Rel (Avoids q) (.await qs k) u := ⟨avoids, later⟩

theorem bind {c : Coro σ Q R ε α} {f : α → Coro σ Q R ε β} (launches : Launches Rel q c s qs t)
    (next : ∀ a u, Steps Rel (Avoids q) (f a) u) : Launches Rel q (c.bind f) s qs t := by
  obtain ⟨avoids, k, settled, later⟩ := launches
  refine ⟨avoids, fun i r => (k i r).bind f, ?_, fun i r u => (later i r u).avoids_bind next⟩
  rw [settle_bind, settled]

theorem weaken {Rel' : σ → σ → Prop} (implied : ∀ s t, Rel s t → Rel' s t) {c : Coro σ Q R ε α}
    (launches : Launches Rel q c s qs t) : Launches Rel' q c s qs t := by
  obtain ⟨avoids, k, settled, later⟩ := launches
  exact ⟨avoids, k, settled, fun i r u => (later i r u).weaken implied⟩

theorem attempt {c : Coro σ Q R ε α} (launches : Launches Rel q c s qs t) :
    Launches Rel q c.attempt s qs t := by
  obtain ⟨avoids, k, settled, later⟩ := launches
  refine ⟨avoids, fun i r => (k i r).attempt, ?_, fun i r u => (later i r u).attempt⟩
  rw [settle_attempt, settled]

theorem par {c : Coro σ Q R ε α} {d : Coro σ Q R ε β} (left : Launches Rel q c s qs t)
    (right : Launches Rel q d t qs' u) : Launches Rel q (Coro.par c d) s (qs ++ qs') u := by
  obtain ⟨avoids, k, settled, later⟩ := left
  obtain ⟨avoids', k', settled', later'⟩ := right
  have both : ∀ i r (d : Coro σ Q R ε β) v, (∀ w, Steps Rel (Avoids q) d w) →
      Steps Rel (Avoids q) (Coro.par (k i r) d) v :=
    fun i r d v rest => (later i r v).par rest
  have stops : settle (Coro.par c d) s = .await (qs ++ qs') (fun i r =>
      if i < qs.length then Coro.par (k i r) (.await qs' k')
      else parBlocked qs (fun i r => Coro.par (k i r)) (k' (i - qs.length) r)) u := by
    rw [settle_par, settled]
    show settle (parBlocked qs (fun i r => Coro.par (k i r)) d) t = _
    rw [settle_parBlocked, settled']
  refine ⟨fun mem => (List.mem_append.mp mem).elim avoids avoids', _, stops, fun i r v => ?_⟩
  split
  · exact both i r _ v (steps_await avoids' later')
  · exact .parBlocked avoids both (later' _ r v)

theorem par_ret {c : Coro σ Q R ε α} (launches : Launches Rel q c s qs t) (b : β) :
    Launches Rel q (Coro.par c (.ret b)) s qs t := by
  obtain ⟨avoids, k, settled, later⟩ := launches
  have stops : settle (Coro.par c (.ret b)) s =
      .await qs (fun i r => Coro.par (k i r) (.ret b)) t := by
    rw [settle_par, settled]
    rfl
  exact ⟨avoids, _, stops, fun i r v => (later i r v).par fun _ => trivial⟩

end Launches

/-- The requests that coroutines put out before any of them is answered. -/
def firstRequests (asks : ι → σ → List Q) (enter : ι → σ → σ) : List ι → σ → List Q
  | [], _ => []
  | x :: xs, s => asks x s ++ firstRequests asks enter xs (enter x s)

/-- When what each one does changes none of the others' requests, these are the
requests they would put out alone. -/
theorem firstRequests_eq_flatMap (asks : ι → σ → List Q) (enter : ι → σ → σ)
    (frame : ∀ x y s, asks x (enter y s) = asks x s) (xs : List ι) (s : σ) :
    firstRequests asks enter xs s = xs.flatMap fun x => asks x s := by
  have later : ∀ t, (∀ x, asks x t = asks x s) →
      firstRequests asks enter xs t = xs.flatMap fun x => asks x s := by
    induction xs with
    | nil => exact fun _ _ => rfl
    | cons x xs ih =>
        intro t same
        have rest := ih (enter x t) fun y => (frame y x t).trans (same y)
        rw [firstRequests, same x, rest, List.flatMap_cons]
  exact later s fun _ => rfl

/-- **Side by side, everyone starts before anyone is answered.** -/
theorem gather_launches {Rel : σ → σ → Prop} {q : Q} {f : ι → Coro σ Q R ε α}
    {asks : ι → σ → List Q} {enter : ι → σ → σ}
    (each : ∀ x s, Launches Rel q (f x) s (asks x s) (enter x s)) (x : ι) (xs : List ι) (s : σ) :
    Launches Rel q (gather ((x :: xs).map f)) s (firstRequests asks enter (x :: xs) s)
      ((x :: xs).foldl (fun s x => enter x s) s) := by
  induction xs generalizing x s with
  | nil =>
      show Launches Rel q _ s (asks x s ++ []) (enter x s)
      rw [List.append_nil]
      exact ((each x s).par_ret []).bind fun _ _ => trivial
  | cons y xs ih =>
      exact ((each x s).par (ih y (enter x s))).bind fun _ _ => trivial

end LanggraphTemporal.Theory
