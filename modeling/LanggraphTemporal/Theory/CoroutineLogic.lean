/-
# Theory.CoroutineLogic -- proving things of every replay

Judgements on a coroutine, each by recursion on it.

* `wp` is the weakest precondition for a coroutine that runs alone: between its
  waits only signals change the state.  `Idle` is what must hold whenever it
  waits, so `replay_holds` speaks of every state a run stops in, not only of
  its results.
* `Keeps log Rel` is the rule for coroutines that run side by side: every
  stretch between two waits, and whatever happens during a wait, moves the
  state along the preorder `Rel`.  The state holds a log that is only appended
  to, and the rule follows what the coroutine itself has written.  It composes
  under `par` and `gather` without looking at the interleavings: what they write
  is an interleaving of what their members write (`Keeps.par`, `Keeps.gather`).
  When signals move along `Rel` too, it gives a `wp` back (`Keeps.wp`).

`Bounded` counts waits: a coroutine that waits at most `n` times needs at most
`n` answers (`answers_lt_of_blocked`).
-/
import LanggraphTemporal.Theory.Coroutine
import LanggraphTemporal.Theory.History
import Mathlib.Data.List.Forall2
import Mathlib.Order.Defs.Unbundled

namespace LanggraphTemporal.Theory

set_option autoImplicit false

open Coro History

variable {σ Q R G ε α β ι E : Type}

namespace System

variable (S : System σ Q R G ε)

/-- `t` is `s` after some signals. -/
def Signalled : σ → σ → Prop := Relation.ReflTransGen fun s t => ∃ g, S.handle g s = .ok t

/-- The request `q` can be answered with `r` in state `s`. -/
def Answers (q : Q) (r : R) (s : σ) : Prop := S.ready q s = some r ∨ S.permits q r s = true

theorem Signalled.keeps {S : System σ Q R G ε} {J : σ → Prop} {s t : σ} (signalled : S.Signalled s t)
    (step : ∀ s g t, J s → S.handle g s = .ok t → J t) (start : J s) : J t := by
  induction signalled with
  | refl => exact start
  | tail _ handled ih =>
      obtain ⟨g, handled⟩ := handled
      exact step _ g _ ih handled

/-! ## Weakest preconditions -/

/-- Run alone from a state, the coroutine ends in `post` or `err`, and every
state it waits in satisfies `Idle`. -/
def wp (post : α → σ → Prop) (err : ε → σ → Prop) (Idle : List Q → σ → Prop) :
    Coro σ Q R ε α → σ → Prop
  | .ret a, s => post a s
  | .raise e, s => err e s
  | .get k, s => wp post err Idle (k s) s
  | .put s k, _ => wp post err Idle k s
  | .await qs k, s => ∀ t, S.Signalled s t →
      Idle qs t ∧ (∀ g e, S.handle g t = .error e → err e t) ∧
        ∀ i q r, qs[i]? = some q → S.Answers q r t → wp post err Idle (k i r) t

/-- What a `wp` says about the outcome of a replay. -/
def Outcome.Holds (post : α → σ → Prop) (err : ε → σ → Prop) (Idle : List Q → σ → Prop) :
    Outcome σ Q R G ε α → Prop
  | .done a _ s => post a s
  | .failed e s => err e s
  | .blocked qs _ s => Idle qs s
  | .refused => True

theorem firstReady_spec {s : σ} {i r} :
    ∀ {n : Nat} {qs : List Q}, S.firstReady s n qs = some (i, r) →
      ∃ j q, i = n + j ∧ qs[j]? = some q ∧ S.ready q s = some r
  | _, [], found => by simp [firstReady] at found
  | n, q :: qs, found => by
      simp only [firstReady] at found
      split at found
      · rename_i here
        obtain ⟨rfl, rfl⟩ := Prod.mk.inj (Option.some.inj found)
        exact ⟨0, q, rfl, rfl, here⟩
      · obtain ⟨j, q', hi, at_j, here⟩ := firstReady_spec found
        exact ⟨j + 1, q', by omega, at_j, here⟩

theorem deliver_signalled {s : σ} : ∀ {gs : List G} {t : σ}, S.deliver gs s = .ok t → S.Signalled s t
  | [], _, delivered => by
      cases delivered
      exact .refl
  | g :: gs, t, delivered => by
      simp only [deliver] at delivered
      split at delivered
      · rename_i s' handled
        exact .head ⟨g, handled⟩ (deliver_signalled delivered)
      · cases delivered

theorem deliver_error {s : σ} :
    ∀ {gs : List G} {e : ε} {t : σ}, S.deliver gs s = .error (e, t) →
      S.Signalled s t ∧ ∃ g, S.handle g t = .error e
  | [], _, _, delivered => by cases delivered
  | g :: gs, e, t, delivered => by
      simp only [deliver] at delivered
      split at delivered
      · rename_i s' handled
        obtain ⟨signalled, failing⟩ := deliver_error delivered
        exact ⟨.head ⟨g, handled⟩ signalled, failing⟩
      · rename_i e' failing
        cases delivered
        exact ⟨.refl, g, failing⟩

theorem wait_holds {post : α → σ → Prop} {err : ε → σ → Prop} {Idle : List Q → σ → Prop}
    {qs : List Q} {k : Nat → R → Coro σ Q R ε α}
    {go : Nat → R → List (Action R G) → σ → Outcome σ Q R G ε α}
    (run : ∀ i r script s, S.wp post err Idle (k i r) s →
      Outcome.Holds post err Idle (go i r script s)) :
    ∀ (script : List (Action R G)) (s : σ), S.wp post err Idle (.await qs k) s →
      Outcome.Holds post err Idle (S.wait qs k go script s)
  | script, s, pre => by
      obtain ⟨idle, failing, resume⟩ := pre s .refl
      unfold wait
      split
      · rename_i i r found
        obtain ⟨j, q, hi, at_j, here⟩ := S.firstReady_spec found
        rw [Nat.zero_add] at hi
        exact run _ _ _ _ (resume i q r (hi ▸ at_j) (.inl here))
      · cases script with
        | nil => exact idle
        | cons action rest =>
            cases action with
            | signals gs =>
                dsimp only
                cases delivered : S.deliver gs s with
                | ok t =>
                    exact wait_holds run rest t fun u signalled =>
                      pre u ((S.deliver_signalled delivered).trans signalled)
                | error failure =>
                    obtain ⟨signalled, g, handled⟩ := S.deliver_error (e := failure.1)
                      (t := failure.2) delivered
                    exact (pre _ signalled).2.1 g _ handled
            | answer i r =>
                dsimp only
                split
                · rename_i permitted
                  unfold answers at permitted
                  split at permitted
                  · rename_i q at_i
                    exact run _ _ _ _ (resume i q r at_i (.inr permitted))
                  · cases permitted
                · trivial

/-- **Every replay of a coroutine ends as its `wp` says.** -/
theorem replay_holds {post : α → σ → Prop} {err : ε → σ → Prop} {Idle : List Q → σ → Prop}
    (c : Coro σ Q R ε α) :
    ∀ (script : List (Action R G)) (s : σ), S.wp post err Idle c s →
      Outcome.Holds post err Idle (S.replay c script s) := by
  induction c with
  | ret a => exact fun _ _ pre => pre
  | raise e => exact fun _ _ pre => pre
  | get k ih => exact fun script s pre => ih s script s pre
  | put s k ih => exact fun script _ pre => ih script s pre
  | await qs k ih => exact fun script s pre => S.wait_holds ih script s pre

/-! ### Blocked replays -/

theorem firstReady_none {s : σ} :
    ∀ {n : Nat} {qs : List Q}, S.firstReady s n qs = none → ∀ q ∈ qs, S.ready q s = none
  | _, [], _, _, mem => by cases mem
  | n, q :: qs, asleep, q', mem => by
      simp only [firstReady] at asleep
      split at asleep
      · cases asleep
      · rename_i here
        rcases List.mem_cons.mp mem with rfl | later
        · exact here
        · exact firstReady_none asleep q' later

theorem wait_blocked {qs qs' : List Q} {k k' : Nat → R → Coro σ Q R ε α} {t : σ}
    {go : Nat → R → List (Action R G) → σ → Outcome σ Q R G ε α}
    (run : ∀ i r script s, go i r script s = .blocked qs' k' t → ∀ q ∈ qs', S.ready q t = none) :
    ∀ (script : List (Action R G)) (s : σ), S.wait qs k go script s = .blocked qs' k' t →
      ∀ q ∈ qs', S.ready q t = none
  | script, s, blocked => by
      unfold wait at blocked
      split at blocked
      · exact run _ _ _ _ blocked
      · rename_i asleep
        cases script with
        | nil =>
            cases blocked
            exact S.firstReady_none asleep
        | cons action rest =>
            cases action with
            | signals gs =>
                dsimp only at blocked
                split at blocked
                · exact wait_blocked run rest _ blocked
                · cases blocked
            | answer i r =>
                dsimp only at blocked
                split at blocked
                · exact run _ _ _ _ blocked
                · cases blocked

/-- **No wakeup is lost**: a replay that is blocked waits for nothing that its
state already answers. -/
theorem replay_blocked {qs : List Q} {k : Nat → R → Coro σ Q R ε α} {t : σ} (c : Coro σ Q R ε α) :
    ∀ (script : List (Action R G)) (s : σ), S.replay c script s = .blocked qs k t →
      ∀ q ∈ qs, S.ready q t = none := by
  induction c with
  | ret a => exact fun _ _ blocked => by cases blocked
  | raise e => exact fun _ _ blocked => by cases blocked
  | get k ih => exact fun script s blocked => ih s script s blocked
  | put s k ih => exact fun script _ blocked => ih script s blocked
  | await qs k ih => exact fun script s blocked => S.wait_blocked ih script s blocked

/-! ### Rules -/

variable {S} {post post' : α → σ → Prop} {err err' : ε → σ → Prop} {Idle Idle' : List Q → σ → Prop}

theorem wp_mono {c : Coro σ Q R ε α} (hpost : ∀ a s, post a s → post' a s)
    (herr : ∀ e s, err e s → err' e s) (hidle : ∀ qs s, Idle qs s → Idle' qs s) {s : σ}
    (pre : S.wp post err Idle c s) : S.wp post' err' Idle' c s := by
  induction c generalizing s with
  | ret a => exact hpost _ _ pre
  | raise e => exact herr _ _ pre
  | get k ih => exact ih s pre
  | put s k ih => exact ih pre
  | await qs k ih =>
      intro t signalled
      obtain ⟨idle, failing, resume⟩ := pre t signalled
      exact ⟨hidle _ _ idle, fun g e handled => herr _ _ (failing g e handled),
        fun i q r at_i answer => ih i r (resume i q r at_i answer)⟩

@[simp] theorem wp_bind {c : Coro σ Q R ε α} {f : α → Coro σ Q R ε β} {post : β → σ → Prop} {s : σ} :
    S.wp post err Idle (c.bind f) s ↔ S.wp (fun a t => S.wp post err Idle (f a) t) err Idle c s := by
  induction c generalizing s with
  | ret a => rfl
  | raise e => rfl
  | get k ih => exact ih s
  | put s k ih => exact ih
  | await qs k ih => simp only [Coro.bind, wp, ih]

@[simp] theorem wp_ret {a : α} {s : σ} : S.wp post err Idle (.ret a) s ↔ post a s := .rfl

@[simp] theorem wp_read {post : σ → σ → Prop} {s : σ} : S.wp post err Idle .read s ↔ post s s := .rfl

@[simp] theorem wp_modify {f : σ → σ} {post : Unit → σ → Prop} {s : σ} :
    S.wp post err Idle (.modify f) s ↔ post () (f s) := .rfl

/-- Wait for one request under an invariant of the signals. -/
theorem wp_request {q : Q} {post : R → σ → Prop} {s : σ} (J : σ → Prop) (start : J s)
    (step : ∀ t g u, J t → S.handle g t = .ok u → J u) (idle : ∀ t, J t → Idle [q] t)
    (failing : ∀ t g e, J t → S.handle g t = .error e → err e t)
    (answer : ∀ t r, J t → S.Answers q r t → post r t) :
    S.wp post err Idle (.request q) s := by
  intro t signalled
  have inv : J t := signalled.keeps step start
  refine ⟨idle t inv, fun g e handled => failing t g e inv handled, fun i q' r at_i answered => ?_⟩
  cases i with
  | zero => cases at_i; exact answer t r inv answered
  | succ i => simp at at_i

/-! ## Counting waits -/

/-- The coroutine waits at most so many times. -/
def Bounded : Coro σ Q R ε α → Nat → Prop
  | .ret _, _ => True
  | .raise _, _ => True
  | .get k, n => ∀ s, Bounded (k s) n
  | .put _ k, n => Bounded k n
  | .await _ k, n => 0 < n ∧ ∀ i r, Bounded (k i r) (n - 1)

/-- The number of answers in a script. -/
def answersIn (script : List (Action R G)) : Nat :=
  script.countP fun action => match action with | .answer _ _ => true | .signals _ => false

namespace Bounded

variable {n m : Nat}

theorem mono {c : Coro σ Q R ε α} (le : n ≤ m) (bounded : Bounded c n) : Bounded c m := by
  induction c generalizing n m with
  | ret a => trivial
  | raise e => trivial
  | get k ih => exact fun s => ih s le (bounded s)
  | put s k ih => exact ih le bounded
  | await qs k ih =>
      obtain ⟨pos, rest⟩ := bounded
      exact ⟨by omega, fun i r => ih i r (by omega) (rest i r)⟩

theorem bind {c : Coro σ Q R ε α} {f : α → Coro σ Q R ε β} (bounded : Bounded c n)
    (next : ∀ a, Bounded (f a) m) : Bounded (c.bind f) (n + m) := by
  induction c generalizing n with
  | ret a => exact (next a).mono (by omega)
  | raise e => trivial
  | get k ih => exact fun s => ih s (bounded s)
  | put s k ih => exact ih bounded
  | await qs k ih =>
      obtain ⟨pos, rest⟩ := bounded
      exact ⟨by omega, fun i r => (ih i r (rest i r)).mono (by omega)⟩

theorem parBlocked {qs : List Q} {k : Nat → R → Coro σ Q R ε α} {d : Coro σ Q R ε β} (pos : 0 < n)
    (resume : ∀ i r (d : Coro σ Q R ε β) m, Bounded d m → Bounded (par (k i r) d) (n - 1 + m))
    (right : Bounded d m) : Bounded (Coro.parBlocked qs (fun i r => par (k i r)) d) (n + m) := by
  induction d generalizing m with
  | ret b => exact ⟨by omega, fun i r => (resume i r (.ret b) m trivial).mono (by omega)⟩
  | raise e => trivial
  | get k' ih => exact fun s => ih s (right s)
  | put s k' ih => exact ih right
  | await qs' k' ih =>
      have whole : Bounded (.await qs' k') m := right
      obtain ⟨pos', rest⟩ := right
      refine ⟨by omega, fun i r => ?_⟩
      dsimp only
      split
      · exact (resume i r _ m whole).mono (by omega)
      · exact (ih _ r (rest _ r)).mono (by omega)

theorem par {c : Coro σ Q R ε α} {d : Coro σ Q R ε β} (left : Bounded c n) (right : Bounded d m) :
    Bounded (Coro.par c d) (n + m) := by
  induction c generalizing n m d with
  | ret a => exact (right.bind (f := fun b => .ret (a, b)) (m := 0) fun b => trivial).mono (by omega)
  | raise e => trivial
  | get k ih => exact fun s => ih s (left s) right
  | put s k ih => exact ih left right
  | await qs k ih =>
      exact parBlocked left.1 (fun i r d m bounded => ih i r (left.2 i r) bounded) right

theorem gather {f : ι → Coro σ Q R ε α} (each : ∀ x, Bounded (f x) n) (xs : List ι) :
    Bounded (Coro.gather (xs.map f)) (n * xs.length) := by
  induction xs with
  | nil => trivial
  | cons x xs ih =>
      rw [List.length_cons, Nat.mul_succ, Nat.add_comm]
      exact ((each x).par ih).bind (m := 0) fun p => trivial

end Bounded

theorem answers_lt_of_wait {qs qs' : List Q} {k k' : Nat → R → Coro σ Q R ε α} {t : σ} {n : Nat}
    {go : Nat → R → List (Action R G) → σ → Outcome σ Q R G ε α} (pos : 0 < n)
    (run : ∀ i r script s, go i r script s = .blocked qs' k' t → answersIn script < n - 1) :
    ∀ (script : List (Action R G)) (s : σ), S.wait qs k go script s = .blocked qs' k' t →
      answersIn script < n
  | script, s, blocked => by
      unfold wait at blocked
      split at blocked
      · have later := run _ _ _ _ blocked
        omega
      · cases script with
        | nil => exact pos
        | cons action rest =>
            cases action with
            | signals gs =>
                dsimp only at blocked
                split at blocked
                · simpa [answersIn] using answers_lt_of_wait pos run rest _ blocked
                · cases blocked
            | answer i r =>
                dsimp only at blocked
                split at blocked
                · have later := run _ _ _ _ blocked
                  simp only [answersIn, List.countP_cons] at later ⊢
                  simp only [if_true]
                  omega
                · cases blocked

/-- **A coroutine that waits at most `n` times is not blocked after `n` answers.** -/
theorem answers_lt_of_blocked {c : Coro σ Q R ε α} {qs : List Q} {k : Nat → R → Coro σ Q R ε α}
    {t : σ} {n : Nat} (bounded : Bounded c n) {script : List (Action R G)} {s : σ}
    (blocked : S.replay c script s = .blocked qs k t) : answersIn script < n := by
  induction c generalizing n script s with
  | ret a => cases blocked
  | raise e => cases blocked
  | get k ih => exact ih s (bounded s) blocked
  | put s k ih => exact ih bounded blocked
  | await qs k ih =>
      exact answers_lt_of_wait bounded.1 (fun i r script s blocked => ih i r (bounded.2 i r) blocked)
        script s blocked

/-! ## Side by side -/

/-- What holds of everything that a coroutine writes: writing nothing has it,
and coroutines side by side have it together when each does. -/
structure LogInvariant (E : Type) where
  Holds : List E → Prop
  nil : Holds []
  interleaves : ∀ {a b c}, Interleaves a b c → Holds a → Holds b → Holds c

namespace LogInvariant

variable (inv : LogInvariant E)

theorem append {a b : List E} (front : inv.Holds a) (back : inv.Holds b) : inv.Holds (a ++ b) := by
  have inter : Interleaves a b (a ++ b) := .right b (interleaves_nil_right a)
  exact inv.interleaves inter front back

/-- Nothing is asked. -/
def any : LogInvariant E := ⟨fun _ => True, trivial, fun _ _ _ => trivial⟩

end LogInvariant

/-- Each stretch between waits moves along `Rel`, whatever moves along `Rel`
may happen during a wait, and no wait is without a request. `s₀` is the state
in which the current stretch began, and `own` what the coroutine has written,
which has the invariant whenever it stops. -/
def Keeps (S : System σ Q R G ε) (log : σ → List E) (inv : LogInvariant E) (Rel : σ → σ → Prop)
    (post : α → List E → σ → Prop) (err : ε → σ → σ → Prop) :
    Coro σ Q R ε α → List E → σ → σ → Prop
  | .ret a, own, s₀, s => Rel s₀ s ∧ inv.Holds own ∧ post a own s
  | .raise e, own, s₀, s => inv.Holds own ∧ err e s₀ s
  | .get k, own, s₀, s => Keeps S log inv Rel post err (k s) own s₀ s
  | .put t k, own, s₀, s =>
      ∃ new, log t = log s ++ new ∧ Keeps S log inv Rel post err k (own ++ new) s₀ t
  | .await qs k, own, s₀, s => Rel s₀ s ∧ inv.Holds own ∧ qs ≠ [] ∧
      ∀ t, Rel s t → ∀ i q r, qs[i]? = some q → S.Answers q r t →
        Keeps S log inv Rel post err (k i r) own t t

/-- A result that stays true while neighbours move. -/
def Stable (Rel : σ → σ → Prop) (post : α → List E → σ → Prop) : Prop :=
  ∀ a own s t, post a own s → Rel s t → post a own t

/-- An error of the stretch from `t` is one of every stretch that leads to `t`. -/
class Absorbs (Rel : σ → σ → Prop) (err : ε → σ → σ → Prop) : Prop where
  absorb : ∀ {e s t u}, Rel s t → err e t u → err e s u

/-- Results in list order, with an interleaving of what was written for them. -/
inductive Gathers (post : ι → α → List E → Prop) : List ι → List α → List E → Prop
  | nil : Gathers post [] [] []
  | cons {x : ι} {a : α} {xs : List ι} {as : List α} {own rest all : List E} (here : post x a own)
      (others : Gathers post xs as rest) (inter : Interleaves own rest all) :
      Gathers post (x :: xs) (a :: as) all

namespace Gathers

variable {post post' : ι → α → List E → Prop} {xs : List ι} {as : List α} {own : List E}

theorem imp (weaker : ∀ x a own, post x a own → post' x a own) (gathers : Gathers post xs as own) :
    Gathers post' xs as own := by
  induction gathers with
  | nil => exact .nil
  | cons here others inter ih => exact .cons (weaker _ _ _ here) ih inter

theorem results {P : ι → α → Prop} (weaker : ∀ x a own, post x a own → P x a)
    (gathers : Gathers post xs as own) : List.Forall₂ P xs as := by
  induction gathers with
  | nil => exact .nil
  | cons here others inter ih => exact .cons (weaker _ _ _ here) ih

theorem after {P : E → List E → Prop} (more : ∀ d r r', r ⊆ r' → P d r → P d r')
    (each : ∀ x a own, post x a own → After P own) (gathers : Gathers post xs as own) :
    After P own := by
  induction gathers with
  | nil => exact after_nil
  | cons here others inter ih => exact inter.after more (each _ _ _ here) ih

end Gathers

/-- Between `u` and `t` the coroutine has written `own`, and signals the rest. -/
def Wrote (log : σ → List E) (Signal : E → Prop) (u : σ) (own : List E) (t : σ) : Prop :=
  ∃ signals all, log t = log u ++ all ∧ Interleaves own signals all ∧ ∀ e ∈ signals, Signal e

section Wrote

variable {log : σ → List E} {Signal : E → Prop} {u s t : σ} {own new : List E}

theorem wrote_nil : Wrote log Signal u [] u := ⟨[], [], by simp, .nil, fun _ mem => by cases mem⟩

theorem Wrote.put (wrote : Wrote log Signal u own s) (more : log t = log s ++ new) :
    Wrote log Signal u (own ++ new) t := by
  obtain ⟨signals, all, written, inter, each⟩ := wrote
  exact ⟨signals, all ++ new, by rw [more, written, List.append_assoc], .left new inter, each⟩

theorem Wrote.signal (wrote : Wrote log Signal u own s) (more : log t = log s ++ new)
    (signal : ∀ e ∈ new, Signal e) : Wrote log Signal u own t := by
  obtain ⟨signals, all, written, inter, each⟩ := wrote
  refine ⟨signals ++ new, all ++ new, by rw [more, written, List.append_assoc], .right new inter, ?_⟩
  intro e mem
  rcases List.mem_append.mp mem with old | later
  · exact each e old
  · exact signal e later

end Wrote

namespace Keeps

variable {log : σ → List E} {inv : LogInvariant E} {Rel : σ → σ → Prop} [IsPreorder σ Rel]
  {post post' : α → List E → σ → Prop} {err err' : ε → σ → σ → Prop} {own : List E}

omit [IsPreorder σ Rel] in
theorem mono {c : Coro σ Q R ε α} {s₀ s : σ} (hpost : ∀ a own s, post a own s → post' a own s)
    (herr : ∀ e s₀ s, err e s₀ s → err' e s₀ s) (keeps : S.Keeps log inv Rel post err c own s₀ s) :
    S.Keeps log inv Rel post' err' c own s₀ s := by
  induction c generalizing own s₀ s with
  | ret a => exact ⟨keeps.1, keeps.2.1, hpost _ _ _ keeps.2.2⟩
  | raise e => exact ⟨keeps.1, herr _ _ _ keeps.2⟩
  | get k ih => exact ih s keeps
  | put s k ih =>
      obtain ⟨new, written, keeps⟩ := keeps
      exact ⟨new, written, ih keeps⟩
  | await qs k ih =>
      exact ⟨keeps.1, keeps.2.1, keeps.2.2.1, fun t moved i q r at_i answer =>
        ih i r (keeps.2.2.2 t moved i q r at_i answer)⟩

/-- A result is reached along `Rel` from any state before the start. -/
theorem later {c : Coro σ Q R ε α} {u s₀ s : σ} (before : Rel u s₀)
    (keeps : S.Keeps log inv Rel post err c own s₀ s) :
    S.Keeps log inv Rel (fun a own t => post a own t ∧ Rel u t) err c own s₀ s := by
  induction c generalizing own s₀ s with
  | ret a => exact ⟨keeps.1, keeps.2.1, keeps.2.2, trans_of Rel before keeps.1⟩
  | raise e => exact keeps
  | get k ih => exact ih s before keeps
  | put s k ih =>
      obtain ⟨new, written, keeps⟩ := keeps
      exact ⟨new, written, ih before keeps⟩
  | await qs k ih =>
      exact ⟨keeps.1, keeps.2.1, keeps.2.2.1, fun t moved i q r at_i answer =>
        ih i r (trans_of Rel before (trans_of Rel keeps.1 moved)) (keeps.2.2.2 t moved i q r at_i answer)⟩

omit [IsPreorder σ Rel] in
theorem frame_append {c : Coro σ Q R ε α} {front : List E} {s₀ s : σ} (ok : inv.Holds front)
    (keeps : S.Keeps log inv Rel (fun a own t => post a (front ++ own) t) err c own s₀ s) :
    S.Keeps log inv Rel post err c (front ++ own) s₀ s := by
  induction c generalizing own s₀ s with
  | ret a => exact ⟨keeps.1, inv.append ok keeps.2.1, keeps.2.2⟩
  | raise e => exact ⟨inv.append ok keeps.1, keeps.2⟩
  | get k ih => exact ih s keeps
  | put s k ih =>
      obtain ⟨new, written, keeps⟩ := keeps
      refine ⟨new, written, ?_⟩
      rw [List.append_assoc]
      exact ih keeps
  | await qs k ih =>
      exact ⟨keeps.1, inv.append ok keeps.2.1, keeps.2.2.1, fun t moved i q r at_i answer =>
        ih i r (keeps.2.2.2 t moved i q r at_i answer)⟩

omit [IsPreorder σ Rel] in
/-- What was written before the coroutine began stays in front. -/
theorem frame {c : Coro σ Q R ε α} {front : List E} {s₀ s : σ} (ok : inv.Holds front)
    (keeps : S.Keeps log inv Rel post err c [] s₀ s) :
    S.Keeps log inv Rel (fun a all t => ∃ own, all = front ++ own ∧ post a own t) err c front s₀ s := by
  have framed : S.Keeps log inv Rel (fun a all t => ∃ own, all = front ++ own ∧ post a own t) err c
      (front ++ []) s₀ s :=
    frame_append ok (Keeps.mono (fun a own t held => ⟨own, rfl, held⟩) (fun _ _ _ => id) keeps)
  rwa [List.append_nil] at framed

omit [IsPreorder σ Rel] in
/-- What a neighbour has written is interleaved with what the coroutine writes. -/
theorem interleave {c : Coro σ Q R ε α} {other all : List E} {s₀ s : σ} (ok : inv.Holds other)
    (inter : Interleaves other own all) (keeps : S.Keeps log inv Rel post err c own s₀ s) :
    S.Keeps log inv Rel (fun a all t => ∃ own, Interleaves other own all ∧ post a own t) err c all s₀ s := by
  induction c generalizing own all s₀ s with
  | ret a => exact ⟨keeps.1, inv.interleaves inter ok keeps.2.1, own, inter, keeps.2.2⟩
  | raise e => exact ⟨inv.interleaves inter ok keeps.1, keeps.2⟩
  | get k ih => exact ih s inter keeps
  | put s k ih =>
      obtain ⟨new, written, keeps⟩ := keeps
      exact ⟨new, written, ih (.right new inter) keeps⟩
  | await qs k ih =>
      exact ⟨keeps.1, inv.interleaves inter ok keeps.2.1, keeps.2.2.1, fun t moved i q r at_i answer =>
        ih i r inter (keeps.2.2.2 t moved i q r at_i answer)⟩

omit [IsPreorder σ Rel] in
/-- A change of the state that appends to its log. -/
theorem modify_bind {g : σ → σ} {f : Unit → Coro σ Q R ε β} {post : β → List E → σ → Prop} {s₀ s : σ}
    {new : List E} (appends : log (g s) = log s ++ new) :
    S.Keeps log inv Rel post err ((Coro.modify g).bind f) own s₀ s ↔
      S.Keeps log inv Rel post err (f ()) (own ++ new) s₀ (g s) := by
  constructor
  · rintro ⟨new', appends', keeps⟩
    rw [List.append_cancel_left (appends.symm.trans appends')]
    exact keeps
  · exact fun keeps => ⟨new, appends, keeps⟩

omit [IsPreorder σ Rel] in
/-- A change of the state that leaves its log. -/
theorem modify_bind_same {g : σ → σ} {f : Unit → Coro σ Q R ε β} {post : β → List E → σ → Prop}
    {s₀ s : σ} (same : log (g s) = log s) :
    S.Keeps log inv Rel post err ((Coro.modify g).bind f) own s₀ s ↔
      S.Keeps log inv Rel post err (f ()) own s₀ (g s) := by
  have appends : log (g s) = log s ++ [] := by rw [same, List.append_nil]
  rw [modify_bind appends, List.append_nil]

omit [IsPreorder σ Rel] in
theorem bind {c : Coro σ Q R ε α} {f : α → Coro σ Q R ε β} {post : α → List E → σ → Prop}
    {post' : β → List E → σ → Prop} {s₀ s : σ} (keeps : S.Keeps log inv Rel post err c own s₀ s)
    (next : ∀ a own s₁ t, Rel s₁ t → inv.Holds own → post a own t →
      S.Keeps log inv Rel post' err (f a) own s₁ t) :
    S.Keeps log inv Rel post' err (c.bind f) own s₀ s := by
  induction c generalizing own s₀ s with
  | ret a => exact next a own s₀ s keeps.1 keeps.2.1 keeps.2.2
  | raise e => exact keeps
  | get k ih => exact ih s keeps
  | put s k ih =>
      obtain ⟨new, written, keeps⟩ := keeps
      exact ⟨new, written, ih keeps⟩
  | await qs k ih =>
      exact ⟨keeps.1, keeps.2.1, keeps.2.2.1, fun t moved i q r at_i answer =>
        ih i r (keeps.2.2.2 t moved i q r at_i answer)⟩

omit [IsPreorder σ Rel] in
/-- Wait for one request, answered in any state along `Rel`, and go on. -/
theorem request_bind {q : Q} {f : R → Coro σ Q R ε β} {post : β → List E → σ → Prop} {s₀ s : σ}
    (moved : Rel s₀ s) (ok : inv.Holds own)
    (next : ∀ t r, Rel s t → S.Answers q r t → S.Keeps log inv Rel post err (f r) own t t) :
    S.Keeps log inv Rel post err ((Coro.request q).bind f) own s₀ s := by
  refine ⟨moved, ok, List.cons_ne_nil _ _, fun t later i q' r at_i answered => ?_⟩
  cases i with
  | zero => cases at_i; exact next t r later answered
  | succ i => simp at at_i

variable [Absorbs Rel err]

theorem start {c : Coro σ Q R ε α} {s₀ s₁ s : σ} (before : Rel s₀ s₁)
    (keeps : S.Keeps log inv Rel post err c own s₁ s) : S.Keeps log inv Rel post err c own s₀ s := by
  induction c generalizing own s with
  | ret a => exact ⟨trans_of Rel before keeps.1, keeps.2⟩
  | raise e => exact ⟨keeps.1, Absorbs.absorb before keeps.2⟩
  | get k ih => exact ih s keeps
  | put s k ih =>
      obtain ⟨new, written, keeps⟩ := keeps
      exact ⟨new, written, ih keeps⟩
  | await qs k ih => exact ⟨trans_of Rel before keeps.1, keeps.2⟩

section Par

variable {post₁ : α → List E → σ → Prop} {post₂ : β → List E → σ → Prop} {own₁ own₂ all : List E}

/-- What two coroutines side by side have done. -/
def Both (post₁ : α → List E → σ → Prop) (post₂ : β → List E → σ → Prop) (p : α × β)
    (all : List E) (t : σ) : Prop :=
  ∃ own₁ own₂, Interleaves own₁ own₂ all ∧ post₁ p.1 own₁ t ∧ post₂ p.2 own₂ t

omit [Absorbs Rel err] in
theorem parBlocked {qs : List Q} {k : Nat → R → Coro σ Q R ε α} {s : σ}
    (stable₂ : Stable Rel post₂) (ok₁ : inv.Holds own₁) (waiting : qs ≠ [])
    (ih : ∀ i r d own₂ all t, Interleaves own₁ own₂ all → inv.Holds own₂ →
      S.Keeps log inv Rel post₁ err (k i r) own₁ t t →
        (∀ u, Rel t u → S.Keeps log inv Rel post₂ err d own₂ u u) →
          S.Keeps log inv Rel (Both post₁ post₂) err (par (k i r) d) all t t)
    (resume : ∀ t, Rel s t → ∀ i q r, qs[i]? = some q → S.Answers q r t →
      S.Keeps log inv Rel post₁ err (k i r) own₁ t t)
    (d : Coro σ Q R ε β) {s₁ u : σ} (inter : Interleaves own₁ own₂ all) (before : Rel s s₁)
    (keeps : S.Keeps log inv Rel post₂ err d own₂ s₁ u) :
    S.Keeps log inv Rel (Both post₁ post₂) err (Coro.parBlocked qs (fun i r => par (k i r)) d) all
      s₁ u := by
  induction d generalizing own₂ all s₁ u with
  | ret b =>
      obtain ⟨moved₀, ok₂, held⟩ := keeps
      refine ⟨moved₀, inv.interleaves inter ok₁ ok₂, waiting, fun t moved i q r at_i answer => ?_⟩
      refine ih i r _ own₂ all t inter ok₂
        (resume t (trans_of Rel before (trans_of Rel moved₀ moved)) i q r at_i answer) ?_
      exact fun v hv => ⟨refl_of Rel v, ok₂, stable₂ b own₂ u v held (trans_of Rel moved hv)⟩
  | raise e => exact ⟨inv.interleaves inter ok₁ keeps.1, keeps.2⟩
  | get k' ih' => exact ih' u inter before keeps
  | put v k' ih' =>
      obtain ⟨new, written, keeps⟩ := keeps
      exact ⟨new, written, ih' (.right new inter) before keeps⟩
  | await qs' k' ih' =>
      obtain ⟨moved₀, ok₂, waiting', resume'⟩ := keeps
      refine ⟨moved₀, inv.interleaves inter ok₁ ok₂, List.append_ne_nil_of_left_ne_nil waiting _,
        fun t moved i q r at_i answer => ?_⟩
      have from_s : Rel s t := trans_of Rel before (trans_of Rel moved₀ moved)
      by_cases left : i < qs.length
      · rw [List.getElem?_append_left left] at at_i
        simp only [left, if_true]
        refine ih i r _ own₂ all t inter ok₂ (resume t from_s i q r at_i answer) fun v hv => ?_
        exact ⟨refl_of Rel v, ok₂, waiting',
          fun w hw => resume' w (trans_of Rel moved (trans_of Rel hv hw))⟩
      · rw [List.getElem?_append_right (Nat.le_of_not_lt left)] at at_i
        simp only [left, if_false]
        exact ih' _ r inter from_s (resume' t moved _ q r at_i answer)

/-- **Two coroutines side by side keep what each keeps.** The right one begins
where the left one first stops. -/
theorem par (stable₁ : Stable Rel post₁) (stable₂ : Stable Rel post₂) (c : Coro σ Q R ε α)
    (d : Coro σ Q R ε β) {s₀ s : σ} (inter : Interleaves own₁ own₂ all) (ok₂ : inv.Holds own₂)
    (left : S.Keeps log inv Rel post₁ err c own₁ s₀ s)
    (right : ∀ t, (settle c s).state = some t → Rel s₀ t → S.Keeps log inv Rel post₂ err d own₂ t t) :
    S.Keeps log inv Rel (Both post₁ post₂) err (Coro.par c d) all s₀ s := by
  induction c generalizing d own₁ own₂ all s₀ s with
  | ret a =>
      obtain ⟨moved, ok₁, held₁⟩ := left
      have later := Keeps.interleave ok₁ inter (Keeps.later (refl_of Rel s) (right s rfl moved))
      refine Keeps.start moved (Keeps.bind later fun b all s₁ t moved ok held => ⟨moved, ok, ?_⟩)
      obtain ⟨own₂, inter, held, since⟩ := held
      exact ⟨own₁, own₂, inter, stable₁ a own₁ s t held₁ since, held⟩
  | raise e => exact ⟨inv.interleaves inter left.1 ok₂, left.2⟩
  | get k ih => exact ih s d inter ok₂ left right
  | put s k ih =>
      obtain ⟨new, written, left⟩ := left
      exact ⟨new, written, ih d (.left new inter) ok₂ left right⟩
  | await qs k ih =>
      obtain ⟨moved, ok₁, waiting, resume⟩ := left
      refine Keeps.start moved (Keeps.parBlocked stable₂ ok₁ waiting ?_ resume d inter
        (refl_of Rel s) (right s rfl moved))
      exact fun i r d own₂ all t inter ok₂ keeps after => ih i r d inter ok₂ keeps fun u _ => after u

end Par

/-- **Any number of coroutines side by side keep what each keeps**, and write an
interleaving of what each writes. They begin one after the other, each where the
one before it first stops, so all of them begin in `P` when none leaves it. -/
theorem gather {f : ι → Coro σ Q R ε α} {post : ι → α → List E → σ → Prop} {P : σ → Prop}
    (stable : ∀ x, Stable Rel (post x)) {s₀ s : σ} (moved : Rel s₀ s) (begins : P s) (xs : List ι)
    (each : ∀ x ∈ xs, ∀ t, Rel s₀ t → P t → S.Keeps log inv Rel (post x) err (f x) [] t t)
    (stays : ∀ x ∈ xs, ∀ t u, P t → (settle (f x) t).state = some u → P u) :
    S.Keeps log inv Rel (fun as own t => Gathers (fun x a own => post x a own t) xs as own) err
      (Coro.gather (xs.map f)) [] s₀ s := by
  induction xs generalizing s₀ s with
  | nil => exact ⟨moved, inv.nil, .nil⟩
  | cons x xs ih =>
      have rest : ∀ t, (settle (f x) s).state = some t → Rel s₀ t → S.Keeps log inv Rel
          (fun as own t => Gathers (fun x a own => post x a own t) xs as own)
          err (Coro.gather (xs.map f)) [] t t := by
        intro t stops ht
        have here : P t := stays x List.mem_cons_self s t begins stops
        refine ih (refl_of Rel t) here (fun y hy u hu => ?_) fun y hy => ?_
        · exact each y (List.mem_cons_of_mem x hy) u (trans_of Rel ht hu)
        · exact stays y (List.mem_cons_of_mem x hy)
      have stableRest : Stable Rel fun as own t =>
          Gathers (fun x a own => post x a own t) xs as own := by
        intro as own t u held hu
        exact held.imp fun x a own h => stable x a own t u h hu
      refine Keeps.bind (Keeps.par (stable x) stableRest (f x) _ .nil inv.nil
        (Keeps.start moved (each x List.mem_cons_self s moved begins)) rest) ?_
      rintro p all s₁ t later ok ⟨own, own', inter, here, others⟩
      exact ⟨later, ok, .cons here others inter⟩

/-- What a coroutine and the signals have written since `u`. -/
def Logged (log : σ → List E) (inv : LogInvariant E) (Signal : E → Prop) (u t : σ) : Prop :=
  ∃ own, inv.Holds own ∧ Wrote log Signal u own t

/-- Alone, a coroutine that keeps `Rel` has the weakest precondition for its
result, when signals move along `Rel` as well. -/
theorem wp {Signal : E → Prop} {c : Coro σ Q R ε α} {u s₀ s : σ} (before : Rel u s₀)
    (signal : ∀ t g v, Rel u t → S.handle g t = .ok v → Rel t v ∧
      ∃ new, log v = log t ++ new ∧ ∀ e ∈ new, Signal e)
    (failing : ∀ t g e, Rel u t → S.handle g t = .error e → err e u t)
    (idle : ∀ qs t, Rel u t → qs ≠ [] → Logged log inv Signal u t → Idle qs t)
    (wrote : Wrote log Signal u own s) (keeps : S.Keeps log inv Rel post err c own s₀ s) :
    S.wp (fun a t => Rel u t ∧ ∃ own, inv.Holds own ∧ post a own t ∧ Wrote log Signal u own t)
      (fun e t => err e u t ∧ Logged log inv Signal u t) Idle c s := by
  induction c generalizing own s₀ s with
  | ret a => exact ⟨trans_of Rel before keeps.1, own, keeps.2.1, keeps.2.2, wrote⟩
  | raise e => exact ⟨Absorbs.absorb before keeps.2, own, keeps.1, wrote⟩
  | get k ih => exact ih s before wrote keeps
  | put s k ih =>
      obtain ⟨new, written, keeps⟩ := keeps
      exact ih before (wrote.put written) keeps
  | await qs k ih =>
      obtain ⟨moved, ok, waiting, resume⟩ := keeps
      intro t signalled
      have later : (Rel u t ∧ Rel s t) ∧ Wrote log Signal u own t := signalled.keeps
        (J := fun t => (Rel u t ∧ Rel s t) ∧ Wrote log Signal u own t)
        (fun v g w held handled => by
          obtain ⟨step, new, written, each⟩ := signal v g w held.1.1 handled
          exact ⟨⟨trans_of Rel held.1.1 step, trans_of Rel held.1.2 step⟩, held.2.signal written each⟩)
        ⟨⟨trans_of Rel before moved, refl_of Rel s⟩, wrote⟩
      have logged : Logged log inv Signal u t := ⟨own, ok, later.2⟩
      exact ⟨idle qs t later.1.1 waiting logged,
        fun g e handled => ⟨failing t g e later.1.1 handled, logged⟩,
        fun i q r at_i answer => ih i r later.1.1 later.2 (resume t later.1.2 i q r at_i answer)⟩

end Keeps

end System

end LanggraphTemporal.Theory
