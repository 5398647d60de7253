/-
# Theory.CoroutineSteps -- what a coroutine does on every path

`Steps Rel Asks` follows a coroutine along all its paths, whatever answers it
gets and whatever others do to the state while it waits: each of its own writes
moves the state along `Rel`, and each of its waits satisfies `Asks`.  It says
less of a coroutine than `wp` or `Keeps`, and in turn it also speaks of where
the coroutine goes on after a wait: a replay that is blocked still steps so
(`replay_moved`), and what it goes on with can be named (`AsksAlone`).
-/
import LanggraphTemporal.Theory.CoroutineLogic

namespace LanggraphTemporal.Theory

set_option autoImplicit false

namespace Coro

variable {σ Q R G ε α β ι : Type}

/-- A condition on the waits of coroutines, with what they go on with. -/
abbrev Waits (σ Q R ε : Type) := (α : Type) → List Q → (Nat → R → Coro σ Q R ε α) → Prop

/-- Every write of the coroutine moves the state along `Rel`, and every wait
satisfies `Asks`. -/
def Steps (Rel : σ → σ → Prop) (Asks : Waits σ Q R ε) {α : Type} : Coro σ Q R ε α → σ → Prop
  | .ret _, _ => True
  | .raise _, _ => True
  | .get k, s => Steps Rel Asks (k s) s
  | .put t k, s => Rel s t ∧ Steps Rel Asks k t
  | .await qs k, _ => Asks α qs k ∧ ∀ i r s, Steps Rel Asks (k i r) s

/-- No wait is for `q`. -/
def Avoids (q : Q) : Waits σ Q R ε := fun _ qs _ => q ∉ qs

/-- A wait for `q` is for nothing else, and `after` is what follows it. -/
def AsksAlone (q : Q) (after : Coro σ Q R ε Unit) : Waits σ Q R ε :=
  fun _ qs k => q ∈ qs → qs = [q] ∧ ∀ i r, ∃ d, k i r = after.bind d

namespace Steps

variable {Rel : σ → σ → Prop} {Asks Asks' : Waits σ Q R ε} {c : Coro σ Q R ε α} {s : σ} {q : Q}
  {after : Coro σ Q R ε Unit}

theorem mono (weaker : ∀ α qs k, Asks α qs k → Asks' α qs k) (steps : Steps Rel Asks c s) :
    Steps Rel Asks' c s := by
  induction c generalizing s with
  | ret a => trivial
  | raise e => trivial
  | get k ih => exact ih s steps
  | put t k ih => exact ⟨steps.1, ih steps.2⟩
  | await qs k ih => exact ⟨weaker _ _ _ steps.1, fun i r t => ih i r (steps.2 i r t)⟩

theorem weaken {Rel' : σ → σ → Prop} (implied : ∀ s t, Rel s t → Rel' s t)
    (steps : Steps Rel Asks c s) : Steps Rel' Asks c s := by
  induction c generalizing s with
  | ret a => trivial
  | raise e => trivial
  | get k ih => exact ih s steps
  | put t k ih => exact ⟨implied _ _ steps.1, ih steps.2⟩
  | await qs k ih => exact ⟨steps.1, fun i r t => ih i r (steps.2 i r t)⟩

theorem bind {f : α → Coro σ Q R ε β}
    (stable : ∀ qs (k : Nat → R → Coro σ Q R ε α), Asks α qs k → Asks β qs fun i r => (k i r).bind f)
    (steps : Steps Rel Asks c s) (next : ∀ a t, Steps Rel Asks (f a) t) :
    Steps Rel Asks (c.bind f) s := by
  induction c generalizing s with
  | ret a => exact next a s
  | raise e => trivial
  | get k ih => exact ih s steps
  | put t k ih => exact ⟨steps.1, ih steps.2⟩
  | await qs k ih => exact ⟨stable qs k steps.1, fun i r t => ih i r (steps.2 i r t)⟩

/-! ## Coroutines that never wait for a request -/

theorem avoids_bind {f : α → Coro σ Q R ε β} (steps : Steps Rel (Avoids q) c s)
    (next : ∀ a t, Steps Rel (Avoids q) (f a) t) : Steps Rel (Avoids q) (c.bind f) s :=
  steps.bind (fun _ _ => id) next

theorem attempt (steps : Steps Rel (Avoids q) c s) : Steps Rel (Avoids q) c.attempt s := by
  induction c generalizing s with
  | ret a => trivial
  | raise e => trivial
  | get k ih => exact ih s steps
  | put t k ih => exact ⟨steps.1, ih steps.2⟩
  | await qs k ih => exact ⟨steps.1, fun i r t => ih i r (steps.2 i r t)⟩

theorem parBlocked {qs : List Q} {resume : Nat → R → Coro σ Q R ε β → Coro σ Q R ε (α × β)}
    {d : Coro σ Q R ε β} (avoids : q ∉ qs)
    (resumes : ∀ i r (d : Coro σ Q R ε β) t, (∀ u, Steps Rel (Avoids q) d u) →
      Steps Rel (Avoids q) (resume i r d) t)
    (right : Steps Rel (Avoids q) d s) : Steps Rel (Avoids q) (Coro.parBlocked qs resume d) s := by
  induction d generalizing s with
  | ret b => exact ⟨avoids, fun i r t => resumes i r _ t fun _ => trivial⟩
  | raise e => trivial
  | get k ih => exact ih s right
  | put t k ih => exact ⟨right.1, ih right.2⟩
  | await qs' k ih =>
      refine ⟨fun mem => (List.mem_append.mp mem).elim avoids right.1, fun i r t => ?_⟩
      dsimp only
      split
      · exact resumes i r _ t fun _ => right
      · exact ih _ r (right.2 _ r t)

theorem par {d : Coro σ Q R ε β} (left : Steps Rel (Avoids q) c s)
    (right : ∀ t, Steps Rel (Avoids q) d t) : Steps Rel (Avoids q) (Coro.par c d) s := by
  induction c generalizing s d with
  | ret a => exact (right s).avoids_bind fun _ _ => trivial
  | raise e => trivial
  | get k ih => exact ih s left right
  | put t k ih => exact ⟨left.1, ih left.2 right⟩
  | await qs k ih => exact parBlocked left.1 (fun i r d t right => ih i r (left.2 i r t) right) (right s)

theorem gather {f : ι → Coro σ Q R ε α} (each : ∀ x t, Steps Rel (Avoids q) (f x) t) (xs : List ι) :
    Steps Rel (Avoids q) (Coro.gather (xs.map f)) s := by
  induction xs generalizing s with
  | nil => trivial
  | cons x xs ih => exact ((each x s).par fun t => ih).avoids_bind fun _ _ => trivial

/-! ## Coroutines that wait for a request by itself -/

theorem alone (steps : Steps Rel (Avoids q) c s) : Steps Rel (AsksAlone q after) c s :=
  steps.mono fun _ _ _ avoids mem => absurd mem avoids

theorem alone_bind {f : α → Coro σ Q R ε β} (steps : Steps Rel (AsksAlone q after) c s)
    (next : ∀ a t, Steps Rel (AsksAlone q after) (f a) t) :
    Steps Rel (AsksAlone q after) (c.bind f) s := by
  refine steps.bind (fun qs k asks mem => ?_) next
  obtain ⟨only, goes⟩ := asks mem
  refine ⟨only, fun i r => ?_⟩
  obtain ⟨d, same⟩ := goes i r
  refine ⟨fun a => (d a).bind f, ?_⟩
  show (k i r).bind f = _
  rw [same, bind_assoc]

end Steps

end Coro

/-! ## Replays -/

namespace System

open Coro

variable {σ Q R G ε α : Type} {S : System σ Q R G ε} {Rel : σ → σ → Prop} {Asks : Waits σ Q R ε}

/-- Where a replay stops, the state has moved along `Rel`; and one that is
blocked goes on as before. -/
def Outcome.Moved (Rel : σ → σ → Prop) (Asks : Waits σ Q R ε) (s : σ) : Outcome σ Q R G ε α → Prop
  | .done _ _ t => Rel s t
  | .failed _ t => Rel s t
  | .blocked qs k t => Rel s t ∧ Steps Rel Asks (.await qs k) t
  | .refused => True

theorem moved_trans [IsTrans σ Rel] {s t : σ} {outcome : Outcome σ Q R G ε α} (before : Rel s t)
    (moved : Outcome.Moved Rel Asks t outcome) : Outcome.Moved Rel Asks s outcome := by
  cases outcome with
  | done a rest u => exact IsTrans.trans _ _ _ before moved
  | failed e u => exact IsTrans.trans _ _ _ before moved
  | blocked qs k u => exact ⟨IsTrans.trans _ _ _ before moved.1, moved.2⟩
  | refused => trivial

variable [IsPreorder σ Rel] (signals : ∀ s g t, S.handle g s = .ok t → Rel s t)

include signals

theorem rel_of_signalled {s t : σ} (signalled : S.Signalled s t) : Rel s t :=
  signalled.keeps (fun u g v before handled => IsTrans.trans _ _ _ before (signals u g v handled)) (refl s)

theorem wait_moved {qs : List Q} {k : Nat → R → Coro σ Q R ε α}
    {go : Nat → R → List (Action R G) → σ → Outcome σ Q R G ε α}
    (run : ∀ i r script s, Steps Rel Asks (k i r) s → Outcome.Moved Rel Asks s (go i r script s)) :
    ∀ (script : List (Action R G)) (s : σ), Steps Rel Asks (.await qs k) s →
      Outcome.Moved Rel Asks s (S.wait qs k go script s)
  | script, s, steps => by
      unfold wait
      split
      · exact run _ _ _ _ (steps.2 _ _ s)
      · cases script with
        | nil => exact ⟨refl s, steps⟩
        | cons action rest =>
            cases action with
            | signals gs =>
                dsimp only
                cases delivered : S.deliver gs s with
                | ok t =>
                    exact moved_trans (rel_of_signalled signals (S.deliver_signalled delivered))
                      (wait_moved run rest t steps)
                | error failure =>
                    obtain ⟨signalled, -⟩ := S.deliver_error (e := failure.1) (t := failure.2) delivered
                    exact rel_of_signalled signals signalled
            | answer i r =>
                dsimp only
                split
                · exact run _ _ _ _ (steps.2 _ _ s)
                · trivial

/-- **A replay moves the state along `Rel`, and asks what it may ask**. -/
theorem replay_moved (c : Coro σ Q R ε α) :
    ∀ (script : List (Action R G)) (s : σ), Steps Rel Asks c s →
      Outcome.Moved Rel Asks s (S.replay c script s) := by
  induction c with
  | ret a => exact fun _ s _ => refl s
  | raise e => exact fun _ s _ => refl s
  | get k ih => exact fun script s steps => ih s script s steps
  | put t k ih => exact fun script s steps => moved_trans steps.1 (ih script t steps.2)
  | await qs k ih => exact fun script s steps => wait_moved signals ih script s steps

omit signals

/-! ## Going on -/

theorem wait_append {qs qs' : List Q} {k k' : Nat → R → Coro σ Q R ε α} {t : σ}
    {go : Nat → R → List (Action R G) → σ → Outcome σ Q R G ε α} {more : List (Action R G)}
    (run : ∀ i r script s, go i r script s = .blocked qs' k' t →
      go i r (script ++ more) s = S.replay (.await qs' k') more t)
    (here : ∀ s, S.wait qs k go more s = S.replay (.await qs k) more s) :
    ∀ (script : List (Action R G)) (s : σ), S.wait qs k go script s = .blocked qs' k' t →
      S.wait qs k go (script ++ more) s = S.replay (.await qs' k') more t
  | [], s, blocked => by
      unfold wait at blocked
      split at blocked
      · rename_i i r found
        have later := run _ _ _ _ blocked
        rw [List.nil_append, ← later]
        unfold wait
        rw [found]
        rfl
      · cases blocked
        exact here t
  | .signals gs :: rest, s, blocked => by
      unfold wait at blocked ⊢
      split at blocked
      · exact run _ _ _ _ blocked
      · dsimp only [List.cons_append] at blocked ⊢
        split at blocked
        · exact wait_append run here rest _ blocked
        · cases blocked
  | .answer i r :: rest, s, blocked => by
      unfold wait at blocked ⊢
      split at blocked
      · exact run _ _ _ _ blocked
      · dsimp only [List.cons_append] at blocked ⊢
        split at blocked
        · rename_i allowed
          rw [if_pos allowed]
          exact run _ _ _ _ blocked
        · cases blocked

/-- A replay that is blocked goes on from where it is. -/
theorem replay_append {qs : List Q} {k : Nat → R → Coro σ Q R ε α} {t : σ} (c : Coro σ Q R ε α)
    (more : List (Action R G)) :
    ∀ (script : List (Action R G)) (s : σ), S.replay c script s = .blocked qs k t →
      S.replay c (script ++ more) s = S.replay (.await qs k) more t := by
  induction c with
  | ret a => exact fun _ _ blocked => by cases blocked
  | raise e => exact fun _ _ blocked => by cases blocked
  | get k ih => exact fun script s blocked => ih s script s blocked
  | put s k ih => exact fun script _ blocked => ih script s blocked
  | await qs k ih => exact fun script s blocked => wait_append ih (fun _ => rfl) script s blocked

theorem wait_accepted {qs : List Q} {k : Nat → R → Coro σ Q R ε α}
    {go : Nat → R → List (Action R G) → σ → Outcome σ Q R G ε α}
    (run : ∀ i r script s, answersIn script = 0 → go i r script s ≠ .refused) :
    ∀ (script : List (Action R G)) (s : σ), answersIn script = 0 → S.wait qs k go script s ≠ .refused
  | [], s, silent => by
      unfold wait
      split
      · exact run _ _ _ _ silent
      · simp
  | .signals gs :: rest, s, silent => by
      unfold wait
      split
      · exact run _ _ _ _ silent
      · dsimp only
        split
        · exact wait_accepted run rest _ silent
        · simp
  | .answer i r :: rest, s, silent => by
      simp [answersIn] at silent

/-- Only an answer is refused. -/
theorem replay_accepted (c : Coro σ Q R ε α) :
    ∀ (script : List (Action R G)) (s : σ), answersIn script = 0 → S.replay c script s ≠ .refused := by
  induction c with
  | ret a => exact fun _ _ _ => nofun
  | raise e => exact fun _ _ _ => nofun
  | get k ih => exact fun script s silent => ih s script s silent
  | put t k ih => exact fun script _ silent => ih script t silent
  | await qs k ih => exact wait_accepted ih

/-- A condition that signals make true wakes the coroutine that waits for it. -/
theorem replay_woken {q : Q} {k : Nat → R → Coro σ Q R ε α} {s t : σ} {gs : List G} {r : R}
    (asleep : S.ready q s = none) (delivered : S.deliver gs s = .ok t) (ready : S.ready q t = some r) :
    S.replay (.await [q] k) [.signals gs] s = S.replay (k 0 r) [] t := by
  simp [replay, wait, firstReady, asleep, delivered, ready]

end System

end LanggraphTemporal.Theory
