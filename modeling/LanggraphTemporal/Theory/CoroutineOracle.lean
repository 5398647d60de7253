/-
# Theory.CoroutineOracle -- coroutines whose answers are decided in advance

An environment may answer the requests of a coroutine in any order, but what it
answers may be decided by the requests alone.  `Yields` is the judgement for
coroutines in such an environment: they ask for nothing but what `Asks` allows,
do not raise, and return what `post` says, whichever request is answered first.
It composes under `bind`, `par` and `gather` (`Yields.gather`), and gives a `wp`
back (`Yields.wp`).

A replay that gets its signals in certain states only is one of a system that
heeds no others (`replay_heeding`), so between two waits elsewhere the state is
known exactly.
-/
import LanggraphTemporal.Theory.Transcript
import Mathlib.Data.List.Forall2

namespace LanggraphTemporal.Theory

set_option autoImplicit false

open Coro

variable {σ Q R G ε α β ι : Type}

/-! ## Signals at their time -/

namespace System

variable (S : System σ Q R G ε) (Heeds : σ → Prop)

open Classical in
/-- The same environment, in which signals do nothing but in the states that
heed them. -/
noncomputable def heeding : System σ Q R G ε where
  handle g s := if Heeds s then S.handle g s else .ok s
  ready := S.ready
  permits := S.permits

/-- Whenever the script delivers signals, the coroutine waits in a state that
heeds them. -/
def Timed (c : Coro σ Q R ε α) (script : List (Action R G)) (s : σ) : Prop :=
  ∀ a gs b, script = a ++ .signals gs :: b → gs ≠ [] →
    ∀ qs k t, S.replay c a s = .blocked qs k t → Heeds t

variable {S Heeds}

theorem handle_heeding {g : G} {s : σ} (heeds : Heeds s) :
    (S.heeding Heeds).handle g s = S.handle g s := if_pos heeds

theorem firstReady_heeding (s : σ) : ∀ (n : Nat) (qs : List Q),
    (S.heeding Heeds).firstReady s n qs = S.firstReady s n qs
  | _, [] => rfl
  | n, q :: qs => by
      have later := firstReady_heeding s (n + 1) qs
      have here : (S.heeding Heeds).ready q s = S.ready q s := rfl
      simp only [firstReady, later, here]

theorem deliver_heeding (keeps : ∀ g s t, Heeds s → S.handle g s = .ok t → Heeds t) :
    ∀ (gs : List G) (s : σ), (gs ≠ [] → Heeds s) → (S.heeding Heeds).deliver gs s = S.deliver gs s
  | [], _, _ => rfl
  | g :: gs, s, heeds => by
      have here : Heeds s := heeds (List.cons_ne_nil _ _)
      unfold deliver
      rw [handle_heeding here]
      cases handled : S.handle g s with
      | error e => rfl
      | ok t => exact deliver_heeding keeps gs t fun _ => keeps g s t here handled

section Await

variable {qs : List Q} {k : Nat → R → Coro σ Q R ε α} {s : σ}

theorem replay_ready {i : Nat} {r : R} (ready : S.firstReady s 0 qs = some (i, r))
    (script : List (Action R G)) : S.replay (.await qs k) script s = S.replay (k i r) script s := by
  show S.wait qs k _ script s = _
  unfold wait
  rw [ready]

theorem replay_waits (asleep : S.firstReady s 0 qs = none) :
    S.replay (.await qs k) [] s = .blocked qs k s := by
  show S.wait qs k _ [] s = _
  unfold wait
  rw [asleep]

theorem replay_signals (asleep : S.firstReady s 0 qs = none) {gs : List G} {t : σ}
    (delivered : S.deliver gs s = .ok t) (script : List (Action R G)) :
    S.replay (.await qs k) (.signals gs :: script) s = S.replay (.await qs k) script t := by
  show S.wait qs k _ (.signals gs :: script) s = _
  unfold wait
  rw [asleep]
  simp only [delivered]
  rfl

theorem replay_answer (asleep : S.firstReady s 0 qs = none) {i : Nat} {r : R}
    (answered : S.answers qs i r s = true) (script : List (Action R G)) :
    S.replay (.await qs k) (.answer i r :: script) s = S.replay (k i r) script s := by
  show S.wait qs k _ (.answer i r :: script) s = _
  unfold wait
  rw [asleep]
  exact if_pos answered

end Await

/-- What is timed while it waits is timed after the next action. -/
theorem Timed.next {qs : List Q} {k : Nat → R → Coro σ Q R ε α} {c : Coro σ Q R ε α} {s t : σ}
    {script : List (Action R G)} (before : List (Action R G)) (timed : S.Timed Heeds (.await qs k) (before ++ script) s)
    (goes : ∀ a, S.replay (.await qs k) (before ++ a) s = S.replay c a t) : S.Timed Heeds c script t := by
  intro a gs b split some qs' k' u blocked
  refine timed (before ++ a) gs b (by rw [split, List.append_assoc]) some qs' k' u ?_
  rw [goes]
  exact blocked

theorem wait_heeding (keeps : ∀ g s t, Heeds s → S.handle g s = .ok t → Heeds t) {qs : List Q}
    {k : Nat → R → Coro σ Q R ε α}
    (run : ∀ i r script s, S.Timed Heeds (k i r) script s →
      (S.heeding Heeds).replay (k i r) script s = S.replay (k i r) script s) :
    ∀ (script : List (Action R G)) (s : σ), S.Timed Heeds (.await qs k) script s →
      (S.heeding Heeds).replay (.await qs k) script s = S.replay (.await qs k) script s
  | script, s, timed => by
      show (S.heeding Heeds).wait qs k _ script s = S.wait qs k _ script s
      unfold wait
      rw [firstReady_heeding]
      cases ready : S.firstReady s 0 qs with
      | some answer =>
          exact run _ _ _ _ (timed.next [] (replay_ready ready))
      | none =>
          cases script with
          | nil => rfl
          | cons action rest =>
              cases action with
              | signals gs =>
                  have heeds : gs ≠ [] → Heeds s := fun some =>
                    timed [] gs rest rfl some qs k s (replay_waits ready)
                  dsimp only
                  rw [deliver_heeding keeps gs s heeds]
                  cases delivered : S.deliver gs s with
                  | error failure => rfl
                  | ok t =>
                      exact wait_heeding keeps run rest t
                        (timed.next [.signals gs] (replay_signals ready delivered))
              | answer i r =>
                  have same : (S.heeding Heeds).answers qs i r s = S.answers qs i r s := rfl
                  dsimp only
                  rw [same]
                  by_cases answered : S.answers qs i r s = true
                  · rw [if_pos answered, if_pos answered]
                    exact run i r rest s
                      (timed.next [.answer i r] (replay_answer ready answered))
                  · rw [if_neg answered, if_neg answered]

/-- **A replay whose signals come in time is one of a system that heeds no
others.** -/
theorem replay_heeding (keeps : ∀ g s t, Heeds s → S.handle g s = .ok t → Heeds t) (c : Coro σ Q R ε α) :
    ∀ (script : List (Action R G)) (s : σ), S.Timed Heeds c script s →
      (S.heeding Heeds).replay c script s = S.replay c script s := by
  induction c with
  | ret a => exact fun _ _ _ => rfl
  | raise e => exact fun _ _ _ => rfl
  | get k ih => exact fun script s timed => ih s script s timed
  | put t k ih => exact fun script _ timed => ih script t timed
  | await qs k ih => exact wait_heeding keeps ih

/-- What waits although some answers are refused waits where none are. -/
theorem wait_blocked_of_only {Gets : Q → R → Prop} {qs : List Q} {k : Nat → R → Coro σ Q R ε α}
    {go go' : Nat → R → List (Action R G) → σ → Outcome σ Q R G ε α}
    (run : ∀ i r script s qs' k' t, go' i r script s = .blocked qs' k' t → go i r script s = .blocked qs' k' t) :
    ∀ (script : List (Action R G)) (s : σ) qs' k' t, (S.only Gets).wait qs k go' script s = .blocked qs' k' t →
      S.wait qs k go script s = .blocked qs' k' t
  | script, s, qs', k', t, blocked => by
      unfold wait at blocked ⊢
      rw [firstReady_only] at blocked
      cases ready : S.firstReady s 0 qs with
      | some answer =>
          rw [ready] at blocked
          exact run _ _ _ _ _ _ _ blocked
      | none =>
          rw [ready] at blocked
          cases script with
          | nil => exact blocked
          | cons action rest =>
              cases action with
              | signals gs =>
                  dsimp only at blocked ⊢
                  rw [deliver_only] at blocked
                  cases delivered : S.deliver gs s with
                  | error failure =>
                      rw [delivered] at blocked
                      cases blocked
                  | ok u =>
                      rw [delivered] at blocked
                      exact wait_blocked_of_only run rest u qs' k' t blocked
              | answer i r =>
                  dsimp only at blocked ⊢
                  by_cases answered : (S.only Gets).answers qs i r s = true
                  · rw [if_pos answered] at blocked
                    have permitted : S.answers qs i r s = true := by
                      unfold answers at answered ⊢
                      cases asked : qs[i]? with
                      | none =>
                          rw [asked] at answered
                          cases answered
                      | some q =>
                          rw [asked] at answered
                          exact (Bool.and_eq_true_iff.mp answered).1
                    rw [if_pos permitted]
                    exact run _ _ _ _ _ _ _ blocked
                  · rw [if_neg answered] at blocked
                    cases blocked

theorem replay_blocked_of_only {Gets : Q → R → Prop} (c : Coro σ Q R ε α) :
    ∀ (script : List (Action R G)) (s : σ) qs k t, (S.only Gets).replay c script s = .blocked qs k t →
      S.replay c script s = .blocked qs k t := by
  induction c with
  | ret a => exact fun _ _ _ _ _ blocked => blocked
  | raise e => exact fun _ _ _ _ _ blocked => blocked
  | get k ih => exact fun script s => ih s script s
  | put t k ih => exact fun script _ => ih script t
  | await qs k ih => exact wait_blocked_of_only ih

theorem Timed.only {Gets : Q → R → Prop} {c : Coro σ Q R ε α} {script : List (Action R G)} {s : σ}
    (timed : S.Timed Heeds c script s) : (S.only Gets).Timed Heeds c script s :=
  fun a gs b split some qs k t blocked =>
    timed a gs b split some qs k t (replay_blocked_of_only c a s qs k t blocked)

end System

/-! ## The judgement -/

/-- While everybody keeps `J`, the coroutine asks only for what `Asks` allows
and does not raise; with answers that `Gets` allows it returns what `post` says. -/
def Yields (J : σ → Prop) (Asks : Q → Prop) (Gets : Q → R → Prop) (post : α → Prop) :
    Coro σ Q R ε α → Prop
  | .ret a => post a
  | .raise _ => False
  | .get k => ∀ s, J s → Yields J Asks Gets post (k s)
  | .put s k => J s ∧ Yields J Asks Gets post k
  | .await qs k => (∀ q ∈ qs, Asks q) ∧
      ∀ i q r, qs[i]? = some q → Gets q r → Yields J Asks Gets post (k i r)

namespace Yields

variable {J : σ → Prop} {Asks : Q → Prop} {Gets : Q → R → Prop} {post : α → Prop} {post' : β → Prop}

theorem bind {c : Coro σ Q R ε α} {f : α → Coro σ Q R ε β} (yields : Yields J Asks Gets post c)
    (next : ∀ a, post a → Yields J Asks Gets post' (f a)) : Yields J Asks Gets post' (c.bind f) := by
  induction c with
  | ret a => exact next a yields
  | raise e => exact yields.elim
  | get k ih => exact fun s here => ih s (yields s here)
  | put s k ih => exact ⟨yields.1, ih yields.2⟩
  | await qs k ih => exact ⟨yields.1, fun i q r at_i gets => ih i r (yields.2 i q r at_i gets)⟩

theorem read : Yields J Asks Gets J (Coro.read : Coro σ Q R ε σ) := fun _ here => here

theorem modify {f : σ → σ} (keeps : ∀ s, J s → J (f s)) :
    Yields J Asks Gets (fun _ => True) (Coro.modify f : Coro σ Q R ε Unit) :=
  fun s here => ⟨keeps s here, trivial⟩

theorem request {q : Q} (asked : Asks q) :
    Yields J Asks Gets (Gets q) (Coro.request q : Coro σ Q R ε R) := by
  refine ⟨fun q' mem => ?_, fun i q' r at_i gets => ?_⟩
  · rw [List.mem_singleton.mp mem]
    exact asked
  · cases i with
    | zero =>
        cases at_i
        exact gets
    | succ i => simp at at_i

theorem parBlocked {qs : List Q} {k : Nat → R → Coro σ Q R ε α} {d : Coro σ Q R ε β}
    (asked : ∀ q ∈ qs, Asks q)
    (resume : ∀ i q r, qs[i]? = some q → Gets q r → ∀ d : Coro σ Q R ε β, Yields J Asks Gets post' d →
      Yields J Asks Gets (fun p => post p.1 ∧ post' p.2) (Coro.par (k i r) d))
    (right : Yields J Asks Gets post' d) :
    Yields J Asks Gets (fun p => post p.1 ∧ post' p.2)
      (Coro.parBlocked qs (fun i r => Coro.par (k i r)) d) := by
  induction d with
  | ret b => exact ⟨asked, fun i q r at_i gets => resume i q r at_i gets _ right⟩
  | raise e => exact right.elim
  | get j ih => exact fun s here => ih s (right s here)
  | put s j ih => exact ⟨right.1, ih right.2⟩
  | await qs' j ih =>
      refine ⟨fun q mem => ?_, fun i q r at_i gets => ?_⟩
      · rcases List.mem_append.mp mem with mine | other
        · exact asked q mine
        · exact right.1 q other
      · by_cases left : i < qs.length
        · rw [List.getElem?_append_left left] at at_i
          simp only [left, if_true]
          exact resume i q r at_i gets _ right
        · rw [List.getElem?_append_right (Nat.le_of_not_lt left)] at at_i
          simp only [left, if_false]
          exact ih _ r (right.2 _ q r at_i gets)

theorem par {c : Coro σ Q R ε α} {d : Coro σ Q R ε β} (left : Yields J Asks Gets post c)
    (right : Yields J Asks Gets post' d) :
    Yields J Asks Gets (fun p => post p.1 ∧ post' p.2) (Coro.par c d) := by
  induction c generalizing d with
  | ret a => exact right.bind fun b held => ⟨left, held⟩
  | raise e => exact left.elim
  | get k ih => exact fun s here => ih s (left s here) right
  | put s k ih => exact ⟨left.1, ih left.2 right⟩
  | await qs k ih =>
      refine parBlocked left.1 ?_ right
      exact fun i q r at_i gets d right => ih i r (left.2 i q r at_i gets) right

/-- **The results of a `gather` are in list order, whoever is answered first.** -/
theorem gather {f : ι → Coro σ Q R ε α} {result : ι → α} (xs : List ι)
    (each : ∀ x ∈ xs, Yields J Asks Gets (fun a => a = result x) (f x)) :
    Yields J Asks Gets (fun as => as = xs.map result) (Coro.gather (xs.map f)) := by
  induction xs with
  | nil => exact rfl
  | cons x xs ih =>
      have head := each x List.mem_cons_self
      have tail := ih fun y mem => each y (List.mem_cons_of_mem x mem)
      refine (head.par tail).bind ?_
      rintro ⟨a, as⟩ ⟨rfl, rfl⟩
      exact rfl

/-- Where signals keep `J`, a coroutine that yields keeps it alone. -/
theorem wp {S : System σ Q R G ε} (signals : ∀ s g t, J s → S.handle g s = .ok t → J t)
    (silent : ∀ s g e, J s → S.handle g s ≠ .error e)
    (answers : ∀ q r s, Asks q → S.Answers q r s → Gets q r)
    {c : Coro σ Q R ε α} {s : σ} (yields : Yields J Asks Gets post c) (start : J s) :
    S.wp (fun a t => post a ∧ J t) (fun _ _ => False) (fun qs _ => ∀ q ∈ qs, Asks q) c s := by
  induction c generalizing s with
  | ret a => exact ⟨yields, start⟩
  | raise e => exact yields
  | get k ih => exact ih s (yields s start) start
  | put t k ih => exact ih yields.2 yields.1
  | await qs k ih =>
      intro t signalled
      have here : J t := signalled.keeps signals start
      refine ⟨yields.1, fun g e handled => silent t g e here handled, fun i q r at_i answered => ?_⟩
      have gets : Gets q r := answers q r t (yields.1 q (List.mem_of_getElem? at_i)) answered
      exact ih i r (yields.2 i q r at_i gets) here

end Yields

end LanggraphTemporal.Theory
