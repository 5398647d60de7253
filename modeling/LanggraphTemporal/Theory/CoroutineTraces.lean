/-
# Theory.CoroutineTraces -- results and the answers that led to them

`S.Tells J c told result` says that the coroutine comes to `result` when it is
told these answers, in this order, and reads only states in which `J` holds.
Side by side, each coroutine is told a part of the answers, and comes to what
they make of it (`tells_par`, `tells_gather`); which parts, the order in which
the answers came does not matter for.  A replay tells its transcript
(`replay_tells`).
-/
import LanggraphTemporal.Theory.CoroutineInvariant
import LanggraphTemporal.Theory.Transcript

namespace LanggraphTemporal.Theory.System

set_option autoImplicit false

open Coro

variable {σ Q R G ε α β ι : Type} {S : System σ Q R G ε} {J : σ → Prop}

/-- How an answer stands among those that are told: one that the state gives is
no answer of the environment. -/
inductive Given (S : System σ Q R G ε) (q : Q) (r : R) : List (Q × R) → Prop
  | awake {s : σ} (ready : S.ready q s = some r) : Given S q r []
  | answer {s : σ} (permitted : S.permits q r s = true) : Given S q r [(q, r)]

/-- Told these answers, the coroutine comes to this. -/
inductive Tells (S : System σ Q R G ε) (J : σ → Prop) :
    Coro σ Q R ε α → List (Q × R) → Except ε α → Prop
  | ret {a : α} : Tells S J (.ret a) [] (.ok a)
  | raise {e : ε} : Tells S J (.raise e) [] (.error e)
  | get {k : σ → Coro σ Q R ε α} {s : σ} {told : List (Q × R)} {result : Except ε α} (here : J s)
      (later : Tells S J (k s) told result) : Tells S J (.get k) told result
  | put {s : σ} {k : Coro σ Q R ε α} {told : List (Q × R)} {result : Except ε α}
      (later : Tells S J k told result) : Tells S J (.put s k) told result
  | await {qs : List Q} {k : Nat → R → Coro σ Q R ε α} {i : Nat} {q : Q} {r : R}
      {told later : List (Q × R)} {result : Except ε α} (at_i : qs[i]? = some q)
      (given : S.Given q r told) (rest : Tells S J (k i r) later result) :
      Tells S J (.await qs k) (told ++ later) result

/-! ## In sequence -/

theorem tells_bind {c : Coro σ Q R ε α} {f : α → Coro σ Q R ε β} {told : List (Q × R)}
    {result : Except ε β} (tells : S.Tells J (c.bind f) told result) :
    (∃ a first second, told = first ++ second ∧ S.Tells J c first (.ok a) ∧
        S.Tells J (f a) second result) ∨
      ∃ e, result = .error e ∧ S.Tells J c told (.error e) := by
  induction c generalizing told with
  | ret a => exact .inl ⟨a, [], told, rfl, .ret, tells⟩
  | raise e =>
      cases tells
      exact .inr ⟨e, rfl, .raise⟩
  | get k ih =>
      cases tells with
      | get here later =>
          rcases ih _ later with ⟨a, first, second, rfl, left, right⟩ | ⟨e, failed, left⟩
          · exact .inl ⟨a, first, second, rfl, .get here left, right⟩
          · exact .inr ⟨e, failed, .get here left⟩
  | put s k ih =>
      cases tells with
      | put later =>
          rcases ih later with ⟨a, first, second, rfl, left, right⟩ | ⟨e, failed, left⟩
          · exact .inl ⟨a, first, second, rfl, .put left, right⟩
          · exact .inr ⟨e, failed, .put left⟩
  | await qs k ih =>
      cases tells with
      | await at_i given later =>
          rcases ih _ _ later with ⟨a, first, second, rfl, left, right⟩ | ⟨e, failed, left⟩
          · exact .inl ⟨a, _, second, (List.append_assoc _ _ _).symm, .await at_i given left, right⟩
          · exact .inr ⟨e, failed, .await at_i given left⟩

theorem tells_ret {a : α} {told : List (Q × R)} {result : Except ε α}
    (tells : S.Tells J (.ret a) told result) : told = [] ∧ result = .ok a := by
  cases tells
  exact ⟨rfl, rfl⟩

theorem tells_raise {e : ε} {told : List (Q × R)} {result : Except ε α}
    (tells : S.Tells J (.raise e) told result) : told = [] ∧ result = .error e := by
  cases tells
  exact ⟨rfl, rfl⟩

/-! ## Side by side -/

/-- The two are told a part of the answers each; an error of either ends both. -/
def TellsBoth (S : System σ Q R G ε) (J : σ → Prop) (c : Coro σ Q R ε α) (d : Coro σ Q R ε β)
    (told : List (Q × R)) : Except ε (α × β) → Prop
  | .ok p => ∃ left right, told.Perm (left ++ right) ∧ S.Tells J c left (.ok p.1) ∧ S.Tells J d right (.ok p.2)
  | .error e => (∃ left, S.Tells J c left (.error e)) ∨ ∃ right, S.Tells J d right (.error e)

namespace TellsBoth

variable {c c' : Coro σ Q R ε α} {d d' : Coro σ Q R ε β} {told : List (Q × R)}
  {result : Except ε (α × β)}

/-- The left one has been told more before. -/
theorem left (before : List (Q × R))
    (more : ∀ {told : List (Q × R)} {result : Except ε α}, S.Tells J c told result →
      S.Tells J c' (before ++ told) result)
    (both : S.TellsBoth J c d told result) : S.TellsBoth J c' d (before ++ told) result := by
  cases result with
  | ok p =>
      obtain ⟨left, right, parts, first, second⟩ := both
      refine ⟨before ++ left, right, ?_, more first, second⟩
      rw [List.append_assoc]
      exact parts.append_left before
  | error e =>
      rcases both with ⟨left, failed⟩ | failed
      · exact .inl ⟨_, more failed⟩
      · exact .inr failed

/-- The right one has been told more before. -/
theorem right (before : List (Q × R))
    (more : ∀ {told : List (Q × R)} {result : Except ε β}, S.Tells J d told result →
      S.Tells J d' (before ++ told) result)
    (both : S.TellsBoth J c d told result) : S.TellsBoth J c d' (before ++ told) result := by
  cases result with
  | ok p =>
      obtain ⟨left, right, parts, first, second⟩ := both
      refine ⟨left, before ++ right, ?_, first, more second⟩
      exact (parts.append_left before).trans (List.perm_append_comm_assoc _ _ _)
  | error e =>
      rcases both with failed | ⟨right, failed⟩
      · exact .inl failed
      · exact .inr ⟨_, more failed⟩

end TellsBoth

theorem tells_parBlocked {qs : List Q} {k : Nat → R → Coro σ Q R ε α} {d : Coro σ Q R ε β}
    {told : List (Q × R)} {result : Except ε (α × β)}
    (resume : ∀ i r (d : Coro σ Q R ε β) (told : List (Q × R)), S.Tells J (par (k i r) d) told result →
      S.TellsBoth J (k i r) d told result)
    (tells : S.Tells J (parBlocked qs (fun i r => par (k i r)) d) told result) :
    S.TellsBoth J (.await qs k) d told result := by
  induction d generalizing told with
  | ret b =>
      cases tells with
      | await at_i given later => exact (resume _ _ _ _ later).left _ (.await at_i given)
  | raise e =>
      cases tells
      exact .inr ⟨[], .raise⟩
  | get j ih =>
      cases tells with
      | get here later => exact (ih _ later).right [] (.get here)
  | put s j ih =>
      cases tells with
      | put later => exact (ih later).right [] .put
  | await qs' j ih =>
      cases tells with
      | @await _ _ i _ _ _ _ _ at_i given later =>
          dsimp only at later
          by_cases below : i < qs.length
          · rw [List.getElem?_append_left below] at at_i
            rw [if_pos below] at later
            exact (resume _ _ _ _ later).left _ (.await at_i given)
          · rw [List.getElem?_append_right (Nat.le_of_not_lt below)] at at_i
            rw [if_neg below] at later
            exact (ih _ _ later).right _ (.await at_i given)

theorem tells_par {c : Coro σ Q R ε α} {d : Coro σ Q R ε β} {told : List (Q × R)}
    {result : Except ε (α × β)} (tells : S.Tells J (par c d) told result) :
    S.TellsBoth J c d told result := by
  induction c generalizing d told with
  | ret a =>
      rcases tells_bind tells with ⟨b, first, second, rfl, here, later⟩ | ⟨e, rfl, failed⟩
      · obtain ⟨rfl, rfl⟩ := tells_ret later
        refine ⟨[], first, ?_, .ret, here⟩
        rw [List.append_nil]
        exact .refl _
      · exact .inr ⟨told, failed⟩
  | raise e =>
      cases tells
      exact .inl ⟨[], .raise⟩
  | get k ih =>
      cases tells with
      | get here later => exact (ih _ later).left [] (.get here)
  | put s k ih =>
      cases tells with
      | put later => exact (ih later).left [] .put
  | await qs k ih => exact tells_parBlocked (fun i r d told => ih i r) tells

/-- **Of many that raise no error, each is told a part of the answers and returns
what it makes of them; the results come in order.** -/
theorem tells_gather {f : ι → Coro σ Q R ε α} (sound : ∀ x told e, ¬S.Tells J (f x) told (.error e))
    (xs : List ι) {told : List (Q × R)} {result : Except ε (List α)}
    (tells : S.Tells J (gather (xs.map f)) told result) :
    ∃ parts : List (List (Q × R) × α), result = .ok (parts.map Prod.snd) ∧
      told.Perm (parts.flatMap Prod.fst) ∧
        List.Forall₂ (fun x part => S.Tells J (f x) part.1 (.ok part.2)) xs parts := by
  induction xs generalizing told result with
  | nil =>
      obtain ⟨rfl, rfl⟩ := tells_ret tells
      exact ⟨[], rfl, .nil, .nil⟩
  | cons x xs ih =>
      rcases tells_bind tells with ⟨p, first, second, rfl, both, later⟩ | ⟨e, rfl, both⟩
      · obtain ⟨rfl, rfl⟩ := tells_ret later
        obtain ⟨left, right, merged, here, others⟩ := tells_par both
        obtain ⟨parts, returned, rest, each⟩ := ih others
        refine ⟨(left, p.1) :: parts, ?_, ?_, .cons here each⟩
        · rw [List.map_cons, Except.ok.inj returned]
        · rw [List.append_nil]
          exact merged.trans (rest.append_left left)
      · rcases tells_par both with ⟨left, failed⟩ | ⟨right, failed⟩
        · exact absurd failed (sound x left e)
        · obtain ⟨parts, returned, -⟩ := ih failed
          cases returned

/-! ## Replays -/

/-- What an outcome says of the answers that led to it. -/
def Outcome.Told (S : System σ Q R G ε) (J : σ → Prop) (c : Coro σ Q R ε α) (told : List (Q × R)) :
    Outcome σ Q R G ε α → Prop
  | .done a _ _ => S.Tells J c told (.ok a)
  | .failed e _ => S.Tells J c told (.error e) ∨ ∃ g s, S.handle g s = .error e
  | _ => True

theorem Outcome.Told.mono {c d : Coro σ Q R ε α} {told told' : List (Q × R)}
    {outcome : Outcome σ Q R G ε α} (held : Outcome.Told S J c told outcome)
    (more : ∀ result, S.Tells J c told result → S.Tells J d told' result) :
    Outcome.Told S J d told' outcome := by
  cases outcome with
  | done a rest s => exact more _ held
  | failed e s =>
      rcases held with tells | failed
      · exact .inl (more _ tells)
      · exact .inr failed
  | _ => trivial

variable {Gets : Q → R → Prop} {post : α → Prop}

theorem wait_tells (signals : ∀ s g t, J s → S.handle g s = .ok t → J t)
    {qs : List Q} {k : Nat → R → Coro σ Q R ε α}
    (run : ∀ i q r script s, qs[i]? = some q → S.Answers q r s → J s →
      Outcome.Told S J (k i r) (S.transcript (k i r) script s) (S.replay (k i r) script s)) :
    ∀ (script : List (Action R G)) (s : σ), J s →
      Outcome.Told S J (.await qs k) (S.hear qs (fun i r => S.transcript (k i r)) script s)
        (S.wait qs k (fun i r => S.replay (k i r)) script s)
  | script, s, here => by
      unfold wait hear
      cases asleep : S.firstReady s 0 qs with
      | some answer =>
          obtain ⟨j, q, index, at_i, ready⟩ := S.firstReady_spec (i := answer.1) (r := answer.2) asleep
          rw [Nat.zero_add] at index
          rw [← index] at at_i
          exact (run _ q _ script s at_i (.inl ready) here).mono fun _ => .await at_i (.awake ready)
      | none =>
          cases script with
          | nil => trivial
          | cons action rest =>
              cases action with
              | signals gs =>
                  dsimp only
                  cases delivered : S.deliver gs s with
                  | ok t =>
                      exact wait_tells signals run rest t ((deliver_signalled S delivered).keeps signals here)
                  | error failure =>
                      obtain ⟨-, g, failing⟩ := S.deliver_error (e := failure.1) (t := failure.2) delivered
                      exact .inr ⟨g, failure.2, failing⟩
              | answer i r =>
                  dsimp only
                  unfold answers
                  cases at_i : qs[i]? with
                  | none => trivial
                  | some q =>
                      dsimp only
                      by_cases permitted : S.permits q r s = true
                      · rw [if_pos permitted, if_pos permitted]
                        exact (run i q r rest s at_i (.inr permitted) here).mono
                          fun _ => .await at_i (.answer permitted)
                      · rw [if_neg permitted, if_neg permitted]
                        trivial

/-- **A replay comes to what its answers tell, unless a signal handler fails.** -/
theorem replay_tells (signals : ∀ s g t, J s → S.handle g s = .ok t → J t)
    (gets : ∀ q r s, S.Answers q r s → Gets q r) (c : Coro σ Q R ε α) :
    ∀ (script : List (Action R G)) (s : σ), Maintains J Gets post c → J s →
      Outcome.Told S J c (S.transcript c script s) (S.replay c script s) := by
  induction c with
  | ret a => exact fun _ _ _ _ => .ret
  | raise e => exact fun _ _ _ _ => .inl .raise
  | get k ih =>
      intro script s maintains here
      exact (ih s script s (maintains s here) here).mono fun _ => .get here
  | put t k ih =>
      intro script s maintains here
      exact (ih script t maintains.2 maintains.1).mono fun _ => .put
  | await qs k ih =>
      intro script s maintains here
      refine wait_tells signals (fun i q r script t at_i answer here => ?_) script s here
      exact ih i r script t (maintains i q r at_i (gets q r t answer)) here

end LanggraphTemporal.Theory.System
