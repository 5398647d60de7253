/-
# Theory.CoroutineSim -- two coroutines in lockstep

`Mirror Allowed Link post c s d t` says that, on every script, `c` from `s` and
`d` from `t` wait for the same requests, get the same answers, and come to the
same end: results related by `post`, or one error.  What links their states
during a wait is a relation that signals keep (`Lockstep`); `Allowed` says which
relations may be used.  Any may, for coroutines that run one after the other
(`Mirror.bind`); for coroutines that run side by side it has to be one and the
same for all of them (`Mirror.par`, `Mirror.gather`).

The recursion is on the left coroutine.  The right one is run up to where it
stops next (`settle`), so the two need not take the same number of steps between
two waits.
-/
import LanggraphTemporal.Theory.CoroutineLogic

namespace LanggraphTemporal.Theory

set_option autoImplicit false

open Coro

variable {σ Q R G ε α β γ δ ι : Type}

/-! ## Where side by side coroutines stop next -/

theorem settle_par (c : Coro σ Q R ε α) (d : Coro σ Q R ε β) (s : σ) :
    settle (par c d) s =
      match settle c s with
      | .ret a t => settle (d.bind fun b => .ret (a, b)) t
      | .raise e t => .raise e t
      | .await qs k t => settle (parBlocked qs (fun i r => par (k i r)) d) t := by
  induction c generalizing s with
  | ret a => rfl
  | raise e => rfl
  | get k ih => exact ih s s
  | put t k ih => exact ih t
  | await qs k ih => rfl

theorem settle_parBlocked (qs : List Q) (resume : Nat → R → Coro σ Q R ε β → Coro σ Q R ε (α × β))
    (d : Coro σ Q R ε β) (s : σ) :
    settle (parBlocked qs resume d) s =
      match settle d s with
      | .ret b t => .await qs (fun i r => resume i r (.ret b)) t
      | .raise e t => .raise e t
      | .await qs' k t => .await (qs ++ qs') (fun i r =>
          if i < qs.length then resume i r (.await qs' k)
          else parBlocked qs resume (k (i - qs.length) r)) t := by
  induction d generalizing s with
  | ret b => rfl
  | raise e => rfl
  | get k ih => exact ih s s
  | put t k ih => exact ih t
  | await qs' k ih => rfl

theorem settle_attempt (c : Coro σ Q R ε α) (s : σ) :
    settle c.attempt s =
      match settle c s with
      | .ret a t => .ret (.ok a) t
      | .raise e t => .ret (.error e) t
      | .await qs k t => .await qs (fun i r => (k i r).attempt) t := by
  induction c generalizing s with
  | ret a => rfl
  | raise e => rfl
  | get k ih => exact ih s s
  | put t k ih => exact ih t
  | await qs k ih => rfl

namespace System

variable (S : System σ Q R G ε)

theorem replay_settle (c : Coro σ Q R ε α) (script : List (Action R G)) (s : σ) :
    S.replay c script s =
      match settle c s with
      | .ret a t => .done a script t
      | .raise e t => .failed e t
      | .await qs k t => S.wait qs k (fun i r => S.replay (k i r)) script t := by
  induction c generalizing s with
  | ret a => rfl
  | raise e => rfl
  | get k ih => exact ih s s
  | put t k ih => exact ih t
  | await qs k ih => rfl

/-! ## Lockstep -/

/-- What two signal handlers come to: the same error, or states that stay
related. -/
def SameHandling (Rel Link : σ → σ → Prop) (s t : σ) : Except ε σ → Except ε σ → Prop
  | .ok s', .ok t' => Rel s' t'
  | .error e, .error e' => e = e' ∧ Link s t
  | _, _ => False

/-- While two coroutines wait for `qs`, their states stay related whatever
signals come, and the requests get the same answers. -/
structure Lockstep (Rel Link : σ → σ → Prop) (qs : List Q) : Prop where
  link : ∀ s t, Rel s t → Link s t
  signal : ∀ s t, Rel s t → ∀ g, SameHandling Rel Link s t (S.handle g s) (S.handle g t)
  ready : ∀ s t, Rel s t → ∀ q ∈ qs, S.ready q s = S.ready q t
  permits : ∀ s t, Rel s t → ∀ q ∈ qs, ∀ r, S.permits q r s = S.permits q r t

/-- `c` from `s` and `d` from `t` do the same. -/
def Mirror (Allowed : (σ → σ → Prop) → Prop) (Link : σ → σ → Prop) (post : α → β → σ → σ → Prop) :
    Coro σ Q R ε α → σ → Coro σ Q R ε β → σ → Prop
  | .ret a, s, d, t => ∃ b t', settle d t = .ret b t' ∧ post a b s t'
  | .raise e, s, d, t => ∃ t', settle d t = .raise e t' ∧ Link s t'
  | .get k, s, d, t => Mirror Allowed Link post (k s) s d t
  | .put s k, _, d, t => Mirror Allowed Link post k s d t
  | .await qs k, s, d, t => ∃ k' t', settle d t = .await qs k' t' ∧
      ∃ Rel, Allowed Rel ∧ S.Lockstep Rel Link qs ∧ Rel s t' ∧
        ∀ u v, Rel u v → ∀ i q r, qs[i]? = some q → S.Answers q r u →
          Mirror Allowed Link post (k i r) u (k' i r) v

/-- Any relation may link two states during a wait. -/
def Any (_ : σ → σ → Prop) : Prop := True

/-- What lockstep means for the outcomes of two replays. -/
def Outcome.Agree (post : α → β → σ → σ → Prop) (Link : σ → σ → Prop) :
    Outcome σ Q R G ε α → Outcome σ Q R G ε β → Prop
  | .done a rest s, .done b rest' t => rest = rest' ∧ post a b s t
  | .failed e s, .failed e' t => e = e' ∧ Link s t
  | .blocked qs _ s, .blocked qs' _ t => qs = qs' ∧ Link s t
  | .refused, .refused => True
  | _, _ => False

section Agree

variable {S} {Rel Link : σ → σ → Prop} {qs : List Q}

theorem Lockstep.firstReady (lock : S.Lockstep Rel Link qs) {s t : σ} (related : Rel s t) :
    ∀ (n : Nat) (rest : List Q), (∀ q ∈ rest, q ∈ qs) → S.firstReady s n rest = S.firstReady t n rest
  | _, [], _ => rfl
  | n, q :: rest, sub => by
      have here := lock.ready s t related q (sub q List.mem_cons_self)
      have later := lock.firstReady related (n + 1) rest fun q' mem => sub q' (List.mem_cons_of_mem q mem)
      unfold System.firstReady
      rw [here, later]

theorem Lockstep.deliver (lock : S.Lockstep Rel Link qs) :
    ∀ (gs : List G) (s t : σ), Rel s t →
      match S.deliver gs s, S.deliver gs t with
      | .ok s', .ok t' => Rel s' t'
      | .error (e, s'), .error (e', t') => e = e' ∧ Link s' t'
      | _, _ => False
  | [], _, _, related => related
  | g :: gs, s, t, related => by
      have same := lock.signal s t related g
      unfold SameHandling at same
      unfold System.deliver
      cases left : S.handle g s with
      | ok s' =>
          cases right : S.handle g t with
          | ok t' =>
              rw [left, right] at same
              exact lock.deliver gs s' t' same
          | error e => rw [left, right] at same; cases same
      | error e =>
          cases right : S.handle g t with
          | ok t' => rw [left, right] at same; cases same
          | error e' =>
              rw [left, right] at same
              exact same

theorem Lockstep.answers (lock : S.Lockstep Rel Link qs) {s t : σ} (related : Rel s t) (i : Nat) (r : R) :
    S.answers qs i r s = S.answers qs i r t := by
  unfold System.answers
  cases at_i : qs[i]? with
  | none => rfl
  | some q => exact lock.permits s t related q (List.mem_of_getElem? at_i) r

theorem wait_agrees {post : α → β → σ → σ → Prop} (lock : S.Lockstep Rel Link qs)
    {k : Nat → R → Coro σ Q R ε α} {k' : Nat → R → Coro σ Q R ε β}
    {go : Nat → R → List (Action R G) → σ → Outcome σ Q R G ε α}
    {go' : Nat → R → List (Action R G) → σ → Outcome σ Q R G ε β}
    (run : ∀ u v, Rel u v → ∀ i q r, qs[i]? = some q → S.Answers q r u → ∀ script,
      Outcome.Agree post Link (go i r script u) (go' i r script v)) :
    ∀ (script : List (Action R G)) (s t : σ), Rel s t →
      Outcome.Agree post Link (S.wait qs k go script s) (S.wait qs k' go' script t)
  | script, s, t, related => by
      have same := lock.firstReady related 0 qs fun _ => id
      unfold wait
      rw [← same]
      cases found : S.firstReady s 0 qs with
      | some answer =>
          obtain ⟨i, r⟩ := answer
          obtain ⟨j, q, hi, at_j, here⟩ := S.firstReady_spec found
          rw [Nat.zero_add] at hi
          exact run s t related i q r (hi ▸ at_j) (.inl here) script
      | none =>
          cases script with
          | nil => exact ⟨rfl, lock.link s t related⟩
          | cons action rest =>
              cases action with
              | signals gs =>
                  have delivered := lock.deliver gs s t related
                  dsimp only
                  cases left : S.deliver gs s with
                  | ok s' =>
                      cases right : S.deliver gs t with
                      | ok t' =>
                          rw [left, right] at delivered
                          exact wait_agrees lock run rest s' t' delivered
                      | error failure => rw [left, right] at delivered; cases delivered
                  | error failure =>
                      cases right : S.deliver gs t with
                      | ok t' => rw [left, right] at delivered; cases delivered
                      | error failure' =>
                          rw [left, right] at delivered
                          exact delivered
              | answer i r =>
                  dsimp only
                  rw [← lock.answers related]
                  split
                  · rename_i permitted
                    unfold answers at permitted
                    split at permitted
                    · rename_i q at_i
                      exact run s t related i q r at_i (.inr permitted) rest
                    · cases permitted
                  · trivial

/-- **Coroutines in lockstep agree on every script.** -/
theorem replay_agrees {Allowed : (σ → σ → Prop) → Prop} {post : α → β → σ → σ → Prop}
    (c : Coro σ Q R ε α) :
    ∀ (d : Coro σ Q R ε β) (script : List (Action R G)) (s t : σ),
      S.Mirror Allowed Link post c s d t →
        Outcome.Agree post Link (S.replay c script s) (S.replay d script t) := by
  induction c with
  | ret a =>
      intro d script s t mirror
      obtain ⟨b, t', stop, held⟩ := mirror
      rw [S.replay_settle d, stop]
      exact ⟨rfl, held⟩
  | raise e =>
      intro d script s t mirror
      obtain ⟨t', stop, linked⟩ := mirror
      rw [S.replay_settle d, stop]
      exact ⟨rfl, linked⟩
  | get k ih => exact fun d script s t mirror => ih s d script s t mirror
  | put s k ih => exact fun d script _ t mirror => ih d script s t mirror
  | await qs k ih =>
      intro d script s t mirror
      obtain ⟨k', t', stop, Rel, -, lock, related, resume⟩ := mirror
      rw [S.replay_settle d, stop]
      exact wait_agrees lock (fun u v related i q r at_i answer script =>
        ih i r (k' i r) script u v (resume u v related i q r at_i answer)) script s t' related

end Agree

/-! ## Rules -/

/-- One relation links the states during every wait. -/
def Only (Rel Rel' : σ → σ → Prop) : Prop := Rel' = Rel

/-- The same result, in related states. -/
def Same (Rel : σ → σ → Prop) (a b : α) (s t : σ) : Prop := a = b ∧ Rel s t

namespace Mirror

variable {S} {Allowed Allowed' : (σ → σ → Prop) → Prop} {Rel Link : σ → σ → Prop}
  {post : α → β → σ → σ → Prop} {s t : σ}

/-- Of the right coroutine only matters where it stops. -/
theorem congr {c : Coro σ Q R ε α} {d d' : Coro σ Q R ε β} {t' : σ} (same : settle d' t' = settle d t)
    (mirror : S.Mirror Allowed Link post c s d t) : S.Mirror Allowed Link post c s d' t' := by
  induction c generalizing s with
  | ret a =>
      obtain ⟨b, u, stop, held⟩ := mirror
      exact ⟨b, u, same.trans stop, held⟩
  | raise e =>
      obtain ⟨u, stop, linked⟩ := mirror
      exact ⟨u, same.trans stop, linked⟩
  | get k ih => exact ih s mirror
  | put s k ih => exact ih mirror
  | await qs k ih =>
      obtain ⟨k', u, stop, rest⟩ := mirror
      exact ⟨k', u, same.trans stop, rest⟩

/-- And of the left one as well. -/
theorem of_settle {c c' : Coro σ Q R ε α} {d : Coro σ Q R ε β} {s' : σ} (same : settle c s = settle c' s')
    (mirror : S.Mirror Allowed Link post c' s' d t) : S.Mirror Allowed Link post c s d t := by
  have left (c : Coro σ Q R ε α) (s : σ) : S.Mirror Allowed Link post c s d t ↔
      match settle c s with
      | .ret a u => S.Mirror Allowed Link post (.ret a) u d t
      | .raise e u => S.Mirror Allowed Link post (.raise e) u d t
      | .await qs k u => S.Mirror Allowed Link post (.await qs k) u d t := by
    induction c generalizing s with
    | ret a => exact Iff.rfl
    | raise e => exact Iff.rfl
    | get k ih => exact ih s s
    | put u k ih => exact ih u
    | await qs k ih => exact Iff.rfl
  rw [left, same]
  exact (left c' s').mp mirror

theorem mono {post' : α → β → σ → σ → Prop} {c : Coro σ Q R ε α} {d : Coro σ Q R ε β}
    (allow : ∀ Rel, Allowed Rel → Allowed' Rel) (weaker : ∀ a b u v, post a b u v → post' a b u v)
    (mirror : S.Mirror Allowed Link post c s d t) : S.Mirror Allowed' Link post' c s d t := by
  induction c generalizing s d t with
  | ret a =>
      obtain ⟨b, u, stop, held⟩ := mirror
      exact ⟨b, u, stop, weaker _ _ _ _ held⟩
  | raise e => exact mirror
  | get k ih => exact ih s mirror
  | put s k ih => exact ih mirror
  | await qs k ih =>
      obtain ⟨k', u, stop, Rel, allowed, lock, related, resume⟩ := mirror
      exact ⟨k', u, stop, Rel, allow Rel allowed, lock, related,
        fun v w related i q r at_i answer => ih i r (resume v w related i q r at_i answer)⟩

theorem bind {post' : γ → δ → σ → σ → Prop} {c : Coro σ Q R ε α} {d : Coro σ Q R ε β}
    {f : α → Coro σ Q R ε γ} {g : β → Coro σ Q R ε δ} (mirror : S.Mirror Allowed Link post c s d t)
    (next : ∀ a b u v, post a b u v → S.Mirror Allowed Link post' (f a) u (g b) v) :
    S.Mirror Allowed Link post' (c.bind f) s (d.bind g) t := by
  induction c generalizing s d t with
  | ret a =>
      obtain ⟨b, u, stop, held⟩ := mirror
      exact congr (by rw [settle_bind, stop]) (next a b s u held)
  | raise e =>
      obtain ⟨u, stop, linked⟩ := mirror
      exact ⟨u, by rw [settle_bind, stop], linked⟩
  | get k ih => exact ih s mirror
  | put s k ih => exact ih mirror
  | await qs k ih =>
      obtain ⟨k', u, stop, Rel, allowed, lock, related, resume⟩ := mirror
      exact ⟨fun i r => (k' i r).bind g, u, by rw [settle_bind, stop], Rel, allowed, lock, related,
        fun v w related i q r at_i answer => ih i r (resume v w related i q r at_i answer)⟩

theorem read {f : σ → Coro σ Q R ε α} {g : σ → Coro σ Q R ε β}
    (mirror : S.Mirror Allowed Link post (f s) s (g t) t) :
    S.Mirror Allowed Link post (Coro.read.bind f) s (Coro.read.bind g) t :=
  congr (d := g t) rfl mirror

theorem modify {h : σ → σ} {f : Unit → Coro σ Q R ε α} {g : Unit → Coro σ Q R ε β}
    (mirror : S.Mirror Allowed Link post (f ()) (h s) (g ()) (h t)) :
    S.Mirror Allowed Link post ((Coro.modify h).bind f) s ((Coro.modify h).bind g) t :=
  congr (d := g ()) rfl mirror

theorem request {q : Q} {f : R → Coro σ Q R ε α} {g : R → Coro σ Q R ε β} (allowed : Allowed Rel)
    (lock : S.Lockstep Rel Link [q]) (related : Rel s t)
    (next : ∀ u v r, Rel u v → S.Answers q r u → S.Mirror Allowed Link post (f r) u (g r) v) :
    S.Mirror Allowed Link post ((Coro.request q).bind f) s ((Coro.request q).bind g) t := by
  refine ⟨_, t, rfl, Rel, allowed, lock, related, fun u v related i q' r at_i answer => ?_⟩
  cases i with
  | zero =>
      cases at_i
      exact next u v r related answer
  | succ i => simp at at_i

/-- The same errors are caught. -/
theorem attempt {c d : Coro σ Q R ε α} (mirror : S.Mirror Allowed Rel (Same Rel) c s d t) :
    S.Mirror Allowed Rel (Same Rel) c.attempt s d.attempt t := by
  induction c generalizing s d t with
  | ret a =>
      obtain ⟨b, u, stop, rfl, related⟩ := mirror
      exact ⟨.ok a, u, by rw [settle_attempt, stop], rfl, related⟩
  | raise e =>
      obtain ⟨u, stop, related⟩ := mirror
      exact ⟨.error e, u, by rw [settle_attempt, stop], rfl, related⟩
  | get k ih => exact ih s mirror
  | put s k ih => exact ih mirror
  | await qs k ih =>
      obtain ⟨k', u, stop, Rel', allowed, lock, related, resume⟩ := mirror
      exact ⟨fun i r => (k' i r).attempt, u, by rw [settle_attempt, stop], Rel', allowed, lock, related,
        fun v w related i q r at_i answer => ih i r (resume v w related i q r at_i answer)⟩

/-- Every coroutine mirrors itself. -/
theorem refl (linked : ∀ s, Link s s) (c : Coro σ Q R ε α) (s : σ) :
    S.Mirror Any Link (Same Eq) c s c s := by
  induction c generalizing s with
  | ret a => exact ⟨a, s, rfl, rfl, rfl⟩
  | raise e => exact ⟨s, rfl, linked s⟩
  | get k ih => exact congr (d := k s) rfl (ih s s)
  | put t k ih => exact congr (d := k) rfl (ih t)
  | await qs k ih =>
      refine ⟨k, s, rfl, Eq, trivial, ⟨?_, ?_, ?_, ?_⟩, rfl, ?_⟩
      · rintro u _ rfl
        exact linked u
      · rintro u _ rfl g
        cases S.handle g u with
        | ok v => exact rfl
        | error e => exact ⟨rfl, linked u⟩
      · rintro u _ rfl q _
        rfl
      · rintro u _ rfl q _ r
        rfl
      · rintro u _ rfl i q r _ _
        exact ih i r u

/-- What is known of the left coroutine alone may be used as well. -/
theorem and_wp {c : Coro σ Q R ε α} {d : Coro σ Q R ε β} {postW : α → σ → Prop} {err : ε → σ → Prop}
    {Idle : List Q → σ → Prop} (mirror : S.Mirror Any Link post c s d t)
    (pre : S.wp postW err Idle c s) :
    S.Mirror Any Link (fun a b u v => post a b u v ∧ postW a u) c s d t := by
  induction c generalizing s d t with
  | ret a =>
      obtain ⟨b, u, stop, held⟩ := mirror
      exact ⟨b, u, stop, held, pre⟩
  | raise e => exact mirror
  | get k ih => exact ih s mirror pre
  | put s k ih => exact ih mirror pre
  | await qs k ih =>
      obtain ⟨k', u, stop, Rel, -, lock, related, resume⟩ := mirror
      refine ⟨k', u, stop, fun v w => Rel v w ∧ S.Signalled s v, trivial, ⟨?_, ?_, ?_, ?_⟩,
        ⟨related, .refl⟩, ?_⟩
      · exact fun v w held => lock.link v w held.1
      · intro v w held g
        have same := lock.signal v w held.1 g
        unfold SameHandling at *
        cases left : S.handle g v with
        | ok v' =>
            rw [left] at same
            cases right : S.handle g w with
            | ok w' =>
                rw [right] at same
                exact ⟨same, held.2.tail ⟨g, left⟩⟩
            | error e => rw [right] at same; exact same
        | error e =>
            rw [left] at same
            cases right : S.handle g w with
            | ok w' => rw [right] at same; exact same
            | error e' => rw [right] at same; exact same
      · exact fun v w held => lock.ready v w held.1
      · exact fun v w held => lock.permits v w held.1
      · exact fun v w held i q r at_i answer =>
          ih i r (resume v w held.1 i q r at_i answer) ((pre v held.2).2.2 i q r at_i answer)

/-! ### Side by side -/

theorem parBlocked {qs : List Q} {k k' : Nat → R → Coro σ Q R ε α}
    (lock : S.Lockstep Rel Link qs)
    (ih : ∀ i r (d d' : Coro σ Q R ε β) u v,
      S.Mirror (Only Rel) Link (Same Rel) (k i r) u (k' i r) v →
        (∀ u v, Rel u v → S.Mirror (Only Rel) Link (Same Rel) d u d' v) →
          S.Mirror (Only Rel) Link (Same Rel) (par (k i r) d) u (par (k' i r) d') v)
    (resume : ∀ u v, Rel u v → ∀ i q r, qs[i]? = some q → S.Answers q r u →
      S.Mirror (Only Rel) Link (Same Rel) (k i r) u (k' i r) v)
    (d d' : Coro σ Q R ε β) (right : S.Mirror (Only Rel) Link (Same Rel) d s d' t) :
    S.Mirror (Only Rel) Link (Same Rel) (Coro.parBlocked qs (fun i r => par (k i r)) d) s
      (Coro.parBlocked qs (fun i r => par (k' i r)) d') t := by
  induction d generalizing s d' t with
  | ret b =>
      obtain ⟨b', t', stop, rfl, related⟩ := right
      refine ⟨fun i r => par (k' i r) (.ret b), t', ?_, Rel, rfl, lock, related, ?_⟩
      · rw [settle_parBlocked, stop]
      · exact fun u v related i q r at_i answer => ih i r _ _ u v (resume u v related i q r at_i answer)
          fun u v related => ⟨b, v, rfl, rfl, related⟩
  | raise e =>
      obtain ⟨t', stop, linked⟩ := right
      exact ⟨t', by rw [settle_parBlocked, stop], linked⟩
  | get j ih' => exact ih' s d' right
  | put s j ih' => exact ih' d' right
  | await qs' j ih' =>
      obtain ⟨j', t', stop, Rel', rfl, lock', related, resume'⟩ := right
      refine ⟨_, t', by rw [settle_parBlocked, stop], _, rfl, ⟨lock.link, lock.signal, ?_, ?_⟩, related, ?_⟩
      · intro u v related q mem
        rcases List.mem_append.mp mem with here | there
        · exact lock.ready u v related q here
        · exact lock'.ready u v related q there
      · intro u v related q mem
        rcases List.mem_append.mp mem with here | there
        · exact lock.permits u v related q here
        · exact lock'.permits u v related q there
      · intro u v related i q r at_i answer
        by_cases left : i < qs.length
        · rw [List.getElem?_append_left left] at at_i
          simp only [left, if_true]
          exact ih i r _ _ u v (resume u v related i q r at_i answer)
            fun u v related => ⟨j', v, rfl, _, rfl, lock', related, resume'⟩
        · rw [List.getElem?_append_right (Nat.le_of_not_lt left)] at at_i
          simp only [left, if_false]
          exact ih' _ r (j' _ r) (resume' u v related _ q r at_i answer)

/-- **Two coroutines side by side do the same as two that mirror them.** -/
theorem par {c c' : Coro σ Q R ε α} {d d' : Coro σ Q R ε β}
    (left : S.Mirror (Only Rel) Link (Same Rel) c s c' t)
    (right : ∀ u v, Rel u v → S.Mirror (Only Rel) Link (Same Rel) d u d' v) :
    S.Mirror (Only Rel) Link (Same Rel) (Coro.par c d) s (Coro.par c' d') t := by
  induction c generalizing s c' d d' t with
  | ret a =>
      obtain ⟨b, t', stop, rfl, related⟩ := left
      refine congr (d := d'.bind fun b => .ret (a, b)) (t := t') (by rw [settle_par, stop]) ?_
      refine bind (right s t' related) ?_
      rintro b _ u v ⟨rfl, related⟩
      exact ⟨(a, b), v, rfl, rfl, related⟩
  | raise e =>
      obtain ⟨t', stop, linked⟩ := left
      exact ⟨t', by rw [settle_par, stop], linked⟩
  | get k ih => exact ih s left right
  | put s k ih => exact ih left right
  | await qs k ih =>
      obtain ⟨k', t', stop, Rel', rfl, lock, related, resume⟩ := left
      refine congr (d := Coro.parBlocked qs (fun i r => Coro.par (k' i r)) d') (t := t')
        (by rw [settle_par, stop]) ?_
      exact parBlocked lock (fun i r d d' u v mirror after => ih i r mirror after) resume d d'
        (right s t' related)

/-- **Any number of coroutines side by side do the same as those that mirror them.** -/
theorem gather {f g : ι → Coro σ Q R ε α} (xs : List ι)
    (each : ∀ x ∈ xs, ∀ u v, Rel u v → S.Mirror (Only Rel) Link (Same Rel) (f x) u (g x) v)
    (related : Rel s t) :
    S.Mirror (Only Rel) Link (Same Rel) (Coro.gather (xs.map f)) s (Coro.gather (xs.map g)) t := by
  induction xs generalizing s t with
  | nil => exact ⟨[], t, rfl, rfl, related⟩
  | cons x xs ih =>
      have rest : ∀ u v, Rel u v → S.Mirror (Only Rel) Link (Same Rel) (Coro.gather (xs.map f)) u
          (Coro.gather (xs.map g)) v :=
        fun u v related => ih (fun y mem => each y (List.mem_cons_of_mem x mem)) related
      refine bind (par (each x List.mem_cons_self s t related) rest) ?_
      rintro p _ u v ⟨rfl, related⟩
      exact ⟨p.1 :: p.2, v, rfl, rfl, related⟩

end Mirror

end System

end LanggraphTemporal.Theory
