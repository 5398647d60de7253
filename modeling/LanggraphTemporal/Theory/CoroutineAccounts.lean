/-
# Theory.CoroutineAccounts -- what is begun, and what is waited for

A coroutine that asks for something first writes down what it asks for.  `total`
is what the state says has been begun, `weight` is what a request waits for, and
`Accounts owed c s` says that `c`, with `owed` begun and not yet answered,
writes down exactly what it goes on to ask for, on every path.  Side by side,
what is owed adds up (`Accounts.par`).  So at any time of a replay, what has
been begun is what has been answered and what is waited for (`replay_balanced`):
nothing is begun and forgotten, and nothing is waited for that was not begun.

An error ends the coroutines beside it, and what they wait for is abandoned; one
that is caught must owe nothing (`Clears`).
-/
import LanggraphTemporal.Theory.Transcript
import Mathlib.Algebra.BigOperators.Group.List.Basic
import Mathlib.Algebra.Group.Defs
import Mathlib.Tactic.Abel

namespace LanggraphTemporal.Theory

set_option autoImplicit false

open Coro

variable {σ Q R G ε α β ι M : Type} [AddCancelCommMonoid M]

/-- With `owed` begun and not answered, the coroutine asks for what it owes, and
ends owing nothing; where it raises an error, it owes what `Fails` allows. -/
def Accounts (total : σ → M) (weight : Q → M) (Fails : M → Prop) : M → Coro σ Q R ε α → σ → Prop
  | owed, .ret _, _ => owed = 0
  | owed, .raise _, _ => Fails owed
  | owed, .get k, s => Accounts total weight Fails owed (k s) s
  | owed, .put t k, s => ∃ more, total t = total s + more ∧ Accounts total weight Fails (owed + more) k t
  | owed, .await qs k, _ => owed = (qs.map weight).sum ∧
      ∀ i q r s, qs[i]? = some q →
        ∃ rest, rest + weight q = owed ∧ Accounts total weight Fails rest (k i r) s

/-- Errors are raised with nothing owed. -/
abbrev Clears (total : σ → M) (weight : Q → M) : M → Coro σ Q R ε α → σ → Prop :=
  Accounts total weight (· = 0)

/-- Errors may abandon what others wait for. -/
abbrev Balances (total : σ → M) (weight : Q → M) : M → Coro σ Q R ε α → σ → Prop :=
  Accounts total weight fun _ => True

namespace Accounts

variable {total : σ → M} {weight : Q → M} {Fails Fails' : M → Prop} {owed due : M} {s : σ}

theorem mono (weaker : ∀ m, Fails m → Fails' m) {c : Coro σ Q R ε α}
    (accounts : Accounts total weight Fails owed c s) : Accounts total weight Fails' owed c s := by
  induction c generalizing owed s with
  | ret a => exact accounts
  | raise e => exact weaker _ accounts
  | get k ih => exact ih s accounts
  | put t k ih =>
      obtain ⟨more, written, rest⟩ := accounts
      exact ⟨more, written, ih rest⟩
  | await qs k ih =>
      refine ⟨accounts.1, fun i q r t at_i => ?_⟩
      obtain ⟨rest, paid, later⟩ := accounts.2 i q r t at_i
      exact ⟨rest, paid, ih i r later⟩

theorem bind {c : Coro σ Q R ε α} {f : α → Coro σ Q R ε β} (accounts : Accounts total weight Fails owed c s)
    (next : ∀ a t, Accounts total weight Fails 0 (f a) t) : Accounts total weight Fails owed (c.bind f) s := by
  induction c generalizing owed s with
  | ret a =>
      have nothing : owed = 0 := accounts
      rw [nothing]
      exact next a s
  | raise e => exact accounts
  | get k ih => exact ih s accounts
  | put t k ih =>
      obtain ⟨more, written, rest⟩ := accounts
      exact ⟨more, written, ih rest⟩
  | await qs k ih =>
      refine ⟨accounts.1, fun i q r t at_i => ?_⟩
      obtain ⟨rest, paid, later⟩ := accounts.2 i q r t at_i
      exact ⟨rest, paid, ih i r later⟩

/-- A write that begins nothing. -/
theorem modify {f : σ → σ} (same : ∀ t, total (f t) = total t) :
    Accounts total weight Fails 0 (Coro.modify f : Coro σ Q R ε Unit) s :=
  ⟨0, by rw [same, add_zero], add_zero 0⟩

/-- What is written down is asked for at once. -/
theorem ask {f : σ → σ} {q : Q} {g : R → Coro σ Q R ε α} (begun : ∀ t, total (f t) = total t + weight q)
    (next : ∀ r t, Accounts total weight Fails 0 (g r) t) :
    Accounts total weight Fails 0 ((Coro.modify f).bind fun _ => (Coro.request q).bind g) s := by
  refine ⟨weight q, begun s, ?_, fun i q' r t at_i => ?_⟩
  · simp
  · cases i with
    | zero =>
        cases at_i
        exact ⟨0, rfl, next r t⟩
    | succ i => simp at at_i

/-- Waiting for what is not counted. -/
theorem request {q : Q} (free : weight q = 0) :
    Accounts total weight Fails 0 (Coro.request q : Coro σ Q R ε R) s := by
  refine ⟨by simp [free], fun i q' r t at_i => ?_⟩
  cases i with
  | zero =>
      cases at_i
      exact ⟨0, by rw [free, add_zero], rfl⟩
  | succ i => simp at at_i

/-- An error that is caught owes nothing. -/
theorem attempt {c : Coro σ Q R ε α} (clears : Clears total weight owed c s) :
    Accounts total weight Fails owed c.attempt s := by
  induction c generalizing owed s with
  | ret a => exact clears
  | raise e => exact clears
  | get k ih => exact ih s clears
  | put t k ih =>
      obtain ⟨more, written, rest⟩ := clears
      exact ⟨more, written, ih rest⟩
  | await qs k ih =>
      refine ⟨clears.1, fun i q r t at_i => ?_⟩
      obtain ⟨rest, paid, later⟩ := clears.2 i q r t at_i
      exact ⟨rest, paid, ih i r later⟩

/-! ## Side by side -/

theorem parBlocked {qs : List Q} {k : Nat → R → Coro σ Q R ε α} {d : Coro σ Q R ε β}
    (asked : owed = (qs.map weight).sum)
    (resume : ∀ i q r, qs[i]? = some q → ∀ (d : Coro σ Q R ε β) (due : M), (∀ t, Balances total weight due d t) →
      ∃ rest, rest + weight q = owed ∧ ∀ t, Balances total weight (rest + due) (Coro.par (k i r) d) t)
    (right : Balances total weight due d s) :
    Balances total weight (owed + due) (Coro.parBlocked qs (fun i r => Coro.par (k i r)) d) s := by
  induction d generalizing due s with
  | ret b =>
      have nothing : due = 0 := right
      subst nothing
      refine ⟨by rw [add_zero, asked], fun i q r t at_i => ?_⟩
      obtain ⟨rest, paid, later⟩ := resume i q r at_i (.ret b) 0 fun _ => rfl
      exact ⟨rest + 0, by rw [add_zero, add_zero, paid], later t⟩
  | raise e => trivial
  | get j ih => exact ih s right
  | put t j ih =>
      obtain ⟨more, written, rest⟩ := right
      refine ⟨more, written, ?_⟩
      rw [add_assoc]
      exact ih rest
  | await qs' j ih =>
      obtain ⟨asked', answered⟩ := right
      refine ⟨by rw [List.map_append, List.sum_append, ← asked, ← asked'], fun i q r t at_i => ?_⟩
      by_cases left : i < qs.length
      · rw [List.getElem?_append_left left] at at_i
        obtain ⟨rest, paid, later⟩ := resume i q r at_i (.await qs' j) due fun _ => ⟨asked', answered⟩
        simp only [left, if_true]
        refine ⟨rest + due, ?_, later t⟩
        rw [← paid]
        abel
      · rw [List.getElem?_append_right (Nat.le_of_not_lt left)] at at_i
        obtain ⟨rest, paid, later⟩ := answered (i - qs.length) q r t at_i
        simp only [left, if_false]
        refine ⟨owed + rest, ?_, ih _ r later⟩
        rw [add_assoc, paid]

theorem par {c : Coro σ Q R ε α} {d : Coro σ Q R ε β} (left : Balances total weight owed c s)
    (right : ∀ t, Balances total weight due d t) : Balances total weight (owed + due) (Coro.par c d) s := by
  induction c generalizing owed due s d with
  | ret a =>
      have nothing : owed = 0 := left
      subst nothing
      rw [zero_add]
      exact (right s).bind fun b t => rfl
  | raise e => trivial
  | get k ih => exact ih s left right
  | put t k ih =>
      obtain ⟨more, written, rest⟩ := left
      refine ⟨more, written, ?_⟩
      rw [add_right_comm]
      exact ih rest right
  | await qs k ih =>
      refine parBlocked left.1 (fun i q r at_i d due right => ?_) (right s)
      obtain ⟨rest, paid, -⟩ := left.2 i q r s at_i
      refine ⟨rest, paid, fun t => ?_⟩
      obtain ⟨rest', paid', later⟩ := left.2 i q r t at_i
      have same : rest' = rest := add_right_cancel (paid'.trans paid.symm)
      rw [← same]
      exact ih i r later right

theorem gather {f : ι → Coro σ Q R ε α} (each : ∀ x t, Balances total weight 0 (f x) t) (xs : List ι) :
    Balances total weight 0 (Coro.gather (xs.map f)) s := by
  induction xs generalizing s with
  | nil => rfl
  | cons x xs ih =>
      have both : Balances total weight (0 + 0) (Coro.par (f x) (Coro.gather (xs.map f))) s :=
        (each x s).par fun t => ih
      rw [add_zero] at both
      exact both.bind fun _ _ => rfl

end Accounts

/-! ## Replays -/

namespace System

variable {S : System σ Q R G ε} {total : σ → M} {weight : Q → M}

/-- What has been answered. -/
def answered (weight : Q → M) (told : List (Q × R)) : M := (told.map fun p => weight p.1).sum

/-- What was begun before, and since `s`, is what was answered and is waited for. -/
def Balanced (total : σ → M) (weight : Q → M) (owed : M) (s : σ) (told : List (Q × R)) :
    Outcome σ Q R G ε α → Prop
  | .done _ _ t => total t + owed = total s + answered weight told
  | .failed _ t => ∃ abandoned, total t + owed = total s + answered weight told + abandoned
  | .blocked qs _ t => total t + owed = total s + answered weight told + (qs.map weight).sum
  | .refused => True

theorem Balanced.start {owed : M} {s t : σ} {told : List (Q × R)} {outcome : Outcome σ Q R G ε α}
    (same : total t = total s) (balanced : Balanced total weight owed t told outcome) :
    Balanced total weight owed s told outcome := by
  cases outcome with
  | done a rest u =>
      unfold Balanced at balanced ⊢
      rw [← same]
      exact balanced
  | failed e u =>
      unfold Balanced at balanced ⊢
      rw [← same]
      exact balanced
  | blocked qs k u =>
      unfold Balanced at balanced ⊢
      rw [← same]
      exact balanced
  | refused => trivial

/-- An answer pays for its request. -/
theorem Balanced.cons {owed rest : M} {q : Q} {r : R} {s : σ} {told : List (Q × R)}
    {outcome : Outcome σ Q R G ε α} (paid : rest + weight q = owed)
    (balanced : Balanced total weight rest s told outcome) :
    Balanced total weight owed s ((q, r) :: told) outcome := by
  have more : answered weight ((q, r) :: told) = weight q + answered weight told := by
    simp [answered]
  subst paid
  cases outcome with
  | done a remaining u =>
      have here : total u + rest = total s + answered weight told := balanced
      show total u + (rest + weight q) = total s + answered weight ((q, r) :: told)
      rw [more, ← add_assoc, here]
      abel
  | failed e u =>
      obtain ⟨abandoned, here⟩ := balanced
      refine ⟨abandoned, ?_⟩
      rw [more, ← add_assoc, here]
      abel
  | blocked qs k u =>
      have here : total u + rest = total s + answered weight told + (qs.map weight).sum := balanced
      show total u + (rest + weight q) = total s + answered weight ((q, r) :: told) + (qs.map weight).sum
      rw [more, ← add_assoc, here]
      abel
  | refused => trivial

/-- A write that begins something is owed for. -/
theorem Balanced.put {owed more : M} {s t : σ} {told : List (Q × R)} {outcome : Outcome σ Q R G ε α}
    (written : total t = total s + more) (balanced : Balanced total weight (owed + more) t told outcome) :
    Balanced total weight owed s told outcome := by
  cases outcome with
  | done a remaining u =>
      have here : total u + (owed + more) = total t + answered weight told := balanced
      refine add_right_cancel (b := more) ?_
      rw [add_assoc, here, written]
      abel
  | failed e u =>
      obtain ⟨abandoned, here⟩ := balanced
      refine ⟨abandoned, add_right_cancel (b := more) ?_⟩
      rw [add_assoc, here, written]
      abel
  | blocked qs k u =>
      have here : total u + (owed + more) = total t + answered weight told + (qs.map weight).sum := balanced
      refine add_right_cancel (b := more) ?_
      rw [add_assoc, here, written]
      abel
  | refused => trivial

variable (signals : ∀ s g t, S.handle g s = .ok t → total t = total s)
  (free : ∀ q s r, S.ready q s = some r → weight q = 0)

omit [AddCancelCommMonoid M] in
include signals in
theorem total_signalled {s t : σ} (signalled : S.Signalled s t) : total t = total s :=
  signalled.keeps (J := fun u => total u = total s)
    (fun u g v before handled => (signals u g v handled).trans before) rfl

include signals free

theorem wait_balanced {qs : List Q} {k : Nat → R → Coro σ Q R ε α} {owed : M}
    {go : Nat → R → List (Action R G) → σ → Outcome σ Q R G ε α}
    {heard : Nat → R → List (Action R G) → σ → List (Q × R)}
    (run : ∀ i q r script s, qs[i]? = some q →
      ∃ rest, rest + weight q = owed ∧ Balanced total weight rest s (heard i r script s) (go i r script s))
    (asked : owed = (qs.map weight).sum) :
    ∀ (script : List (Action R G)) (s : σ),
      Balanced total weight owed s (S.hear qs heard script s) (S.wait qs k go script s)
  | script, s => by
      unfold hear wait
      cases ready : S.firstReady s 0 qs with
      | some answer =>
          obtain ⟨i, r⟩ := answer
          obtain ⟨j, q, place, at_j, here⟩ := S.firstReady_spec ready
          rw [Nat.zero_add] at place
          subst place
          obtain ⟨rest, paid, balanced⟩ := run i q r script s at_j
          rw [free q s r here, add_zero] at paid
          rw [← paid]
          exact balanced
      | none =>
          cases script with
          | nil =>
              show total s + owed = total s + answered weight [] + (qs.map weight).sum
              rw [asked]
              simp [answered]
          | cons action remaining =>
              cases action with
              | signals gs =>
                  dsimp only
                  cases delivered : S.deliver gs s with
                  | ok t =>
                      have same := total_signalled signals (S.deliver_signalled delivered)
                      exact (wait_balanced run asked remaining t).start same
                  | error failure =>
                      obtain ⟨e, t⟩ := failure
                      have same := total_signalled signals (S.deliver_error delivered).1
                      refine ⟨owed, ?_⟩
                      show total t + owed = total s + answered weight [] + owed
                      rw [same]
                      simp [answered]
              | answer i r =>
                  dsimp only
                  unfold answers
                  cases at_i : qs[i]? with
                  | none => trivial
                  | some q =>
                      by_cases permitted : S.permits q r s = true
                      · simp only [permitted, if_true]
                        obtain ⟨rest, paid, balanced⟩ := run i q r remaining s at_i
                        exact balanced.cons paid
                      · simp only [permitted]
                        trivial

/-- **What has been begun is what has been answered, and what is waited for.** -/
theorem replay_balanced (c : Coro σ Q R ε α) :
    ∀ (owed : M) (script : List (Action R G)) (s : σ), Balances total weight owed c s →
      Balanced total weight owed s (S.transcript c script s) (S.replay c script s) := by
  induction c with
  | ret a =>
      intro owed script s nothing
      have none : owed = 0 := nothing
      subst none
      show total s + 0 = total s + answered weight []
      simp [answered]
  | raise e =>
      intro owed script s _
      refine ⟨owed, ?_⟩
      show total s + owed = total s + answered weight [] + owed
      simp [answered]
  | get k ih => exact fun owed script s accounts => ih s owed script s accounts
  | put t k ih =>
      intro owed script s accounts
      obtain ⟨more, written, rest⟩ := accounts
      exact (ih (owed + more) script t rest).put written
  | await qs k ih =>
      intro owed script s accounts
      refine wait_balanced signals free (fun i q r remaining t at_i => ?_) accounts.1 script s
      obtain ⟨rest, paid, later⟩ := accounts.2 i q r t at_i
      exact ⟨rest, paid, ih i r rest remaining t later⟩

end System

end LanggraphTemporal.Theory
