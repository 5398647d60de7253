/-
# Theory.Coroutine -- cooperative coroutines over one shared state

A coroutine runs without interruption until it waits: between two waits it may
read and replace the shared state, and no other coroutine moves.  Waiting puts
out a list of requests; the environment answers any one of them, by its index,
and the coroutine goes on from there.  `par` and `gather` run several
coroutines on the same state: the requests of all of them are outstanding at
once, and only the coroutine whose request is answered moves.

A `System` says how the environment acts on a waiting coroutine.  Signals
change the state while it waits; a request may be answered by the state itself
(`ready`, a condition being waited for); and `permits` says which answers a
request can get.  `replay` runs a coroutine on a script of environment actions.
Every interleaving is a script, so "in every run" is "for every script".
-/
import Mathlib.Logic.Relation

namespace LanggraphTemporal.Theory

set_option autoImplicit false

/-- A coroutine over the state `σ`, with requests `Q`, answers `R`, errors `ε`
and result `α`. -/
inductive Coro (σ Q R ε α : Type) : Type where
  | ret (a : α)
  | raise (e : ε)
  | get (k : σ → Coro σ Q R ε α)
  | put (s : σ) (k : Coro σ Q R ε α)
  | await (qs : List Q) (k : Nat → R → Coro σ Q R ε α)

namespace Coro

variable {σ Q R ε α β γ : Type}

/-! ## Sequencing -/

def bind : Coro σ Q R ε α → (α → Coro σ Q R ε β) → Coro σ Q R ε β
  | ret a, f => f a
  | raise e, _ => raise e
  | get k, f => get fun s => (k s).bind f
  | put s k, f => put s (k.bind f)
  | await qs k, f => await qs fun i r => (k i r).bind f

instance : Monad (Coro σ Q R ε) where
  pure := ret
  bind := bind

@[simp] theorem pure_eq (a : α) : (pure a : Coro σ Q R ε α) = ret a := rfl

@[simp] theorem bind_eq (c : Coro σ Q R ε α) (f : α → Coro σ Q R ε β) : c >>= f = c.bind f := rfl

@[simp] theorem ret_bind (a : α) (f : α → Coro σ Q R ε β) : (ret a).bind f = f a := rfl

theorem bind_ret (c : Coro σ Q R ε α) : c.bind ret = c := by
  induction c with
  | ret a => rfl
  | raise e => rfl
  | get k ih => simp only [bind, ih]
  | put s k ih => simp only [bind, ih]
  | await qs k ih => simp only [bind, ih]

theorem bind_assoc (c : Coro σ Q R ε α) (f : α → Coro σ Q R ε β) (g : β → Coro σ Q R ε γ) :
    (c.bind f).bind g = c.bind fun a => (f a).bind g := by
  induction c with
  | ret a => rfl
  | raise e => rfl
  | get k ih => simp only [bind, ih]
  | put s k ih => simp only [bind, ih]
  | await qs k ih => simp only [bind, ih]

instance : LawfulMonad (Coro σ Q R ε) :=
  LawfulMonad.mk' _ (fun c => bind_ret c) (fun _ _ => rfl) (fun c f g => bind_assoc c f g)

/-- The current state. -/
def read : Coro σ Q R ε σ := get ret

/-- Replace the state by `f` of it. -/
def modify (f : σ → σ) : Coro σ Q R ε Unit := get fun s => put (f s) (ret ())

/-- Put out one request and wait for its answer. -/
def request (q : Q) : Coro σ Q R ε R := await [q] fun _ r => ret r

/-- Catch the error of `c`. -/
def attempt : Coro σ Q R ε α → Coro σ Q R ε (Except ε α)
  | ret a => ret (.ok a)
  | raise e => ret (.error e)
  | get k => get fun s => (k s).attempt
  | put s k => put s k.attempt
  | await qs k => await qs fun i r => (k i r).attempt

/-! ## Running side by side -/

/-- One coroutine waits on `qs`, to be resumed by `resume`; run the other one. -/
def parBlocked (qs : List Q) (resume : Nat → R → Coro σ Q R ε β → Coro σ Q R ε (α × β)) :
    Coro σ Q R ε β → Coro σ Q R ε (α × β)
  | ret b => await qs fun i r => resume i r (ret b)
  | raise e => raise e
  | get k => get fun s => parBlocked qs resume (k s)
  | put s k => put s (parBlocked qs resume k)
  | await qs' k => await (qs ++ qs') fun i r =>
      if i < qs.length then resume i r (await qs' k)
      else parBlocked qs resume (k (i - qs.length) r)

/-- Run two coroutines on one state: the left one first, up to its first wait,
then the right one; afterwards whichever is answered. An error of either ends
both. -/
def par : Coro σ Q R ε α → Coro σ Q R ε β → Coro σ Q R ε (α × β)
  | ret a, d => d.bind fun b => ret (a, b)
  | raise e, _ => raise e
  | get k, d => get fun s => par (k s) d
  | put s k, d => put s (par k d)
  | await qs k, d => parBlocked qs (fun i r => par (k i r)) d

/-- Run a list of coroutines side by side; the results come in list order. -/
def gather : List (Coro σ Q R ε α) → Coro σ Q R ε (List α)
  | [] => ret []
  | c :: cs => (par c (gather cs)).bind fun p => ret (p.1 :: p.2)

end Coro

/-! ## Where a coroutine stops next -/

section Settle

open Coro

variable {σ Q R ε α β : Type}

/-- Where a coroutine stops. -/
inductive Stop (σ Q R ε α : Type) where
  | ret (a : α) (s : σ)
  | raise (e : ε) (s : σ)
  | await (qs : List Q) (k : Nat → R → Coro σ Q R ε α) (s : σ)

/-- The state in which it stops, other than by an error. -/
def Stop.state : Stop σ Q R ε α → Option σ
  | .ret _ s => some s
  | .raise _ _ => none
  | .await _ _ s => some s

/-- Run a coroutine up to its first wait, or to its end. -/
def settle : Coro σ Q R ε α → σ → Stop σ Q R ε α
  | .ret a, s => .ret a s
  | .raise e, s => .raise e s
  | .get k, s => settle (k s) s
  | .put t k, _ => settle k t
  | .await qs k, s => .await qs k s

theorem settle_bind (c : Coro σ Q R ε α) (f : α → Coro σ Q R ε β) (s : σ) :
    settle (c.bind f) s =
      match settle c s with
      | .ret a t => settle (f a) t
      | .raise e t => .raise e t
      | .await qs k t => .await qs (fun i r => (k i r).bind f) t := by
  induction c generalizing s with
  | ret a => rfl
  | raise e => rfl
  | get k ih => exact ih s s
  | put t k ih => exact ih t
  | await qs k ih => rfl

end Settle

/-! ## Systems and replay -/

/-- How the environment acts on a waiting coroutine. -/
structure System (σ Q R G ε : Type) where
  /-- A signal handler runs at once on the state. -/
  handle : G → σ → Except ε σ
  /-- The answer a request gets from the state itself. -/
  ready : Q → σ → Option R
  /-- The answers the environment can give to a request. -/
  permits : Q → R → σ → Bool

/-- One environment action: the handlers of a batch of signals run before the
waiting coroutine looks at the state again, or one request is answered. -/
inductive Action (R G : Type) where
  | signals (gs : List G)
  | answer (i : Nat) (r : R)

/-- What a replay came to. `refused` means that the script gave an answer that
its request cannot get. -/
inductive Outcome (σ Q R G ε α : Type) where
  | done (a : α) (rest : List (Action R G)) (s : σ)
  | failed (e : ε) (s : σ)
  | blocked (qs : List Q) (k : Nat → R → Coro σ Q R ε α) (s : σ)
  | refused

namespace System

variable {σ Q R G ε α β : Type} (S : System σ Q R G ε)

/-- The first request that the state answers, with its index. -/
def firstReady (s : σ) : Nat → List Q → Option (Nat × R)
  | _, [] => none
  | i, q :: qs =>
      match S.ready q s with
      | some r => some (i, r)
      | none => firstReady s (i + 1) qs

/-- Run the handlers of a batch in order. On an error, the state it left. -/
def deliver : List G → σ → Except (ε × σ) σ
  | [], s => .ok s
  | g :: gs, s =>
      match S.handle g s with
      | .ok s' => deliver gs s'
      | .error e => .error (e, s)

/-- May the `i`-th outstanding request get the answer `r`? -/
def answers (qs : List Q) (i : Nat) (r : R) (s : σ) : Bool :=
  match qs[i]? with
  | some q => S.permits q r s
  | none => false

/-- A coroutine waits on `qs`: a condition the state satisfies wakes it,
otherwise the next action of the script does something. -/
def wait (qs : List Q) (k : Nat → R → Coro σ Q R ε α)
    (go : Nat → R → List (Action R G) → σ → Outcome σ Q R G ε α) :
    List (Action R G) → σ → Outcome σ Q R G ε α
  | script, s =>
    match S.firstReady s 0 qs with
    | some (i, r) => go i r script s
    | none =>
      match script with
      | [] => .blocked qs k s
      | .signals gs :: rest =>
          match S.deliver gs s with
          | .ok s' => wait qs k go rest s'
          | .error (e, s') => .failed e s'
      | .answer i r :: rest => if S.answers qs i r s then go i r rest s else .refused
  termination_by structural script => script

/-- Run a coroutine on a script. -/
def replay : Coro σ Q R ε α → List (Action R G) → σ → Outcome σ Q R G ε α
  | .ret a, script, s => .done a script s
  | .raise e, _, s => .failed e s
  | .get k, script, s => replay (k s) script s
  | .put s k, script, _ => replay k script s
  | .await qs k, script, s => S.wait qs k (fun i r => replay (k i r)) script s

end System

end LanggraphTemporal.Theory
