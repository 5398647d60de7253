/-
# Theory.Effects -- programs that change a state and may raise

What a program has changed stays changed when it raises.  A sequence returns
exactly if both of its parts do (`bind_eq_ok`), and leaves alone what both leave
alone (`Keeps.bind`).
-/
import Mathlib.Logic.Basic

namespace LanggraphTemporal.Theory

set_option autoImplicit false

namespace Effects

variable {ε σ τ α β : Type} {x : EStateM ε σ α} {f : α → EStateM ε σ β} {s s' : σ} {a : α}

/-- The state that a program leaves, whether it returns or raises. -/
def stateAfter (x : EStateM ε σ α) (s : σ) : σ :=
  match x s with
  | .ok _ s' => s'
  | .error _ s' => s'

theorem bind_of_ok (ran : x s = .ok a s') : (x >>= f) s = f a s' := by
  simp only [bind, EStateM.bind, ran]

theorem bind_of_error {e : ε} (ran : x s = .error e s') : (x >>= f) s = .error e s' := by
  simp only [bind, EStateM.bind, ran]

theorem get_bind {g : σ → EStateM ε σ β} : (get >>= g) s = g s s := rfl

theorem modify_bind {h : σ → σ} {g : PUnit → EStateM ε σ β} : (modify h >>= g) s = g ⟨⟩ (h s) := rfl

theorem bind_eq_ok {b : β} {s'' : σ} :
    (x >>= f) s = .ok b s'' ↔ ∃ a s', x s = .ok a s' ∧ f a s' = .ok b s'' := by
  cases ran : x s with
  | ok a s' => simp [bind_of_ok ran, and_assoc]
  | error e s' => simp [bind_of_error ran]

/-- The program does not change what is seen of the state. -/
def Keeps (view : σ → τ) (x : EStateM ε σ α) : Prop := ∀ s, view (stateAfter x s) = view s

namespace Keeps

variable {view : σ → τ}

theorem pure (a : α) : Keeps view (Pure.pure a : EStateM ε σ α) := fun _ => rfl

theorem throw (e : ε) : Keeps view (MonadExcept.throw e : EStateM ε σ α) := fun _ => rfl

theorem get : Keeps view (MonadState.get : EStateM ε σ σ) := fun _ => rfl

theorem modifyGet {g : σ → α × σ} (same : ∀ s, view (g s).2 = view s) :
    Keeps view (MonadState.modifyGet g : EStateM ε σ α) := same

theorem bind (first : Keeps view x) (rest : ∀ a, Keeps view (f a)) : Keeps view (x >>= f) := by
  intro s
  have here := first s
  unfold stateAfter at here ⊢
  cases ran : x s with
  | ok a s' =>
      rw [ran] at here
      rw [bind_of_ok ran]
      exact (rest a s').trans here
  | error e s' =>
      rw [ran] at here
      rw [bind_of_error ran]
      exact here

theorem of_ok (keeps : Keeps view x) (ran : x s = .ok a s') : view s' = view s := by
  have here := keeps s
  unfold stateAfter at here
  rwa [ran] at here

theorem of_error (keeps : Keeps view x) {e : ε} (ran : x s = .error e s') : view s' = view s := by
  have here := keeps s
  unfold stateAfter at here
  rwa [ran] at here

end Keeps

end Effects

end LanggraphTemporal.Theory
