/-
# Theory.CoroutineInvariant -- weakest preconditions of what is kept

Three ways to come by a `wp`, from judgements that compose side by side.  A
coroutine that steps along `Rel` keeps whatever `Rel` and the signals keep
(`Steps.wp`); so does one that launches others, from where it has launched them
(`Launches.wp`).  `Maintains J` is about results: as long as everybody keeps
`J`, so does the coroutine, and what it returns is made of its answers as `post`
says (`Maintains.gather` for many, `Maintains.wp` for the run).
-/
import LanggraphTemporal.Theory.CoroutineStarts

namespace LanggraphTemporal.Theory

set_option autoImplicit false

open Coro

variable {σ Q R G ε α β ι : Type} {S : System σ Q R G ε} {s t : σ}

/-! ## What is kept along every path -/

theorem wp_and {post post' : α → σ → Prop} {err err' : ε → σ → Prop} {Idle Idle' : List Q → σ → Prop}
    {c : Coro σ Q R ε α} (left : S.wp post err Idle c s) (right : S.wp post' err' Idle' c s) :
    S.wp (fun a t => post a t ∧ post' a t) (fun e t => err e t ∧ err' e t)
      (fun qs t => Idle qs t ∧ Idle' qs t) c s := by
  induction c generalizing s with
  | ret a => exact ⟨left, right⟩
  | raise e => exact ⟨left, right⟩
  | get k ih => exact ih s left right
  | put t k ih => exact ih left right
  | await qs k ih =>
      intro t signalled
      obtain ⟨idle, failing, resume⟩ := left t signalled
      obtain ⟨idle', failing', resume'⟩ := right t signalled
      exact ⟨⟨idle, idle'⟩, fun g e handled => ⟨failing g e handled, failing' g e handled⟩,
        fun i q r at_i answer => ih i r (resume i q r at_i answer) (resume' i q r at_i answer)⟩

section Kept

variable {Rel : σ → σ → Prop} {J : σ → Prop} (closed : ∀ s t, J s → Rel s t → J t)
  (signals : ∀ s g t, J s → S.handle g s = .ok t → J t)
include closed signals

theorem Coro.Steps.wp {Asks : Waits σ Q R ε} {c : Coro σ Q R ε α} (steps : Steps Rel Asks c s)
    (start : J s) : S.wp (fun _ => J) (fun _ => J) (fun _ => J) c s := by
  induction c generalizing s with
  | ret a => exact start
  | raise e => exact start
  | get k ih => exact ih s steps start
  | put t k ih => exact ih steps.2 (closed s t start steps.1)
  | await qs k ih =>
      intro t signalled
      have here : J t := signalled.keeps signals start
      exact ⟨here, fun _ _ _ => here, fun i _ r _ _ => ih i r (steps.2 i r t) here⟩

/-- What has been launched is kept. -/
theorem Launches.wp {q : Q} {qs : List Q} {c : Coro σ Q R ε α} (launches : Launches Rel q c s qs t)
    (launched : J t) : S.wp (fun _ => J) (fun _ => J) (fun _ => J) c s := by
  obtain ⟨-, k, settled, later⟩ := launches
  induction c generalizing s with
  | ret a => cases settled
  | raise e => cases settled
  | get j ih => exact ih s settled
  | put u j ih => exact ih settled
  | await qs j ih =>
      cases settled
      intro u signalled
      have here : J u := signalled.keeps signals launched
      exact ⟨here, fun _ _ _ => here, fun i _ r _ _ => (later i r u).wp closed signals here⟩

end Kept

/-! ## Results made of answers -/

/-- While everybody keeps `J`, the coroutine does, and with answers that `Gets`
allows it returns what `post` says. -/
def Maintains (J : σ → Prop) (Gets : Q → R → Prop) (post : α → Prop) : Coro σ Q R ε α → Prop
  | .ret a => post a
  | .raise _ => True
  | .get k => ∀ s, J s → Maintains J Gets post (k s)
  | .put s k => J s ∧ Maintains J Gets post k
  | .await qs k => ∀ i q r, qs[i]? = some q → Gets q r → Maintains J Gets post (k i r)

namespace Maintains

variable {J : σ → Prop} {Gets : Q → R → Prop} {post : α → Prop} {post' : β → Prop}

theorem mono {post' : α → Prop} {c : Coro σ Q R ε α} (weaker : ∀ a, post a → post' a)
    (maintains : Maintains J Gets post c) : Maintains J Gets post' c := by
  induction c with
  | ret a => exact weaker a maintains
  | raise e => trivial
  | get k ih => exact fun s here => ih s (maintains s here)
  | put s k ih => exact ⟨maintains.1, ih maintains.2⟩
  | await qs k ih => exact fun i q r at_i gets => ih i r (maintains i q r at_i gets)

theorem bind {c : Coro σ Q R ε α} {f : α → Coro σ Q R ε β} (maintains : Maintains J Gets post c)
    (next : ∀ a, post a → Maintains J Gets post' (f a)) : Maintains J Gets post' (c.bind f) := by
  induction c with
  | ret a => exact next a maintains
  | raise e => trivial
  | get k ih => exact fun s here => ih s (maintains s here)
  | put s k ih => exact ⟨maintains.1, ih maintains.2⟩
  | await qs k ih => exact fun i q r at_i gets => ih i r (maintains i q r at_i gets)

theorem modify {f : σ → σ} (keeps : ∀ s, J s → J (f s)) :
    Maintains J Gets (fun _ => True) (Coro.modify f : Coro σ Q R ε Unit) :=
  fun s here => ⟨keeps s here, trivial⟩

theorem request {q : Q} {f : R → Coro σ Q R ε α} (next : ∀ r, Gets q r → Maintains J Gets post (f r)) :
    Maintains J Gets post ((Coro.request q).bind f) := by
  intro i q' r at_i gets
  cases i with
  | zero =>
      cases at_i
      exact next r gets
  | succ i => simp at at_i

theorem parBlocked {qs : List Q} {k : Nat → R → Coro σ Q R ε α} {d : Coro σ Q R ε β}
    (resume : ∀ i q r, qs[i]? = some q → Gets q r → ∀ d : Coro σ Q R ε β, Maintains J Gets post' d →
      Maintains J Gets (fun p => post p.1 ∧ post' p.2) (Coro.par (k i r) d))
    (right : Maintains J Gets post' d) :
    Maintains J Gets (fun p => post p.1 ∧ post' p.2)
      (Coro.parBlocked qs (fun i r => Coro.par (k i r)) d) := by
  induction d with
  | ret b => exact fun i q r at_i gets => resume i q r at_i gets _ right
  | raise e => trivial
  | get j ih => exact fun s here => ih s (right s here)
  | put s j ih => exact ⟨right.1, ih right.2⟩
  | await qs' j ih =>
      intro i q r at_i gets
      by_cases left : i < qs.length
      · rw [List.getElem?_append_left left] at at_i
        simp only [left, if_true]
        exact resume i q r at_i gets _ right
      · rw [List.getElem?_append_right (Nat.le_of_not_lt left)] at at_i
        simp only [left, if_false]
        exact ih _ r (right _ q r at_i gets)

theorem par {c : Coro σ Q R ε α} {d : Coro σ Q R ε β} (left : Maintains J Gets post c)
    (right : Maintains J Gets post' d) :
    Maintains J Gets (fun p => post p.1 ∧ post' p.2) (Coro.par c d) := by
  induction c generalizing d with
  | ret a => exact right.bind fun b held => ⟨left, held⟩
  | raise e => trivial
  | get k ih => exact fun s here => ih s (left s here) right
  | put s k ih => exact ⟨left.1, ih left.2 right⟩
  | await qs k ih =>
      exact parBlocked (fun i q r at_i gets d right => ih i r (left i q r at_i gets) right) right

/-- **Side by side, each returns what it returns alone.** -/
theorem gather {f : ι → Coro σ Q R ε α} {post : ι → α → Prop}
    (each : ∀ x, Maintains J Gets (post x) (f x)) (xs : List ι) :
    Maintains J Gets (List.Forall₂ post xs) (Coro.gather (xs.map f)) := by
  induction xs with
  | nil => exact .nil
  | cons x xs ih => exact ((each x).par ih).bind fun p held => .cons held.1 held.2

theorem wp (signals : ∀ s g t, J s → S.handle g s = .ok t → J t)
    (answers : ∀ q r s, S.Answers q r s → Gets q r) {c : Coro σ Q R ε α}
    (maintains : Maintains J Gets post c) (start : J s) :
    S.wp (fun a t => post a ∧ J t) (fun _ => J) (fun _ => J) c s := by
  induction c generalizing s with
  | ret a => exact ⟨maintains, start⟩
  | raise e => exact start
  | get k ih => exact ih s (maintains s start) start
  | put t k ih => exact ih maintains.2 maintains.1
  | await qs k ih =>
      intro t signalled
      have here : J t := signalled.keeps signals start
      exact ⟨here, fun _ _ _ => here,
        fun i q r at_i answer => ih i r (maintains i q r at_i (answers q r t answer)) here⟩

end Maintains

end LanggraphTemporal.Theory
