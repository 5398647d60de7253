/-
# Theory.Transcript -- the answers of a replay

`transcript` lists the answers that a script gives to a coroutine, each with the
request it is given to.  What a run makes of its answers can be stated about
them, and it can be proved without them: in the system `S.only Gets` the
environment gives no answers but those that `Gets` allows, and a replay is the
same in it if it has heard no others (`replay_only`).
-/
import LanggraphTemporal.Theory.CoroutineLogic

namespace LanggraphTemporal.Theory.System

set_option autoImplicit false

open Coro

variable {σ Q R G ε α : Type} (S : System σ Q R G ε)

/-- What is heard while waiting on `qs`, and after that. -/
def hear (qs : List Q) (go : Nat → R → List (Action R G) → σ → List (Q × R)) :
    List (Action R G) → σ → List (Q × R)
  | script, s =>
    match S.firstReady s 0 qs with
    | some (i, r) => go i r script s
    | none =>
      match script with
      | [] => []
      | .signals gs :: rest =>
          match S.deliver gs s with
          | .ok s' => hear qs go rest s'
          | .error _ => []
      | .answer i r :: rest =>
          match qs[i]? with
          | some q => if S.permits q r s then (q, r) :: go i r rest s else []
          | none => []
  termination_by structural script => script

/-- The answers that a script gives to a coroutine, with their requests. -/
def transcript : Coro σ Q R ε α → List (Action R G) → σ → List (Q × R)
  | .ret _, _, _ => []
  | .raise _, _, _ => []
  | .get k, script, s => transcript (k s) script s
  | .put s k, script, _ => transcript k script s
  | .await qs k, script, s => S.hear qs (fun i r => transcript (k i r)) script s

open Classical in
/-- The environment gives only answers that `Gets` allows. -/
noncomputable def only (Gets : Q → R → Prop) : System σ Q R G ε where
  handle := S.handle
  ready := S.ready
  permits q r s := S.permits q r s && decide (Gets q r)

variable {S} {Gets : Q → R → Prop}

open Classical in
theorem answers_only {q : Q} {r : R} {s : σ} (answered : (S.only Gets).Answers q r s) :
    S.ready q s = some r ∨ S.permits q r s = true ∧ Gets q r := by
  rcases answered with ready | permitted
  · exact .inl ready
  · have both := Bool.and_eq_true_iff.mp permitted
    exact .inr ⟨both.1, of_decide_eq_true both.2⟩

theorem firstReady_only (s : σ) : ∀ (n : Nat) (qs : List Q),
    (S.only Gets).firstReady s n qs = S.firstReady s n qs
  | _, [] => rfl
  | n, q :: qs => by
      have later := firstReady_only s (n + 1) qs
      have here : (S.only Gets).ready q s = S.ready q s := rfl
      simp only [firstReady, later, here]

theorem deliver_only : ∀ (gs : List G) (s : σ), (S.only Gets).deliver gs s = S.deliver gs s
  | [], _ => rfl
  | g :: gs, s => by
      have here : (S.only Gets).handle g s = S.handle g s := rfl
      simp only [deliver, here, deliver_only gs]

open Classical in
theorem wait_only {qs : List Q} {k : Nat → R → Coro σ Q R ε α}
    {go go' : Nat → R → List (Action R G) → σ → Outcome σ Q R G ε α}
    {heard : Nat → R → List (Action R G) → σ → List (Q × R)}
    (run : ∀ i r script s, (∀ p ∈ heard i r script s, Gets p.1 p.2) →
      go' i r script s = go i r script s) :
    ∀ (script : List (Action R G)) (s : σ), (∀ p ∈ S.hear qs heard script s, Gets p.1 p.2) →
      (S.only Gets).wait qs k go' script s = S.wait qs k go script s
  | script, s, allowed => by
      unfold hear at allowed
      unfold wait
      rw [firstReady_only]
      cases asleep : S.firstReady s 0 qs with
      | some answer =>
          rw [asleep] at allowed
          exact run _ _ _ _ allowed
      | none =>
          rw [asleep] at allowed
          cases script with
          | nil => rfl
          | cons action rest =>
              cases action with
              | signals gs =>
                  dsimp only at allowed ⊢
                  rw [deliver_only]
                  cases delivered : S.deliver gs s with
                  | ok t =>
                      rw [delivered] at allowed
                      exact wait_only run rest t allowed
                  | error failure => rfl
              | answer i r =>
                  dsimp only at allowed ⊢
                  unfold answers
                  cases asked : qs[i]? with
                  | none => rfl
                  | some q =>
                      rw [asked] at allowed
                      show (if (S.permits q r s && decide (Gets q r)) = true then _ else _) = _
                      by_cases permitted : S.permits q r s = true
                      · simp only [permitted, if_true] at allowed
                        have here : Gets q r := allowed (q, r) List.mem_cons_self
                        have later := run i r rest s fun p mem => allowed p (List.mem_cons_of_mem _ mem)
                        simp [permitted, here, later]
                      · simp [permitted]

/-- **What a run makes of its answers depends on no others.** -/
theorem replay_only (c : Coro σ Q R ε α) :
    ∀ (script : List (Action R G)) (s : σ), (∀ p ∈ S.transcript c script s, Gets p.1 p.2) →
      (S.only Gets).replay c script s = S.replay c script s := by
  induction c with
  | ret a => exact fun _ _ _ => rfl
  | raise e => exact fun _ _ _ => rfl
  | get k ih => exact fun script s allowed => ih s script s allowed
  | put t k ih => exact fun script _ allowed => ih script t allowed
  | await qs k ih => exact wait_only ih

/-! ## Going on -/

theorem hear_silent {qs : List Q} {heard : Nat → R → List (Action R G) → σ → List (Q × R)}
    (run : ∀ i r script s, answersIn script = 0 → heard i r script s = []) :
    ∀ (script : List (Action R G)) (s : σ), answersIn script = 0 → S.hear qs heard script s = []
  | [], s, silent => by
      unfold hear
      split
      · exact run _ _ _ _ silent
      · rfl
  | .signals gs :: rest, s, silent => by
      unfold hear
      split
      · exact run _ _ _ _ silent
      · dsimp only
        split
        · exact hear_silent run rest _ silent
        · rfl
  | .answer i r :: rest, s, silent => by
      simp [answersIn] at silent

/-- Nothing is heard without answers. -/
theorem transcript_silent (c : Coro σ Q R ε α) :
    ∀ (script : List (Action R G)) (s : σ), answersIn script = 0 → S.transcript c script s = [] := by
  induction c with
  | ret a => exact fun _ _ _ => rfl
  | raise e => exact fun _ _ _ => rfl
  | get k ih => exact fun script s silent => ih s script s silent
  | put t k ih => exact fun script _ silent => ih script t silent
  | await qs k ih => exact hear_silent ih

section Hear

variable {qs : List Q} {heard : Nat → R → List (Action R G) → σ → List (Q × R)} {s : σ} {i : Nat} {r : R}

theorem hear_ready (ready : S.firstReady s 0 qs = some (i, r)) (script : List (Action R G)) :
    S.hear qs heard script s = heard i r script s := by
  unfold hear
  rw [ready]

theorem hear_waits (asleep : S.firstReady s 0 qs = none) : S.hear qs heard [] s = [] := by
  unfold hear
  rw [asleep]

theorem hear_signals (asleep : S.firstReady s 0 qs = none) {gs : List G} {t : σ}
    (delivered : S.deliver gs s = .ok t) (script : List (Action R G)) :
    S.hear qs heard (.signals gs :: script) s = S.hear qs heard script t := by
  conv_lhs => unfold hear
  rw [asleep]
  simp only [delivered]

theorem hear_answer (asleep : S.firstReady s 0 qs = none) {q : Q} (asked : qs[i]? = some q)
    (permitted : S.permits q r s = true) (script : List (Action R G)) :
    S.hear qs heard (.answer i r :: script) s = (q, r) :: heard i r script s := by
  unfold hear
  rw [asleep]
  simp only [asked, permitted, if_true]

theorem asked_of_answers (answered : S.answers qs i r s = true) :
    ∃ q, qs[i]? = some q ∧ S.permits q r s = true := by
  unfold answers at answered
  cases asked : qs[i]? with
  | none =>
      rw [asked] at answered
      cases answered
  | some q =>
      rw [asked] at answered
      exact ⟨q, rfl, answered⟩

end Hear

theorem hear_append {qs qs' : List Q} {k k' : Nat → R → Coro σ Q R ε α} {t : σ}
    {go : Nat → R → List (Action R G) → σ → Outcome σ Q R G ε α}
    {heard : Nat → R → List (Action R G) → σ → List (Q × R)} {more : List (Action R G)}
    (run : ∀ i r script s, go i r script s = .blocked qs' k' t →
      heard i r (script ++ more) s = heard i r script s ++ S.transcript (.await qs' k') more t)
    (here : ∀ s, S.hear qs heard more s = S.transcript (.await qs k) more s) :
    ∀ (script : List (Action R G)) (s : σ), S.wait qs k go script s = .blocked qs' k' t →
      S.hear qs heard (script ++ more) s = S.hear qs heard script s ++ S.transcript (.await qs' k') more t := by
  intro script
  induction script with
  | nil =>
      intro s blocked
      cases ready : S.firstReady s 0 qs with
      | some answer =>
          obtain ⟨i, r⟩ := answer
          unfold wait at blocked
          rw [ready] at blocked
          rw [hear_ready ready, hear_ready ready]
          exact run i r [] s blocked
      | none =>
          unfold wait at blocked
          rw [ready] at blocked
          cases blocked
          rw [hear_waits ready, List.nil_append, List.nil_append]
          exact here t
  | cons action rest ih =>
      intro s blocked
      cases ready : S.firstReady s 0 qs with
      | some answer =>
          obtain ⟨i, r⟩ := answer
          unfold wait at blocked
          rw [ready] at blocked
          rw [hear_ready ready, hear_ready ready]
          exact run i r (action :: rest) s blocked
      | none =>
          unfold wait at blocked
          rw [ready] at blocked
          cases action with
          | signals gs =>
              cases delivered : S.deliver gs s with
              | ok u =>
                  simp only [delivered] at blocked
                  rw [List.cons_append, hear_signals ready delivered, hear_signals ready delivered]
                  exact ih u blocked
              | error failure =>
                  simp only [delivered] at blocked
                  cases blocked
          | answer i r =>
              by_cases answered : S.answers qs i r s = true
              · simp only [answered, if_true] at blocked
                obtain ⟨q, asked, permitted⟩ := asked_of_answers answered
                rw [List.cons_append, hear_answer ready asked permitted, hear_answer ready asked permitted,
                  run i r rest s blocked]
                rfl
              · simp only [answered] at blocked
                cases blocked

/-- What is heard while a blocked replay goes on comes behind what it has heard. -/
theorem transcript_append {qs : List Q} {k : Nat → R → Coro σ Q R ε α} {t : σ} (c : Coro σ Q R ε α)
    (more : List (Action R G)) :
    ∀ (script : List (Action R G)) (s : σ), S.replay c script s = .blocked qs k t →
      S.transcript c (script ++ more) s = S.transcript c script s ++ S.transcript (.await qs k) more t := by
  induction c with
  | ret a => exact fun _ _ blocked => by cases blocked
  | raise e => exact fun _ _ blocked => by cases blocked
  | get k ih => exact fun script s blocked => ih s script s blocked
  | put s k ih => exact fun script _ blocked => ih script s blocked
  | await qs k ih => exact fun script s blocked => hear_append ih (fun _ => rfl) script s blocked

theorem firstReady_of_asleep {t : σ} : ∀ (n : Nat) {qs : List Q}, (∀ q ∈ qs, S.ready q t = none) →
    S.firstReady t n qs = none
  | _, [], _ => rfl
  | n, q :: qs, asleep => by
      have here : S.ready q t = none := asleep q List.mem_cons_self
      have later := firstReady_of_asleep (n + 1) fun q mem => asleep q (List.mem_cons_of_mem _ mem)
      simp only [firstReady, here, later]

/-- One answer is heard alone. -/
theorem transcript_answer {qs : List Q} {k : Nat → R → Coro σ Q R ε α} {t : σ} {i : Nat} {r : R}
    (quiet : ∀ q ∈ qs, S.ready q t = none) :
    ∀ p ∈ S.transcript (.await qs k) [.answer i r] t, qs[i]? = some p.1 ∧ p.2 = r := by
  intro p mem
  have asleep : S.firstReady t 0 qs = none := firstReady_of_asleep 0 quiet
  have heard : p ∈ S.hear qs (fun i r => S.transcript (k i r)) [.answer i r] t := mem
  unfold hear at heard
  rw [asleep] at heard
  dsimp only at heard
  cases asked : qs[i]? with
  | none =>
      rw [asked] at heard
      cases heard
  | some q =>
      rw [asked] at heard
      dsimp only at heard
      split at heard
      · rw [transcript_silent _ _ _ rfl] at heard
        cases List.mem_singleton.mp heard
        exact ⟨rfl, rfl⟩
      · cases heard

end LanggraphTemporal.Theory.System
