/-
# Theory.Attempts -- a tape of attempts under a retry rule

Attempts are made one after the other, and each is an entry of a tape.  A rule
says after which of them, and after how many, another one is made.  What has
been made is a beginning of the tape; it ends at the first attempt after which
the rule asks for no other, or when the tape does.
-/
import Mathlib.Data.List.Basic

namespace LanggraphTemporal.Theory

set_option autoImplicit false

/-- The attempts made, those still on the tape, and the last one, if it was. -/
structure Attempts (A : Type) where
  made : List A
  rest : List A
  last : Option A

/-- Make attempts as long as the rule asks for another one; `n` have been made. -/
def attempts {A : Type} (again : Nat → A → Bool) : Nat → List A → Attempts A
  | _, [] => ⟨[], [], none⟩
  | n, a :: tape =>
      if again (n + 1) a then
        let later := attempts again (n + 1) tape
        { later with made := a :: later.made }
      else ⟨[a], tape, some a⟩

namespace Attempts

variable {A : Type} {again : Nat → A → Bool}

/-- The rule asks for another attempt after each of these, which follow `n`
others. -/
def GoesOn (again : Nat → A → Bool) : Nat → List A → Prop
  | _, [] => True
  | n, a :: tape => again (n + 1) a = true ∧ GoesOn again (n + 1) tape

/-- Attempts are made down to the first one after which the rule asks for no
other. -/
structure StopsAt (again : Nat → A → Bool) (tape front : List A) (a : A) (rest : List A) : Prop where
  split : tape = front ++ a :: rest
  goesOn : GoesOn again 0 front
  stops : again (front.length + 1) a = false

theorem of_goesOn {n : Nat} {tape : List A} (goesOn : GoesOn again n tape) :
    attempts again n tape = ⟨tape, [], none⟩ := by
  induction tape generalizing n with
  | nil => rfl
  | cons a tape ih =>
      obtain ⟨asks, later⟩ := goesOn
      simp [attempts, asks, ih later]

theorem of_stop {n : Nat} {front rest : List A} {a : A} (goesOn : GoesOn again n front)
    (stops : again (n + front.length + 1) a = false) :
    attempts again n (front ++ a :: rest) = ⟨front ++ [a], rest, some a⟩ := by
  induction front generalizing n with
  | nil =>
      have stops' : again (n + 1) a = false := stops
      simp [attempts, stops']
  | cons b front ih =>
      obtain ⟨asks, later⟩ := goesOn
      have stops' : again (n + 1 + front.length + 1) a = false := by
        rwa [List.length_cons, show n + (front.length + 1) = n + 1 + front.length by omega] at stops
      simp [attempts, asks, ih later stops']

theorem StopsAt.attempts_eq {tape front rest : List A} {a : A}
    (stop : StopsAt again tape front a rest) :
    attempts again 0 tape = ⟨front ++ [a], rest, some a⟩ := by
  rw [stop.split]
  exact of_stop stop.goesOn (by simpa using stop.stops)

/-- Either the tape ends first, or the attempts do. -/
theorem goesOn_or_stops (n : Nat) (tape : List A) :
    GoesOn again n tape ∨ ∃ front a rest, tape = front ++ a :: rest ∧ GoesOn again n front ∧
      again (n + front.length + 1) a = false := by
  induction tape generalizing n with
  | nil => exact .inl trivial
  | cons a tape ih =>
      cases asks : again (n + 1) a with
      | false => exact .inr ⟨[], a, tape, rfl, trivial, asks⟩
      | true =>
          rcases ih (n + 1) with goesOn | ⟨front, b, rest, rfl, goesOn, stops⟩
          · exact .inl ⟨asks, goesOn⟩
          · refine .inr ⟨a :: front, b, rest, rfl, ⟨asks, goesOn⟩, ?_⟩
            rwa [List.length_cons, show n + (front.length + 1) = n + 1 + front.length by omega]

theorem goesOn_or_stopsAt (again : Nat → A → Bool) (tape : List A) :
    GoesOn again 0 tape ∨ ∃ front a rest, StopsAt again tape front a rest := by
  rcases @goesOn_or_stops _ again 0 tape with goesOn | ⟨front, a, rest, split, goesOn, stops⟩
  · exact .inl goesOn
  · exact .inr ⟨front, a, rest, split, goesOn, by simpa using stops⟩

theorem StopsAt.not_goesOn {tape front rest : List A} {a : A}
    (stop : StopsAt again tape front a rest) : ¬GoesOn again 0 tape := by
  intro goesOn
  have same := stop.attempts_eq
  rw [of_goesOn goesOn] at same
  cases same

/-- The attempts stop in one place. -/
theorem StopsAt.unique {tape front front' rest rest' : List A} {a a' : A}
    (stop : StopsAt again tape front a rest) (stop' : StopsAt again tape front' a' rest') :
    front = front' ∧ a = a' ∧ rest = rest' := by
  have same := stop.attempts_eq.symm.trans stop'.attempts_eq
  rw [Attempts.mk.injEq, Option.some.injEq] at same
  obtain ⟨made, sameRest, rfl⟩ := same
  exact ⟨List.append_inj_left' made rfl, rfl, sameRest⟩

/-- The attempts before the last one ask for another. -/
theorem GoesOn.asks {n : Nat} {front : List A} (goesOn : GoesOn again n front) :
    ∀ a ∈ front, ∃ m, again m a = true := by
  induction front generalizing n with
  | nil => nofun
  | cons b front ih =>
      intro a mem
      rcases List.mem_cons.mp mem with rfl | mem
      · exact ⟨n + 1, goesOn.1⟩
      · exact ih goesOn.2 a mem

/-- An entry of the tape is an attempt if the rule has gone on up to it. -/
theorem made_split_iff {n : Nat} {tape before : List A} {a : A} :
    (∃ after, (attempts again n tape).made = before ++ a :: after) ↔
      GoesOn again n before ∧ ∃ after, tape = before ++ a :: after := by
  induction tape generalizing n before with
  | nil =>
      refine iff_of_false ?_ ?_
      · rintro ⟨after, same⟩
        simp [attempts] at same
      · rintro ⟨-, after, same⟩
        simp at same
  | cons b tape ih =>
      cases asks : again (n + 1) b with
      | false =>
          cases before with
          | nil => simp [attempts, asks, GoesOn]
          | cons c before =>
              refine iff_of_false ?_ ?_
              · rintro ⟨after, same⟩
                simp [attempts, asks] at same
              · rintro ⟨goesOn, after, same⟩
                cases same
                rw [goesOn.1] at asks
                cases asks
      | true =>
          cases before with
          | nil => simp [attempts, asks, GoesOn]
          | cons c before =>
              simp only [attempts, asks, if_true, List.cons_append, List.cons.injEq, GoesOn]
              constructor
              · rintro ⟨after, rfl, same⟩
                obtain ⟨goesOn, after', split⟩ := ih.mp ⟨after, same⟩
                exact ⟨⟨asks, goesOn⟩, after', rfl, split⟩
              · rintro ⟨⟨-, goesOn⟩, after, rfl, split⟩
                obtain ⟨after', same⟩ := ih.mpr ⟨goesOn, after, split⟩
                exact ⟨after', rfl, same⟩

/-- A rule that asks for no attempt after `limit` of them makes no more. -/
theorem length_made_le {limit n : Nat} (stops : ∀ m a, limit ≤ m → again m a = false)
    (below : n < limit) (tape : List A) : (attempts again n tape).made.length ≤ limit - n := by
  induction tape generalizing n with
  | nil => exact Nat.zero_le _
  | cons a tape ih =>
      cases asks : again (n + 1) a with
      | false =>
          simp only [attempts, asks, Bool.false_eq_true, if_false, List.length_singleton]
          omega
      | true =>
          have below' : n + 1 < limit := by
            by_contra reached
            rw [stops (n + 1) a (by omega)] at asks
            cases asks
          have later := ih below'
          simp only [attempts, asks, if_true, List.length_cons]
          omega

/-- A limit is kept if and only if each entry that counts is reached below it. -/
theorem countP_le_iff {p : A → Bool} {k limit : Nat} (within : k ≤ limit) (entries : List A) :
    k + entries.countP p ≤ limit ↔
      ∀ before a, (∃ after, entries = before ++ a :: after) → p a = true →
        k + before.countP p < limit := by
  induction entries generalizing k with
  | nil => exact iff_of_true (by simpa using within) (by rintro before a ⟨after, same⟩; simp at same)
  | cons b entries ih =>
      cases counts : p b with
      | false =>
          rw [List.countP_cons_of_neg (by simp [counts]), ih within]
          constructor
          · rintro all (- | ⟨c, before⟩) a ⟨after, same⟩ counted
            · cases same
              rw [counts] at counted
              cases counted
            · cases same
              rw [List.countP_cons_of_neg (by simp [counts])]
              exact all before a ⟨after, rfl⟩ counted
          · rintro all before a ⟨after, rfl⟩ counted
            have below := all (b :: before) a ⟨after, rfl⟩ counted
            rwa [List.countP_cons_of_neg (by simp [counts])] at below
      | true =>
          rw [List.countP_cons_of_pos counts, ← Nat.add_assoc, Nat.add_right_comm]
          constructor
          · intro bounded
            have within' : k + 1 ≤ limit := by omega
            have all := (ih within').mp bounded
            rintro (- | ⟨c, before⟩) a ⟨after, same⟩ counted
            · exact within'
            · cases same
              have below := all before a ⟨after, rfl⟩ counted
              rw [List.countP_cons_of_pos counts]
              omega
          · intro all
            have within' : k + 1 ≤ limit := all [] b ⟨entries, rfl⟩ counts
            refine (ih within').mpr ?_
            rintro before a ⟨after, rfl⟩ counted
            have below := all (b :: before) a ⟨after, rfl⟩ counted
            rw [List.countP_cons_of_pos counts] at below
            omega

/-- The attempts keep a limit, of which `k` is spent, if and only if each entry
that counts and is reached is reached below it. -/
theorem countP_made_le_iff {p : A → Bool} {k limit n : Nat} (within : k ≤ limit) (tape : List A) :
    k + (attempts again n tape).made.countP p ≤ limit ↔
      ∀ before a after, tape = before ++ a :: after → GoesOn again n before → p a = true →
        k + before.countP p < limit := by
  rw [countP_le_iff within]
  constructor
  · intro all before a after split goesOn counted
    exact all before a (made_split_iff.mpr ⟨goesOn, after, split⟩) counted
  · intro all before a reached counted
    obtain ⟨goesOn, after, split⟩ := made_split_iff.mp reached
    exact all before a after split goesOn counted

end Attempts

end LanggraphTemporal.Theory
