/-
# Theory.Decimal -- the order of decimal strings

Decimal strings are compared from the left.  Of two numbers with the same count
of digits the smaller one comes first (`toDigits_lt_iff`); otherwise only the
leading digits of the longer one count (`toString_lt_toString_iff`), so `10` comes
before `9`.
-/
import Mathlib.Data.String.Basic
import Mathlib.Tactic.IntervalCases

namespace LanggraphTemporal.Theory

set_option autoImplicit false

/-- Lists that begin with parts of one length are compared by these parts first. -/
theorem append_lt_append_iff {a b : List Char} (c d : List Char) (lengths : a.length = b.length) :
    a ++ c < b ++ d ↔ a < b ∨ a = b ∧ c < d := by
  induction a generalizing b with
  | nil =>
      rw [List.eq_nil_of_length_eq_zero lengths.symm]
      simp
  | cons x a ih =>
      cases b with
      | nil => cases lengths
      | cons y b =>
          rw [List.cons_append, List.cons_append, List.cons_lt_cons_iff, List.cons_lt_cons_iff,
            ih (Nat.succ.inj lengths), List.cons.injEq]
          tauto

theorem digitChar_lt_iff {m n : Nat} (hm : m < 10) (hn : n < 10) : m.digitChar < n.digitChar ↔ m < n := by
  interval_cases m <;> interval_cases n <;> decide

theorem toDigits_inj {m n : Nat} (same : Nat.toDigits 10 m = Nat.toDigits 10 n) : m = n := by
  have back := congrArg (fun cs => Nat.ofDigitChars 10 cs 0) same
  simpa using back

theorem toList_toString (n : Nat) : (toString n).toList = Nat.toDigits 10 n := by
  rw [Nat.toString_eq_repr, Nat.toList_repr]

theorem toString_nat_inj {m n : Nat} (same : toString m = toString n) : m = n := by
  have digits := congrArg String.toList same
  rw [toList_toString, toList_toString] at digits
  exact toDigits_inj digits

/-- The last digit, and those before it. -/
theorem toDigits_of_ten_le {n : Nat} (le : 10 ≤ n) :
    Nat.toDigits 10 n = Nat.toDigits 10 (n / 10) ++ [(n % 10).digitChar] :=
  Nat.toDigits_of_base_le (by decide) le

theorem length_toDigits_mono {m n : Nat} (le : m ≤ n) :
    (Nat.toDigits 10 m).length ≤ (Nat.toDigits 10 n).length := by
  have pos : 0 < (Nat.toDigits 10 n).length := Nat.length_toDigits_pos
  have bound := (Nat.length_toDigits_le_iff (n := n) (by decide : 1 < 10) pos).mp le_rfl
  exact (Nat.length_toDigits_le_iff (by decide) pos).mpr (Nat.lt_of_le_of_lt le bound)

theorem ten_le_iff {n : Nat} : 10 ≤ n ↔ 1 < (Nat.toDigits 10 n).length := by
  have one := Nat.length_toDigits_le_iff (n := n) (by decide : 1 < 10) Nat.one_pos
  omega

/-- Numbers with the same count of digits are compared as numbers. -/
theorem toDigits_lt_iff (m : Nat) : ∀ n, (Nat.toDigits 10 m).length = (Nat.toDigits 10 n).length →
    (Nat.toDigits 10 m < Nat.toDigits 10 n ↔ m < n) := by
  induction m using Nat.strong_induction_on with
  | _ m ih =>
      intro n lengths
      by_cases small : m < 10
      · have small' : n < 10 := by
          by_contra large
          rw [Nat.toDigits_of_lt_base small] at lengths
          have more := ten_le_iff.mp (Nat.le_of_not_lt large)
          simp only [List.length_singleton] at lengths
          omega
        rw [Nat.toDigits_of_lt_base small, Nat.toDigits_of_lt_base small', List.cons_lt_cons_iff,
          digitChar_lt_iff small small']
        simp
      · have large : 10 ≤ m := Nat.le_of_not_lt small
        have large' : 10 ≤ n := by
          rw [ten_le_iff] at large ⊢
          omega
        rw [toDigits_of_ten_le large, toDigits_of_ten_le large'] at lengths ⊢
        simp only [List.length_append, List.length_singleton, Nat.add_right_cancel_iff] at lengths
        rw [append_lt_append_iff _ _ lengths, ih (m / 10) (by omega) (n / 10) lengths, List.cons_lt_cons_iff,
          digitChar_lt_iff (Nat.mod_lt _ (by decide)) (Nat.mod_lt _ (by decide))]
        have heads : Nat.toDigits 10 (m / 10) = Nat.toDigits 10 (n / 10) ↔ m / 10 = n / 10 :=
          ⟨toDigits_inj, fun same => by rw [same]⟩
        rw [heads]
        simp only [List.not_lt_nil, and_false, or_false]
        omega

/-- Dividing by a power of ten takes off the last digits. -/
theorem toDigits_div_pow (n : Nat) : ∀ k, k < (Nat.toDigits 10 n).length →
    ∃ rest, rest.length = k ∧ Nat.toDigits 10 n = Nat.toDigits 10 (n / 10 ^ k) ++ rest
  | 0, _ => ⟨[], rfl, by simp⟩
  | k + 1, below => by
      obtain ⟨rest, length, digits⟩ := toDigits_div_pow n k (Nat.lt_of_succ_lt below)
      have count := congrArg List.length digits
      rw [List.length_append] at count
      have large : 10 ≤ n / 10 ^ k := by
        rw [ten_le_iff]
        omega
      refine ⟨(n / 10 ^ k % 10).digitChar :: rest, by rw [List.length_cons, length], ?_⟩
      rw [digits, toDigits_of_ten_le large, Nat.div_div_eq_div_mul, ← Nat.pow_succ, List.append_assoc,
        List.singleton_append]

/-- The leading digits of `n`, as many as `m` has. -/
def leadingDigits (m n : Nat) : Nat := n / 10 ^ ((Nat.toDigits 10 n).length - (Nat.toDigits 10 m).length)

theorem leadingDigits_of_length {m n : Nat}
    (lengths : (Nat.toDigits 10 m).length = (Nat.toDigits 10 n).length) : leadingDigits m n = n := by
  simp [leadingDigits, lengths]

/-- **A smaller number comes before a larger one if and only if it does not exceed
the leading digits of that one.** -/
theorem toString_lt_toString_iff {m n : Nat} (less : m < n) :
    toString m < toString n ↔ m ≤ leadingDigits m n := by
  have lengths := length_toDigits_mono (Nat.le_of_lt less)
  have pos : 0 < (Nat.toDigits 10 m).length := Nat.length_toDigits_pos
  obtain ⟨rest, count, digits⟩ := toDigits_div_pow n
    ((Nat.toDigits 10 n).length - (Nat.toDigits 10 m).length) (by omega)
  change Nat.toDigits 10 n = Nat.toDigits 10 (leadingDigits m n) ++ rest at digits
  have total := congrArg List.length digits
  rw [List.length_append] at total
  have front : (Nat.toDigits 10 m).length = (Nat.toDigits 10 (leadingDigits m n)).length := by omega
  have heads : Nat.toDigits 10 m = Nat.toDigits 10 (leadingDigits m n) ↔ m = leadingDigits m n :=
    ⟨toDigits_inj, fun same => by rw [← same]⟩
  have longer : m = leadingDigits m n → [] < rest := by
    intro same
    cases rest with
    | cons => exact List.nil_lt_cons _ _
    | nil =>
        rw [List.append_nil, ← same] at digits
        exact absurd (toDigits_inj digits) (Nat.ne_of_gt less)
  rw [String.lt_iff_toList_lt, toList_toString, toList_toString, digits,
    ← List.append_nil (Nat.toDigits 10 m), append_lt_append_iff _ _ front, toDigits_lt_iff _ _ front, heads]
  constructor
  · rintro (below | ⟨same, -⟩)
    · exact Nat.le_of_lt below
    · exact Nat.le_of_eq same
  · intro le
    rcases Nat.lt_or_eq_of_le le with below | same
    · exact .inl below
    · exact .inr ⟨same, longer same⟩

example : ¬toString 9 < toString 10 := by decide

end LanggraphTemporal.Theory
