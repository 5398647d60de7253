/-
# Theory.History -- machines that write a history

A machine takes steps, and each step may append an entry to a list, its
history.  What a run did is then a property of that list: what was true of the
entries before each entry (`Guarded`), what came after each entry of a kind
(`After`), and what happened since the last entry of a kind (`since`).  Each
has one lemma for a history that grows by an entry at its end, which is what an
induction over the steps of a run needs.

A history that several parties write together is an interleaving of what each
of them writes (`Interleaves`).
-/
import Mathlib.Data.List.Induction
import Mathlib.Logic.Relation

namespace LanggraphTemporal.Theory

set_option autoImplicit false

/-! ## Reachability -/

/-- A transition system. -/
structure Machine (C : Type) where
  Init : C → Prop
  Step : C → C → Prop

namespace Machine

variable {C : Type} (M : Machine C)

inductive Reachable : C → Prop where
  | init {c : C} (initial : M.Init c) : Reachable c
  | step {c d : C} (before : Reachable c) (step : M.Step c d) : Reachable d

/-- An invariant: it holds at the start, and each step keeps it. -/
structure Invariant (I : C → Prop) : Prop where
  init : ∀ c, M.Init c → I c
  step : ∀ c d, M.Reachable c → I c → M.Step c d → I d

variable {M}

theorem Invariant.holds {I : C → Prop} (inv : M.Invariant I) {c : C} (reachable : M.Reachable c) :
    I c := by
  induction reachable with
  | init initial => exact inv.init _ initial
  | step before step ih => exact inv.step _ _ before ih step

theorem Reachable.steps {c d : C} (reachable : M.Reachable c)
    (steps : Relation.ReflTransGen M.Step c d) : M.Reachable d := by
  induction steps with
  | refl => exact reachable
  | tail _ step ih => exact .step ih step

end Machine

/-! ## Histories -/

namespace History

variable {E : Type}

/-- A list with one more entry splits at its last entry or before it. -/
theorem snoc_eq_append_cons {h a c : List E} {x e : E} :
    h ++ [x] = a ++ e :: c ↔ (h = a ∧ x = e ∧ c = []) ∨ ∃ c', c = c' ++ [x] ∧ h = a ++ e :: c' := by
  constructor
  · intro same
    rcases List.eq_nil_or_concat c with rfl | ⟨c', y, rfl⟩
    · left
      have := List.append_inj' same rfl
      exact ⟨this.1, List.head_eq_of_cons_eq this.2, rfl⟩
    · right
      have split : h ++ [x] = (a ++ e :: c') ++ [y] := by simpa using same
      obtain ⟨front, last⟩ := List.append_inj' split rfl
      cases last
      exact ⟨c', by simp, front⟩
  · rintro (⟨rfl, rfl, rfl⟩ | ⟨c', rfl, rfl⟩)
    · rfl
    · simp

/-- Every entry satisfies `P` of the entries before it. -/
def Guarded (P : List E → E → Prop) (h : List E) : Prop :=
  ∀ a e c, h = a ++ e :: c → P a e

section Guarded

variable {P P' : List E → E → Prop} {h : List E} {e : E}

theorem guarded_nil : Guarded P [] := by
  intro a e c split
  simp at split

theorem guarded_snoc : Guarded P (h ++ [e]) ↔ Guarded P h ∧ P h e := by
  constructor
  · intro guarded
    refine ⟨fun a x c split => guarded a x (c ++ [e]) ?_, guarded h e [] rfl⟩
    rw [split, List.append_assoc, List.cons_append]
  · rintro ⟨before, last⟩ a x c split
    rcases snoc_eq_append_cons.mp split with ⟨rfl, rfl, -⟩ | ⟨c', -, inner⟩
    · exact last
    · exact before a x c' inner

theorem Guarded.snoc (guarded : Guarded P h) (last : P h e) : Guarded P (h ++ [e]) :=
  guarded_snoc.mpr ⟨guarded, last⟩

theorem Guarded.front (guarded : Guarded P (h ++ [e])) : Guarded P h := (guarded_snoc.mp guarded).1

theorem Guarded.last (guarded : Guarded P (h ++ [e])) : P h e := (guarded_snoc.mp guarded).2

theorem Guarded.of_mem (guarded : Guarded P h) (mem : e ∈ h) : ∃ a, P a e := by
  obtain ⟨a, c, split⟩ := List.append_of_mem mem
  exact ⟨a, guarded a e c split⟩

/-- The `n`-th entry is guarded by the `n` entries before it. -/
theorem Guarded.at (guarded : Guarded P h) (n : Nat) (below : n < h.length) : P (h.take n) h[n] := by
  refine guarded (h.take n) _ (h.drop (n + 1)) ?_
  rw [← List.drop_eq_getElem_cons below, List.take_append_drop]

theorem guarded_iff : Guarded P h ↔ ∀ n : Fin h.length, P (h.take n) h[n] := by
  constructor
  · exact fun guarded n => guarded.at n n.isLt
  · rintro each a e c rfl
    have below : a.length < (a ++ e :: c).length := by simp
    simpa using each ⟨a.length, below⟩

instance [∀ a e, Decidable (P a e)] (h : List E) : Decidable (Guarded P h) :=
  decidable_of_iff _ guarded_iff.symm

/-- The entries that follow are guarded by those before them as well. -/
theorem guarded_append {b : List E} :
    Guarded P (h ++ b) ↔ Guarded P h ∧ Guarded (fun a e => P (h ++ a) e) b := by
  constructor
  · intro guarded
    refine ⟨fun a x c split => guarded a x (c ++ b) ?_, fun a x c split => guarded (h ++ a) x c ?_⟩
    · rw [split, List.append_assoc, List.cons_append]
    · rw [split, List.append_assoc]
  · rintro ⟨front, back⟩
    induction b using List.reverseRecOn with
    | nil => rwa [List.append_nil]
    | append_singleton b e ih =>
        rw [← List.append_assoc]
        exact (ih back.front).snoc back.last

/-- What holds at first is true of every beginning of a history exactly if every
entry is one that keeps it. -/
theorem forall_prefix_iff_guarded {Q : List E → Prop} (start : Q [])
    (step : ∀ a e, Q a → (Q (a ++ [e]) ↔ P a e)) : (∀ a, a <+: h → Q a) ↔ Guarded P h := by
  induction h using List.reverseRecOn with
  | nil =>
      refine iff_of_true (fun a front => ?_) guarded_nil
      rwa [List.prefix_nil.mp front]
  | append_singleton h e ih =>
      rw [guarded_snoc, ← ih]
      constructor
      · intro all
        have before (a : List E) (front : a <+: h) : Q a := all a (front.trans (List.prefix_append _ _))
        exact ⟨before, (step h e (before h (List.prefix_refl h))).mp (all _ (List.prefix_refl _))⟩
      · rintro ⟨before, keeps⟩ a front
        rcases List.prefix_concat_iff.mp front with rfl | shorter
        · exact (step h e (before h (List.prefix_refl h))).mpr keeps
        · exact before a shorter

theorem guarded_of_forall (all : ∀ e ∈ h, ∀ a, P a e) : Guarded P h := by
  intro a e c split
  exact all e (by rw [split]; simp) a

theorem Guarded.mono (imp : ∀ a e, P a e → P' a e) (guarded : Guarded P h) : Guarded P' h :=
  fun a e c split => imp a e (guarded a e c split)

end Guarded

/-- Every entry satisfies `R` of the entries after it. -/
def After (R : E → List E → Prop) (h : List E) : Prop :=
  ∀ a d b, h = a ++ d :: b → R d b

section After

variable {R : E → List E → Prop} {h : List E} {e : E}

theorem after_nil : After R [] := by
  intro a d b split
  simp at split

/-- What later entries cannot undo passes to the longer history. -/
theorem After.snoc (after : After R h) (keeps : ∀ d b, R d b → R d (b ++ [e])) (fresh : R e []) :
    After R (h ++ [e]) := by
  intro a d b split
  rcases snoc_eq_append_cons.mp split with ⟨rfl, rfl, rfl⟩ | ⟨b', rfl, inner⟩
  · exact fresh
  · exact keeps d b' (after a d b' inner)

theorem after_of_forall (all : ∀ d ∈ h, ∀ b, R d b) : After R h := by
  intro a d b split
  exact all d (by rw [split]; simp) b

/-- The `n`-th entry is followed by the entries after it. -/
theorem After.at (after : After R h) (n : Nat) (below : n < h.length) : R h[n] (h.drop (n + 1)) := by
  refine after (h.take n) _ (h.drop (n + 1)) ?_
  rw [← List.drop_eq_getElem_cons below, List.take_append_drop]

theorem after_append {b : List E} :
    After R (h ++ b) ↔ After (fun d c => R d (c ++ b)) h ∧ After R b := by
  constructor
  · intro after
    refine ⟨fun a d c split => after a d (c ++ b) ?_, fun a d c split => after (h ++ a) d c ?_⟩
    · rw [split, List.append_assoc, List.cons_append]
    · rw [split, List.append_assoc]
  · rintro ⟨front, back⟩ a d c split
    rcases List.append_eq_append_iff.mp split with ⟨a', rfl, rest⟩ | ⟨c', here, rest⟩
    · exact back a' d c rest
    · cases c' with
      | nil => exact back [] d c (by simpa using rest.symm)
      | cons x c' =>
          obtain ⟨rfl, rfl⟩ := List.cons_eq_cons.mp (show d :: c = x :: (c' ++ b) from rest)
          exact front a d c' here

theorem after_cons {b : List E} : After R (e :: b) ↔ R e b ∧ After R b := by
  constructor
  · intro after
    exact ⟨after [] e b rfl, fun a d c split => after (e :: a) d c (by rw [split]; rfl)⟩
  · rintro ⟨here, rest⟩ a d c split
    cases a with
    | nil =>
        obtain ⟨rfl, rfl⟩ := List.cons_eq_cons.mp split
        exact here
    | cons x a => exact rest a d c (List.tail_eq_of_cons_eq split)

end After

/-- The entries after the last one that satisfies `p`; all, if none does. -/
def since (p : E → Bool) (h : List E) : List E :=
  h.foldl (fun acc e => if p e then [] else acc ++ [e]) []

section Since

variable (p : E → Bool) {h : List E} {e : E}

@[simp] theorem since_nil : since p [] = [] := rfl

theorem since_snoc : since p (h ++ [e]) = if p e then [] else since p h ++ [e] := by
  simp [since, List.foldl_append]

variable {p}

theorem since_snoc_of (hit : p e = true) : since p (h ++ [e]) = [] := by
  rw [since_snoc, if_pos hit]

theorem since_snoc_of_not (miss : p e = false) : since p (h ++ [e]) = since p h ++ [e] := by
  rw [since_snoc, miss]
  rfl

theorem since_append {a b : List E} (miss : ∀ x ∈ b, p x = false) :
    since p (a ++ b) = since p a ++ b := by
  induction b using List.reverseRecOn with
  | nil => rw [List.append_nil, List.append_nil]
  | append_singleton b x ih =>
      have here : p x = false := miss x (by simp)
      rw [← List.append_assoc, since_snoc_of_not here, ih fun y hy => miss y (by simp [hy]),
        List.append_assoc]

/-- What follows the last entry that satisfies `p` is what `since` returns. -/
theorem since_append_cons {a b : List E} (hit : p e = true) (miss : ∀ x ∈ b, p x = false) :
    since p (a ++ e :: b) = b := by
  rw [show a ++ e :: b = (a ++ [e]) ++ b by simp, since_append miss, since_snoc_of hit]
  rfl

/-- What came before an entry that satisfies `p` does not matter. -/
theorem since_append_of_hit {a b : List E} (hit : ∃ x ∈ b, p x = true) : since p (a ++ b) = since p b := by
  induction b using List.reverseRecOn with
  | nil =>
      obtain ⟨x, mem, -⟩ := hit
      cases mem
  | append_singleton b e ih =>
      rw [← List.append_assoc, since_snoc, since_snoc]
      cases here : p e with
      | true => rfl
      | false =>
          have before : ∃ x ∈ b, p x = true := by
            obtain ⟨x, mem, hit⟩ := hit
            rcases List.mem_append.mp mem with old | new
            · exact ⟨x, old, hit⟩
            · rw [List.mem_singleton.mp new, here] at hit
              cases hit
          rw [ih before]

theorem since_spec (h : List E) :
    (∀ x ∈ since p h, p x = false) ∧
      (since p h = h ∨ ∃ a x, p x = true ∧ h = a ++ x :: since p h) := by
  induction h using List.reverseRecOn with
  | nil => exact ⟨by simp, .inl rfl⟩
  | append_singleton h e ih =>
      obtain ⟨none, split⟩ := ih
      cases hit : p e with
      | true =>
          rw [since_snoc_of hit]
          exact ⟨by simp, .inr ⟨h, e, hit, rfl⟩⟩
      | false =>
          rw [since_snoc_of_not hit]
          refine ⟨fun x hx => ?_, ?_⟩
          · rcases List.mem_append.mp hx with old | new
            · exact none x old
            · rw [List.mem_singleton.mp new]
              exact hit
          · rcases split with all | ⟨a, x, hx, split⟩
            · exact .inl (by rw [all])
            · exact .inr ⟨a, x, hx, by rw [← List.cons_append, ← List.append_assoc, ← split]⟩

/-- Less has happened since the last entry of a larger kind. -/
theorem since_subset {q : E → Bool} (larger : ∀ x, p x = true → q x = true) (h : List E) :
    since q h ⊆ since p h := by
  induction h using List.reverseRecOn with
  | nil => exact List.Subset.refl _
  | append_singleton h e ih =>
      cases hit : q e with
      | true =>
          rw [since_snoc_of hit]
          exact List.nil_subset _
      | false =>
          have miss : p e = false := by
            cases pe : p e with
            | false => rfl
            | true => rw [larger e pe] at hit; cases hit
          rw [since_snoc_of_not hit, since_snoc_of_not miss]
          exact List.append_subset.mpr
            ⟨List.subset_append_of_subset_left _ ih, List.subset_append_right _ _⟩

/-- An entry since the last `p` is guarded in a history that has the same last
`p`. -/
theorem Guarded.since {β : Type} {P : List E → E → Prop} {f : List E → β}
    (same : ∀ a x, p x = false → f (a ++ [x]) = f a) (guarded : Guarded P h) {x : E}
    (mem : x ∈ since p h) : ∃ a, P a x ∧ f a = f h := by
  induction h using List.reverseRecOn with
  | nil => cases mem
  | append_singleton h e ih =>
      cases hit : p e with
      | true =>
          rw [since_snoc_of hit] at mem
          cases mem
      | false =>
          rw [since_snoc_of_not hit] at mem
          rcases List.mem_append.mp mem with old | new
          · obtain ⟨a, held, same_f⟩ := ih guarded.front old
            exact ⟨a, held, by rw [same_f, same h e hit]⟩
          · rw [List.mem_singleton.mp new]
            exact ⟨h, guarded.last, (same h e hit).symm⟩

theorem mem_of_mem_since {x : E} (mem : x ∈ since p h) : x ∈ h := by
  rcases (since_spec h).2 with all | ⟨a, y, -, split⟩
  · rwa [all] at mem
  · rw [split]
    simp [mem]

/-- The entries up to the last one that satisfies `p`, with it. -/
def upTo (p : E → Bool) (h : List E) : List E := h.take (h.length - (since p h).length)

theorem upTo_append_since (p : E → Bool) (h : List E) : upTo p h ++ since p h = h := by
  have suffix : since p h <:+ h := by
    rcases (since_spec (p := p) h).2 with all | ⟨a, x, -, split⟩
    · exact ⟨[], all⟩
    · exact ⟨a ++ [x], by rw [List.append_assoc, List.singleton_append, ← split]⟩
  obtain ⟨t, split⟩ := suffix
  have length : h.length - (since p h).length = t.length := by
    have whole := congrArg List.length split
    rw [List.length_append] at whole
    omega
  have front : upTo p h = t := by
    unfold upTo
    rw [length]
    conv_lhs => rw [← split]
    exact List.take_left
  rw [front, split]

theorem upTo_snoc_of (hit : p e = true) : upTo p (h ++ [e]) = h ++ [e] := by
  have whole := upTo_append_since p (h ++ [e])
  rwa [since_snoc_of hit, List.append_nil] at whole

theorem upTo_snoc_of_not (miss : p e = false) : upTo p (h ++ [e]) = upTo p h := by
  have whole := upTo_append_since p (h ++ [e])
  rw [since_snoc_of_not miss, ← List.append_assoc] at whole
  have front := List.append_cancel_right whole
  exact List.append_cancel_right (front.trans (upTo_append_since p h).symm)

/-- What follows an entry that satisfies `p` ends with what `since` returns. -/
theorem upTo_of_hit {a c : List E} (hit : p e = true) (split : h = a ++ e :: c) :
    ∃ c₁, upTo p h = a ++ e :: c₁ ∧ c = c₁ ++ since p h := by
  have late : e ∉ since p h := by
    intro mem
    have miss := (since_spec (p := p) h).1 e mem
    rw [hit] at miss
    cases miss
  rcases List.append_eq_append_iff.mp ((upTo_append_since p h).trans split) with
    ⟨d, -, rest⟩ | ⟨d, front, rest⟩
  · exact absurd (by rw [rest]; simp) late
  · cases d with
    | nil => exact absurd (by rw [List.nil_append] at rest; rw [← rest]; exact List.mem_cons_self) late
    | cons x d =>
        obtain ⟨rfl, tail⟩ := List.cons_eq_cons.mp rest
        exact ⟨d, front, tail⟩

end Since

/-! ### Interleavings -/

/-- The third list is made of the entries of the first two, each in its order. -/
inductive Interleaves : List E → List E → List E → Prop
  | nil : Interleaves [] [] []
  | left {a b c : List E} (new : List E) (before : Interleaves a b c) :
      Interleaves (a ++ new) b (c ++ new)
  | right {a b c : List E} (new : List E) (before : Interleaves a b c) :
      Interleaves a (b ++ new) (c ++ new)

section Interleaves

variable {a b c : List E}

theorem interleaves_nil_right (c : List E) : Interleaves c [] c := by
  have grown : Interleaves ([] ++ c) [] ([] ++ c) := .left c .nil
  rwa [List.nil_append] at grown

theorem Interleaves.countP (inter : Interleaves a b c) (p : E → Bool) :
    c.countP p = a.countP p + b.countP p := by
  induction inter with
  | nil => rfl
  | left new before ih | right new before ih =>
      simp only [List.countP_append, ih]
      omega

/-- What each party does after an entry of its own is done after it in the
whole, when more entries cannot undo it. -/
theorem Interleaves.after {R : E → List E → Prop} (inter : Interleaves a b c)
    (more : ∀ d r r', r ⊆ r' → R d r → R d r') (left : After R a) (right : After R b) :
    After R c := by
  induction inter generalizing R with
  | nil => exact after_nil
  | @left a b c new before ih =>
      obtain ⟨front, back⟩ := after_append.mp left
      refine after_append.mpr ⟨ih (fun d r r' sub held => ?_) front ?_, back⟩
      · refine more d _ _ (List.append_subset.mpr ⟨?_, List.subset_append_right _ _⟩) held
        exact List.subset_append_of_subset_left _ sub
      · exact fun x d r split => more d r _ (List.subset_append_left r new) (right x d r split)
  | @right a b c new before ih =>
      obtain ⟨front, back⟩ := after_append.mp right
      refine after_append.mpr ⟨ih (fun d r r' sub held => ?_) ?_ front, back⟩
      · refine more d _ _ (List.append_subset.mpr ⟨?_, List.subset_append_right _ _⟩) held
        exact List.subset_append_of_subset_left _ sub
      · exact fun x d r split => more d r _ (List.subset_append_left r new) (left x d r split)

end Interleaves

end History

end LanggraphTemporal.Theory
