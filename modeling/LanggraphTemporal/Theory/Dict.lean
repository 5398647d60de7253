/-
# Theory.Dict -- string-keyed dictionaries in insertion order

A `Dict` is a list of entries whose keys are pairwise different; the field
`nodup` is part of the value, so no lookup ever has to choose between two
entries of one key.  Setting a key that is present keeps its place, setting a
new one appends, as in a Python `dict`.
-/
import Mathlib.Data.List.Forall2
import Mathlib.Data.List.Nodup

namespace LanggraphTemporal.Theory

set_option autoImplicit false

structure Dict (α : Type) where
  entries : List (String × α)
  nodup : (entries.map Prod.fst).Nodup

namespace Dict

variable {α β γ : Type}

@[ext] theorem ext {d d' : Dict α} (same : d.entries = d'.entries) : d = d' := by
  cases d; cases d'; cases same; rfl

instance [DecidableEq α] : DecidableEq (Dict α) := fun d d' =>
  decidable_of_iff (d.entries = d'.entries) ⟨ext, congrArg entries⟩

def empty : Dict α := ⟨[], .nil⟩

instance : EmptyCollection (Dict α) := ⟨empty⟩
instance : Inhabited (Dict α) := ⟨empty⟩

def keys (d : Dict α) : List String := d.entries.map Prod.fst

def get? (d : Dict α) (k : String) : Option α := d.entries.lookup k

def getD (d : Dict α) (k : String) (a : α) : α := (d.get? k).getD a

def contains (d : Dict α) (k : String) : Bool := (d.get? k).isSome

/-- Replace the value of `k` in place. -/
def replace (k : String) (a : α) : List (String × α) → List (String × α)
  | [] => []
  | e :: es => if e.1 = k then (k, a) :: es else e :: replace k a es

theorem replace_keys (k : String) (a : α) (es : List (String × α)) :
    (replace k a es).map Prod.fst = es.map Prod.fst := by
  induction es with
  | nil => rfl
  | cons e es ih =>
      simp only [replace]
      split
      · rename_i here
        simp [here]
      · simp [ih]

theorem lookup_cons_self (k : String) (a : α) (es : List (String × α)) :
    ((k, a) :: es).lookup k = some a := by
  simp

theorem lookup_cons_ne {k k' : String} (ne : k' ≠ k) (a : α) (es : List (String × α)) :
    ((k, a) :: es).lookup k' = es.lookup k' := by
  rw [List.lookup_cons, beq_eq_false_iff_ne.mpr ne]

theorem lookup_replace (k k' : String) (a : α) (es : List (String × α)) :
    (replace k a es).lookup k' =
      if k' = k ∧ k ∈ es.map Prod.fst then some a else es.lookup k' := by
  induction es with
  | nil => simp [replace]
  | cons e es ih =>
      obtain ⟨ke, v⟩ := e
      simp only [replace]
      by_cases here : ke = k
      · subst here
        by_cases same : k' = ke
        · simp [same]
        · simp [lookup_cons_ne same, same]
      · simp only [here, if_false, List.map_cons, List.mem_cons, Ne.symm here, false_or]
        by_cases same : k' = ke
        · subst same
          simp [here]
        · rw [lookup_cons_ne same, lookup_cons_ne same, ih]

def set (d : Dict α) (k : String) (a : α) : Dict α :=
  if h : k ∈ d.keys then
    ⟨replace k a d.entries, by rw [replace_keys]; exact d.nodup⟩
  else
    ⟨d.entries ++ [(k, a)], by
      rw [List.map_append, List.nodup_append]
      refine ⟨d.nodup, List.nodup_singleton _, ?_⟩
      rintro x hx y hy rfl
      cases List.mem_singleton.mp hy
      exact h hx⟩

theorem lookup_eq_none {es : List (String × α)} {k : String} :
    es.lookup k = none ↔ k ∉ es.map Prod.fst := by
  induction es with
  | nil => simp
  | cons e es ih =>
      obtain ⟨ke, v⟩ := e
      by_cases same : k = ke
      · simp [same]
      · rw [lookup_cons_ne same, ih]
        simp [same]

theorem get?_set (d : Dict α) (k k' : String) (a : α) :
    (d.set k a).get? k' = if k' = k then some a else d.get? k' := by
  unfold set
  split
  · rename_i present
    have : k ∈ d.entries.map Prod.fst := present
    simp [get?, lookup_replace, this]
  · rename_i absent
    have : d.entries.lookup k = none := lookup_eq_none.mpr absent
    by_cases same : k' = k
    · subst same
      simp [get?, List.lookup_append, this]
    · simp [get?, List.lookup_append, lookup_cons_ne same, same]

@[simp] theorem get?_set_self (d : Dict α) (k : String) (a : α) : (d.set k a).get? k = some a := by
  simp [get?_set]

theorem get?_set_ne (d : Dict α) {k k' : String} (a : α) (ne : k' ≠ k) :
    (d.set k a).get? k' = d.get? k' := by
  simp [get?_set, ne]

theorem mem_of_lookup {es : List (String × α)} {k : String} {a : α} (found : es.lookup k = some a) :
    (k, a) ∈ es := by
  induction es with
  | nil => cases found
  | cons e es ih =>
      obtain ⟨ke, v⟩ := e
      by_cases same : k = ke
      · subst same
        rw [lookup_cons_self] at found
        cases found
        exact List.mem_cons_self
      · rw [lookup_cons_ne same] at found
        exact List.mem_cons_of_mem _ (ih found)

theorem lookup_of_mem {es : List (String × α)} (nodup : (es.map Prod.fst).Nodup) {k : String} {a : α}
    (mem : (k, a) ∈ es) : es.lookup k = some a := by
  induction es with
  | nil => cases mem
  | cons e es ih =>
      obtain ⟨ke, v⟩ := e
      rw [List.map_cons, List.nodup_cons] at nodup
      rcases List.mem_cons.mp mem with here | later
      · cases here
        exact lookup_cons_self _ _ _
      · have other : k ≠ ke := by
          rintro rfl
          exact nodup.1 (List.mem_map.mpr ⟨_, later, rfl⟩)
        rw [lookup_cons_ne other]
        exact ih nodup.2 later

theorem get?_eq_some {d : Dict α} {k : String} {a : α} : d.get? k = some a ↔ (k, a) ∈ d.entries :=
  ⟨mem_of_lookup, lookup_of_mem d.nodup⟩

/-- The dictionary of an entry list; a later entry of a key wins. -/
def ofList (es : List (String × α)) : Dict α := es.foldl (fun d e => d.set e.1 e.2) ∅

theorem entries_set_new {d : Dict α} {k : String} (a : α) (new : k ∉ d.keys) :
    (d.set k a).entries = d.entries ++ [(k, a)] := by
  unfold set
  rw [dif_neg new]

theorem get?_setAll (es : List (String × α)) (d : Dict α) (k : String) :
    (es.foldl (fun d e => d.set e.1 e.2) d).get? k = (es.reverse.lookup k).or (d.get? k) := by
  induction es generalizing d with
  | nil => rfl
  | cons e es ih =>
      obtain ⟨ke, v⟩ := e
      rw [List.foldl_cons, ih, List.reverse_cons, List.lookup_append, Option.or_assoc, get?_set]
      by_cases same : k = ke
      · simp [same]
      · simp [lookup_cons_ne same, same]

/-- The last entry of a key is the one that counts. -/
theorem get?_ofList (es : List (String × α)) (k : String) :
    (ofList es).get? k = es.reverse.lookup k := by
  rw [ofList, get?_setAll]
  exact Option.or_none

theorem entries_setAll (es : List (String × α)) (d : Dict α)
    (nodup : ((d.entries ++ es).map Prod.fst).Nodup) :
    (es.foldl (fun d e => d.set e.1 e.2) d).entries = d.entries ++ es := by
  induction es generalizing d with
  | nil => exact (List.append_nil _).symm
  | cons e es ih =>
      have new : e.1 ∉ d.keys := by
        intro mem
        rw [List.map_append, List.map_cons, List.nodup_append] at nodup
        exact nodup.2.2 e.1 mem e.1 List.mem_cons_self rfl
      have entries := entries_set_new e.2 new
      rw [List.append_cons] at nodup ⊢
      rw [← entries] at nodup ⊢
      exact ih _ nodup

/-- Entries of different keys are kept as they are. -/
theorem entries_ofList {es : List (String × α)} (nodup : (es.map Prod.fst).Nodup) :
    (ofList es).entries = es :=
  entries_setAll es ∅ nodup

theorem isEmpty_ofList (es : List (String × α)) : (ofList es).entries.isEmpty = es.isEmpty := by
  cases es with
  | nil => rfl
  | cons e es =>
      have found : ((ofList (e :: es)).get? e.1).isSome = true := by
        rw [get?_ofList, List.reverse_cons, List.lookup_append, Option.isSome_or]
        simp
      rw [List.isEmpty_cons, List.isEmpty_eq_false_iff]
      intro none
      rw [get?, none] at found
      cases found

/-- Keep the entries on which `f` is defined, with their new values. -/
def filterMap (f : String → α → Option β) (d : Dict α) : Dict β where
  entries := d.entries.filterMap fun e => (f e.1 e.2).map fun b => (e.1, b)
  nodup := by
    refine List.Nodup.sublist ?_ d.nodup
    induction d.entries with
    | nil => exact .slnil
    | cons e es ih =>
        cases h : f e.1 e.2 with
        | none => simpa [List.filterMap_cons, h] using ih.cons e.1
        | some b => simpa [List.filterMap_cons, h] using ih.cons_cons e.1

theorem get?_filterMap (f : String → α → Option β) (d : Dict α) (k : String) :
    (d.filterMap f).get? k = (d.get? k).bind (f k) := by
  obtain ⟨es, nodup⟩ := d
  simp only [get?, filterMap]
  induction es with
  | nil => rfl
  | cons e es ih =>
      obtain ⟨ke, v⟩ := e
      rw [List.map_cons, List.nodup_cons] at nodup
      have rest := ih nodup.2
      by_cases same : k = ke
      · subst same
        have gone : es.lookup k = none := lookup_eq_none.mpr nodup.1
        cases h : f k v with
        | none => simpa [List.filterMap_cons, h, gone] using rest
        | some b => simp [h]
      · cases h : f ke v with
        | none => simpa [List.filterMap_cons, h, lookup_cons_ne same] using rest
        | some b => simpa [List.filterMap_cons, h, lookup_cons_ne same] using rest

theorem filterMap_congr {f g : String → α → Option β} {d : Dict α}
    (same : ∀ k a, d.get? k = some a → f k a = g k a) : d.filterMap f = d.filterMap g := by
  refine ext (List.filterMap_congr fun e mem => ?_)
  rw [same e.1 e.2 (get?_eq_some.mpr mem)]

theorem filterMap_filterMap (f : String → α → Option β) (g : String → β → Option γ) (d : Dict α) :
    (d.filterMap f).filterMap g = d.filterMap fun k a => (f k a).bind (g k) := by
  refine ext (List.filterMap_filterMap.trans (List.filterMap_congr fun e _ => ?_))
  cases here : f e.1 e.2 <;> simp [here]

/-! ## The same function on every value -/

/-- The same keys with other values. -/
def map (f : α → β) (d : Dict α) : Dict β where
  entries := d.entries.map (Prod.map id f)
  nodup := by
    rw [List.map_map]
    exact d.nodup

/-- The entries with the values of `f`, or what it raises first. -/
def mapEntries {ε : Type} (f : α → Except ε β) (es : List (String × α)) :
    Except ε (List (String × β)) :=
  es.mapM fun e => do return (e.1, ← f e.2)

def mapM {ε : Type} (f : α → Except ε β) (d : Dict α) : Except ε (Dict β) := do
  return ofList (← mapEntries f d.entries)

section MapEntries

variable {ε : Type} {f : α → Except ε β}

theorem mapEntries_eq_ok {es : List (String × α)} {es' : List (String × β)} :
    mapEntries f es = .ok es' ↔ List.Forall₂ (fun e e' => e.1 = e'.1 ∧ f e.2 = .ok e'.2) es es' := by
  unfold mapEntries
  induction es generalizing es' with
  | nil => cases es' <;> simp [pure, Except.pure]
  | cons e es ih =>
      rw [List.mapM_cons]
      cases here : f e.2 with
      | error x => cases es' <;> simp [bind, Except.bind, here]
      | ok b =>
          cases rest : es.mapM fun e => do return (e.1, ← f e.2) with
          | error x =>
              rw [rest] at ih
              cases es' <;> simp [bind, Except.bind, pure, Except.pure, here, ← ih]
          | ok tail =>
              rw [rest] at ih
              cases es' with
              | nil => simp [bind, Except.bind, pure, Except.pure]
              | cons e' es' =>
                  simp [bind, Except.bind, pure, Except.pure, here, ← ih, Prod.ext_iff]

/-- The keys stay, and their order. -/
theorem mapM_eq_ok {d : Dict α} {d' : Dict β} :
    d.mapM f = .ok d' ↔
      List.Forall₂ (fun e e' => e.1 = e'.1 ∧ f e.2 = .ok e'.2) d.entries d'.entries := by
  rw [← mapEntries_eq_ok, mapM]
  cases done : mapEntries f d.entries with
  | error x => simp [bind, Except.bind]
  | ok es =>
      have keys : d.entries.map Prod.fst = es.map Prod.fst := by
        have pairs := (mapEntries_eq_ok.mp done).imp fun _ _ pair => pair.1
        rw [← List.forall₂_eq_eq_eq, List.forall₂_map_left_iff, List.forall₂_map_right_iff]
        exact pairs
      have entries : (ofList es).entries = es := entries_ofList (keys ▸ d.nodup)
      simp only [bind, Except.bind, pure, Except.pure, Except.ok.injEq]
      rw [Dict.ext_iff, entries]

theorem mapEntries_map_eq_ok {g : γ → α} {h : γ → β} {es : List (String × γ)} :
    mapEntries f (es.map (Prod.map id g)) = .ok (es.map (Prod.map id h)) ↔
      ∀ e ∈ es, f (g e.2) = .ok (h e.2) := by
  rw [mapEntries_eq_ok, List.forall₂_map_left_iff, List.forall₂_map_right_iff, List.forall₂_same]
  simp

theorem mapM_map_eq_ok {g : γ → α} {h : γ → β} {d : Dict γ} :
    (d.map g).mapM f = .ok (d.map h) ↔ ∀ e ∈ d.entries, f (g e.2) = .ok (h e.2) := by
  rw [mapM_eq_ok, ← mapEntries_eq_ok]
  exact mapEntries_map_eq_ok

end MapEntries

end Dict

end LanggraphTemporal.Theory
