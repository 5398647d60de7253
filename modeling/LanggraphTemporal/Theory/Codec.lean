/-
# Theory.Codec -- codecs over a mutable state

A codec may keep a part of what it encodes in a state, and look it up when it
decodes.  What it has encoded must then be decoded at a later moment, when the
state has changed; a `Timeline` says how it may change.  A codec is `Lossless` on
a timeline if it moves along it, and decodes at every later moment what it has
encoded.  So are the codec of a list of values (`Lossless.each`) and the chain
of two lossless codecs (`Lossless.comp`).
-/
import Mathlib.Init

namespace LanggraphTemporal.Theory

set_option autoImplicit false

variable {σ ε α β γ : Type}

structure Codec (σ ε α β : Type) where
  encode : α → σ → Except ε (β × σ)
  decode : β → σ → Except ε α

namespace Codec

/-- Encode a list from the left. -/
def encodeEach (c : Codec σ ε α β) : List α → σ → Except ε (List β × σ)
  | [], s => .ok ([], s)
  | a :: as, s => do
      let (b, t) ← c.encode a s
      let (bs, u) ← encodeEach c as t
      return (b :: bs, u)

def decodeEach (c : Codec σ ε α β) : List β → σ → Except ε (List α)
  | [], _ => .ok []
  | b :: bs, s => do
      let a ← c.decode b s
      let as ← decodeEach c bs s
      return a :: as

/-- One codec for each value of a list. -/
def each (c : Codec σ ε α β) : Codec σ ε (List α) (List β) := ⟨c.encodeEach, c.decodeEach⟩

/-- Encode with `c`, then with `d`; decode in the opposite order. -/
def comp (c : Codec σ ε α β) (d : Codec σ ε β γ) : Codec σ ε α γ where
  encode a s := do
    let (b, t) ← c.encode a s
    d.encode b t
  decode g s := do
    let b ← d.decode g s
    c.decode b s

theorem encodeEach_cons {c : Codec σ ε α β} {a : α} {as : List α} {bs : List β} {s u : σ} :
    c.encodeEach (a :: as) s = .ok (bs, u) ↔
      ∃ b t bs', c.encode a s = .ok (b, t) ∧ c.encodeEach as t = .ok (bs', u) ∧ bs = b :: bs' := by
  simp only [encodeEach, bind, Except.bind, pure, Except.pure]
  cases first : c.encode a s with
  | error e => simp
  | ok p =>
      obtain ⟨b, t⟩ := p
      dsimp only
      cases rest : c.encodeEach as t with
      | error e => simp +contextual [rest]
      | ok q =>
          obtain ⟨bs', v⟩ := q
          simp only [Except.ok.injEq, Prod.mk.injEq]
          constructor
          · rintro ⟨rfl, rfl⟩
            exact ⟨b, t, bs', ⟨rfl, rfl⟩, rest, rfl⟩
          · rintro ⟨_, _, bs'', ⟨rfl, rfl⟩, again, rfl⟩
            rw [rest] at again
            cases again
            exact ⟨rfl, rfl⟩

/-- A list of values that can be encoded can be encoded. -/
theorem encodeEach_succeeds {c : Codec σ ε α β} {Good : α → Prop}
    (encodes : ∀ a s, Good a → ∃ b t, c.encode a s = .ok (b, t)) :
    ∀ (as : List α) (s : σ), (∀ a ∈ as, Good a) → ∃ bs t, c.encodeEach as s = .ok (bs, t)
  | [], s, _ => ⟨[], s, rfl⟩
  | a :: as, s, good => by
      obtain ⟨b, t, first⟩ := encodes a s (good a List.mem_cons_self)
      obtain ⟨bs, u, rest⟩ := encodeEach_succeeds encodes as t fun a mem => good a (List.mem_cons_of_mem _ mem)
      exact ⟨b :: bs, u, encodeEach_cons.mpr ⟨b, t, bs, first, rest, rfl⟩⟩

/-- Every value of the result is one that has been encoded. -/
theorem mem_encodeEach {c : Codec σ ε α β} {b : β} :
    ∀ {as : List α} {bs : List β} {s u : σ}, c.encodeEach as s = .ok (bs, u) → b ∈ bs →
      ∃ a ∈ as, ∃ s t, c.encode a s = .ok (b, t)
  | [], _, _, _, encoded, mem => by
      cases encoded
      cases mem
  | a :: as, _, _, _, encoded, mem => by
      obtain ⟨b', t, bs', first, rest, rfl⟩ := encodeEach_cons.mp encoded
      rcases List.mem_cons.mp mem with rfl | mem
      · exact ⟨a, List.mem_cons_self, _, t, first⟩
      · obtain ⟨a', source, made⟩ := mem_encodeEach rest mem
        exact ⟨a', List.mem_cons_of_mem _ source, made⟩

theorem encode_comp {c : Codec σ ε α β} {d : Codec σ ε β γ} {a : α} {g : γ} {s u : σ} :
    (c.comp d).encode a s = .ok (g, u) ↔
      ∃ b t, c.encode a s = .ok (b, t) ∧ d.encode b t = .ok (g, u) := by
  simp only [comp, bind, Except.bind]
  cases first : c.encode a s with
  | error e => simp
  | ok p =>
      constructor
      · exact fun second => ⟨p.1, p.2, rfl, second⟩
      · rintro ⟨b, t, same, second⟩
        cases same
        exact second

end Codec

/-! ## Codecs that lose nothing -/

/-- How the state changes in time, and up to which states nothing has gone
wrong. -/
structure Timeline (σ : Type) where
  Later : σ → σ → Prop
  Live : σ → Prop
  refl : ∀ s, Later s s
  trans : ∀ {s t u}, Later s t → Later t u → Later s u

/-- On the timeline, the codec decodes the `Good` values that it has encoded. -/
structure Lossless (T : Timeline σ) (Good : α → Prop) (c : Codec σ ε α β) : Prop where
  moves : ∀ {a s b t}, c.encode a s = .ok (b, t) → T.Later s t
  encodes : ∀ a s, Good a → ∃ b t, c.encode a s = .ok (b, t)
  decodes : ∀ {a s b t u}, Good a → c.encode a s = .ok (b, t) → T.Later t u → T.Live u →
    c.decode b u = .ok a

namespace Lossless

variable {T : Timeline σ} {Good : α → Prop} {Good' : β → Prop} {c : Codec σ ε α β} {d : Codec σ ε β γ}

theorem moves_each (lossless : Lossless T Good c) :
    ∀ {as : List α} {bs : List β} {s t : σ}, c.encodeEach as s = .ok (bs, t) → T.Later s t
  | [], _, _, _, encoded => by
      cases encoded
      exact T.refl _
  | a :: as, _, _, _, encoded => by
      obtain ⟨b, t, bs', first, rest, -⟩ := Codec.encodeEach_cons.mp encoded
      exact T.trans (lossless.moves first) (lossless.moves_each rest)

theorem decodes_each (lossless : Lossless T Good c) :
    ∀ {as : List α} {bs : List β} {s t u : σ}, (∀ a ∈ as, Good a) →
      c.encodeEach as s = .ok (bs, t) → T.Later t u → T.Live u → c.decodeEach bs u = .ok as
  | [], _, _, _, _, _, encoded, _, _ => by
      cases encoded
      rfl
  | a :: as, _, _, _, _, good, encoded, later, live => by
      obtain ⟨b, t', bs', first, rest, rfl⟩ := Codec.encodeEach_cons.mp encoded
      -- the first value is looked up after the rest has been encoded
      have after := T.trans (lossless.moves_each rest) later
      have here := lossless.decodes (good a List.mem_cons_self) first after live
      have others := lossless.decodes_each (fun a mem => good a (List.mem_cons_of_mem _ mem)) rest later live
      simp only [Codec.decodeEach, here, others]
      rfl

/-- A lossless codec is lossless on lists. -/
theorem each (lossless : Lossless T Good c) : Lossless T (fun as => ∀ a ∈ as, Good a) c.each where
  moves := lossless.moves_each
  encodes := Codec.encodeEach_succeeds lossless.encodes
  decodes := lossless.decodes_each

/-- **A chain of lossless codecs is lossless**, if the second one is on what the
first one makes. -/
theorem comp (first : Lossless T Good c) (second : Lossless T Good' d)
    (made : ∀ {a s b t}, Good a → c.encode a s = .ok (b, t) → Good' b) : Lossless T Good (c.comp d) where
  moves encoded := by
    obtain ⟨b, t, here, there⟩ := Codec.encode_comp.mp encoded
    exact T.trans (first.moves here) (second.moves there)
  encodes a s good := by
    obtain ⟨b, t, here⟩ := first.encodes a s good
    obtain ⟨g, u, there⟩ := second.encodes b t (made good here)
    exact ⟨g, u, Codec.encode_comp.mpr ⟨b, t, here, there⟩⟩
  decodes good encoded later live := by
    obtain ⟨b, t, here, there⟩ := Codec.encode_comp.mp encoded
    have outer := second.decodes (made good here) there later live
    have inner := first.decodes good here (T.trans (second.moves there) later) live
    simp only [Codec.comp, outer]
    exact inner

end Lossless

end LanggraphTemporal.Theory
