/-
# Model.BlobCalls -- codec calls that overlap, on a store that forgets

`encode` and `decode` are coroutines, and suspend while they wait for the blob
store.  Any number of codecs, in any number of processes, may share the store, and
somebody may delete from it.  `BlobSystem` goes through the loops of all calls in
any order: the key of a payload is made in one step and stored in another one.

A call that runs alone is a call of `Model.Codec` (`runs_encode`, `runs_decode`).
-/
import LanggraphTemporal.Model.Codec
import Mathlib.Logic.Function.Iterate

namespace LanggraphTemporal.Model

set_option autoImplicit false

open Theory

/-- A `BlobStore` with `delete`. -/
structure ErasableBlobStore (σ : Type) extends BlobStore σ where
  delete : String → σ → σ
  get_delete : ∀ key s, ∃ message, get key (delete key s) = .error (.keyError message)
  get_delete_other : ∀ {key other : String} (s : σ), other ≠ key → get other (delete key s) = get other s

namespace InMemoryBlobStore

/-- `self._store.pop(key, None)` -/
def delete (key : String) (store : Dict ByteArray) : Dict ByteArray :=
  store.filterMap fun other data => if other = key then none else some data

theorem get?_delete (key other : String) (store : Dict ByteArray) :
    (delete key store).get? other = if other = key then none else store.get? other := by
  unfold delete
  rw [Dict.get?_filterMap]
  by_cases here : other = key
  · cases store.get? other <;> simp [here]
  · cases store.get? other <;> simp [here]

end InMemoryBlobStore

def inMemoryErasable : ErasableBlobStore (Dict ByteArray) where
  toBlobStore := inMemoryBlobStore
  delete := InMemoryBlobStore.delete
  get_delete key s := by
    refine ⟨"Blob not found: " ++ key, ?_⟩
    simp [inMemoryBlobStore, InMemoryBlobStore.get, InMemoryBlobStore.get?_delete]
  get_delete_other {key other} s differ := by
    simp [inMemoryBlobStore, InMemoryBlobStore.get, InMemoryBlobStore.get?_delete, differ]

/-! ## Calls -/

inductive CodecRequest where
  | encode (codec : LargePayloadCodec) (payloads : List Payload)
  | decode (payloads : List Payload)

/-- A call, as far as it has got: the result so far and the payloads that are left. -/
inductive CodecCall where
  | encoding (codec : LargePayloadCodec) (result payloads : List Payload)
  /-- It has made a key, and waits for the store. -/
  | putting (codec : LargePayloadCodec) (result : List Payload) (key : String) (serialized : ByteArray)
      (payloads : List Payload)
  | encoded (result : List Payload)
  | decoding (result payloads : List Payload)
  | decoded (result : List Payload)
  | raised (e : CodecError)
  /-- It has been cancelled, or the store has failed. -/
  | stopped

def CodecRequest.start : CodecRequest → CodecCall
  | encode codec payloads => .encoding codec [] payloads
  | decode payloads => .decoding [] payloads

namespace CodecCall

variable {σ : Type} (P : Platform) (store : BlobStore σ)

/-- The next thing that a call does. -/
def advance (s : CodecState σ) : CodecCall → CodecCall × CodecState σ
  | encoding _ result [] => (.encoded result, s)
  | encoding c result (p :: payloads) =>
      let serialized := P.serializeToString p
      if c.sizeThreshold < serialized.size then
        (.putting c result (c.blobKey P s.uuids serialized) serialized payloads, { s with uuids := s.uuids + 1 })
      else (.encoding c (result ++ [p]) payloads, s)
  | putting c result key serialized payloads =>
      (.encoding c (result ++ [LargePayloadCodec.reference key]) payloads,
        { s with store := store.put key serialized s.store, puts := s.puts ++ [(key, serialized)] })
  | decoding result [] => (.decoded result, s)
  | decoding result (p :: payloads) =>
      match LargePayloadCodec.decodePayload P store p s with
      | .ok q => (.decoding (result ++ [q]) payloads, s)
      | .error e => (.raised e, s)
  | call => (call, s)

def Ended : CodecCall → Bool
  | encoding .. | putting .. | decoding .. => false
  | encoded _ | decoded _ | raised _ | stopped => true

def stop (call : CodecCall) : CodecCall := if call.Ended then call else .stopped

/-- The key that a call is about to store. -/
def pendingKey : CodecCall → Option String
  | putting _ _ key _ _ => some key
  | _ => none

/-! ### A call that runs alone -/

/-- One step of a call, with nothing in between. -/
def alone (run : CodecCall × CodecState σ) : CodecCall × CodecState σ := run.1.advance P store run.2

/-- A call of `encode` that runs alone. -/
theorem runs_encode {c : LargePayloadCodec} {payloads result : List Payload} {s t : CodecState σ}
    (encodes : (c.codec P store).encode payloads s = .ok (result, t)) (done : List Payload) :
    ∃ n, (alone P store)^[n] (.encoding c done payloads, s) = (.encoded (done ++ result), t) := by
  induction payloads generalizing s done result with
  | nil =>
      cases encodes
      refine ⟨1, ?_⟩
      rw [List.append_nil]
      rfl
  | cons p payloads ih =>
      obtain ⟨q, u, rest, first, others, rfl⟩ := Codec.encodeEach_cons.mp encodes
      obtain ⟨n, runs⟩ := ih others (done ++ [q])
      rw [List.append_assoc, List.singleton_append] at runs
      simp only [LargePayloadCodec.payloadCodec, LargePayloadCodec.encodePayload] at first
      by_cases large : c.sizeThreshold < (P.serializeToString p).size
      · rw [if_pos large] at first
        cases first
        refine ⟨n + 2, ?_⟩
        rw [Function.iterate_add_apply, ← runs]
        congr 1
        simp only [Function.iterate_succ, Function.iterate_zero, Function.comp_apply, id, alone, advance, large,
          if_true]
      · rw [if_neg large] at first
        cases first
        refine ⟨n + 1, ?_⟩
        rw [Function.iterate_add_apply, ← runs]
        congr 1
        simp only [Function.iterate_one, alone, advance, large, if_false]

/-- What `decode` comes to. -/
def ofDecode (done : List Payload) : Except CodecError (List Payload) → CodecCall
  | .ok result => .decoded (done ++ result)
  | .error e => .raised e

/-- A call of `decode` that runs alone. -/
theorem runs_decode (c : LargePayloadCodec) (payloads : List Payload) (s : CodecState σ) (done : List Payload) :
    ∃ n, (alone P store)^[n] (.decoding done payloads, s) = (ofDecode done ((c.codec P store).decode payloads s), s) := by
  induction payloads generalizing done with
  | nil =>
      refine ⟨1, ?_⟩
      rw [show (c.codec P store).decode [] s = .ok [] from rfl, ofDecode, List.append_nil]
      rfl
  | cons p payloads ih =>
      cases first : LargePayloadCodec.decodePayload P store p s with
      | error e =>
          have fails : (c.codec P store).decode (p :: payloads) s = .error e := by
            show Codec.decodeEach _ (p :: payloads) s = _
            simp only [Codec.decodeEach, LargePayloadCodec.payloadCodec, first]
            rfl
          refine ⟨1, ?_⟩
          rw [fails]
          simp only [Function.iterate_one, alone, advance, first, ofDecode]
      | ok q =>
          obtain ⟨n, runs⟩ := ih (done ++ [q])
          have rest : ofDecode done ((c.codec P store).decode (p :: payloads) s) =
              ofDecode (done ++ [q]) ((c.codec P store).decode payloads s) := by
            have unfolded : (c.codec P store).decode (p :: payloads) s =
                (c.codec P store).decode payloads s >>= fun result => .ok (q :: result) := by
              show Codec.decodeEach _ (p :: payloads) s = _
              simp only [Codec.decodeEach, LargePayloadCodec.payloadCodec, first]
              rfl
            rw [unfolded]
            cases (c.codec P store).decode payloads s with
            | error e => rfl
            | ok result =>
                show CodecCall.decoded (done ++ q :: result) = .decoded (done ++ [q] ++ result)
                rw [List.append_assoc, List.singleton_append]
          refine ⟨n + 1, ?_⟩
          rw [rest, ← runs, Function.iterate_add_apply]
          congr 1
          simp only [Function.iterate_one, alone, advance, first]

end CodecCall

/-! ## Calls that overlap -/

/-- The shared state, and all calls with what they have been given. -/
structure BlobSystem (σ : Type) where
  shared : CodecState σ
  calls : List (CodecRequest × CodecCall) := []

inductive BlobStep where
  | begin (request : CodecRequest)
  | advance (call : Nat)
  | stop (call : Nat)
  /-- `store.delete(key)` -/
  | delete (key : String)

def BlobStep.advances (call : Nat) : BlobStep → Bool
  | advance i => i == call
  | _ => false

namespace BlobSystem

variable {σ : Type} (P : Platform) (store : ErasableBlobStore σ)

def step (s : BlobSystem σ) : BlobStep → BlobSystem σ
  | .begin request => { s with calls := s.calls ++ [(request, request.start)] }
  | .advance i =>
      match s.calls[i]? with
      | none => s
      | some (request, call) =>
          let next := call.advance P store.toBlobStore s.shared
          { shared := next.2, calls := s.calls.set i (request, next.1) }
  | .stop i =>
      match s.calls[i]? with
      | none => s
      | some (request, call) => { s with calls := s.calls.set i (request, call.stop) }
  | .delete key => { s with shared := { s.shared with store := store.delete key s.shared.store } }

/-- Everything that has happened to a store. -/
def after (start : σ) (history : List BlobStep) : BlobSystem σ :=
  history.foldl (step P store) { shared := { store := start } }

end BlobSystem

end LanggraphTemporal.Model
