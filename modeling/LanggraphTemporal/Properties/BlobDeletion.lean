/-
# Properties.BlobDeletion -- large payloads come back until their blobs are deleted

Calls of `encode` and `decode` overlap on one store, from which blobs may be deleted
at any time.  A call that decodes what an earlier call has encoded returns the
payloads of that call, or raises the `KeyError` of a blob that has been deleted:
never other payloads (`offloaded_until_deleted`).  It must raise if one had been
deleted when it began.

The keys that have been stored or will be are pairwise different (`Keyed.apart`),
so that a blob, once it is gone, does not come back as another one.
-/
import LanggraphTemporal.Model.BlobCalls
import LanggraphTemporal.Properties.PayloadOffloading
import LanggraphTemporal.Theory.Descent
import Mathlib.Data.List.Induction

namespace LanggraphTemporal.Properties

set_option autoImplicit false

open Theory Model

variable {σ : Type} {P : Platform} {store : ErasableBlobStore σ}

/-! ## Keys -/

/-- The hash in a key has sixteen characters. -/
def SixteenHashed (P : Platform) : Prop := ∀ data, ((P.sha256 data).take 16).copy.length = 16

/-- The key is one that some codec makes with this uuid. -/
def KeyOf (P : Platform) (n : Nat) (key : String) : Prop :=
  ∃ (c : LargePayloadCodec) (data : ByteArray), key = c.blobKey P n data

/-- Whatever the prefixes of two codecs, their keys differ in the digits. -/
theorem KeyOf.digits (twelve : ∀ n, (keyDigits P n).length = 12) (sixteen : SixteenHashed P) {i j : Nat}
    {key : String} (made : KeyOf P i key) (made' : KeyOf P j key) : keyDigits P i = keyDigits P j := by
  obtain ⟨c, a, rfl⟩ := made
  obtain ⟨d, b, same⟩ := made'
  unfold LargePayloadCodec.blobKey at same
  change c.keyPrefix ++ "/" ++ keyDigits P i ++ "-" ++ _ = d.keyPrefix ++ "/" ++ keyDigits P j ++ "-" ++ _ at same
  have lists := congrArg String.toList same
  simp only [String.toList_append] at lists
  have hashes : ((P.sha256 a).take 16).copy.toList.length = ((P.sha256 b).take 16).copy.toList.length := by
    rw [String.length_toList, String.length_toList, sixteen, sixteen]
  have lengths : (keyDigits P i).toList.length = (keyDigits P j).toList.length := by
    rw [String.length_toList, String.length_toList, twelve, twelve]
  have fronts := (List.append_inj' lists hashes).1
  exact String.toList_inj.mp (List.append_inj' (List.append_inj' fronts rfl).1 lengths).2

/-- A reference to another blob is another payload. -/
theorem reference_injective {key key' : String}
    (same : LargePayloadCodec.reference key = LargePayloadCodec.reference key') : key = key' := by
  have keys := congrArg (fun r : Payload => r.metadataText LargePayloadCodec.metadataBlobKey) same
  simp only [reference_key] at keys
  exact Option.some.inj keys

theorem reference_ne {p : Payload} (original : Original p) (key : String) : p ≠ LargePayloadCodec.reference key := by
  rintro rfl
  obtain ⟨text, encoding, differs⟩ := original
  rw [reference_encoding] at encoding
  exact differs (Option.some.inj encoding).symm

/-! ## What a step does -/

/-- Something happens to the system: to all of it, to one call, or to nothing. -/
inductive BlobEffect (P : Platform) (store : ErasableBlobStore σ) (s : BlobSystem σ) :
    BlobStep → BlobSystem σ → Prop
  | begun (request : CodecRequest) :
      BlobEffect P store s (.begin request) { s with calls := s.calls ++ [(request, request.start)] }
  | deleted (key : String) :
      BlobEffect P store s (.delete key) { s with shared := { s.shared with store := store.delete key s.shared.store } }
  | advanced {front back : List (CodecRequest × CodecCall)} {request : CodecRequest} {call : CodecCall}
      (calls : s.calls = front ++ (request, call) :: back) :
      BlobEffect P store s (.advance front.length)
        { shared := (call.advance P store.toBlobStore s.shared).2
          calls := front ++ (request, (call.advance P store.toBlobStore s.shared).1) :: back }
  | stopped {front back : List (CodecRequest × CodecCall)} {request : CodecRequest} {call : CodecCall}
      (calls : s.calls = front ++ (request, call) :: back) :
      BlobEffect P store s (.stop front.length) { s with calls := front ++ (request, call.stop) :: back }
  | missed {i : Nat} (absent : s.calls[i]? = none) : BlobEffect P store s (.advance i) s
  | missedStop {i : Nat} (absent : s.calls[i]? = none) : BlobEffect P store s (.stop i) s

theorem around {calls : List (CodecRequest × CodecCall)} {i : Nat} {request : CodecRequest} {call : CodecCall}
    (found : calls[i]? = some (request, call)) :
    ∃ front back, calls = front ++ (request, call) :: back ∧ front.length = i ∧
      ∀ call', calls.set i (request, call') = front ++ (request, call') :: back := by
  obtain ⟨below, here⟩ := List.getElem?_eq_some_iff.mp found
  refine ⟨calls.take i, calls.drop (i + 1), ?_, List.length_take_of_le (Nat.le_of_lt below), fun call' => ?_⟩
  · rw [← here, List.getElem_cons_drop, List.take_append_drop]
  · rw [List.set_eq_take_append_cons_drop, if_pos below]

theorem blobEffect (P : Platform) (store : ErasableBlobStore σ) (s : BlobSystem σ) (step : BlobStep) :
    BlobEffect P store s step (s.step P store step) := by
  cases step with
  | begin request => exact .begun request
  | delete key => exact .deleted key
  | advance i =>
      cases found : s.calls[i]? with
      | none =>
          simp only [BlobSystem.step, found]
          exact .missed found
      | some entry =>
          obtain ⟨request, call⟩ := entry
          obtain ⟨front, back, calls, rfl, replaced⟩ := around found
          simp only [BlobSystem.step, found, replaced]
          exact .advanced calls
  | stop i =>
      cases found : s.calls[i]? with
      | none =>
          simp only [BlobSystem.step, found]
          exact .missedStop found
      | some entry =>
          obtain ⟨request, call⟩ := entry
          obtain ⟨front, back, calls, rfl, replaced⟩ := around found
          simp only [BlobSystem.step, found, replaced]
          exact .stopped calls

/-! ## What is kept of the store -/

/-- The keys of the blobs that have been put, and those that calls are about to put. -/
def allKeys (s : BlobSystem σ) : List String :=
  s.shared.puts.map Prod.fst ++ s.calls.filterMap fun call => call.2.pendingKey

/-- Each key has been made with a uuid of its own, and a blob that has been put is
there unless its key has been deleted. -/
structure Keyed (P : Platform) (store : ErasableBlobStore σ) (s : BlobSystem σ) (history : List BlobStep) :
    Prop where
  apart : (allKeys s).Nodup
  drawn : ∀ key ∈ allKeys s, ∃ n < s.shared.uuids, KeyOf P n key
  present : ∀ e ∈ s.shared.puts, store.get e.1 s.shared.store = .ok e.2 ∨
    .delete e.1 ∈ history ∧ ∃ message, store.get e.1 s.shared.store = .error (.keyError message)

/-- A blob has been put, and is gone. -/
def Gone (store : ErasableBlobStore σ) (s : BlobSystem σ) (key : String) : Prop :=
  key ∈ s.shared.puts.map Prod.fst ∧ ∃ message, store.get key s.shared.store = .error (.keyError message)

section Keys

variable {s : BlobSystem σ} {history : List BlobStep} {front back : List (CodecRequest × CodecCall)}
  {request : CodecRequest} {call call' : CodecCall} {key : String}

/-- The keys, with the one that this call is about to put in front. -/
theorem allKeys_around {shared : CodecState σ} :
    (allKeys { shared, calls := front ++ (request, call) :: back }).Perm (call.pendingKey.toList ++
      (shared.puts.map Prod.fst ++ (front ++ back).filterMap fun call => call.2.pendingKey)) := by
  unfold allKeys
  rw [List.filterMap_append, List.filterMap_append, List.filterMap_cons]
  cases call.pendingKey with
  | none => exact .refl _
  | some key =>
      show (shared.puts.map Prod.fst ++ (_ ++ key :: _)).Perm (key :: (shared.puts.map Prod.fst ++ (_ ++ _)))
      rw [← List.append_assoc, ← List.append_assoc]
      exact List.perm_middle

/-- What a call does to the shared state. -/
theorem advance_shared (P : Platform) (store : BlobStore σ) (shared : CodecState σ) (call : CodecCall) :
    (call.advance P store shared).2 = shared ∧
        (∀ key, (call.advance P store shared).1.pendingKey = some key → call.pendingKey = some key) ∨
      (∃ key, (call.advance P store shared).1.pendingKey = some key ∧ call.pendingKey = none ∧
        KeyOf P shared.uuids key ∧ (call.advance P store shared).2 = { shared with uuids := shared.uuids + 1 }) ∨
      ∃ key data, call.pendingKey = some key ∧ (call.advance P store shared).1.pendingKey = none ∧
        (call.advance P store shared).2 =
          { shared with store := store.put key data shared.store, puts := shared.puts ++ [(key, data)] } := by
  cases call with
  | encoding c result payloads =>
      cases payloads with
      | nil => exact .inl ⟨rfl, fun _ none => none⟩
      | cons p payloads =>
          by_cases large : c.sizeThreshold < (P.serializeToString p).size
          · refine .inr (.inl ⟨c.blobKey P shared.uuids (P.serializeToString p), ?_, rfl, ⟨c, _, rfl⟩, ?_⟩)
            · simp only [CodecCall.advance, large, if_true]
              rfl
            · simp only [CodecCall.advance, large, if_true]
          · refine .inl ?_
            simp only [CodecCall.advance, large, if_false]
            exact ⟨trivial, fun _ none => none⟩
  | putting c result key serialized payloads =>
      exact .inr (.inr ⟨key, serialized, rfl, rfl, rfl⟩)
  | decoding result payloads =>
      cases payloads with
      | nil => exact .inl ⟨rfl, fun _ none => none⟩
      | cons p payloads =>
          refine .inl ?_
          cases decoded : LargePayloadCodec.decodePayload P store p shared with
          | ok q =>
              simp only [CodecCall.advance, decoded]
              exact ⟨trivial, fun _ none => none⟩
          | error e =>
              simp only [CodecCall.advance, decoded]
              exact ⟨trivial, fun _ none => none⟩
  | encoded result => exact .inl ⟨rfl, fun _ none => none⟩
  | decoded result => exact .inl ⟨rfl, fun _ none => none⟩
  | raised e => exact .inl ⟨rfl, fun _ none => none⟩
  | stopped => exact .inl ⟨rfl, fun _ none => none⟩

/-- A key that a call is about to put has not been stored. -/
theorem Keyed.unstored (keyed : Keyed P store s history) (calls : s.calls = front ++ (request, call) :: back)
    (pending : call.pendingKey = some key) : key ∉ s.shared.puts.map Prod.fst := by
  obtain ⟨shared, _⟩ := s
  cases calls
  have keys := @allKeys_around _ front back request call shared
  rw [pending] at keys
  have apart : (key :: (shared.puts.map Prod.fst ++ _)).Nodup := keys.nodup_iff.mp keyed.apart
  exact fun mem => (List.nodup_cons.mp apart).1 (List.mem_append_left _ mem)

section Kept

variable {s' : BlobSystem σ} {step : BlobStep} {data : ByteArray}

/-- The keys that calls are about to put may get fewer. -/
theorem Keyed.fewer (keyed : Keyed P store s history) (shared : s'.shared = s.shared) {some all : List String}
    (keys' : (allKeys s').Perm some) (fewer : some.Sublist all) (keys : (allKeys s).Perm all) :
    Keyed P store s' (history ++ [step]) where
  apart := keys'.nodup_iff.mpr ((keys.nodup_iff.mp keyed.apart).sublist fewer)
  drawn key mem := by
    rw [shared]
    exact keyed.drawn key (keys.mem_iff.mpr (fewer.subset (keys'.mem_iff.mp mem)))
  present e mem := by
    rw [shared] at mem ⊢
    exact (keyed.present e mem).imp_right fun ⟨gone, error⟩ => ⟨List.mem_append_left _ gone, error⟩

/-- A key that has been made with the next uuid is no other. -/
theorem Keyed.draw (twelve : ∀ n, (keyDigits P n).length = 12) (sixteen : SixteenHashed P)
    (keyed : Keyed P store s history) (fresh : FreshKeys P (s.shared.uuids + 1))
    (made : KeyOf P s.shared.uuids key) (shared : s'.shared = { s.shared with uuids := s.shared.uuids + 1 })
    (keys : (allKeys s').Perm (key :: allKeys s)) : Keyed P store s' (history ++ [step]) where
  apart := by
    refine keys.nodup_iff.mpr (List.nodup_cons.mpr ⟨fun mem => ?_, keyed.apart⟩)
    obtain ⟨n, below, made'⟩ := keyed.drawn key mem
    have same := fresh n (by omega) s.shared.uuids (by omega) (made'.digits twelve sixteen made)
    omega
  drawn key' mem := by
    rw [shared]
    rcases List.mem_cons.mp (keys.mem_iff.mp mem) with rfl | old
    · exact ⟨s.shared.uuids, Nat.lt_succ_self _, made⟩
    · obtain ⟨n, below, made'⟩ := keyed.drawn key' old
      exact ⟨n, Nat.lt_succ_of_lt below, made'⟩
  present e mem := by
    rw [shared] at mem ⊢
    exact (keyed.present e mem).imp_right fun ⟨gone, error⟩ => ⟨List.mem_append_left _ gone, error⟩

/-- A key that is stored now has not been stored before. -/
theorem Keyed.put (keyed : Keyed P store s history)
    (shared : s'.shared =
      { s.shared with store := store.put key data s.shared.store, puts := s.shared.puts ++ [(key, data)] })
    (keys : (allKeys s').Perm (allKeys s)) (new : key ∉ s.shared.puts.map Prod.fst) :
    Keyed P store s' (history ++ [step]) where
  apart := keys.nodup_iff.mpr keyed.apart
  drawn key mem := by
    rw [shared]
    exact keyed.drawn key (keys.mem_iff.mp mem)
  present e mem := by
    rw [shared] at mem ⊢
    rcases List.mem_append.mp mem with old | last
    · have other : e.1 ≠ key := fun same => new (List.mem_map.mpr ⟨e, old, same⟩)
      rw [store.get_put_other data _ other]
      exact (keyed.present e old).imp_right fun ⟨gone, error⟩ => ⟨List.mem_append_left _ gone, error⟩
    · rw [List.mem_singleton.mp last]
      exact .inl (store.get_put key data _)

theorem Keyed.delete (keyed : Keyed P store s history)
    (shared : s'.shared = { s.shared with store := store.delete key s.shared.store })
    (keys : allKeys s' = allKeys s) : Keyed P store s' (history ++ [.delete key]) where
  apart := by
    rw [keys]
    exact keyed.apart
  drawn key' mem := by
    rw [shared]
    exact keyed.drawn key' (keys ▸ mem)
  present e mem := by
    rw [shared] at mem ⊢
    by_cases here : e.1 = key
    · rw [here]
      exact .inr ⟨List.mem_append_right _ List.mem_cons_self, store.get_delete key _⟩
    · rw [store.get_delete_other _ here]
      exact (keyed.present e mem).imp_right fun ⟨gone, error⟩ => ⟨List.mem_append_left _ gone, error⟩

end Kept

theorem pendingKey_stop (call : CodecCall) : call.stop.pendingKey = none := by
  cases call <;> rfl

theorem pendingKey_start (request : CodecRequest) : request.start.pendingKey = none := by
  cases request <;> rfl

theorem keyed_step (twelve : ∀ n, (keyDigits P n).length = 12) (sixteen : SixteenHashed P)
    (keyed : Keyed P store s history) (step : BlobStep)
    (fresh : FreshKeys P (s.step P store step).shared.uuids) :
    Keyed P store (s.step P store step) (history ++ [step]) := by
  have effect := blobEffect P store s step
  generalize s.step P store step = s' at effect fresh ⊢
  cases effect with
  | begun request =>
      have same : allKeys { s with calls := s.calls ++ [(request, request.start)] } = allKeys s := by
        unfold allKeys
        rw [List.filterMap_append, List.filterMap_cons, pendingKey_start, List.filterMap_nil, List.append_nil]
      exact keyed.fewer rfl (.of_eq same) (.refl _) (.refl _)
  | deleted key => exact keyed.delete rfl rfl
  | missed absent => exact keyed.fewer rfl (.refl _) (.refl _) (.refl _)
  | missedStop absent => exact keyed.fewer rfl (.refl _) (.refl _) (.refl _)
  | @stopped front back request call calls =>
      obtain ⟨shared, _⟩ := s
      cases calls
      refine keyed.fewer rfl allKeys_around ?_ allKeys_around
      rw [pendingKey_stop]
      exact List.sublist_append_right _ _
  | @advanced front back request call calls =>
      obtain ⟨shared, _⟩ := s
      cases calls
      rcases advance_shared P store.toBlobStore shared call with
        ⟨same, pending⟩ | ⟨key, pending, none, made, drawn⟩ | ⟨key, data, pending, none, put⟩
      · refine keyed.fewer same allKeys_around ?_ allKeys_around
        rw [same]
        refine List.Sublist.append_right ?_ _
        cases now : (call.advance P store.toBlobStore shared).1.pendingKey with
        | none => exact List.nil_sublist _
        | some key =>
            rw [pending key now]
      · have before := @allKeys_around _ front back request call shared
        rw [none] at before
        refine keyed.draw twelve sixteen (by rwa [drawn] at fresh) made drawn (allKeys_around.trans ?_)
        rw [pending, drawn]
        exact before.symm.cons key
      · have before := @allKeys_around _ front back request call shared
        rw [pending] at before
        refine keyed.put put (allKeys_around.trans (List.Perm.trans ?_ before.symm)) fun mem => ?_
        · rw [none, put, List.map_append]
          show (shared.puts.map Prod.fst ++ [key] ++ _).Perm _
          rw [List.append_assoc]
          exact List.perm_middle
        · exact keyed.unstored rfl pending mem

/-! ## What does not change any more -/

/-- What has been put is on record. -/
theorem puts_step (s : BlobSystem σ) (step : BlobStep) {e : String × ByteArray} (mem : e ∈ s.shared.puts) :
    e ∈ (s.step P store step).shared.puts := by
  have effect := blobEffect P store s step
  generalize s.step P store step = s' at effect ⊢
  cases effect with
  | @advanced front back request call calls =>
      rcases advance_shared P store.toBlobStore s.shared call with
        ⟨same, -⟩ | ⟨key, -, -, -, drawn⟩ | ⟨key, data, -, -, put⟩
      · rw [same]
        exact mem
      · rw [drawn]
        exact mem
      · rw [put]
        exact List.mem_append_left _ mem
  | _ => exact mem

/-- A blob that is gone does not come back. -/
theorem gone_step (keyed : Keyed P store s history) (gone : Gone store s key) (step : BlobStep) :
    Gone store (s.step P store step) key := by
  obtain ⟨put, message, absent⟩ := gone
  have effect := blobEffect P store s step
  generalize s.step P store step = s' at effect ⊢
  cases effect with
  | deleted other =>
      refine ⟨put, ?_⟩
      by_cases here : key = other
      · subst here
        exact store.get_delete key _
      · refine ⟨message, ?_⟩
        show store.get key (store.delete other s.shared.store) = _
        rw [store.get_delete_other _ here, absent]
  | @advanced front back request call calls =>
      rcases advance_shared P store.toBlobStore s.shared call with
        ⟨same, -⟩ | ⟨other, -, -, -, drawn⟩ | ⟨other, data, pending, -, stored⟩
      · rw [Gone, same]
        exact ⟨put, message, absent⟩
      · rw [Gone, drawn]
        exact ⟨put, message, absent⟩
      · have differs : key ≠ other := by
          rintro rfl
          exact keyed.unstored calls pending put
        rw [Gone, stored, List.map_append]
        refine ⟨List.mem_append_left _ put, message, ?_⟩
        rw [store.get_put_other data _ differs, absent]
  | _ => exact ⟨put, message, absent⟩

theorem gone_delete (put : key ∈ s.shared.puts.map Prod.fst) : Gone store (s.step P store (.delete key)) key :=
  ⟨put, store.get_delete key s.shared.store⟩

end Keys

/-! ## Calls that encode -/

section Calls

variable {puts puts' : List (String × ByteArray)} {s : BlobSystem σ}

/-- The result for a payload: itself, or a reference to its bytes in the store. -/
def Represents (P : Platform) (puts : List (String × ByteArray)) (p r : Payload) : Prop :=
  r = p ∨ ∃ key, r = LargePayloadCodec.reference key ∧ (key, P.serializeToString p) ∈ puts

/-- As far as the call has got, its result is right. -/
def EncodesRight (P : Platform) (puts : List (String × ByteArray)) (payloads : List Payload) :
    CodecCall → Prop
  | .encoding _ result rest => ∃ done, payloads = done ++ rest ∧ List.Forall₂ (Represents P puts) done result
  | .putting _ result _ serialized rest => ∃ done p, payloads = done ++ p :: rest ∧
      serialized = P.serializeToString p ∧ List.Forall₂ (Represents P puts) done result
  | .encoded result => List.Forall₂ (Represents P puts) payloads result
  | .stopped => True
  | .decoding .. | .decoded _ | .raised _ => False

/-- So it is for all calls. -/
def AllEncodeRight (P : Platform) (s : BlobSystem σ) : Prop :=
  ∀ codec payloads call, (CodecRequest.encode codec payloads, call) ∈ s.calls →
    EncodesRight P s.shared.puts payloads call

theorem Represents.mono (more : ∀ e ∈ puts, e ∈ puts') {p r : Payload} (represents : Represents P puts p r) :
    Represents P puts' p r :=
  represents.imp_right fun ⟨key, reference, stored⟩ => ⟨key, reference, more _ stored⟩

theorem represent_mono (more : ∀ e ∈ puts, e ∈ puts') {ps rs : List Payload}
    (represent : List.Forall₂ (Represents P puts) ps rs) : List.Forall₂ (Represents P puts') ps rs :=
  represent.imp fun _ _ => .mono more

theorem EncodesRight.mono (more : ∀ e ∈ puts, e ∈ puts') {payloads : List Payload} {call : CodecCall}
    (right : EncodesRight P puts payloads call) : EncodesRight P puts' payloads call := by
  cases call with
  | encoding c result rest =>
      obtain ⟨done, split, represent⟩ := right
      exact ⟨done, split, represent_mono more represent⟩
  | putting c result key serialized rest =>
      obtain ⟨done, p, split, bytes, represent⟩ := right
      exact ⟨done, p, split, bytes, represent_mono more represent⟩
  | encoded result => exact represent_mono more right
  | stopped => trivial
  | decoding result rest => exact right
  | decoded result => exact right
  | raised e => exact right

theorem represent_snoc {done result : List Payload} {p r : Payload}
    (represent : List.Forall₂ (Represents P puts) done result) (last : Represents P puts p r) :
    List.Forall₂ (Represents P puts) (done ++ [p]) (result ++ [r]) :=
  List.rel_append represent (.cons last .nil)

theorem EncodesRight.advance (store : BlobStore σ) {shared : CodecState σ} {payloads : List Payload}
    {call : CodecCall} (right : EncodesRight P shared.puts payloads call) :
    EncodesRight P (call.advance P store shared).2.puts payloads (call.advance P store shared).1 := by
  cases call with
  | encoding c result rest =>
      obtain ⟨done, split, represent⟩ := right
      cases rest with
      | nil =>
          rw [List.append_nil] at split
          rw [split]
          exact represent
      | cons p rest =>
          by_cases large : c.sizeThreshold < (P.serializeToString p).size
          · simp only [CodecCall.advance, large, if_true]
            exact ⟨done, p, split, rfl, represent⟩
          · simp only [CodecCall.advance, large, if_false]
            refine ⟨done ++ [p], ?_, represent_snoc represent (.inl rfl)⟩
            rw [split, List.append_assoc, List.singleton_append]
  | putting c result key serialized rest =>
      obtain ⟨done, p, split, rfl, represent⟩ := right
      refine ⟨done ++ [p], ?_, represent_snoc (represent_mono (fun e => List.mem_append_left _) represent) (.inr ?_)⟩
      · rw [split, List.append_assoc, List.singleton_append]
      · exact ⟨key, rfl, List.mem_append_right _ List.mem_cons_self⟩
  | encoded result => exact right
  | stopped => trivial
  | decoding result rest => exact right.elim
  | decoded result => exact right.elim
  | raised e => exact right.elim

theorem EncodesRight.stop {payloads : List Payload} {call : CodecCall}
    (right : EncodesRight P puts payloads call) : EncodesRight P puts payloads call.stop := by
  cases call <;> first | exact right | trivial

theorem allEncodeRight_step (store : ErasableBlobStore σ) (right : AllEncodeRight P s) (step : BlobStep) :
    AllEncodeRight P (s.step P store step) := by
  intro codec payloads call' mem
  have more : ∀ e ∈ s.shared.puts, e ∈ (s.step P store step).shared.puts := fun _ => puts_step s step
  have effect := blobEffect P store s step
  generalize s.step P store step = s' at effect mem more ⊢
  cases effect with
  | begun request =>
      rcases List.mem_append.mp mem with old | new
      · exact right codec payloads call' old
      · cases List.mem_singleton.mp new
        exact ⟨[], rfl, .nil⟩
  | deleted key => exact right codec payloads call' mem
  | missed absent => exact right codec payloads call' mem
  | missedStop absent => exact right codec payloads call' mem
  | @stopped front back request call calls =>
      obtain ⟨shared, _⟩ := s
      cases calls
      rcases mem_replaced mem with same | old
      · cases same
        exact (right codec payloads call (List.mem_append_right _ List.mem_cons_self)).stop
      · exact right codec payloads call' old
  | @advanced front back request call calls =>
      obtain ⟨shared, _⟩ := s
      cases calls
      rcases mem_replaced mem with same | old
      · cases same
        exact (right codec payloads call (List.mem_append_right _ List.mem_cons_self)).advance _
      · exact (right codec payloads call' old).mono more

end Calls

/-! ## Calls that decode -/

section Decoding

variable {s : BlobSystem σ} {history history' later later' : List BlobStep} {puts puts' : List (String × ByteArray)}
  {call : CodecCall} {ps rs : List Payload} {gone : String → Prop} {i : Nat}

/-- How far a call has got that decodes `rs`, the result for `ps`, when these blobs
were gone before it began.  References to them are never got past. -/
def Restoring (P : Platform) (puts : List (String × ByteArray)) (ps rs : List Payload) (gone : String → Prop)
    (history later : List BlobStep) (i : Nat) : CodecCall → Prop
  | .decoding result rest => rest.length + later.countP (BlobStep.advances i) ≤ rs.length ∧
      (∃ todo, ps = result ++ todo ∧ List.Forall₂ (Represents P puts) todo rest) ∧
      (∀ r ∈ rest, r ∈ rs) ∧
      ∀ key, gone key → LargePayloadCodec.reference key ∈ rs → LargePayloadCodec.reference key ∈ rest
  | .decoded result => result = ps ∧ ∀ key, gone key → LargePayloadCodec.reference key ∉ rs
  | .raised e => ∃ key, LargePayloadCodec.reference key ∈ rs ∧ .delete key ∈ history ∧
      ∃ message, e = .keyError message
  | .stopped => .stop i ∈ later
  | .encoding .. | .putting .. | .encoded _ => False

/-- What the next payload comes to. -/
theorem decodePayload_represents (keyed : Keyed P store s history) {p r : Payload}
    (good : Original p ∧ Parses P p) (represents : Represents P s.shared.puts p r) :
    LargePayloadCodec.decodePayload P store.toBlobStore r s.shared = .ok p ∧
        (∀ key, r = LargePayloadCodec.reference key → ¬Gone store s key) ∨
      ∃ key, r = LargePayloadCodec.reference key ∧ .delete key ∈ history ∧ ∃ message,
        LargePayloadCodec.decodePayload P store.toBlobStore r s.shared = .error (.keyError message) := by
  obtain ⟨original, parses⟩ := good
  rcases represents with rfl | ⟨key, rfl, stored⟩
  · refine .inl ⟨?_, fun key same => absurd same (reference_ne original key)⟩
    obtain ⟨text, encoding, differs⟩ := original
    simp only [LargePayloadCodec.decodePayload, encoding, differs, if_false]
  · have named : key ≠ "" := by
      obtain ⟨n, -, c, data, rfl⟩ := keyed.drawn key
        (List.mem_append_left _ (List.mem_map_of_mem stored))
      exact blobKey_ne n data
    have fetch : LargePayloadCodec.decodePayload P store.toBlobStore (LargePayloadCodec.reference key) s.shared =
        (store.get key s.shared.store >>= fun data => (P.parseFromString data).elim (.error .decodeError) .ok) := by
      simp only [LargePayloadCodec.decodePayload, reference_encoding, if_true, LargePayloadCodec.fetchPayload,
        reference_key, named, if_false]
      congr 1
      funext data
      cases P.parseFromString data <;> rfl
    rw [fetch]
    rcases keyed.present _ stored with found | ⟨deleted, message, absent⟩
    · refine .inl ⟨?_, ?_⟩
      · have parsed : P.parseFromString (P.serializeToString p) = some p := parses
        rw [found]
        show (P.parseFromString (P.serializeToString p)).elim _ _ = _
        rw [parsed]
        rfl
      · rintro key' same ⟨-, message, absent⟩
        rw [← reference_injective same, found] at absent
        cases absent
    · refine .inr ⟨key, rfl, deleted, message, ?_⟩
      rw [absent]
      rfl

/-- A call that has ended stays as it is. -/
theorem Restoring.rest (ended : call.Ended = true) (longer : ∀ step ∈ history, step ∈ history')
    (longer' : ∀ step ∈ later, step ∈ later') (restoring : Restoring P puts ps rs gone history later i call) :
    Restoring P puts' ps rs gone history' later' i call := by
  cases call with
  | decoded result => exact restoring
  | raised e =>
      obtain ⟨key, mem, deleted, message⟩ := restoring
      exact ⟨key, mem, longer _ deleted, message⟩
  | stopped => exact longer' _ restoring
  | encoded result => exact restoring
  | decoding result rest => cases ended
  | encoding c result rest => cases ended
  | putting c result key serialized rest => cases ended

/-- Something else happens. -/
theorem Restoring.mono (more : ∀ e ∈ puts, e ∈ puts') (longer : ∀ step ∈ history, step ∈ history')
    (longer' : ∀ step ∈ later, step ∈ later')
    (count : later'.countP (BlobStep.advances i) = later.countP (BlobStep.advances i))
    (restoring : Restoring P puts ps rs gone history later i call) :
    Restoring P puts' ps rs gone history' later' i call := by
  cases call with
  | decoding result rest =>
      obtain ⟨short, ⟨todo, split, represent⟩, known, kept⟩ := restoring
      exact ⟨count ▸ short, ⟨todo, split, represent_mono more represent⟩, known, kept⟩
  | decoded result => exact restoring.rest rfl longer longer'
  | raised e => exact restoring.rest rfl longer longer'
  | stopped => exact restoring.rest rfl longer longer'
  | encoding c result rest => exact restoring
  | putting c result key serialized rest => exact restoring
  | encoded result => exact restoring

/-- The call goes on, and leaves the shared state as it is. -/
theorem Restoring.advance (keyed : Keyed P store s history) (good : ∀ p ∈ ps, Original p ∧ Parses P p)
    (absent : ∀ key, gone key → Gone store s key)
    (restoring : Restoring P s.shared.puts ps rs gone history later i call) {step : BlobStep} :
    Restoring P s.shared.puts ps rs gone (history ++ [step]) (later ++ [.advance i]) i
        (call.advance P store.toBlobStore s.shared).1 ∧
      (call.advance P store.toBlobStore s.shared).2 = s.shared := by
  have count : (later ++ [BlobStep.advance i]).countP (BlobStep.advances i) =
      later.countP (BlobStep.advances i) + 1 := by
    rw [List.countP_append]
    simp [BlobStep.advances]
  have longer : ∀ s ∈ history, s ∈ history ++ [step] := fun _ => List.mem_append_left _
  have longer' : ∀ s ∈ later, s ∈ later ++ [BlobStep.advance i] := fun _ => List.mem_append_left _
  cases call with
  | decoding result rest =>
      obtain ⟨short, ⟨todo, split, represent⟩, known, kept⟩ := restoring
      cases represent with
      | nil =>
          rw [List.append_nil] at split
          exact ⟨⟨split.symm, fun key lost mem => absurd (kept key lost mem) List.not_mem_nil⟩, rfl⟩
      | @cons p r todo rest first represent =>
          have mem : p ∈ ps := split ▸ List.mem_append_right _ List.mem_cons_self
          rcases decodePayload_represents keyed (good p mem) first with
            ⟨decodes, there⟩ | ⟨key, rfl, deleted, message, fails⟩
          · simp only [CodecCall.advance, decodes]
            have known' : ∀ r' ∈ rest, r' ∈ rs := fun r' mem' => known r' (List.mem_cons_of_mem _ mem')
            refine ⟨⟨?_, ⟨todo, ?_, represent⟩, known', ?_⟩, trivial⟩
            · rw [count]
              rw [List.length_cons] at short
              omega
            · rw [split, List.append_assoc, List.singleton_append]
            · intro key lost mem'
              rcases List.mem_cons.mp (kept key lost mem') with here | later
              · exact absurd (absent key lost) (there key here.symm)
              · exact later
          · simp only [CodecCall.advance, fails]
            exact ⟨⟨key, known _ List.mem_cons_self, List.mem_append_left _ deleted, message, rfl⟩, trivial⟩
  | decoded result => exact ⟨restoring.rest rfl longer longer', rfl⟩
  | raised e => exact ⟨restoring.rest rfl longer longer', rfl⟩
  | stopped => exact ⟨restoring.rest rfl longer longer', rfl⟩
  | encoding c result rest => exact restoring.elim
  | putting c result key serialized rest => exact restoring.elim
  | encoded result => exact restoring.elim

theorem Restoring.stop (restoring : Restoring P puts ps rs gone history later i call) {step : BlobStep} :
    Restoring P puts ps rs gone (history ++ [step]) (later ++ [.stop i]) i call.stop := by
  have longer : ∀ s ∈ history, s ∈ history ++ [step] := fun _ => List.mem_append_left _
  have longer' : ∀ s ∈ later, s ∈ later ++ [BlobStep.stop i] := fun _ => List.mem_append_left _
  cases call with
  | decoding result rest => exact List.mem_append_right later List.mem_cons_self
  | decoded result => exact restoring.rest rfl longer longer'
  | raised e => exact restoring.rest rfl longer longer'
  | stopped => exact restoring.rest rfl longer longer'
  | encoding c result rest => exact restoring.elim
  | putting c result key serialized rest => exact restoring.elim
  | encoded result => exact restoring.elim

/-- What the call `i` that decodes `rs` has come to. -/
def RestoringAt (P : Platform) (s : BlobSystem σ) (ps rs : List Payload) (gone : String → Prop)
    (history later : List BlobStep) (i : Nat) : Prop :=
  ∃ call, s.calls[i]? = some (.decode rs, call) ∧ Restoring P s.shared.puts ps rs gone history later i call

theorem getElem?_here {α : Type} (front back : List α) (x : α) :
    (front ++ x :: back)[front.length]? = some x := by
  rw [List.getElem?_append_right (Nat.le_refl _), Nat.sub_self]
  rfl

theorem getElem?_replaced {α : Type} {front back : List α} {x y : α} (other : i ≠ front.length) :
    (front ++ y :: back)[i]? = (front ++ x :: back)[i]? := by
  rcases Nat.lt_or_gt_of_ne other with before | behind
  · rw [List.getElem?_append_left before, List.getElem?_append_left before]
  · obtain ⟨n, rfl⟩ := Nat.exists_eq_add_of_lt behind
    rw [List.getElem?_append_right (by omega), List.getElem?_append_right (by omega),
      show front.length + n + 1 - front.length = n + 1 by omega]
    rfl

theorem countP_snoc_of_not {step : BlobStep} (not : step.advances i = false) :
    (later ++ [step]).countP (BlobStep.advances i) = later.countP (BlobStep.advances i) := by
  rw [List.countP_append, List.countP_singleton, not]
  rfl

theorem restoringAt_step (keyed : Keyed P store s history) (good : ∀ p ∈ ps, Original p ∧ Parses P p)
    (absent : ∀ key, gone key → Gone store s key) (restoring : RestoringAt P s ps rs gone history later i)
    (step : BlobStep) :
    RestoringAt P (s.step P store step) ps rs gone (history ++ [step]) (later ++ [step]) i := by
  obtain ⟨call, here, restoring⟩ := restoring
  have more : ∀ e ∈ s.shared.puts, e ∈ (s.step P store step).shared.puts := fun _ => puts_step s step
  have longer : ∀ s ∈ history, s ∈ history ++ [step] := fun _ => List.mem_append_left _
  have longer' : ∀ s ∈ later, s ∈ later ++ [step] := fun _ => List.mem_append_left _
  have effect := blobEffect P store s step
  generalize s.step P store step = s' at effect more ⊢
  have elsewhere (not : step.advances i = false) (same : s'.calls[i]? = s.calls[i]?) :
      RestoringAt P s' ps rs gone (history ++ [step]) (later ++ [step]) i :=
    ⟨call, same.trans here, restoring.mono more longer longer' (countP_snoc_of_not not)⟩
  cases effect with
  | begun request =>
      refine elsewhere rfl (List.getElem?_append_left ?_)
      exact (List.getElem?_eq_some_iff.mp here).1
  | deleted key => exact elsewhere rfl rfl
  | @missed j none =>
      refine elsewhere ?_ rfl
      show (j == i) = false
      rw [beq_eq_false_iff_ne]
      rintro rfl
      rw [here] at none
      cases none
  | missedStop none => exact elsewhere rfl rfl
  | @stopped front back request call' calls =>
      by_cases this : i = front.length
      · subst this
        rw [calls, getElem?_here] at here
        cases here
        exact ⟨call.stop, getElem?_here _ _ _, restoring.stop⟩
      · refine elsewhere rfl ?_
        rw [calls]
        exact getElem?_replaced this
  | @advanced front back request call' calls =>
      by_cases this : i = front.length
      · subst this
        rw [calls, getElem?_here] at here
        cases here
        obtain ⟨restoring', same⟩ := restoring.advance keyed good absent
        refine ⟨(call.advance P store.toBlobStore s.shared).1, getElem?_here _ _ _, ?_⟩
        rw [same]
        exact restoring'
      · refine elsewhere ?_ ?_
        · show (front.length == i) = false
          rw [beq_eq_false_iff_ne]
          exact Ne.symm this
        · rw [calls]
          exact getElem?_replaced this

end Decoding

/-! ## Whole histories -/

section Histories

variable {start : σ}

theorem blobs_snoc (start : σ) (history : List BlobStep) (step : BlobStep) :
    BlobSystem.after P store start (history ++ [step]) = (BlobSystem.after P store start history).step P store step := by
  rw [BlobSystem.after, List.foldl_append]
  rfl

theorem drawn_step (P : Platform) (store : ErasableBlobStore σ) (s : BlobSystem σ) (step : BlobStep) :
    s.shared.uuids ≤ (s.step P store step).shared.uuids := by
  have effect := blobEffect P store s step
  generalize s.step P store step = s' at effect ⊢
  cases effect with
  | @advanced front back request call calls =>
      rcases advance_shared P store.toBlobStore s.shared call with
        ⟨same, -⟩ | ⟨key, -, -, -, drawn⟩ | ⟨key, data, -, -, put⟩
      · exact (congrArg CodecState.uuids same).ge
      · rw [drawn]
        exact Nat.le_succ _
      · rw [put]
  | _ => exact Nat.le_refl _

theorem fresh_front {history : List BlobStep} {step : BlobStep}
    (fresh : FreshKeys P (BlobSystem.after P store start (history ++ [step])).shared.uuids) :
    FreshKeys P (BlobSystem.after P store start history).shared.uuids := by
  rw [blobs_snoc] at fresh
  exact fresh.mono (drawn_step P store _ step)

theorem keyed_after (twelve : ∀ n, (keyDigits P n).length = 12) (sixteen : SixteenHashed P)
    (history : List BlobStep) (fresh : FreshKeys P (BlobSystem.after P store start history).shared.uuids) :
    Keyed P store (BlobSystem.after P store start history) history := by
  induction history using List.reverseRecOn with
  | nil =>
      refine ⟨.nil, ?_, ?_⟩
      · intro key mem
        cases mem
      · intro e mem
        cases mem
  | append_singleton history step ih =>
      have earlier := fresh_front fresh
      rw [blobs_snoc] at fresh ⊢
      exact keyed_step twelve sixteen (ih earlier) step fresh

theorem allEncodeRight_after (P : Platform) (store : ErasableBlobStore σ) (start : σ) (history : List BlobStep) :
    AllEncodeRight P (BlobSystem.after P store start history) := by
  induction history using List.reverseRecOn with
  | nil =>
      intro codec payloads call mem
      cases mem
  | append_singleton history step ih =>
      rw [blobs_snoc]
      exact allEncodeRight_step store ih step

theorem puts_after {first second : List BlobStep} {e : String × ByteArray}
    (mem : e ∈ (BlobSystem.after P store start first).shared.puts) :
    e ∈ (BlobSystem.after P store start (first ++ second)).shared.puts := by
  induction second using List.reverseRecOn with
  | nil => rwa [List.append_nil]
  | append_singleton second step ih =>
      rw [← List.append_assoc, blobs_snoc]
      exact puts_step _ step ih

/-- A blob that is deleted after it has been put is gone. -/
theorem gone_after (twelve : ∀ n, (keyDigits P n).length = 12) (sixteen : SixteenHashed P)
    {first second : List BlobStep} {key : String}
    (put : key ∈ (BlobSystem.after P store start first).shared.puts.map Prod.fst) (deleted : .delete key ∈ second)
    (fresh : FreshKeys P (BlobSystem.after P store start (first ++ second)).shared.uuids) :
    Gone store (BlobSystem.after P store start (first ++ second)) key := by
  induction second using List.reverseRecOn with
  | nil => cases deleted
  | append_singleton second step ih =>
      rw [← List.append_assoc] at fresh ⊢
      have earlier := fresh_front fresh
      rw [blobs_snoc]
      rcases List.mem_append.mp deleted with before | last
      · exact gone_step (keyed_after twelve sixteen _ earlier) (ih before earlier) step
      · rw [← List.mem_singleton.mp last]
        obtain ⟨e, mem, rfl⟩ := List.mem_map.mp put
        exact gone_delete (List.mem_map_of_mem (puts_after mem))

/-- What a call comes to that decodes the result for `ps`: it returns `ps`, which it
cannot if a blob had been deleted `earlier`, or raises the error of a blob that has
been deleted, unless it has been stopped, or has not gone on long enough. -/
inductive ComesTo (ps rs : List Payload) (first earlier later : List BlobStep) (i : Nat) : CodecCall → Prop
  | decoding {result rest : List Payload} (short : later.countP (BlobStep.advances i) ≤ rs.length) :
      ComesTo ps rs first earlier later i (.decoding result rest)
  | decoded (kept : ∀ key, LargePayloadCodec.reference key ∈ rs → .delete key ∉ earlier) :
      ComesTo ps rs first earlier later i (.decoded ps)
  | raised {key message : String} (known : LargePayloadCodec.reference key ∈ rs)
      (deleted : .delete key ∈ first ++ earlier ++ later) :
      ComesTo ps rs first earlier later i (.raised (.keyError message))
  | stopped (asked : .stop i ∈ later) : ComesTo ps rs first earlier later i .stopped

theorem Restoring.comesTo {puts : List (String × ByteArray)} {ps rs : List Payload}
    {first earlier later : List BlobStep} {i : Nat} {call : CodecCall}
    (restoring : Restoring P puts ps rs (fun key => LargePayloadCodec.reference key ∈ rs ∧ .delete key ∈ earlier)
      (first ++ earlier ++ [.begin (.decode rs)] ++ later) later i call) :
    ComesTo ps rs first earlier later i call := by
  cases call with
  | decoding result rest =>
      obtain ⟨short, -⟩ := restoring
      exact .decoding (by omega)
  | decoded result =>
      obtain ⟨rfl, kept⟩ := restoring
      exact .decoded fun key mem deleted => kept key ⟨mem, deleted⟩ mem
  | raised e =>
      obtain ⟨key, mem, deleted, message, rfl⟩ := restoring
      exact .raised mem (by simpa using deleted)
  | stopped => exact .stopped restoring
  | encoding c result rest => exact restoring.elim
  | putting c result key serialized rest => exact restoring.elim
  | encoded result => exact restoring.elim

theorem represent_stored {puts : List (String × ByteArray)} {ps rs : List Payload}
    (represent : List.Forall₂ (Represents P puts) ps rs) (original : ∀ p ∈ ps, Original p) {key : String}
    (mem : LargePayloadCodec.reference key ∈ rs) : key ∈ puts.map Prod.fst := by
  induction represent with
  | nil => cases mem
  | @cons p r ps rs first represent ih =>
      rcases List.mem_cons.mp mem with rfl | mem
      · rcases first with same | ⟨key', same, stored⟩
        · exact absurd same.symm (reference_ne (original p List.mem_cons_self) key)
        · rw [reference_injective same]
          exact List.mem_map_of_mem stored
      · exact ih (fun p mem => original p (List.mem_cons_of_mem _ mem)) mem

variable {first earlier later : List BlobStep} {codec : LargePayloadCodec} {ps rs : List Payload}

/-- A call that decodes begins. -/
theorem restoringAt_begin (store : ErasableBlobStore σ)
    (represent : List.Forall₂ (Represents P (BlobSystem.after P store start first).shared.puts) ps rs) :
    RestoringAt P (BlobSystem.after P store start (first ++ earlier ++ [.begin (.decode rs)])) ps rs
      (fun key => LargePayloadCodec.reference key ∈ rs ∧ .delete key ∈ earlier)
      (first ++ earlier ++ [.begin (.decode rs)]) [] (BlobSystem.after P store start (first ++ earlier)).calls.length := by
  refine ⟨.decoding [] rs, ?_, ?_⟩
  · rw [blobs_snoc]
    exact getElem?_here _ _ _
  · refine ⟨Nat.le_refl _, ⟨ps, rfl, represent_mono (fun e mem => ?_) represent⟩, fun _ => id, fun key _ => id⟩
    rw [blobs_snoc]
    exact puts_step _ _ (puts_after mem)

theorem restoringAt_after (twelve : ∀ n, (keyDigits P n).length = 12) (sixteen : SixteenHashed P)
    (good : ∀ p ∈ ps, Original p ∧ Parses P p)
    (represent : List.Forall₂ (Represents P (BlobSystem.after P store start first).shared.puts) ps rs)
    (fresh : FreshKeys P (BlobSystem.after P store start
      (first ++ earlier ++ [.begin (.decode rs)] ++ later)).shared.uuids) :
    RestoringAt P (BlobSystem.after P store start (first ++ earlier ++ [.begin (.decode rs)] ++ later)) ps rs
      (fun key => LargePayloadCodec.reference key ∈ rs ∧ .delete key ∈ earlier)
      (first ++ earlier ++ [.begin (.decode rs)] ++ later) later
      (BlobSystem.after P store start (first ++ earlier)).calls.length := by
  induction later using List.reverseRecOn with
  | nil =>
      rw [List.append_nil]
      exact restoringAt_begin store represent
  | append_singleton later step ih =>
      rw [← List.append_assoc] at fresh ⊢
      have before := fresh_front fresh
      rw [blobs_snoc]
      refine restoringAt_step (keyed_after twelve sixteen _ before) good ?_ (ih before) step
      rintro key ⟨mem, deleted⟩
      have put := represent_stored represent (fun p mem => (good p mem).1) mem
      have deleted' : .delete key ∈ earlier ++ ([.begin (.decode rs)] ++ later) := List.mem_append_left _ deleted
      rw [List.append_assoc, List.append_assoc] at before ⊢
      exact gone_after twelve sixteen put deleted' before

/-- **What has been offloaded comes back until it is deleted, and nothing else ever
does**, whatever other calls there are, and however they overlap. -/
theorem offloaded_until_deleted (twelve : ∀ n, (keyDigits P n).length = 12) (sixteen : SixteenHashed P)
    (start : σ) (ended : (.encode codec ps, .encoded rs) ∈ (BlobSystem.after P store start first).calls)
    (good : ∀ p ∈ ps, Original p ∧ Parses P p)
    (fresh : FreshKeys P (BlobSystem.after P store start
      (first ++ earlier ++ [.begin (.decode rs)] ++ later)).shared.uuids) :
    ∃ call, (BlobSystem.after P store start (first ++ earlier ++ [.begin (.decode rs)] ++ later)).calls[
        (BlobSystem.after P store start (first ++ earlier)).calls.length]? = some (.decode rs, call) ∧
      ComesTo ps rs first earlier later (BlobSystem.after P store start (first ++ earlier)).calls.length call := by
  have represent := allEncodeRight_after P store start first codec ps (.encoded rs) ended
  obtain ⟨call, here, restoring⟩ := restoringAt_after twelve sixteen good represent fresh
  exact ⟨call, here, restoring.comesTo⟩

end Histories

section Runs

/-! ## Two calls that overlap, and a blob that is deleted -/

def greetingKey (n : Nat) : String := smallCodec.blobKey shortPlatform n (shortSerialize greeting)

/-- Both calls make their keys before they store their blobs. -/
def overlapping : List BlobStep :=
  [.begin (.encode smallCodec [greeting]), .begin (.encode smallCodec [greeting]), .advance 0, .advance 1,
    .advance 1, .advance 0, .advance 0, .advance 1]

/-- The result of the first call is decoded after the other blob has been deleted. -/
def decodesFirst : List BlobStep :=
  overlapping ++ [.delete (greetingKey 1)] ++ [.begin (.decode [LargePayloadCodec.reference (greetingKey 0)])] ++
    [.advance 2, .advance 2]

def bothStored : CodecState (Dict ByteArray) where
  store := InMemoryBlobStore.put (greetingKey 0) (shortSerialize greeting)
    (InMemoryBlobStore.put (greetingKey 1) (shortSerialize greeting) ∅)
  puts := [(greetingKey 1, shortSerialize greeting), (greetingKey 0, shortSerialize greeting)]
  uuids := 2

def oneDeleted : CodecState (Dict ByteArray) :=
  { bothStored with store := InMemoryBlobStore.delete (greetingKey 1) bothStored.store }

theorem shortPlatform_sixteen : SixteenHashed shortPlatform := by
  intro data
  show ((shortPlatform.sha256 data).take 16).copy.length = 16
  unfold shortPlatform
  dsimp only
  rfl

theorem greetingKeys_differ : greetingKey 0 ≠ greetingKey 1 := by
  intro same
  have digits := shortPlatform_fresh 0 (by omega) 1 (by omega) (blobKey_digits shortPlatform_twelve same)
  omega

theorem advance_greeting (store : BlobStore (Dict ByteArray)) (s : CodecState (Dict ByteArray)) :
    CodecCall.advance shortPlatform store s (.encoding smallCodec [] [greeting]) =
      (.putting smallCodec [] (greetingKey s.uuids) (shortSerialize greeting) [], { s with uuids := s.uuids + 1 }) := by
  have large : smallCodec.sizeThreshold < (shortPlatform.serializeToString greeting).size := by decide
  simp only [CodecCall.advance, large, if_true]
  rfl

theorem overlapping_after : BlobSystem.after shortPlatform inMemoryErasable ∅ overlapping =
    { shared := bothStored
      calls := [(.encode smallCodec [greeting], .encoded [LargePayloadCodec.reference (greetingKey 0)]),
        (.encode smallCodec [greeting], .encoded [LargePayloadCodec.reference (greetingKey 1)])] } := by
  simp only [BlobSystem.after, overlapping, List.foldl_cons, List.foldl_nil, BlobSystem.step, CodecRequest.start,
    List.nil_append, List.cons_append, List.getElem?_cons_zero, List.getElem?_cons_succ, advance_greeting,
    List.set_cons_zero, List.set_cons_succ]
  rfl

theorem fetch_first : LargePayloadCodec.decodePayload shortPlatform inMemoryErasable.toBlobStore
    (LargePayloadCodec.reference (greetingKey 0)) oneDeleted = .ok greeting := by
  have found : inMemoryErasable.get (greetingKey 0) oneDeleted.store = .ok (shortSerialize greeting) := by
    show inMemoryErasable.get (greetingKey 0) (inMemoryErasable.delete (greetingKey 1) bothStored.store) = _
    rw [inMemoryErasable.get_delete_other _ greetingKeys_differ]
    exact inMemoryErasable.get_put _ _ _
  have parsed : shortPlatform.parseFromString (shortSerialize greeting) = some greeting := greeting_original.2
  have named : greetingKey 0 ≠ "" := blobKey_ne 0 _
  simp only [LargePayloadCodec.decodePayload, reference_encoding, if_true, LargePayloadCodec.fetchPayload,
    reference_key, named, if_false, found, bind, Except.bind, parsed]

theorem decodesFirst_drawn :
    (BlobSystem.after shortPlatform inMemoryErasable ∅ decodesFirst).shared.uuids = 2 := by
  have advances : CodecCall.advance shortPlatform inMemoryErasable.toBlobStore oneDeleted
      (.decoding [] [LargePayloadCodec.reference (greetingKey 0)]) = (.decoding [greeting] [], oneDeleted) := by
    simp only [CodecCall.advance, fetch_first]
    rfl
  have decoding : BlobSystem.after shortPlatform inMemoryErasable ∅ (overlapping ++ [.delete (greetingKey 1)] ++
      [.begin (.decode [LargePayloadCodec.reference (greetingKey 0)])]) =
      { shared := oneDeleted
        calls := [(.encode smallCodec [greeting], .encoded [LargePayloadCodec.reference (greetingKey 0)]),
          (.encode smallCodec [greeting], .encoded [LargePayloadCodec.reference (greetingKey 1)]),
          (.decode [LargePayloadCodec.reference (greetingKey 0)],
            .decoding [] [LargePayloadCodec.reference (greetingKey 0)])] } := by
    rw [blobs_snoc, blobs_snoc, overlapping_after]
    rfl
  have split : decodesFirst = overlapping ++ [.delete (greetingKey 1)] ++
      [.begin (.decode [LargePayloadCodec.reference (greetingKey 0)])] ++ [.advance 2] ++ [.advance 2] := rfl
  rw [split, blobs_snoc, blobs_snoc, decoding]
  simp only [BlobSystem.step, List.getElem?_cons_zero, List.getElem?_cons_succ, advances, List.set_cons_zero,
    List.set_cons_succ]
  rfl

/-- **The other blob is not missed.** -/
theorem offloaded_overlapping : (BlobSystem.after shortPlatform inMemoryErasable ∅ decodesFirst).calls[2]? =
    some (.decode [LargePayloadCodec.reference (greetingKey 0)], .decoded [greeting]) := by
  have ended : (.encode smallCodec [greeting], .encoded [LargePayloadCodec.reference (greetingKey 0)]) ∈
      (BlobSystem.after shortPlatform inMemoryErasable ∅ overlapping).calls := by
    rw [overlapping_after]
    exact List.mem_cons_self
  have good : ∀ p ∈ [greeting], Original p ∧ Parses shortPlatform p := by
    intro p mem
    cases List.mem_singleton.mp mem
    exact greeting_original
  have fresh : FreshKeys shortPlatform
      (BlobSystem.after shortPlatform inMemoryErasable ∅ decodesFirst).shared.uuids := by
    rw [decodesFirst_drawn]
    exact shortPlatform_fresh
  have third : (BlobSystem.after shortPlatform inMemoryErasable ∅
      (overlapping ++ [.delete (greetingKey 1)])).calls.length = 2 := by
    rw [blobs_snoc, overlapping_after]
    rfl
  obtain ⟨call, here, comesTo⟩ := offloaded_until_deleted shortPlatform_twelve shortPlatform_sixteen ∅ ended good fresh
  rw [third] at here comesTo
  refine here.trans ?_
  cases comesTo with
  | decoding short => exact absurd short (by decide)
  | decoded kept => rfl
  | @raised key message known deleted =>
      rw [reference_injective (List.mem_singleton.mp known)] at deleted
      simp [overlapping, greetingKeys_differ] at deleted
  | stopped asked => simp at asked

end Runs

end LanggraphTemporal.Properties
