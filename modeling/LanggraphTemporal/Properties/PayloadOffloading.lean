/-
# Properties.PayloadOffloading -- large payloads come back

`LargePayloadCodec` shares one store among all its calls.  No call writes under
the key of another one: keys differ in the digits of a uuid, which stand at the
same place in all of them (`blobKey_digits`).  So whatever has been offloaded is
found at every later moment (`large_lossless`), and every encode call is undone
by a decode call, whichever calls there are in between (`large_round_trip`).
-/
import LanggraphTemporal.Model.Codec

namespace LanggraphTemporal.Properties

set_option autoImplicit false

open Theory Model

variable {σ : Type} {P : Platform} {store : BlobStore σ} {c : LargePayloadCodec}

/-! ## Keys -/

/-- The digits of the `n`-th uuid that keys are made with. -/
def keyDigits (P : Platform) (n : Nat) : String := ((P.uuid4 n).take 12).copy

/-- Of the first `n` uuids, no two give the same digits. -/
def FreshKeys (P : Platform) (n : Nat) : Prop :=
  ∀ i < n, ∀ j < n, keyDigits P i = keyDigits P j → i = j

theorem FreshKeys.mono {m n : Nat} (fresh : FreshKeys P n) (le : m ≤ n) : FreshKeys P m :=
  fun i below j below' => fresh i (Nat.lt_of_lt_of_le below le) j (Nat.lt_of_lt_of_le below' le)

/-- A key determines the digits in it. -/
theorem blobKey_digits (twelve : ∀ n, (keyDigits P n).length = 12) {i j : Nat} {a b : ByteArray}
    (same : c.blobKey P i a = c.blobKey P j b) : keyDigits P i = keyDigits P j := by
  unfold LargePayloadCodec.blobKey at same
  change c.keyPrefix ++ "/" ++ keyDigits P i ++ "-" ++ _ = c.keyPrefix ++ "/" ++ keyDigits P j ++ "-" ++ _ at same
  simp only [String.append_assoc, String.append_right_inj] at same
  have lists := congrArg String.toList same
  simp only [String.toList_append] at lists
  have lengths : (keyDigits P i).toList.length = (keyDigits P j).toList.length := by
    rw [String.length_toList, String.length_toList, twelve, twelve]
  exact String.toList_inj.mp (List.append_inj_left lists lengths)

theorem blobKey_ne (i : Nat) (a : ByteArray) : c.blobKey P i a ≠ "" := by
  intro empty
  have lists := congrArg String.toList empty
  simp [LargePayloadCodec.blobKey] at lists

/-! ## The store in time -/

/-- The states of the store in time: blobs stay under the keys that have been
made, as long as the keys are fresh. -/
def blobTimeline (P : Platform) (store : BlobStore σ) (c : LargePayloadCodec) : Timeline (CodecState σ) where
  Later s t := s.uuids ≤ t.uuids ∧ (FreshKeys P t.uuids → ∀ i < s.uuids, ∀ data,
    store.get (c.blobKey P i data) t.store = store.get (c.blobKey P i data) s.store)
  Live s := FreshKeys P s.uuids
  refl s := ⟨Nat.le_refl _, fun _ _ _ _ => rfl⟩
  trans first second := by
    refine ⟨Nat.le_trans first.1 second.1, fun fresh i below data => ?_⟩
    rw [second.2 fresh i (Nat.lt_of_lt_of_le below first.1) data]
    exact first.2 (fresh.mono second.1) i below data

/-- A new blob leaves the others where they are. -/
theorem offloadPayload_later (twelve : ∀ n, (keyDigits P n).length = 12) (serialized : ByteArray)
    (s : CodecState σ) :
    (blobTimeline P store c).Later s (c.offloadPayload P store serialized s).2 := by
  refine ⟨Nat.le_succ _, fun fresh i below data => store.get_put_other _ _ fun same => ?_⟩
  have last := fresh i (Nat.lt_succ_of_lt below) s.uuids (Nat.lt_succ_self _) (blobKey_digits twelve same)
  exact Nat.ne_of_lt below last

/-! ## One payload -/

/-- The encoding of a payload is text, and does not say that it is a reference. -/
def Original (p : Payload) : Prop :=
  ∃ text, p.metadataText "encoding" = some text ∧ text ≠ LargePayloadCodec.encoding

/-- Parsing undoes the serialisation of a payload. -/
def Parses (P : Platform) (p : Payload) : Prop := P.parseFromString (P.serializeToString p) = some p

theorem reference_encoding (key : String) :
    (LargePayloadCodec.reference key).metadataText "encoding" = some LargePayloadCodec.encoding :=
  decodeUtf8_toUTF8 _

theorem reference_key (key : String) :
    (LargePayloadCodec.reference key).metadataText LargePayloadCodec.metadataBlobKey = some key :=
  decodeUtf8_toUTF8 _

theorem encodePayload_succeeds (p : Payload) (s : CodecState σ) :
    ∃ q t, (c.payloadCodec P store).encode p s = .ok (q, t) := by
  simp only [LargePayloadCodec.payloadCodec, LargePayloadCodec.encodePayload]
  split
  · exact ⟨_, _, rfl⟩
  · exact ⟨_, _, rfl⟩

theorem encode_succeeds (P : Platform) (store : BlobStore σ) (c : LargePayloadCodec)
    (payloads : List Payload) (s : CodecState σ) :
    ∃ result t, (c.codec P store).encode payloads s = .ok (result, t) := by
  have each (p : Payload) (s : CodecState σ) (_ : True) :
      ∃ q t, (c.payloadCodec P store).encode p s = .ok (q, t) := encodePayload_succeeds p s
  exact Codec.encodeEach_succeeds each payloads s fun _ _ => trivial

/-- **What has been offloaded is found at every later moment.** -/
theorem large_lossless (P : Platform) (store : BlobStore σ) (c : LargePayloadCodec)
    (twelve : ∀ n, (keyDigits P n).length = 12) :
    Lossless (blobTimeline P store c) (fun p => Original p ∧ Parses P p) (c.payloadCodec P store) where
  moves {p s q t} encoded := by
    simp only [LargePayloadCodec.payloadCodec, LargePayloadCodec.encodePayload] at encoded
    split at encoded
    · cases encoded
      exact offloadPayload_later twelve _ s
    · cases encoded
      exact (blobTimeline P store c).refl s
  encodes p s _ := encodePayload_succeeds p s
  decodes {p s q t u} good encoded later live := by
    obtain ⟨⟨text, encoding, differs⟩, parses⟩ := good
    simp only [LargePayloadCodec.payloadCodec, LargePayloadCodec.encodePayload] at encoded
    split at encoded
    · cases encoded
      have found : store.get (c.blobKey P s.uuids (P.serializeToString p)) u.store =
          .ok (P.serializeToString p) := by
        rw [later.2 live s.uuids (Nat.lt_succ_self _)]
        exact store.get_put _ _ _
      have parsed : P.parseFromString (P.serializeToString p) = some p := parses
      simp only [LargePayloadCodec.payloadCodec, LargePayloadCodec.decodePayload, reference_encoding, if_true,
        LargePayloadCodec.fetchPayload, reference_key, blobKey_ne, if_false, found, bind, Except.bind, parsed]
    · cases encoded
      simp only [LargePayloadCodec.payloadCodec, LargePayloadCodec.decodePayload, encoding, differs, if_false]

/-! ## Calls -/

/-- A sequence of encode calls, each with its payloads and its result, and the
state after them. -/
inductive EncodeCalls (P : Platform) (store : BlobStore σ) (c : LargePayloadCodec) (start : CodecState σ) :
    List (List Payload × List Payload) → CodecState σ → Prop
  | nil : EncodeCalls P store c start [] start
  | snoc {calls : List (List Payload × List Payload)} {s t : CodecState σ} {payloads result : List Payload}
      (earlier : EncodeCalls P store c start calls s)
      (encoded : (c.codec P store).encode payloads s = .ok (result, t)) :
      EncodeCalls P store c start (calls ++ [(payloads, result)]) t

/-- Every result has been made at some moment. -/
theorem EncodeCalls.made (twelve : ∀ n, (keyDigits P n).length = 12) {start s : CodecState σ}
    {calls : List (List Payload × List Payload)} (run : EncodeCalls P store c start calls s) :
    ∀ call ∈ calls, ∃ before after, (c.codec P store).encode call.1 before = .ok (call.2, after) ∧
      (blobTimeline P store c).Later after s := by
  have lossless := (large_lossless P store c twelve).each
  induction run with
  | nil => simp
  | @snoc calls s t payloads result earlier encoded ih =>
      intro call mem
      rcases List.mem_append.mp mem with mem | mem
      · obtain ⟨before, after, made, later⟩ := ih call mem
        exact ⟨before, after, made, (blobTimeline P store c).trans later (lossless.moves encoded)⟩
      · cases List.mem_singleton.mp mem
        exact ⟨s, t, encoded, (blobTimeline P store c).refl t⟩

/-- **At every moment, every result so far decodes to the payloads of its call;
a further call can be made, and does not change that.** -/
theorem large_round_trip (P : Platform) (store : BlobStore σ) (c : LargePayloadCodec)
    (twelve : ∀ n, (keyDigits P n).length = 12) {start s : CodecState σ}
    {calls : List (List Payload × List Payload)} (run : EncodeCalls P store c start calls s)
    (fresh : FreshKeys P s.uuids) :
    (∀ call ∈ calls, (∀ p ∈ call.1, Original p ∧ Parses P p) →
        (c.codec P store).decode call.2 s = .ok call.1) ∧
      ∀ payloads, ∃ result t, (c.codec P store).encode payloads s = .ok (result, t) ∧
        (FreshKeys P t.uuids → ∀ call ∈ calls, (∀ p ∈ call.1, Original p ∧ Parses P p) →
          (c.codec P store).decode call.2 t = (c.codec P store).decode call.2 s) := by
  have lossless := (large_lossless P store c twelve).each
  have decoded {calls : List (List Payload × List Payload)} {s : CodecState σ}
      (run : EncodeCalls P store c start calls s) (fresh : FreshKeys P s.uuids)
      (call : List Payload × List Payload) (mem : call ∈ calls)
      (good : ∀ p ∈ call.1, Original p ∧ Parses P p) : (c.codec P store).decode call.2 s = .ok call.1 := by
    obtain ⟨before, after, made, later⟩ := run.made twelve call mem
    exact lossless.decodes good made later fresh
  refine ⟨decoded run fresh, fun payloads => ?_⟩
  obtain ⟨result, t, encoded⟩ := encode_succeeds P store c payloads s
  refine ⟨result, t, encoded, fun fresh' call mem good => ?_⟩
  rw [decoded (run.snoc encoded) fresh' call (List.mem_append_left _ mem) good, decoded run fresh call mem good]

section Runs

/-! ## Short payloads -/

/-- The length of a field, below 2^14. -/
def wireLength (n : Nat) : List UInt8 :=
  if n < 128 then [n.toUInt8] else [(n % 128 + 128).toUInt8, (n / 128).toUInt8]

def readLength : List UInt8 → Option (Nat × List UInt8)
  | [] => none
  | low :: rest =>
      if low < 128 then some (low.toNat, rest)
      else
        match rest with
        | [] => none
        | high :: rest => some (low.toNat - 128 + 128 * high.toNat, rest)

/-- A field of the wire format. -/
def wireField (tag : UInt8) (bytes : List UInt8) : List UInt8 := tag :: (wireLength bytes.length ++ bytes)

/-- The wire format of a payload with short fields. -/
def shortSerialize (p : Payload) : ByteArray :=
  ⟨(p.metadata.entries.flatMap fun e =>
      wireField 10 (wireField 10 e.1.toUTF8.data.toList ++ wireField 18 e.2.data.toList)) ++
    (if p.data.size = 0 then [] else wireField 18 p.data.data.toList) |>.toArray⟩

def wireFields : Nat → List UInt8 → Option (List (UInt8 × List UInt8))
  | _, [] => some []
  | 0, _ => none
  | fuel + 1, tag :: bytes => do
      let (length, rest) ← readLength bytes
      let fields ← wireFields fuel (rest.drop length)
      return (tag, rest.take length) :: fields

/-- A field of a payload: an entry of its metadata, or its data. -/
def shortField (p : Payload) (f : UInt8 × List UInt8) : Option Payload :=
  if f.1 = 10 then do
    let entry ← wireFields f.2.length f.2
    let key ← decodeUtf8 ⟨((entry.lookup 10).getD []).toArray⟩
    return { p with metadata := p.metadata.set key ⟨((entry.lookup 18).getD []).toArray⟩ }
  else if f.1 = 18 then some { p with data := ⟨f.2.toArray⟩ }
  else none

def shortParse (bytes : ByteArray) : Option Payload := do
  let fields ← wireFields bytes.size bytes.data.toList
  fields.foldlM shortField ⟨∅, ByteArray.empty⟩

/-- A string, as the JSON converter encodes it. -/
def greeting : Payload where
  metadata := Dict.ofList [("encoding", "json/plain".toUTF8)]
  data := "\"hello\"".toUTF8

/-- The digest of its bytes, and two uuids. -/
def shortPlatform : Platform where
  serializeToString := shortSerialize
  parseFromString := shortParse
  sha256 _ := "1b8435174847de88db3a8c5a764295d62add152743b3a9a730796a4c090caf8c"
  uuid4 n := if n = 0 then "0f3c9a4be1d24c7f8a5b6c7d8e9fa0b1" else "7d21e6058c394f1ab2c3d4e5f6a7b8c9"
  urandom _ := ⟨#[1, 2, 3, 4, 5, 6, 7, 8, 9, 10, 11, 12]⟩

theorem shortPlatform_twelve (n : Nat) : (keyDigits shortPlatform n).length = 12 := by
  unfold keyDigits shortPlatform
  dsimp only
  split
  · rfl
  · rfl

theorem shortPlatform_fresh : FreshKeys shortPlatform 2 := by
  unfold FreshKeys
  decide

theorem greeting_original : Original greeting ∧ Parses shortPlatform greeting :=
  ⟨⟨"json/plain", rfl, by decide⟩, rfl⟩

/-! ## Two calls that offload it -/

def smallCodec : LargePayloadCodec := { sizeThreshold := 16 }

def greetingCodec : Codec (CodecState (Dict ByteArray)) CodecError (List Payload) (List Payload) :=
  smallCodec.codec shortPlatform inMemoryBlobStore

/-- One more call, from this state. -/
def offloadGreeting (s : CodecState (Dict ByteArray)) : Payload × CodecState (Dict ByteArray) :=
  smallCodec.offloadPayload shortPlatform inMemoryBlobStore (shortSerialize greeting) s

theorem encode_greeting (s : CodecState (Dict ByteArray)) :
    greetingCodec.encode [greeting] s = .ok ([(offloadGreeting s).1], (offloadGreeting s).2) := by
  have large : smallCodec.sizeThreshold < (shortPlatform.serializeToString greeting).size := by decide
  simp only [greetingCodec, LargePayloadCodec.codec, Codec.each, Codec.encodeEach,
    LargePayloadCodec.payloadCodec, LargePayloadCodec.encodePayload, large, if_true]
  rfl

def firstGreeting : Payload × CodecState (Dict ByteArray) := offloadGreeting { store := ∅ }

def secondGreeting : Payload × CodecState (Dict ByteArray) := offloadGreeting firstGreeting.2

theorem greeting_round_trip : greetingCodec.decode [firstGreeting.1] secondGreeting.2 = .ok [greeting] := by
  have run : EncodeCalls shortPlatform inMemoryBlobStore smallCodec { store := ∅ }
      [([greeting], [firstGreeting.1]), ([greeting], [secondGreeting.1])] secondGreeting.2 :=
    .snoc (.snoc .nil (encode_greeting _)) (encode_greeting _)
  have fresh : FreshKeys shortPlatform secondGreeting.2.uuids := shortPlatform_fresh
  have originals : ∀ p ∈ [greeting], Original p ∧ Parses shortPlatform p := by
    intro p mem
    cases List.mem_singleton.mp mem
    exact greeting_original
  exact (large_round_trip shortPlatform inMemoryBlobStore smallCodec shortPlatform_twelve run fresh).1
    ([greeting], [firstGreeting.1]) List.mem_cons_self originals

end Runs

end LanggraphTemporal.Properties
