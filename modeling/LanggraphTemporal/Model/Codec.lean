/-
# Model.Codec -- offloading large payloads

`_codec.py`: the blob store and `LargePayloadCodec`.  Protobuf, `hashlib`, `uuid`
and `os.urandom` are taken from outside (`Platform`); the random values are
streams, of which the state counts the ones that have been drawn.
-/
import LanggraphTemporal.Theory.Codec
import LanggraphTemporal.Theory.Dict

namespace LanggraphTemporal.Model

set_option autoImplicit false

open Theory

/-! ## Payloads -/

/-- `temporalio.api.common.v1.Payload` -/
@[ext]
structure Payload where
  metadata : Dict ByteArray
  data : ByteArray

instance : DecidableEq Payload := fun p q =>
  let _ : DecidableEq ByteArray := ByteArray.decEq
  decidable_of_iff (p.metadata = q.metadata ∧ p.data = q.data) Payload.ext_iff.symm

/-- `bytes.decode()`; `none` for a `UnicodeDecodeError` -/
def decodeUtf8 (bytes : ByteArray) : Option String := String.fromUTF8? bytes

theorem decodeUtf8_toUTF8 (s : String) : decodeUtf8 s.toUTF8 = some s := dif_pos s.isValidUTF8

/-- `payload.metadata.get(key, b"").decode()` -/
def Payload.metadataText (p : Payload) (key : String) : Option String :=
  decodeUtf8 (p.metadata.getD key ByteArray.empty)

/-- What a codec may raise. -/
inductive CodecError where
  | unicodeDecodeError
  | keyError (message : String)
  /-- Protobuf cannot parse the bytes. -/
  | decodeError
  | valueError (message : String)
  /-- The bytes have not been encrypted with this key. -/
  | invalidToken
  deriving DecidableEq

/-- What the codecs use of other packages. -/
structure Platform where
  serializeToString : Payload → ByteArray
  parseFromString : ByteArray → Option Payload
  /-- `hashlib.sha256(data).hexdigest()` -/
  sha256 : ByteArray → String
  /-- The `hex` of the random uuids. -/
  uuid4 : Nat → String
  /-- The results of `os.urandom(12)`. -/
  urandom : Nat → ByteArray

/-! ## Blob stores -/

/-- `BlobStore`, with what it promises: a blob is found under its key. -/
structure BlobStore (σ : Type) where
  put : String → ByteArray → σ → σ
  get : String → σ → Except CodecError ByteArray
  get_put : ∀ key data s, get key (put key data s) = .ok data
  get_put_other : ∀ {key other : String} (data : ByteArray) (s : σ), other ≠ key →
    get other (put key data s) = get other s

namespace InMemoryBlobStore

def put (key : String) (data : ByteArray) (store : Dict ByteArray) : Dict ByteArray := store.set key data

def get (key : String) (store : Dict ByteArray) : Except CodecError ByteArray :=
  match store.get? key with
  | some data => .ok data
  | none => .error (.keyError ("Blob not found: " ++ key))

end InMemoryBlobStore

def inMemoryBlobStore : BlobStore (Dict ByteArray) where
  put := InMemoryBlobStore.put
  get := InMemoryBlobStore.get
  get_put key data s := by simp [InMemoryBlobStore.get, InMemoryBlobStore.put]
  get_put_other {key other} data s differ := by
    simp [InMemoryBlobStore.get, InMemoryBlobStore.put, Dict.get?_set, differ]

/-- The state that codecs share. -/
structure CodecState (σ : Type) where
  store : σ
  /-- What has been put in the store, in order. -/
  puts : List (String × ByteArray) := []
  /-- The numbers of uuids and of nonces that have been drawn. -/
  uuids : Nat := 0
  nonces : Nat := 0

/-! ## `LargePayloadCodec` -/

structure LargePayloadCodec where
  sizeThreshold : Int := 2 * 1024 * 1024
  keyPrefix : String := "langgraph-temporal"

namespace LargePayloadCodec

/-- `ENCODING` -/
def encoding : String := "binary/blob-ref"

/-- `METADATA_BLOB_KEY` -/
def metadataBlobKey : String := "blob-key"

variable {σ : Type} (P : Platform) (store : BlobStore σ) (c : LargePayloadCodec)

/-- The key of a blob, with the digits of the `n`-th uuid. -/
def blobKey (n : Nat) (serialized : ByteArray) : String :=
  c.keyPrefix ++ "/" ++ ((P.uuid4 n).take 12).copy ++ "-" ++ ((P.sha256 serialized).take 16).copy

/-- A reference to the blob under this key. -/
def reference (key : String) : Payload where
  metadata := Dict.ofList [("encoding", encoding.toUTF8), (metadataBlobKey, key.toUTF8)]
  data := ByteArray.empty

/-- `_offload_payload` -/
def offloadPayload (serialized : ByteArray) (s : CodecState σ) : Payload × CodecState σ :=
  let key := c.blobKey P s.uuids serialized
  (reference key,
    { s with
      store := store.put key serialized s.store
      puts := s.puts ++ [(key, serialized)]
      uuids := s.uuids + 1 })

/-- `_fetch_payload` -/
def fetchPayload (p : Payload) (s : CodecState σ) : Except CodecError Payload :=
  match p.metadataText metadataBlobKey with
  | none => .error .unicodeDecodeError
  | some key =>
      if key = "" then .ok p
      else do
        let data ← store.get key s.store
        match P.parseFromString data with
        | some result => .ok result
        | none => .error .decodeError

/-- The body of the loop of `encode`. -/
def encodePayload (p : Payload) (s : CodecState σ) : Except CodecError (Payload × CodecState σ) :=
  let serialized := P.serializeToString p
  if c.sizeThreshold < serialized.size then .ok (c.offloadPayload P store serialized s) else .ok (p, s)

/-- The body of the loop of `decode`. -/
def decodePayload (p : Payload) (s : CodecState σ) : Except CodecError Payload :=
  match p.metadataText "encoding" with
  | none => .error .unicodeDecodeError
  | some text => if text = encoding then fetchPayload P store p s else .ok p

def payloadCodec : Codec (CodecState σ) CodecError Payload Payload where
  encode := c.encodePayload P store
  decode := decodePayload P store

/-- `encode` and `decode` -/
def codec : Codec (CodecState σ) CodecError (List Payload) (List Payload) := (c.payloadCodec P store).each

end LargePayloadCodec

end LanggraphTemporal.Model
