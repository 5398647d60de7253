/-
# Model.Encryption -- encrypted payloads

The two codecs of `encryption.py`.  They differ in how they lock the bytes of a
payload; the rest of `_encrypt_payload` and `_decrypt_payload` is the same code
(`Locking`).  The `cryptography` package is taken from outside, and is installed.
-/
import LanggraphTemporal.Model.Codec
import LanggraphTemporal.Theory.Hex

namespace LanggraphTemporal.Model

set_option autoImplicit false

open Theory

/-- `Fernet(key)`; the numbers stand for what its calls draw. -/
structure Fernet where
  encrypt : Nat → ByteArray → ByteArray
  decrypt : ByteArray → Option ByteArray

/-- What the codecs use of `cryptography`. -/
structure Cryptography where
  /-- `AESGCM(key).encrypt(nonce, plaintext, None)` -/
  aesgcmEncrypt : ByteArray → ByteArray → ByteArray → ByteArray
  aesgcmDecrypt : ByteArray → ByteArray → ByteArray → Option ByteArray
  /-- `none` for what is no Fernet key. -/
  fernet : ByteArray → Option Fernet

/-! ## Payloads in payloads -/

/-- How a codec locks bytes, and marks the payloads that it has locked. -/
structure Locking where
  encoding : String
  metadata : Dict ByteArray
  lock : Nat → ByteArray → Except CodecError ByteArray
  unlock : ByteArray → Except CodecError ByteArray
  marked : decodeUtf8 (metadata.getD "encoding" ByteArray.empty) = some encoding

namespace Locking

variable {σ : Type} (P : Platform) (k : Locking)

/-- `_encrypt_payload` -/
def encryptPayload (p : Payload) (s : CodecState σ) : Except CodecError (Payload × CodecState σ) := do
  let data ← k.lock s.nonces (P.serializeToString p)
  return ({ metadata := k.metadata, data }, { s with nonces := s.nonces + 1 })

/-- `_decrypt_payload` -/
def decryptPayload (p : Payload) : Except CodecError Payload :=
  match p.metadataText "encoding" with
  | none => .error .unicodeDecodeError
  | some text =>
      if text ≠ k.encoding then .ok p
      else do
        let plaintext ← k.unlock p.data
        match P.parseFromString plaintext with
        | some result => .ok result
        | none => .error .decodeError

def payloadCodec : Codec (CodecState σ) CodecError Payload Payload where
  encode := k.encryptPayload P
  decode p _ := k.decryptPayload P p

/-- `encode` and `decode` -/
def codec : Codec (CodecState σ) CodecError (List Payload) (List Payload) := (k.payloadCodec P).each

end Locking

/-! ## `EncryptionCodec` -/

/-- A codec with a key of 32 bytes. -/
structure EncryptionCodec where
  key : ByteArray
  size : key.size = 32
  keyId : String := "default"

namespace EncryptionCodec

/-- `ENCODING` -/
def encoding : String := "binary/encrypted"

/-- `METADATA_KEY` -/
def metadataKey : String := "encryption-key-id"

/-- The key that `__init__` takes: its argument, or that of the environment. -/
def chooseKey (environment : Option String) (key : Option ByteArray) : Except CodecError ByteArray :=
  match key, environment with
  | some key, _ => .ok key
  | none, some digits =>
      match fromHex digits with
      | some bytes => .ok bytes
      | none => .error (.valueError "non-hexadecimal number found in fromhex() arg")
  | none, none =>
      .error (.valueError ("Encryption key required. Provide `key` parameter or set " ++
        "LANGGRAPH_TEMPORAL_ENCRYPTION_KEY environment variable (hex-encoded 32-byte key)."))

/-- `__init__`; `environment` is the value of `LANGGRAPH_TEMPORAL_ENCRYPTION_KEY`. -/
def init (environment : Option String) (key : Option ByteArray) (keyId : String) :
    Except CodecError EncryptionCodec := do
  let key ← chooseKey environment key
  if size : key.size = 32 then return { key, size, keyId }
  else .error (.valueError ("Encryption key must be exactly 32 bytes (got " ++ toString key.size ++
    "). Use `os.urandom(32)` to generate a suitable key."))

/-- The nonce stands before the ciphertext. -/
def locking (P : Platform) (C : Cryptography) (c : EncryptionCodec) : Locking where
  encoding := encoding
  metadata := Dict.ofList [("encoding", encoding.toUTF8), (metadataKey, c.keyId.toUTF8)]
  lock n plaintext :=
    let nonce := P.urandom n
    .ok (nonce ++ C.aesgcmEncrypt c.key nonce plaintext)
  unlock data :=
    let nonce := data.extract 0 12
    let ciphertext := data.extract 12 data.size
    match C.aesgcmDecrypt c.key nonce ciphertext with
    | some plaintext => .ok plaintext
    | none => .error .invalidToken
  marked := decodeUtf8_toUTF8 _

/-- It is built with every key of 32 bytes, and with no other. -/
theorem init_iff {environment : Option String} {key : Option ByteArray} {keyId : String} :
    (∃ c, init environment key keyId = .ok c) ↔
      ∃ chosen, chooseKey environment key = .ok chosen ∧ chosen.size = 32 := by
  unfold init
  cases chosen : chooseKey environment key with
  | error e => simp [bind, Except.bind]
  | ok key =>
      simp only [bind, Except.bind, pure, Except.pure, Except.ok.injEq, exists_eq_left']
      by_cases size : key.size = 32
      · simp [size]
      · simp [size]

end EncryptionCodec

/-! ## `FernetEncryptionCodec` -/

structure FernetEncryptionCodec where
  key : ByteArray

namespace FernetEncryptionCodec

/-- `ENCODING` -/
def encoding : String := "binary/fernet-encrypted"

def locking (C : Cryptography) (c : FernetEncryptionCodec) : Locking where
  encoding := encoding
  metadata := Dict.ofList [("encoding", encoding.toUTF8)]
  lock n plaintext :=
    match C.fernet c.key with
    | some f => .ok (f.encrypt n plaintext)
    | none => .error (.valueError "Fernet key must be 32 url-safe base64-encoded bytes.")
  unlock data :=
    match C.fernet c.key with
    | some f =>
        match f.decrypt data with
        | some plaintext => .ok plaintext
        | none => .error .invalidToken
    | none => .error (.valueError "Fernet key must be 32 url-safe base64-encoded bytes.")
  marked := decodeUtf8_toUTF8 _

end FernetEncryptionCodec

end LanggraphTemporal.Model
