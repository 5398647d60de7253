/-
# Properties.PayloadEncryption -- encrypted payloads come back

Every payload is encrypted, also one that is encrypted already or is a reference,
and its mark is put on the outside; so decryption undoes encryption, whatever the
marks inside (`locking_lossless`).  A payload that has been encrypted is no
reference, so it survives `LargePayloadCodec` too (`chain_lossless`), which puts
nothing else in its store (`encryption_lossless`).
-/
import LanggraphTemporal.Model.Encryption
import LanggraphTemporal.Properties.PayloadOffloading

namespace LanggraphTemporal.Properties

set_option autoImplicit false

open Theory Model

variable {σ : Type} {P : Platform} {store : BlobStore σ} {large : LargePayloadCodec} {k : Locking}

/-! ## Encryption -/

/-- The codec undoes what it does to these bytes. -/
def Unlocks (k : Locking) (bytes : ByteArray) : Prop :=
  ∀ n, ∃ data, k.lock n bytes = .ok data ∧ k.unlock data = .ok bytes

/-- `e` is `p`, encrypted. -/
def Encrypts (P : Platform) (k : Locking) (p e : Payload) : Prop :=
  ∃ n data, k.lock n (P.serializeToString p) = .ok data ∧ e = { metadata := k.metadata, data }

theorem encryptPayload_ok {p e : Payload} {s t : CodecState σ}
    (encrypted : k.encryptPayload P p s = .ok (e, t)) :
    Encrypts P k p e ∧ t = { s with nonces := s.nonces + 1 } := by
  simp only [Locking.encryptPayload, bind, Except.bind, pure, Except.pure] at encrypted
  split at encrypted
  · cases encrypted
  · rename_i data locked
    cases encrypted
    exact ⟨⟨s.nonces, data, locked, rfl⟩, rfl⟩

/-- **Encryption is lossless on all payloads**, on every timeline on which nonces
are drawn. -/
theorem locking_lossless (P : Platform) (k : Locking) (T : Timeline (CodecState σ))
    (draws : ∀ s : CodecState σ, T.Later s { s with nonces := s.nonces + 1 }) :
    Lossless T (fun p => Parses P p ∧ Unlocks k (P.serializeToString p)) (k.payloadCodec P) where
  moves {p s e t} encrypted := by
    obtain ⟨-, rfl⟩ := encryptPayload_ok encrypted
    exact draws s
  encodes p s good := by
    obtain ⟨data, locked, -⟩ := good.2 s.nonces
    exact ⟨{ metadata := k.metadata, data }, { s with nonces := s.nonces + 1 }, by
      simp only [Locking.payloadCodec, Locking.encryptPayload, locked, bind, Except.bind, pure, Except.pure]⟩
  decodes {p s e t u} good encrypted _ _ := by
    obtain ⟨⟨n, data, locked, rfl⟩, -⟩ := encryptPayload_ok encrypted
    obtain ⟨data', again, unlocked⟩ := good.2 n
    rw [locked] at again
    cases again
    have marked : Payload.metadataText { metadata := k.metadata, data } "encoding" = some k.encoding := k.marked
    have parsed : P.parseFromString (P.serializeToString p) = some p := good.1
    simp only [Locking.payloadCodec, Locking.decryptPayload, marked, ne_eq, not_true_eq_false, if_false, unlocked,
      bind, Except.bind, parsed]

/-! ## Encryption, then offloading -/

/-- What is asked of a payload that is encrypted, and then offloaded. -/
def Chainable (P : Platform) (k : Locking) (p : Payload) : Prop :=
  (Parses P p ∧ Unlocks k (P.serializeToString p)) ∧ ∀ e, Encrypts P k p e → Parses P e

/-- An encrypted payload can be told from a reference. -/
theorem encrypted_original {p e : Payload} (encrypts : Encrypts P k p e)
    (differs : k.encoding ≠ LargePayloadCodec.encoding) : Original e := by
  obtain ⟨n, data, -, rfl⟩ := encrypts
  exact ⟨k.encoding, k.marked, differs⟩

theorem chain_lossless (P : Platform) (store : BlobStore σ) (large : LargePayloadCodec) (k : Locking)
    (twelve : ∀ n, (keyDigits P n).length = 12) (differs : k.encoding ≠ LargePayloadCodec.encoding) :
    Lossless (blobTimeline P store large) (fun payloads => ∀ p ∈ payloads, Chainable P k p)
      ((k.codec P).comp (large.codec P store)) := by
  have draws (s : CodecState σ) : (blobTimeline P store large).Later s { s with nonces := s.nonces + 1 } :=
    ⟨Nat.le_refl _, fun _ _ _ _ => rfl⟩
  have first := (locking_lossless P k (blobTimeline P store large) draws).each
  have weaker : Lossless (blobTimeline P store large) (fun payloads => ∀ p ∈ payloads, Chainable P k p)
      (k.codec P) :=
    { moves := first.moves
      encodes := fun payloads s good => first.encodes payloads s fun p mem => (good p mem).1
      decodes := fun good => first.decodes fun p mem => (good p mem).1 }
  refine weaker.comp (large_lossless P store large twelve).each fun {payloads s encrypted t} good encoded => ?_
  intro e mem
  obtain ⟨p, source, s', t', made⟩ := Codec.mem_encodeEach encoded mem
  have encrypts : Encrypts P k p e := (encryptPayload_ok made).1
  exact ⟨encrypted_original encrypts differs, (good p source).2 e encrypts⟩

/-! ### What is put in the store -/

/-- Since `s`, nothing but serialisations of such payloads has been put in the
store. -/
def PutsOnly (P : Platform) (Such : Payload → Prop) (s t : CodecState σ) : Prop :=
  ∃ puts, t.puts = s.puts ++ puts ∧ ∀ put ∈ puts, ∃ p, Such p ∧ put.2 = P.serializeToString p

theorem PutsOnly.imp {Such Others : Payload → Prop} {s t : CodecState σ} (only : PutsOnly P Such s t)
    (wider : ∀ p, Such p → Others p) : PutsOnly P Others s t := by
  obtain ⟨puts, grown, each⟩ := only
  refine ⟨puts, grown, fun put mem => ?_⟩
  obtain ⟨p, such, same⟩ := each put mem
  exact ⟨p, wider p such, same⟩

theorem PutsOnly.trans {Such : Payload → Prop} {s t u : CodecState σ} (before : PutsOnly P Such s t)
    (after : PutsOnly P Such t u) : PutsOnly P Such s u := by
  obtain ⟨puts, grown, each⟩ := before
  obtain ⟨puts', grown', each'⟩ := after
  refine ⟨puts ++ puts', by rw [grown', grown, List.append_assoc], fun put mem => ?_⟩
  rcases List.mem_append.mp mem with mem | mem
  · exact each put mem
  · exact each' put mem

theorem large_putsOnly : ∀ {payloads result : List Payload} {s t : CodecState σ},
    (large.codec P store).encode payloads s = .ok (result, t) → PutsOnly P (· ∈ payloads) s t
  | [], _, s, _, encoded => by
      cases encoded
      exact ⟨[], (List.append_nil _).symm, by simp⟩
  | p :: ps, _, s, _, encoded => by
      obtain ⟨q, u, rest, first, later, -⟩ := Codec.encodeEach_cons.mp encoded
      have here : PutsOnly P (· ∈ p :: ps) s u := by
        simp only [LargePayloadCodec.payloadCodec, LargePayloadCodec.encodePayload] at first
        split at first
        · cases first
          exact ⟨[_], rfl, by simp⟩
        · cases first
          exact ⟨[], (List.append_nil _).symm, by simp⟩
      exact here.trans ((large_putsOnly later).imp fun q mem => List.mem_cons_of_mem p mem)

/-- Encryption puts nothing in the store. -/
theorem locking_puts : ∀ {payloads encrypted : List Payload} {s t : CodecState σ},
    (k.codec P).encode payloads s = .ok (encrypted, t) → t.puts = s.puts
  | [], _, _, _, encoded => by
      cases encoded
      rfl
  | p :: ps, _, s, _, encoded => by
      obtain ⟨e, u, rest, first, later, -⟩ := Codec.encodeEach_cons.mp encoded
      obtain ⟨-, rfl⟩ := encryptPayload_ok first
      exact locking_puts (s := { s with nonces := s.nonces + 1 }) later

/-- Each payload is encrypted, in its place. -/
theorem locking_encrypts : ∀ {payloads encrypted : List Payload} {s t : CodecState σ},
    (k.codec P).encode payloads s = .ok (encrypted, t) → List.Forall₂ (Encrypts P k) payloads encrypted
  | [], _, _, _, encoded => by
      cases encoded
      exact .nil
  | p :: ps, _, s, _, encoded => by
      obtain ⟨e, u, rest, first, later, rfl⟩ := Codec.encodeEach_cons.mp encoded
      exact .cons (encryptPayload_ok first).1 (locking_encrypts later)

/-! ## Both codecs -/

/-- `e` is `p` under AES-256-GCM, behind a nonce that has been drawn. -/
def AesEncrypted (P : Platform) (C : Cryptography) (aes : EncryptionCodec) (p e : Payload) : Prop :=
  ∃ n, e =
    { metadata := Dict.ofList [("encoding", "binary/encrypted".toUTF8), ("encryption-key-id", aes.keyId.toUTF8)]
      data := P.urandom n ++ C.aesgcmEncrypt aes.key (P.urandom n) (P.serializeToString p) }

/-- `e` is a Fernet token of `p`. -/
def FernetEncrypted (P : Platform) (C : Cryptography) (fernet : FernetEncryptionCodec) (p e : Payload) : Prop :=
  ∃ f n, C.fernet fernet.key = some f ∧ e =
    { metadata := Dict.ofList [("encoding", "binary/fernet-encrypted".toUTF8)]
      data := f.encrypt n (P.serializeToString p) }

/-- Each payload is encrypted, which decryption undoes, and the chain with
`LargePayloadCodec` is undone in the opposite order, when its keys are fresh.  Only
payloads that have been encrypted get into the store. -/
def EncryptsLosslessly (P : Platform) (store : BlobStore σ) (large : LargePayloadCodec) (k : Locking)
    (Encrypted : Payload → Payload → Prop) (payloads : List Payload) (s : CodecState σ) : Prop :=
  ∃ encrypted t, (k.codec P).encode payloads s = .ok (encrypted, t) ∧
    List.Forall₂ Encrypted payloads encrypted ∧ (k.codec P).decode encrypted t = .ok payloads ∧
      ∃ stored u, ((k.codec P).comp (large.codec P store)).encode payloads s = .ok (stored, u) ∧
        (FreshKeys P u.uuids → ((k.codec P).comp (large.codec P store)).decode stored u = .ok payloads) ∧
          PutsOnly P (fun e => ∃ p ∈ payloads, Encrypted p e) s u

theorem encryptsLosslessly (P : Platform) (store : BlobStore σ) (large : LargePayloadCodec) (k : Locking)
    {Encrypted : Payload → Payload → Prop} (encrypts : ∀ p e, Encrypts P k p e → Encrypted p e)
    (twelve : ∀ n, (keyDigits P n).length = 12) (differs : k.encoding ≠ LargePayloadCodec.encoding)
    {payloads : List Payload} (good : ∀ p ∈ payloads, Chainable P k p) (s : CodecState σ) :
    EncryptsLosslessly P store large k Encrypted payloads s := by
  have chain := chain_lossless P store large k twelve differs
  have alone := (locking_lossless P k (σ := σ) ⟨fun _ _ => True, fun _ => True, fun _ => trivial,
    fun _ _ => trivial⟩ fun _ => trivial).each
  obtain ⟨stored, u, encoded⟩ := chain.encodes payloads s good
  obtain ⟨encrypted, t, first, second⟩ := Codec.encode_comp.mp encoded
  have each : List.Forall₂ Encrypted payloads encrypted := (locking_encrypts first).imp encrypts
  refine ⟨encrypted, t, first, each, ?_, stored, u, encoded, fun fresh => ?_, ?_⟩
  · exact alone.decodes (fun p mem => (good p mem).1) first trivial trivial
  · exact chain.decodes good encoded ((blobTimeline P store large).refl u) fresh
  · have only : PutsOnly P (fun e => ∃ p ∈ payloads, Encrypted p e) t u := by
      refine (large_putsOnly second).imp fun e mem => ?_
      obtain ⟨p, source, s', t', made⟩ := Codec.mem_encodeEach first mem
      exact ⟨p, source, encrypts p e (encryptPayload_ok made).1⟩
    obtain ⟨puts, grown, such⟩ := only
    exact ⟨puts, by rw [grown, locking_puts first], such⟩

theorem encrypted_ne : EncryptionCodec.encoding ≠ LargePayloadCodec.encoding := by decide

theorem fernetEncrypted_ne : FernetEncryptionCodec.encoding ≠ LargePayloadCodec.encoding := by decide

theorem aesEncrypted_of_encrypts {C : Cryptography} {aes : EncryptionCodec} (p e : Payload)
    (encrypts : Encrypts P (aes.locking P C) p e) : AesEncrypted P C aes p e := by
  obtain ⟨n, data, locked, rfl⟩ := encrypts
  cases locked
  exact ⟨n, rfl⟩

theorem fernetEncrypted_of_encrypts {C : Cryptography} {fernet : FernetEncryptionCodec} (p e : Payload)
    (encrypts : Encrypts P (fernet.locking C) p e) : FernetEncrypted P C fernet p e := by
  obtain ⟨n, data, locked, rfl⟩ := encrypts
  cases key : C.fernet fernet.key with
  | none =>
      simp only [FernetEncryptionCodec.locking, key] at locked
      cases locked
  | some f =>
      simp only [FernetEncryptionCodec.locking, key] at locked
      cases locked
      exact ⟨f, n, key, rfl⟩

/-- **Encryption is lossless on all payloads, alone and chained with offloading,
with either codec.** -/
theorem encryption_lossless (P : Platform) (C : Cryptography) (store : BlobStore σ)
    (large : LargePayloadCodec) (aes : EncryptionCodec) (fernet : FernetEncryptionCodec)
    (payloads : List Payload) (s : CodecState σ)
    (twelve : ∀ n, (keyDigits P n).length = 12) (nonces : ∀ n, (P.urandom n).size = 12)
    (decrypts : ∀ p ∈ payloads, ∀ nonce, nonce.size = 12 → C.aesgcmDecrypt aes.key nonce
      (C.aesgcmEncrypt aes.key nonce (P.serializeToString p)) = some (P.serializeToString p))
    (valid : ∃ f, C.fernet fernet.key = some f ∧
      ∀ p ∈ payloads, ∀ n, f.decrypt (f.encrypt n (P.serializeToString p)) = some (P.serializeToString p))
    (parses : ∀ p ∈ payloads, Parses P p ∧
      ∀ e, AesEncrypted P C aes p e ∨ FernetEncrypted P C fernet p e → Parses P e) :
    EncryptsLosslessly P store large (aes.locking P C) (AesEncrypted P C aes) payloads s ∧
      EncryptsLosslessly P store large (fernet.locking C) (FernetEncrypted P C fernet) payloads s := by
  constructor
  · refine encryptsLosslessly P store large _ aesEncrypted_of_encrypts twelve encrypted_ne (fun p mem =>
      ⟨⟨(parses p mem).1, fun n => ?_⟩,
        fun e encrypts => (parses p mem).2 e (.inl (aesEncrypted_of_encrypts p e encrypts))⟩) s
    have front : (P.urandom n ++ C.aesgcmEncrypt aes.key (P.urandom n) (P.serializeToString p)).extract 0 12 =
        P.urandom n := ByteArray.extract_append_eq_left (nonces n).symm
    have back : (P.urandom n ++ C.aesgcmEncrypt aes.key (P.urandom n) (P.serializeToString p)).extract 12
        (P.urandom n ++ C.aesgcmEncrypt aes.key (P.urandom n) (P.serializeToString p)).size =
          C.aesgcmEncrypt aes.key (P.urandom n) (P.serializeToString p) :=
      ByteArray.extract_append_eq_right (nonces n).symm (by rw [ByteArray.size_append])
    refine ⟨_, rfl, ?_⟩
    simp only [EncryptionCodec.locking, front, back, decrypts p mem (P.urandom n) (nonces n)]
  · obtain ⟨f, key, undone⟩ := valid
    refine encryptsLosslessly P store large _ fernetEncrypted_of_encrypts twelve fernetEncrypted_ne (fun p mem =>
      ⟨⟨(parses p mem).1, fun n => ?_⟩,
        fun e encrypts => (parses p mem).2 e (.inr (fernetEncrypted_of_encrypts p e encrypts))⟩) s
    refine ⟨f.encrypt n (P.serializeToString p), ?_, ?_⟩
    · simp only [FernetEncryptionCodec.locking, key]
    · simp only [FernetEncryptionCodec.locking, key, undone p mem n]

section Runs

/-! ## The greeting, encrypted -/

/-- `AESGCM` with the key of the bytes from 0 to 31, on the greeting and a nonce
of the bytes from 1 to 12. -/
def gcmBytes : ByteArray :=
  ⟨#[15, 252, 80, 221, 137, 250, 147, 233, 40, 203, 13, 32, 2, 25, 128, 91, 45, 45, 206, 142, 251, 12, 57, 171,
    179, 88, 219, 76, 251, 218, 26, 170, 166, 162, 237, 75, 33, 65, 7, 133, 208, 253, 234, 130, 140, 53, 58,
    16, 56]⟩

/-- `Fernet` with the same key, on the greeting. -/
def fernetToken : ByteArray :=
  ("gAAAAABlU_EAAQIDBAUGBwgJCgsMDQ4PEImTTco3O-YAdAa49z8zKMZmq6Po6VZPqf3zGgeFh6dVgc1UbRqEVUO3AicRLT304AbBfs1a" ++
    "DTcnYxYiNv83dEKXxc0Iwvk3xvCqXyRcceTW").toUTF8

def shortCryptography : Cryptography where
  aesgcmEncrypt _ _ _ := gcmBytes
  aesgcmDecrypt _ _ _ := some (shortSerialize greeting)
  fernet _ := some
    { encrypt := fun _ _ => fernetToken
      decrypt := fun _ => some (shortSerialize greeting) }

/-- The digests of the two encrypted greetings. -/
def digestPlatform : Platform :=
  { shortPlatform with
    sha256 := fun data =>
      if data.size = 123 then "72460ce6d3cf1a4c596ebd18152a3bd2d8b03980b98385f1d5f28728a7d3d73b"
      else "d72d1344fecdfaa0ec3eb0fab4bc19c125a6e3ceb2704b62d30c18ba6034ecc6" }

def countingCodec : EncryptionCodec where
  key := ((List.range 32).map Nat.toUInt8).toByteArray
  size := by decide

def fernetCodec : FernetEncryptionCodec where
  key := "AAECAwQFBgcICQoLDA0ODxAREhMUFRYXGBkaGxwdHh8=".toUTF8

/-- The greeting, encrypted by both. -/
def encryptedGreeting : Payload where
  metadata := (countingCodec.locking digestPlatform shortCryptography).metadata
  data := ⟨#[1, 2, 3, 4, 5, 6, 7, 8, 9, 10, 11, 12]⟩ ++ gcmBytes

def fernetGreeting : Payload := { metadata := (fernetCodec.locking shortCryptography).metadata, data := fernetToken }

theorem encryptedGreeting_parses : Parses digestPlatform encryptedGreeting := by
  unfold Parses
  decide +kernel

theorem fernetGreeting_parses : Parses digestPlatform fernetGreeting := by
  unfold Parses
  decide +kernel

theorem encrypted_parses (e : Payload)
    (encrypts : AesEncrypted digestPlatform shortCryptography countingCodec greeting e ∨
      FernetEncrypted digestPlatform shortCryptography fernetCodec greeting e) :
    Parses digestPlatform e := by
  rcases encrypts with ⟨n, rfl⟩ | ⟨f, n, valid, rfl⟩
  · exact encryptedGreeting_parses
  · cases valid
    exact fernetGreeting_parses

theorem greeting_encrypted :
    EncryptsLosslessly digestPlatform inMemoryBlobStore smallCodec
        (countingCodec.locking digestPlatform shortCryptography)
        (AesEncrypted digestPlatform shortCryptography countingCodec) [greeting] { store := ∅ } ∧
      EncryptsLosslessly digestPlatform inMemoryBlobStore smallCodec (fernetCodec.locking shortCryptography)
        (FernetEncrypted digestPlatform shortCryptography fernetCodec) [greeting] { store := ∅ } := by
  refine encryption_lossless _ shortCryptography _ _ countingCodec fernetCodec [greeting] _
    shortPlatform_twelve (fun _ => rfl) ?_ ⟨_, rfl, ?_⟩ ?_
  · intro p mem nonce size
    cases List.mem_singleton.mp mem
    rfl
  · intro p mem n
    cases List.mem_singleton.mp mem
    rfl
  · intro p mem
    cases List.mem_singleton.mp mem
    exact ⟨greeting_original.2, encrypted_parses⟩

end Runs

end LanggraphTemporal.Properties
