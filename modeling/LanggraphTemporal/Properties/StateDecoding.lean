/-
# Properties.StateDecoding -- reading a mixture of serialised and plain values

The decoder knows what the serializer has written by its keys alone.  A plain
dict with the keys `type` and `data`, such as a content block, is taken for one
of its own: its data is read as hexadecimal digits and loaded under its type,
which raises in general.  Every other value is read as it was put there, so the
decoder is right on exactly the mixtures in which each plain dict with both keys
happens to be what its own data loads as (`decodes_iff`).
-/
import LanggraphTemporal.Model.Codec
import LanggraphTemporal.Model.Serde

namespace LanggraphTemporal.Properties

set_option autoImplicit false

open Theory Model StateSerializer

variable {ε : Type} {serde : JsonPlusSerializer ε}

/-! ## Round trips -/

/-- Whatever list of writes has been serialised is read back. -/
theorem deserializeWrites_serializeWrites (undoes : serde.Undoes) {writes written : List (String × PyVal)}
    (made : serializeWrites serde writes = .ok written) : deserializeWrites serde written = .ok writes := by
  have pairs := Dict.mapEntries_eq_ok.mp made
  refine Dict.mapEntries_eq_ok.mpr (List.Forall₂.flip (pairs.imp fun e e' pair => ?_))
  exact ⟨pair.1.symm, deserializeValue_serializeValue serde undoes pair.2⟩

theorem deserializeState_serializeState (undoes : serde.Undoes) {state written : Dict PyVal}
    (made : serializeState serde state = .ok written) : deserializeState serde written = .ok state := by
  rw [deserializeState, Dict.mapM_eq_ok, ← Dict.mapEntries_eq_ok]
  exact deserializeWrites_serializeWrites undoes (Dict.mapEntries_eq_ok.mpr (Dict.mapM_eq_ok.mp made))

/-! ## Mixtures -/

/-- An entry of a state or of a list of writes. -/
inductive MixedValue (serde : JsonPlusSerializer ε) where
  /-- What the serializer has written for a value. -/
  | serialised (original written : PyVal) (made : serializeValue serde original = .ok written)
  /-- A value that the serializer writes for none. -/
  | plain (value : PyVal) (foreign : ∀ original, serializeValue serde original ≠ .ok value)

namespace MixedValue

/-- What the entry holds. -/
def held : MixedValue serde → PyVal
  | serialised _ written _ => written
  | plain value _ => value

/-- What the entry stands for. -/
def original : MixedValue serde → PyVal
  | serialised value _ _ => value
  | plain value _ => value

/-- A plain dict with both keys is what its data loads as under its type. -/
def ReadPlainly : MixedValue serde → Prop
  | serialised _ _ _ => True
  | plain value _ => ∀ tag data, typedParts value = some (tag, data) →
      ∃ bytes, @unhex ε data = .ok bytes ∧ serde.loadsTyped tag bytes = .ok value

theorem deserializeValue_held_iff (undoes : serde.Undoes) (entry : MixedValue serde) :
    deserializeValue serde entry.held = .ok entry.original ↔ entry.ReadPlainly := by
  cases entry with
  | serialised value written made =>
      exact iff_of_true (deserializeValue_serializeValue serde undoes made) trivial
  | plain value foreign => exact deserializeValue_eq_self_iff serde

/-- A value without one of the keys. -/
def untyped (value : PyVal) (apart : typedParts value = none) : MixedValue serde :=
  .plain value fun original made => by
    obtain ⟨tag, data, -, rfl⟩ := (serializeValue_eq_ok serde).mp made
    rw [typedParts_typed] at apart
    cases apart

theorem readPlainly_untyped (value : PyVal) (apart : typedParts value = none) :
    (untyped value apart : MixedValue serde).ReadPlainly := by
  intro tag data parts
  rw [apart] at parts
  cases parts

end MixedValue

/-- The decoder returns the original of every entry of a state and of a list of
writes, in order. -/
structure Decodes (state : Dict (MixedValue serde)) (writes : List (String × MixedValue serde)) : Prop where
  state : deserializeState serde (state.map MixedValue.held) = .ok (state.map MixedValue.original)
  writes : deserializeWrites serde (writes.map (Prod.map id MixedValue.held)) =
    .ok (writes.map (Prod.map id MixedValue.original))

/-- **The decoder returns the originals if and only if every plain entry is read
plainly.** -/
theorem decodes_iff (undoes : serde.Undoes) (state : Dict (MixedValue serde))
    (writes : List (String × MixedValue serde)) :
    Decodes state writes ↔
      (∀ e ∈ state.entries, e.2.ReadPlainly) ∧ ∀ e ∈ writes, e.2.ReadPlainly := by
  have each (entries : List (String × MixedValue serde)) :
      (∀ e ∈ entries, deserializeValue serde e.2.held = .ok e.2.original) ↔
        ∀ e ∈ entries, e.2.ReadPlainly :=
    forall₂_congr fun e _ => e.2.deserializeValue_held_iff undoes
  rw [← each, ← each]
  constructor
  · rintro ⟨state, writes⟩
    exact ⟨Dict.mapM_map_eq_ok.mp state, Dict.mapEntries_map_eq_ok.mp writes⟩
  · rintro ⟨state, writes⟩
    exact ⟨Dict.mapM_map_eq_ok.mpr state, Dict.mapEntries_map_eq_ok.mpr writes⟩

/-! ## The serializer on short values -/

/-- `None`, and the strings that msgpack writes with one byte before them. -/
def shortDumps : PyVal → Except String (String × ByteArray)
  | .none => .ok ("null", ByteArray.empty)
  | .str s =>
      if s.toUTF8.size < 32 then
        .ok ("msgpack", [UInt8.ofNat (160 + s.toUTF8.size)].toByteArray ++ s.toUTF8)
      else .error "TypeError"
  | _ => .error "TypeError"

def shortLoads (tag : PyVal) (data : ByteArray) : Except String PyVal :=
  match tag with
  | .str "null" => .ok .none
  | .str "msgpack" =>
      if data.data[0]? = some (UInt8.ofNat (160 + (data.size - 1))) then
        match decodeUtf8 (data.extract 1 data.size) with
        | some s => .ok (.str s)
        | none => .error "MsgpackDecodeError"
      else .error "MsgpackDecodeError"
  | _ => .error "NotImplementedError"

def shortSerde : JsonPlusSerializer String := ⟨shortDumps, shortLoads⟩

theorem shortSerde_undoes : shortSerde.Undoes := by
  intro value tag data dumped
  change shortDumps value = .ok (tag, data) at dumped
  change shortLoads (.str tag) data = .ok value
  cases value with
  | none =>
      cases dumped
      rfl
  | str s =>
      simp only [shortDumps] at dumped
      split at dumped
      · cases dumped
        have size : ([UInt8.ofNat (160 + s.toUTF8.size)].toByteArray ++ s.toUTF8).size = 1 + s.toUTF8.size := by
          rw [ByteArray.size_append]
          rfl
        have text : ([UInt8.ofNat (160 + s.toUTF8.size)].toByteArray ++ s.toUTF8).extract 1
            (1 + s.toUTF8.size) = s.toUTF8 := ByteArray.extract_append_eq_right rfl rfl
        simp only [shortLoads, size, Nat.add_sub_cancel_left, text, decodeUtf8_toUTF8]
        simp
      · cases dumped
  | _ => cases dumped

/-- What it writes for a short string. -/
def shortString (s : String) (short : s.toUTF8.size < 32) : MixedValue shortSerde :=
  .serialised (.str s) (typed "msgpack" ([UInt8.ofNat (160 + s.toUTF8.size)].toByteArray ++ s.toUTF8))
    ((serializeValue_eq_ok shortSerde).mpr ⟨"msgpack", _, if_pos short, rfl⟩)

/-- Two values that have been serialised, and two that stand as they are. -/
def shortEntries : List (String × MixedValue shortSerde) :=
  [("answer", .serialised .none (typed "null" ByteArray.empty) rfl), ("name", shortString "hi" (by decide)),
    ("note", .untyped (.str "hi") rfl),
    ("block", .untyped (.dict [("type", .str "text"), ("text", .str "hi")]) rfl)]

theorem shortEntries_readPlainly : ∀ e ∈ shortEntries, e.2.ReadPlainly := by
  simp only [shortEntries, List.forall_mem_cons]
  exact ⟨trivial, trivial, MixedValue.readPlainly_untyped _ rfl, MixedValue.readPlainly_untyped _ rfl,
    List.forall_mem_nil _⟩

/-- They come back from a state, and from a list of writes that has each twice. -/
theorem shortEntries_decoded : Decodes (Dict.ofList shortEntries) (shortEntries ++ shortEntries) := by
  refine (decodes_iff shortSerde_undoes _ _).mpr ⟨?_, fun e mem => ?_⟩
  · rw [Dict.entries_ofList (by decide)]
    exact shortEntries_readPlainly
  · rcases List.mem_append.mp mem with here | here
    · exact shortEntries_readPlainly e here
    · exact shortEntries_readPlainly e here

/-! ## Content blocks -/

/-- An image, as a content block. -/
def imageBlock : PyVal := .dict [("type", .str "image"), ("data", .str "aGVsbG8=")]

theorem fromHex_base64 : fromHex "aGVsbG8=" = none := by
  simp [fromHex, Hex.toBytes, Hex.isSpace, Hex.digitValue]

theorem deserializeValue_imageBlock : deserializeValue serde imageBlock = .error .valueError := by
  have digits : @unhex ε (.str "aGVsbG8=") = .error .valueError := by
    have truthy : (PyVal.str "aGVsbG8=").truthy = true := rfl
    rw [unhex, if_pos truthy]
    simp only [fromHex_base64]
  rw [deserializeValue, show typedParts imageBlock = some (.str "image", .str "aGVsbG8=") from rfl]
  simp only [digits]
  rfl

/-- The serializer writes hexadecimal digits only. -/
theorem imageBlock_foreign (value : PyVal) : serializeValue serde value ≠ .ok imageBlock := by
  intro made
  obtain ⟨tag, data, -, same⟩ := (serializeValue_eq_ok serde).mp made
  rw [typed_eq] at same
  have digits : "aGVsbG8=" = hex data := by
    injection same with entries
    injection entries with _ rest
    injection rest with last _
    injection last with _ text
    injection text
  have read := fromHex_hex data
  rw [← digits, fromHex_base64] at read
  cases read

/-- An entry that holds it. -/
def imageEntry : String × MixedValue serde := ("content", .plain imageBlock imageBlock_foreign)

/-- **A content block is not read as it stands**, whether in a state or in a list
of writes. -/
theorem image_block_undecoded : shortSerde.Undoes ∧
    ¬Decodes (Dict.ofList [(imageEntry : String × MixedValue shortSerde)]) [] ∧
      ¬Decodes ∅ [(imageEntry : String × MixedValue shortSerde)] := by
  have raises : deserializeValue shortSerde imageBlock ≠ .ok imageBlock := by
    rw [deserializeValue_imageBlock]
    exact nofun
  refine ⟨shortSerde_undoes, fun decodes => raises ?_, fun decodes => raises ?_⟩
  · exact Dict.mapM_map_eq_ok.mp decodes.state imageEntry List.mem_cons_self
  · exact Dict.mapEntries_map_eq_ok.mp decodes.writes imageEntry List.mem_cons_self

end LanggraphTemporal.Properties
