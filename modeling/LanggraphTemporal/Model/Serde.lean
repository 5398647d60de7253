/-
# Model.Serde -- `StateSerializer` of `_serde.py`

What it writes is a dict with the keys `type` and `data`, and every dict with
these keys is read as such; every other value is taken as it is.  Langgraph's
`JsonPlusSerializer` is taken from outside.
-/
import LanggraphTemporal.Model.Value
import LanggraphTemporal.Theory.Hex

namespace LanggraphTemporal.Model

set_option autoImplicit false

open Theory

/-- What `StateSerializer` uses of `JsonPlusSerializer`.  A type tag that is read
may be any value. -/
structure JsonPlusSerializer (ε : Type) where
  dumpsTyped : PyVal → Except ε (String × ByteArray)
  loadsTyped : PyVal → ByteArray → Except ε PyVal

/-- `loads_typed` undoes `dumps_typed`. -/
def JsonPlusSerializer.Undoes {ε : Type} (serde : JsonPlusSerializer ε) : Prop :=
  ∀ value tag data, serde.dumpsTyped value = .ok (tag, data) →
    serde.loadsTyped (.str tag) data = .ok value

/-- What a `StateSerializer` may raise. -/
inductive SerdeError (ε : Type) where
  /-- Raised by the `JsonPlusSerializer`. -/
  | serde (error : ε)
  /-- `bytes.fromhex` of a value that is no string. -/
  | typeError
  /-- `bytes.fromhex` of a string that is not made of hexadecimal digits. -/
  | valueError
  deriving DecidableEq

namespace StateSerializer

variable {ε : Type} (serde : JsonPlusSerializer ε)

/-- `{"type": type_tag, "data": data.hex() if data else ""}` -/
def typed (tag : String) (data : ByteArray) : PyVal :=
  .dict [("type", .str tag), ("data", .str (if data.size = 0 then "" else hex data))]

/-- The loop body of `serialize_state` and `serialize_writes`. -/
def serializeValue (value : PyVal) : Except (SerdeError ε) PyVal := do
  let (tag, data) ← (serde.dumpsTyped value).mapError .serde
  return typed tag data

/-- The type and the data of a dict that has both keys. -/
def typedParts : PyVal → Option (PyVal × PyVal)
  | .dict kvs => do return (← kvs.lookup "type", ← kvs.lookup "data")
  | _ => none

/-- `bytes.fromhex(data) if data else b""` -/
def unhex (data : PyVal) : Except (SerdeError ε) ByteArray :=
  if data.truthy then
    match data with
    | .str digits =>
        match fromHex digits with
        | some bytes => .ok bytes
        | none => .error .valueError
    | _ => .error .typeError
  else .ok ByteArray.empty

/-- The loop body of `deserialize_state` and `deserialize_writes`. -/
def deserializeValue (value : PyVal) : Except (SerdeError ε) PyVal :=
  match typedParts value with
  | some (tag, data) => do
      let bytes ← unhex data
      (serde.loadsTyped tag bytes).mapError .serde
  | none => .ok value

/-- `serialize_state` -/
def serializeState (state : Dict PyVal) : Except (SerdeError ε) (Dict PyVal) :=
  state.mapM (serializeValue serde)

/-- `deserialize_state` -/
def deserializeState (state : Dict PyVal) : Except (SerdeError ε) (Dict PyVal) :=
  state.mapM (deserializeValue serde)

/-- `serialize_writes` -/
def serializeWrites (writes : List (String × PyVal)) : Except (SerdeError ε) (List (String × PyVal)) :=
  Dict.mapEntries (serializeValue serde) writes

/-- `deserialize_writes` -/
def deserializeWrites (writes : List (String × PyVal)) : Except (SerdeError ε) (List (String × PyVal)) :=
  Dict.mapEntries (deserializeValue serde) writes

/-! ## Values of the serializer's own shape -/

theorem typed_eq (tag : String) (data : ByteArray) :
    typed tag data = .dict [("type", .str tag), ("data", .str (hex data))] := by
  unfold typed
  by_cases empty : data.size = 0
  · rw [if_pos empty, ByteArray.size_eq_zero_iff.mp empty, hex_empty]
  · rw [if_neg empty]

theorem typedParts_typed (tag : String) (data : ByteArray) :
    typedParts (typed tag data) = some (.str tag, .str (hex data)) := by
  rw [typed_eq]
  rfl

theorem unhex_hex (data : ByteArray) : @unhex ε (.str (hex data)) = .ok data := by
  by_cases empty : hex data = ""
  · have none : some data = some ByteArray.empty := by rw [← fromHex_hex data, empty, fromHex_empty]
    rw [empty, Option.some.inj none]
    rfl
  · have truthy : (PyVal.str (hex data)).truthy = true := bne_iff_ne.mpr empty
    rw [unhex, if_pos truthy]
    simp only [fromHex_hex]

/-- Every value that the serializer writes holds the digits of some bytes. -/
theorem serializeValue_eq_ok {value written : PyVal} :
    serializeValue serde value = .ok written ↔
      ∃ tag data, serde.dumpsTyped value = .ok (tag, data) ∧ written = typed tag data := by
  unfold serializeValue
  cases serde.dumpsTyped value with
  | error x => simp [bind, Except.bind, Except.mapError]
  | ok parts =>
      obtain ⟨tag, data⟩ := parts
      simp [bind, Except.bind, pure, Except.pure, Except.mapError, eq_comm]

/-- A dict with both keys is what the bytes of its data load as. -/
theorem deserializeValue_of_parts {value tag data found : PyVal}
    (parts : typedParts value = some (tag, data)) :
    deserializeValue serde value = .ok found ↔
      ∃ bytes, @unhex ε data = .ok bytes ∧ serde.loadsTyped tag bytes = .ok found := by
  unfold deserializeValue
  rw [parts]
  cases read : @unhex ε data with
  | error x => simp [bind, Except.bind, read]
  | ok bytes =>
      cases loaded : serde.loadsTyped tag bytes with
      | error x => simp [bind, Except.bind, Except.mapError, read, loaded]
      | ok other => simp [bind, Except.bind, Except.mapError, read, loaded]

/-- What the serializer has written is read back. -/
theorem deserializeValue_serializeValue (undoes : serde.Undoes) {value written : PyVal}
    (made : serializeValue serde value = .ok written) : deserializeValue serde written = .ok value := by
  obtain ⟨tag, data, dumped, rfl⟩ := (serializeValue_eq_ok serde).mp made
  exact (deserializeValue_of_parts serde (typedParts_typed tag data)).mpr
    ⟨data, unhex_hex data, undoes value tag data dumped⟩

/-- Exactly when a value is read as it stands. -/
theorem deserializeValue_eq_self_iff {value : PyVal} :
    deserializeValue serde value = .ok value ↔
      ∀ tag data, typedParts value = some (tag, data) →
        ∃ bytes, @unhex ε data = .ok bytes ∧ serde.loadsTyped tag bytes = .ok value := by
  constructor
  · intro read tag data parts
    exact (deserializeValue_of_parts serde parts).mp read
  · intro loads
    cases parts : typedParts value with
    | none =>
        unfold deserializeValue
        rw [parts]
    | some both => exact (deserializeValue_of_parts serde parts).mpr (loads both.1 both.2 parts)

end StateSerializer

end LanggraphTemporal.Model
