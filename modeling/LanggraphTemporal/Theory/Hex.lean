/-
# Theory.Hex -- bytes as hexadecimal digits

As Python writes them (`bytes.hex`: two lowercase digits for each byte) and reads
them (`bytes.fromhex`: digits of either case, and ASCII whitespace between the
bytes).  What has been written is read back (`fromHex_hex`), so a text that
cannot be read was written for no bytes at all.
-/
import Mathlib.Tactic.IntervalCases

namespace LanggraphTemporal.Theory

set_option autoImplicit false

namespace Hex

/-- The value of a hexadecimal digit. -/
def digitValue (c : Char) : Option Nat :=
  if '0' ≤ c ∧ c ≤ '9' then some (c.toNat - '0'.toNat)
  else if 'a' ≤ c ∧ c ≤ 'f' then some (c.toNat - 'a'.toNat + 10)
  else if 'A' ≤ c ∧ c ≤ 'F' then some (c.toNat - 'A'.toNat + 10)
  else none

/-- A space, or one of the characters from tab to carriage return. -/
def isSpace (c : Char) : Bool := c = ' ' || ('\t' ≤ c && c ≤ '\r')

/-- The digits of bytes. -/
def ofBytes : List UInt8 → List Char
  | [] => []
  | b :: bs => (b.toNat / 16).digitChar :: (b.toNat % 16).digitChar :: ofBytes bs

/-- The bytes of digits; the two digits of a byte stand together. -/
def toBytes : List Char → Option (List UInt8)
  | [] => some []
  | c :: cs =>
      if isSpace c then toBytes cs
      else
        match cs with
        | [] => none
        | d :: ds => do
            let high ← digitValue c
            let low ← digitValue d
            let bytes ← toBytes ds
            return UInt8.ofNat (16 * high + low) :: bytes

theorem digitValue_digitChar {n : Nat} (digit : n < 16) : digitValue n.digitChar = some n := by
  interval_cases n <;> rfl

theorem isSpace_digitChar {n : Nat} (digit : n < 16) : isSpace n.digitChar = false := by
  interval_cases n <;> rfl

theorem toBytes_ofBytes (bytes : List UInt8) : toBytes (ofBytes bytes) = some bytes := by
  induction bytes with
  | nil => rfl
  | cons b bs ih =>
      have high : b.toNat / 16 < 16 := by
        have := b.toNat_lt
        omega
      have low : b.toNat % 16 < 16 := Nat.mod_lt _ (by decide)
      have whole : UInt8.ofNat (16 * (b.toNat / 16) + b.toNat % 16) = b := by
        rw [Nat.div_add_mod, UInt8.ofNat_toNat]
      rw [ofBytes, toBytes, isSpace_digitChar high, digitValue_digitChar high,
        digitValue_digitChar low, ih]
      simp only [Bool.false_eq_true, if_false, bind, Option.bind, pure, whole]

example : toBytes ['4', '8', ' ', '6', 'C'] = some [0x48, 0x6c] := by decide

example : toBytes ['4', ' ', '8'] = none := by decide

end Hex

/-! ## Strings of digits -/

/-- `data.hex()` -/
def hex (data : ByteArray) : String := String.ofList (Hex.ofBytes data.data.toList)

/-- `bytes.fromhex(text)`; `none` for its `ValueError` -/
def fromHex (text : String) : Option ByteArray := (Hex.toBytes text.toList).map List.toByteArray

theorem fromHex_hex (data : ByteArray) : fromHex (hex data) = some data := by
  have bytes : data.data.toList.toByteArray = data := by
    apply ByteArray.ext
    rw [List.data_toByteArray]
  rw [fromHex, hex, String.toList_ofList, Hex.toBytes_ofBytes, Option.map_some, bytes]

@[simp] theorem hex_empty : hex ByteArray.empty = "" := rfl

@[simp] theorem fromHex_empty : fromHex "" = some ByteArray.empty := rfl

end LanggraphTemporal.Theory
