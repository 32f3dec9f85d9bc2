import Mathlib

/-!
# Byte strings and their hex form

Hashes, keys, scripts and witnesses are byte strings; the edge stores and
relays them as hex.  The encoder writes lowercase digits, the decoder takes
either case and refuses an odd number of digits, so decoding what was encoded
gives the bytes back.
-/

namespace Fortis.Core

open Option

abbrev Bytes := List UInt8

/-- The source's `[u8; n]`. -/
abbrev Fixed (n : Nat) := { bytes : Bytes // bytes.length = n }

namespace Fixed

def zero (n : Nat) : Fixed n := ⟨List.replicate n 0, List.length_replicate⟩

/-- The conversion of a slice to an array: only a slice of the right length. -/
def ofBytes? (n : Nat) (bytes : Bytes) : Option (Fixed n) :=
  if sized : bytes.length = n then some ⟨bytes, sized⟩ else none

@[simp]
theorem ofBytes?_val {n : Nat} (array : Fixed n) : ofBytes? n array.val = some array := by
  simp [ofBytes?, array.property]

theorem ofBytes?_eq_some_iff {n : Nat} {bytes : Bytes} {array : Fixed n} :
    ofBytes? n bytes = some array ↔ array.val = bytes := by
  unfold ofBytes?
  split
  next sized => simp [Subtype.ext_iff, eq_comm]
  next wrong => simpa using fun same : array.val = bytes => wrong (same ▸ array.property)

end Fixed

def hexDigit (value : Nat) : Char :=
  if value < 10 then Char.ofNat (48 + value) else Char.ofNat (87 + value)

def hexValue (digit : Char) : Option Nat :=
  if 48 ≤ digit.toNat ∧ digit.toNat ≤ 57 then some (digit.toNat - 48)
  else if 97 ≤ digit.toNat ∧ digit.toNat ≤ 102 then some (digit.toNat - 87)
  else if 65 ≤ digit.toNat ∧ digit.toNat ≤ 70 then some (digit.toNat - 55)
  else none

def whiteSpace (char : Char) : Bool :=
  let code := char.toNat
  (9 ≤ code && code ≤ 13) || code = 0x20 || code = 0x85 || code = 0xA0 || code = 0x1680 ||
    (0x2000 ≤ code && code ≤ 0x200A) || code = 0x2028 || code = 0x2029 || code = 0x202F ||
      code = 0x205F || code = 0x3000

def hexChars : Bytes → List Char
  | [] => []
  | byte :: rest => hexDigit (byte.toNat / 16) :: hexDigit (byte.toNat % 16) :: hexChars rest

/-- `hex::encode`. -/
def hexEncode (bytes : Bytes) : String := String.ofList (hexChars bytes)

def hexDecodeChars : List Char → Option Bytes
  | [] => some []
  | [_] => none
  | high :: low :: rest => do
    let first ← hexValue high
    let second ← hexValue low
    let tail ← hexDecodeChars rest
    return UInt8.ofNat (16 * first + second) :: tail

/-- `hex::decode`. -/
def hexDecode (text : String) : Option Bytes := hexDecodeChars text.toList

theorem hexValue_hexDigit {value : Nat} (small : value < 16) :
    hexValue (hexDigit value) = some value := by
  have cases16 : ∀ digit : Fin 16, hexValue (hexDigit digit.val) = some digit.val := by decide
  exact cases16 ⟨value, small⟩

variable (bytes : Bytes)

theorem hexDecodeChars_hexChars : hexDecodeChars (hexChars bytes) = some bytes := by
  induction bytes with
  | nil => rfl
  | cons byte rest ih =>
    have bound : byte.toNat < 256 := byte.toNat_lt
    have whole : 16 * (byte.toNat / 16) + byte.toNat % 16 = byte.toNat :=
      Nat.div_add_mod byte.toNat 16
    simp only [hexChars, hexDecodeChars, ih, hexValue_hexDigit (show byte.toNat / 16 < 16 by omega),
      hexValue_hexDigit (Nat.mod_lt byte.toNat (by decide : 0 < 16)),
      bind_eq_bind, bind_some, pure_def, whole, UInt8.ofNat_toNat]

@[simp]
theorem hexDecode_hexEncode : hexDecode (hexEncode bytes) = some bytes := by
  simp [hexDecode, hexEncode, hexDecodeChars_hexChars]

theorem length_hexEncode : (hexEncode bytes).length = 2 * bytes.length := by
  have chars : (hexChars bytes).length = 2 * bytes.length := by
    induction bytes with
    | nil => rfl
    | cons byte rest ih =>
      simp only [hexChars, List.length_cons, ih]
      omega
  simpa [hexEncode] using chars

theorem hexEncode_injective : Function.Injective hexEncode := by
  intro first second same
  have decoded := congrArg hexDecode same
  simpa using decoded

end Fortis.Core
