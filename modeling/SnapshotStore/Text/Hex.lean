import SnapshotStore.Bytes

/-!
# Bytes in hexadecimal

A byte string as text, two digits for each byte. Written with small letters, read with either.
-/

namespace SnapshotStore.Text

/-- The digit of a number below sixteen. -/
def hexDigit (n : Nat) : Char := (Nat.toDigits 16 n).headD '0'

/-- The number of a digit. -/
def hexDigit? (c : Char) : Option Nat :=
  if '0' ≤ c ∧ c ≤ '9' then some (c.toNat - '0'.toNat)
  else if 'a' ≤ c ∧ c ≤ 'f' then some (c.toNat - 'a'.toNat + 10)
  else if 'A' ≤ c ∧ c ≤ 'F' then some (c.toNat - 'A'.toNat + 10)
  else none

/-- The text of a byte string. -/
def hex (bytes : Bytes) : String :=
  String.ofList (bytes.flatMap fun b => [hexDigit (b.toNat / 16), hexDigit (b.toNat % 16)])

/-- The byte string of a list of digits. -/
def bytesOfDigits? : List Char → Option Bytes
  | [] => some []
  | high :: low :: rest => do
    let high ← hexDigit? high
    let low ← hexDigit? low
    let bytes ← bytesOfDigits? rest
    return UInt8.ofNat (high * 16 + low) :: bytes
  | [_] => none

/-- The byte string that a text spells. -/
def unhex? (text : String) : Option Bytes := bytesOfDigits? text.toList

end SnapshotStore.Text
