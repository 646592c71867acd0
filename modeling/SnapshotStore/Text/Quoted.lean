import SnapshotStore.Text.PlainTable

/-!
# Quoted text and described values

The one-line descriptions of values in logs. A text is written between double quotes, with every
character that would not show as itself escaped; a value with named parts is written as its name
and its parts between braces.
-/

namespace SnapshotStore.Text

/-- How a character is written inside quotes. -/
def escapeChar (c : Char) : List Char :=
  if c = '\x00' then ['\\', '0']
  else if c = '\t' then ['\\', 't']
  else if c = '\r' then ['\\', 'r']
  else if c = '\n' then ['\\', 'n']
  else if c = '"' ∨ c = '\\' then ['\\', c]
  else if plainRanges.any (·.holds c.toNat) then [c]
  else ['\\', 'u', '\x7b'] ++ Nat.toDigits 16 c.toNat ++ ['\x7d']

/-- A text between double quotes. -/
def quoted (text : String) : String :=
  String.ofList ('"' :: text.toList.flatMap escapeChar ++ ['"'])

/-- A list of written values between brackets. -/
def listed (items : List String) : String := "[" ++ ", ".intercalate items ++ "]"

/-- A value written as its name and its named parts. -/
def described (name : String) (parts : List (String × String)) : String :=
  name ++ " \x7b " ++ ", ".intercalate (parts.map fun (part, value) => part ++ ": " ++ value)
    ++ " \x7d"

/-- A yes or a no. -/
def truth (b : Bool) : String := if b then "true" else "false"

end SnapshotStore.Text
