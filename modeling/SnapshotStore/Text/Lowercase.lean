import SnapshotStore.Text.CaseTable

/-!
# Lower case

Names of fields, tables and databases are compared without regard to case. Two names are the same
if their lower-case forms are, where the lower-case form is taken over the whole character set:
character by character, with the two exceptions that the character database makes. Dotted capital
I becomes two characters, and a capital sigma at the end of a word becomes final sigma.
-/

namespace SnapshotStore.Text

/-- The character has case and is not passed over in the search for a neighbouring letter. -/
def isCased (c : Char) : Bool := casedRanges.any (·.holds c.toNat)

/-- The character is passed over in the search for a neighbouring letter. -/
def isCaseIgnorable (c : Char) : Bool := caseIgnorableRanges.any (·.holds c.toNat)

/-- The lower-case form of a character that stands alone. -/
def lowerChar (c : Char) : List Char :=
  if c = 'İ' then ['i', '\u0307']
  else [((capitals.findSome? (·.lower? c.toNat)).map Char.ofNat).getD c]

/-- The first character that is not passed over has case. -/
def meetsCased (cs : List Char) : Bool :=
  (cs.find? fun c => !isCaseIgnorable c).any isCased

/-- A capital sigma between `before` (nearest character first) and `after` ends its word: a letter
comes before it and none after. -/
def endsWord (before after : List Char) : Bool := meetsCased before && !meetsCased after

/-- Lower case of the characters that follow `before` (nearest character first). -/
def lowerAfter (before : List Char) : List Char → List Char
  | [] => []
  | c :: after =>
    (if c = 'Σ' then [if endsWord before after then 'ς' else 'σ'] else lowerChar c)
      ++ lowerAfter (c :: before) after

/-- The lower-case form of a text. -/
def lowercase (text : String) : String := String.ofList (lowerAfter [] text.toList)

end SnapshotStore.Text
