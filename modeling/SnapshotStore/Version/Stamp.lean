import SnapshotStore.Ledger
import SnapshotStore.Text.Quoted

/-!
# Stamps and views

A stamp says which statement of which transaction wrote something. A view says who is reading:
which transaction, under which snapshot, in which of its statements, and whether that statement
sees what it has written itself.

The stamp of a deletion shares one 64-bit word with the absence of one. The statement takes the low
24 bits, so statements beyond the greatest that fits share its number, and the transaction takes
the rest, so an id of 2^40 or more loses its high bits. The word `0` means that there is no stamp.
-/

namespace SnapshotStore

/-- Who wrote something. -/
structure Stamp where
  transaction : Int
  statement : Nat
deriving DecidableEq, Inhabited

namespace Stamp

/-- The bits of a word that the statement takes. -/
def statementBits : Nat := 24

/-- The greatest statement number that a stamp holds. -/
def maxStatement : Nat := (1 <<< statementBits) - 1

/-- The stamp of a statement of a transaction. -/
def of (transaction : Int) (statement : Nat) : Stamp := ⟨transaction, min statement maxStatement⟩

/-- The stamp as a word. -/
def pack (stamp : Stamp) : UInt64 :=
  UInt64.ofNat
    ((stamp.transaction % 0x10000000000000000).toNat <<< statementBits
      + stamp.statement % (1 <<< statementBits))

/-- The stamp in a word, if there is one. -/
def unpack? (word : UInt64) : Option Stamp :=
  if word = 0 then none
  else some ⟨word.toNat >>> statementBits, word.toNat % (1 <<< statementBits)⟩

/-- The description that logs use. -/
def describe (stamp : Stamp) : String :=
  Text.described "TxnMarker" [
    ("txn_id", toString stamp.transaction), ("stmt_id", toString stamp.statement)]

end Stamp

/-- Who is reading. -/
structure View where
  transaction : Int
  snapshot : Int
  statement : Nat
  /-- The current statement sees what it has written itself. -/
  ownStatement : Bool
deriving DecidableEq, Inhabited

namespace View

/-- What bears the stamp is visible to the view. -/
def sees (view : View) (ledger : Ledger) (stamp : Stamp) : Bool :=
  if stamp.transaction = view.transaction then
    view.ownStatement || stamp.statement != min view.statement Stamp.maxStatement
  else ledger.isVisible stamp.transaction view.transaction view.snapshot

end View

end SnapshotStore
