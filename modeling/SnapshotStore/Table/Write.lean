import SnapshotStore.Table.Ownership

/-!
# Writing rows

An insert begins a chain, an update puts a version on one, a delete marks its newest version. An
update or a delete goes through only over a version that the transaction reads as the newest;
otherwise another transaction has been there and the writer can only be rolled back.

A write is done or not done as a whole. The version comes first and the indexes follow one by one;
when one of them refuses, what was written so far is taken back, the last write first. The primary
structure, which an insert binds the new row in, does not refuse: handles are given out once, and the
pool of its nodes is unbounded.
-/

namespace SnapshotStore

/-- What came of a write. -/
inductive WriteOutcome where
  /-- The version written. -/
  | written (row : Table.RowRef)
  | deleted
  /-- Another row owns the key in the unique index of that number. -/
  | keyExists (index : Nat)
  /-- The transaction lost a conflict and can only be rolled back. -/
  | conflict
deriving DecidableEq

namespace Table

/-- A write that was tried: the table after it, the writes to remember, and what came of it. -/
structure Attempt where
  table : Table
  writes : List Write := []
  outcome : Except Error WriteOutcome

namespace Refusal

/-- What a refused step makes of the whole write. -/
def outcome : Refusal → Except Error WriteOutcome
  | taken index => .ok (.keyExists index)
  | failed error => .error error

end Refusal

/-- Takes a step for every index after a version was created, and takes everything back if one is
refused. -/
def complete (table : Table) (transaction : Int) (created : Write) (ref : RowRef)
    (step : Table → Nat → Except Refusal (Table × List Write)) : Attempt :=
  match forEachIndex step (List.range table.indexes.length) table with
  | (table, writes, none) => { table, writes := created :: writes, outcome := .ok (.written ref) }
  | (table, writes, some refusal) =>
    { table := table.undoAll transaction (created :: writes), outcome := refusal.outcome }

/-- The version that a transaction writes next. -/
def newVersion (table : Table) (txn : Transaction) (record : Record) : Version :=
  { id := { serial := table.nextSerial }, record, created := txn.stamp }

/-- Inserts a row. -/
def insertRow (table : Table) (ledger : Ledger) (txn : Transaction) (record : Record) : Attempt :=
  match RowHandle.ofNat? table.nextHandle with
  | none => { table, outcome := .error (.internal "row handle space exhausted") }
  | some row =>
    let version := table.newVersion txn record
    let begun : Table := { table with
      nextHandle := table.nextHandle + 1
      nextSerial := table.nextSerial + 1
      rows := table.rows.insert row [version]
      primary := (table.primary.put row.toBytes row).1 }
    begun.complete txn.id (.created row version.id true) ⟨row, version, []⟩
      (bindRecord ledger txn.id record row)

/-- Puts a version on a row. -/
def updateRow (table : Table) (ledger : Ledger) (txn : Transaction) (row : RowHandle)
    (record : Record) : Attempt :=
  match table.rows[row]? with
  | some (newest :: older) =>
    if newest.isWritable ledger txn.id txn.snapshot then
      let version := table.newVersion txn record
      let begun : Table := { table with
        nextSerial := table.nextSerial + 1
        rows := table.rows.insert row (version :: newest :: older) }
      begun.complete txn.id (.created row version.id false) ⟨row, version, newest :: older⟩
        (rebindRecord ledger txn.id newest.record record row)
    else { table, outcome := .ok .conflict }
  | _ => { table, outcome := .ok .conflict }

/-- Marks the newest version of a row deleted. -/
def deleteRow (table : Table) (ledger : Ledger) (txn : Transaction) (row : RowHandle) : Attempt :=
  match table.rows[row]? with
  | some (newest :: older) =>
    if newest.isWritable ledger txn.id txn.snapshot then
      { table := { table with rows := table.rows.insert row (newest.mark txn.stamp :: older) }
        writes := [.marked row newest.id]
        outcome := .ok .deleted }
    else { table, outcome := .ok .conflict }
  | _ => { table, outcome := .ok .conflict }

end Table

end SnapshotStore
