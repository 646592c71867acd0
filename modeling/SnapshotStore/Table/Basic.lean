import SnapshotStore.Config
import SnapshotStore.Index
import SnapshotStore.Transaction

/-!
# Tables

A table keeps a chain of versions for each row, reached by the row's handle: through the primary
structure in handle order, and through secondary indexes in the order of their keys. An entry of a
secondary index leads to a row and not to a version. Whoever follows it reads the row's chain under
a view of its own and checks that the version it finds really carries the entry's key.

Entries are added when a key is first written. They are not taken away when a row moves to another
key or is deleted, because older snapshots still look for the row under the old key; the table notes
what has become outdated and reclamation takes it away later.

This module holds the state of a table, what it can be asked without a transaction, and the effect
of undoing or publishing a single write.
-/

namespace SnapshotStore

/-- An index entry that is to go once no snapshot can need it. -/
structure OutdatedEntry where
  index : Nat
  entry : Bytes
  row : RowHandle
  /-- The sequence of the commit that moved the row to another key. -/
  sequence : Int
deriving DecidableEq

/-- A table of rows with many versions. -/
structure Table where
  name : String
  schema : Schema
  maxKeyLength : Nat
  maxVersionHistory : Nat
  /-- The handles of all rows, in order. -/
  primary : Trie := {}
  /-- The secondary indexes; the number of an index is its position here. -/
  indexes : List Index := []
  rows : Std.ExtTreeMap RowHandle Chain := ∅
  /-- The versions that bore a deletion mark when they left their chain, for references still held
  to them. -/
  retired : List Version := []
  /-- The number of the next row. -/
  nextHandle : Nat := 1
  /-- The serial number of the next version. -/
  nextSerial : Nat := 0
  /-- The rows whose deletion was committed, with the sequence of the commit. -/
  pendingDeletes : List (RowHandle × Int) := []
  outdated : List OutdatedEntry := []

namespace Table

/-- A table without rows and indexes. -/
def create (name : String) (schema : Schema) (config : Config) : Table :=
  { name, schema
    maxKeyLength := config.maxKeyLength
    maxVersionHistory := config.maxVersionHistory }

/-- The number of rows that have a chain, uncommitted and deleted ones included. -/
def rowCount (table : Table) : Nat := table.rows.size

/-- The secondary index of that number. -/
def index (table : Table) (id : Nat) : Except Error Index :=
  match table.indexes[id]? with
  | some index => .ok index
  | none => .error (.indexNotFound s!"{table.name}#{id}")

/-- The number of the secondary index of that name, up to the case of ASCII letters. -/
def indexId? (table : Table) (name : String) : Option Nat :=
  table.indexes.findIdx? (·.isNamed name)

/-- The chain of a row; empty if there is no such row. -/
def chainOf (table : Table) (row : RowHandle) : Chain := table.rows[row]?.getD []

/-- The number of versions of a row. -/
def chainLength? (table : Table) (row : RowHandle) : Option Nat :=
  table.rows[row]?.map List.length

/-- Refuses a record that is not as long as the rows of the table. -/
def checkRecord (table : Table) (record : Record) : Except Error Unit :=
  if record.bytes.length ≠ table.schema.rowLength then
    .error (.recordLengthMismatch table.schema.rowLength record.bytes.length)
  else .ok ()

/-! ## Changing a part of a table -/

/-- Applies a change to the entries of one index. -/
def modifyIndex (table : Table) (id : Nat) (change : Trie → Trie) : Table :=
  { table with
    indexes := table.indexes.modify id fun index => { index with trie := change index.trie } }

/-- Applies a change to the chain of one row. -/
def modifyRow (table : Table) (row : RowHandle) (change : Chain → Chain) : Table :=
  { table with rows := table.rows.modify row change }

/-- Takes an entry out of an index, if it leads to `row`. -/
def unbind (table : Table) (id : Nat) (entry : Bytes) (row : RowHandle) : Table :=
  table.modifyIndex id fun trie => (trie.remove entry row).1

/-- Keeps the marked ones among versions that leave their chain. -/
def retire (table : Table) (leaving : List Version) : Table :=
  { table with retired := leaving.filter Version.isMarked ++ table.retired }

/-- Takes the newest version off the chain of a row, if it is the one of that identity. -/
def unlink (table : Table) (row : RowHandle) (version : VersionId) : Table :=
  let newest := (table.chainOf row).take 1
  (table.modifyRow row (·.unlink version)).retire (newest.filter (·.id = version))

/-- Drops a row from the primary structure and from the rows. -/
def forgetRow (table : Table) (row : RowHandle) : Table :=
  let table := table.retire (table.chainOf row)
  { table with
    primary := (table.primary.remove row.toBytes row).1
    rows := table.rows.erase row }

/-! ## The two ends of a write -/

/-- Takes one write of a transaction back. -/
def undo (table : Table) (transaction : Int) : Write → Table
  | .created row version isNewRow =>
    let table := table.unlink row version
    if isNewRow then table.forgetRow row else table
  | .marked row version =>
    let clear (chain : Chain) : Chain := chain.change version (·.unmark transaction)
    { table.modifyRow row clear with retired := clear table.retired }
  | .bound index entry row => table.unbind index entry row
  | .outdated _ _ _ => table

/-- Takes writes back, the last one first; they are given in the order in which they were made. -/
def undoAll (table : Table) (transaction : Int) (writes : List Write) : Table :=
  writes.foldr (fun write table => table.undo transaction write) table

/-- Notes what a committed write leaves for reclamation. -/
def publish (table : Table) (sequence : Int) : Write → Table
  | .marked row _ => { table with pendingDeletes := table.pendingDeletes ++ [(row, sequence)] }
  | .outdated index entry row =>
    { table with outdated := table.outdated ++ [⟨index, entry, row, sequence⟩] }
  | .created _ _ _ | .bound _ _ _ => table

/-! ## References -/

/-- A row as a transaction has read it: the version, and the versions it lies on. -/
structure RowRef where
  handle : RowHandle
  version : Version
  older : Chain
deriving DecidableEq

namespace RowRef

/-- The record of the version. -/
def record (ref : RowRef) : Record := ref.version.record

/-- The description that logs use. -/
def describe (ref : RowRef) : String :=
  Text.described "RowRef" [
    ("handle", ref.handle.describe), ("record", ref.record.describe)]

end RowRef

/-- A version of a row as it is now: it is in the row's chain, or it has left the chain marked, or
it has left the chain unmarked and will never be marked. -/
def versionNow (table : Table) (row : RowHandle) (version : Version) : Version :=
  ((table.chainOf row ++ table.retired).find? (·.id = version.id)).getD
    { version with deletion := 0 }

/-- The versions that a reference holds on to as they are now, the newest first. -/
def held (table : Table) (ref : RowRef) : Chain :=
  (ref.version :: ref.older).map (table.versionNow ref.handle)

/-- The description that logs use. -/
def describe (table : Table) : String :=
  Text.described "Table" [
    ("name", Text.quoted table.name),
    ("rows", toString table.rowCount),
    ("indexes", toString table.indexes.length)]

end Table

end SnapshotStore
