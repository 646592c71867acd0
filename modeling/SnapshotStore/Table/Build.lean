import SnapshotStore.Table.Ownership

/-!
# Building an index

A new index is filled from the rows that are there. Every version of every chain gets its entry, so
that an older snapshot can search the new index too. Rows that share a key of a unique index are all
indexed; each row whose key is owned by a row indexed before it is counted.

In which order the rows are visited is up to the map that holds them, and the order shows: when the
keys of several rows cannot be built, the row visited first decides the error, and which rows are
counted depends on who was there before. So a build is given its `Visit`, which may meet the rows in
any order. The one that is used where no other is given goes by `place`.
-/

namespace SnapshotStore

namespace Table

/-- An index that is being filled, and the number of rows whose key was owned already. -/
structure Filling where
  index : Index
  violations : Nat := 0

/-- The row owns the key of its newest version, and so does a row that is in the index already. -/
def clashes (table : Table) (ledger : Ledger) (index : Index) (row : RowHandle) (chain : Chain) :
    Except Error Bool :=
  match chain with
  | [] => .ok false
  | newest :: _ => do
    let entry ← index.spec.entry table.maxKeyLength newest.record row
    if ← chain.owns index.spec ledger Ledger.noTransaction entry then
      table.isOwned ledger Ledger.noTransaction index entry row
    else
      return false

/-- Adds the entry of one version. -/
def fillVersion (table : Table) (row : RowHandle) (index : Index) (version : Version) :
    Except Error Index := do
  let entry ← index.spec.entry table.maxKeyLength version.record row
  return { index with trie := (index.trie.put entry row).1 }

/-- Adds the entries of one row. -/
def fillRow (table : Table) (ledger : Ledger) (filling : Filling) (row : RowHandle)
    (chain : Chain) : Except Error Filling := do
  let clash ←
    if filling.index.spec.unique then table.clashes ledger filling.index row chain else pure false
  let index ← List.foldlM (table.fillVersion row) filling.index chain
  return { index, violations := filling.violations + if clash then 1 else 0 }

/-- Adds the entries of rows in the given order. -/
def fill (table : Table) (ledger : Ledger) (index : Index) (rows : List (RowHandle × Chain)) :
    Except Error Filling :=
  rows.foldlM (fun filling (row, chain) => table.fillRow ledger filling row chain) { index }

/-- A visit to the rows of a table, in whatever order. -/
structure Visit where
  rows : Table → List (RowHandle × Chain)
  /-- Every row is met once. -/
  perm : ∀ table, (rows table).Perm table.rows.toList

/-- The place of a row: its handle times an odd number, modulo a power of two, so that neighbouring
handles are far apart and handles below that power have places of their own. -/
def place (row : RowHandle) : Nat := row.val * 778217925 % 0x80000000

namespace Visit

/-- By place, and by handle where places agree. -/
def byPlace : Visit where
  rows table := table.rows.toList.mergeSort fun (a, _) (b, _) => place a ≤ place b
  perm _ := List.mergeSort_perm ..

end Visit

/-- Adds an index and returns its number. -/
def buildIndex (table : Table) (ledger : Ledger) (spec : KeySpec) (visit : Visit := .byPlace) :
    Except Error (Table × Nat × Filling) := do
  let spec ← spec.bind table.schema
  Key.checkLength table.maxKeyLength spec.width
  if table.indexes.any (·.isNamed spec.name) then
    throw (.indexAlreadyExists spec.name)
  let filling ← table.fill ledger { spec } (visit.rows table)
  return ({ table with indexes := table.indexes ++ [filling.index] }, table.indexes.length, filling)

end Table

end SnapshotStore
