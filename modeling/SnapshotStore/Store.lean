import SnapshotStore.Table.Build
import SnapshotStore.Table.Read
import SnapshotStore.Table.Reclaim
import SnapshotStore.Table.Write

/-!
# Stores

A store is a set of tables and the ledger they share. Its operations take the session that asks, and
return the session as it is afterwards next to what came of it: an operation that fails may have
begun a transaction all the same.

Every operation on rows first *enters* the session's transaction, beginning one if none is running,
and does nothing more if the transaction is doomed.
-/

namespace SnapshotStore

/-- Tables and the ledger of the transactions that write to them. -/
structure Store where
  ledger : Ledger := {}
  tables : Std.ExtTreeMap TableId Table := ∅

namespace Store

/-- The store and the session after an operation, and what came of it. -/
abbrev Step (α : Type) := Store × Session × Except Error α

/-- The table of that number. -/
def table (store : Store) (id : TableId) : Except Error Table :=
  match store.tables[id]? with
  | some table => .ok table
  | none => .error (.tableNotFound (toString id))

/-- Adds a table under a new number. Tables are never taken out. -/
def addTable (store : Store) (table : Table) : Store × TableId :=
  ({ store with tables := store.tables.insert store.tables.size table }, store.tables.size)

/-- Replaces a table. -/
def setTable (store : Store) (id : TableId) (table : Table) : Store :=
  { store with tables := store.tables.insert id table }

/-- Applies a change to a table. -/
def modifyTable (store : Store) (id : TableId) (change : Table → Table) : Store :=
  { store with tables := store.tables.modify id change }

/-! ## 1. The ends of a transaction -/

/-- Takes back the writes of a transaction; they are given with the last one first. -/
def undo (store : Store) (transaction : Int) (log : List LogEntry) : Store :=
  log.foldl (fun store entry =>
    store.modifyTable entry.table (·.undo transaction entry.write)) store

/-- Notes what committed writes leave for reclamation; they are given with the last one first. -/
def publish (store : Store) (sequence : Int) (log : List LogEntry) : Store :=
  log.foldr (fun entry store =>
    store.modifyTable entry.table (·.publish sequence entry.write)) store

/-- Begins a transaction on behalf of a worker. -/
def begin (store : Store) (session : Session) (owner : Nat) : Step Unit :=
  match session.begin store.ledger owner with
  | .error error => (store, session, .error error)
  | .ok (ledger, session) => ({ store with ledger }, session, .ok ())

/-- Goes on to the next statement. -/
def beginStatement (store : Store) (session : Session) : Store × Session :=
  let (ledger, session) := session.beginStatement store.ledger
  ({ store with ledger }, session)

/-- Undoes the running transaction, if there is one. -/
def abort (store : Store) (session : Session) : Store × Session :=
  match session.transaction with
  | none => (store, session)
  | some txn =>
    let store := store.undo txn.id txn.log
    ({ store with ledger := store.ledger.abort txn.id }, session.reset)

/-- What a commit ended. -/
inductive CommitOutcome where
  | committed
  /-- Only a statement; the transaction goes on. -/
  | statementEnded
deriving DecidableEq

/-- Commits the running transaction, or ends its current statement. A doomed transaction is undone
instead. -/
def commit (store : Store) (session : Session) (scope : Scope) : Step CommitOutcome :=
  match session.transaction with
  | none => (store, session, .error .transactionNotStarted)
  | some txn =>
    if txn.doomed then
      let (store, session) := store.abort session
      (store, session, .error (.writeConflict txn.id))
    else if scope = .statement ∧ session.multiStatement then
      (store, session, .ok .statementEnded)
    else
      let (ledger, sequence) := store.ledger.commit txn.id
      let store := { store with ledger }.publish sequence txn.log
      (store, session.reset, .ok .committed)

/-- Undoes the running transaction, or its current statement alone. -/
def rollback (store : Store) (session : Session) (scope : Scope) : Store × Session :=
  match session.transaction with
  | none => (store, session)
  | some txn =>
    if scope = .session ∨ ¬ session.multiStatement then store.abort session
    else
      (store.undo txn.id txn.currentWrites,
        { session with transaction := some txn.forgetStatement })

/-- The running transaction, begun now if none was running. -/
def enter (store : Store) (session : Session) : Except Error (Store × Session × Transaction) := do
  let (ledger, session, txn) ← session.enter store.ledger
  return ({ store with ledger }, session, txn)

/-! ## 2. Writes -/

/-- Tries a write to a table. The session remembers what was written, and is doomed by a
conflict. -/
def write (store : Store) (session : Session) (id : TableId) (check : Table → Except Error Unit)
    (attempt : Table → Ledger → Transaction → Table.Attempt) : Step WriteOutcome :=
  match store.table id with
  | .error error => (store, session, .error error)
  | .ok table =>
    match check table with
    | .error error => (store, session, .error error)
    | .ok () =>
      match store.enter session with
      | .error error => (store, session, .error error)
      | .ok (store, session, txn) =>
        if txn.doomed then (store, session, .ok .conflict)
        else
          let tried := attempt table store.ledger txn
          let session :=
            match tried.outcome with
            | .ok .conflict => session.doom
            | _ => session.remember id tried.writes
          (store.setTable id tried.table, session, tried.outcome)

/-- Inserts a row. -/
def insert (store : Store) (session : Session) (id : TableId) (record : Record) :
    Step WriteOutcome :=
  store.write session id (·.checkRecord record) fun table ledger txn =>
    table.insertRow ledger txn record

/-- Writes a new version of a row. -/
def update (store : Store) (session : Session) (id : TableId) (row : RowHandle)
    (record : Record) : Step WriteOutcome :=
  store.write session id (·.checkRecord record) fun table ledger txn =>
    table.updateRow ledger txn row record

/-- Deletes a row. -/
def delete (store : Store) (session : Session) (id : TableId) (row : RowHandle) :
    Step WriteOutcome :=
  store.write session id (fun _ => .ok ()) fun table ledger txn => table.deleteRow ledger txn row

/-! ## 3. Reads -/

/-- What came of looking for a row. -/
inductive Finding where
  | row (row : Table.RowRef)
  /-- There is no row, or none is left. -/
  | nothing
  /-- The transaction is doomed. -/
  | doomed
deriving DecidableEq

namespace Finding

/-- What a search without mishap found. -/
def ofOption : Option Table.RowRef → Finding
  | some found => .row found
  | none => .nothing

end Finding

/-- The index of a table, for a key that is within the limit. -/
def indexFor (store : Store) (id : TableId) (index : Nat) (key : Bytes) :
    Except Error (Table × Index) := do
  let table ← store.table id
  let index ← table.index index
  Key.checkLength table.maxKeyLength key.length
  return (table, index)

/-- Looks a key up in an index. -/
def lookup (store : Store) (session : Session) (id : TableId) (index : Nat) (key : Bytes)
    (ownStatement : Bool) : Step Finding :=
  match store.indexFor id index key with
  | .error error => (store, session, .error error)
  | .ok (table, index) =>
    match store.enter session with
    | .error error => (store, session, .error error)
    | .ok (store, session, txn) =>
      if txn.doomed then (store, session, .ok .doomed)
      else
        let found := table.lookupRow store.ledger (txn.view ownStatement) index key
        (store, session, found.map .ofOption)

/-- Goes on with an index scan over the rows of a table. The scan moves over the entries of the
index it was opened on, whichever table that is. -/
def advanceScan (store : Store) (txn : Transaction) (id : TableId) (scan : IndexScan)
    (ownStatement : Bool) : IndexScan × Except Error Finding :=
  match (do return (← store.table id, ← (← store.table scan.table).index scan.index) :
      Except Error (Table × Index)) with
  | .error error => (scan, .error error)
  | .ok (table, index) =>
    let (scan, found) := scan.advance index table store.ledger (txn.view ownStatement)
    (scan, found.map .ofOption)

/-- Opens an index scan and goes to its first row. A doomed transaction gets a scan that is at its
end. -/
def openScan (store : Store) (session : Session) (id : TableId) (kind : ScanKind) (index : Nat)
    (key : Bytes) (inclusive ownStatement : Bool) : Step (IndexScan × Finding) :=
  match store.indexFor id index key with
  | .error error => (store, session, .error error)
  | .ok (_, on) =>
    match store.enter session with
    | .error error => (store, session, .error error)
    | .ok (store, session, txn) =>
      if txn.doomed then
        let scan : IndexScan :=
          { table := id, index, kind, cursor := { direction := kind.direction }
            pending := false, finished := true }
        (store, session, .ok (scan, .doomed))
      else
        let scan : IndexScan :=
          { table := id, index, kind, cursor := kind.cursor on.trie key inclusive
            pending := true, finished := false }
        let (scan, found) := store.advanceScan txn id scan ownStatement
        (store, session, found.map (scan, ·))

/-- Goes on with an index scan. The scan has to be of the kind that is asked for. -/
def nextInScan (store : Store) (session : Session) (id : TableId) (kind : ScanKind)
    (scan : IndexScan) (ownStatement : Bool) : IndexScan × Step Finding :=
  if scan.kind ≠ kind then
    let opened := scan.kind.describe
    let asked := kind.describe
    (scan, store, session,
      .error (.invalidArgument s!"cursor opened as {opened} scan advanced as {asked}"))
  else
    match store.enter session with
    | .error error => (scan, store, session, .error error)
    | .ok (store, session, txn) =>
      if txn.doomed then (scan, store, session, .ok .doomed)
      else
        let (scan, found) := store.advanceScan txn id scan ownStatement
        (scan, store, session, found)

/-- Goes on with a table scan by one row. -/
def nextInTable (store : Store) (session : Session) (id : TableId) (scan : TableScan)
    (ownStatement : Bool) : TableScan × Step TableScanStep :=
  match store.table id with
  | .error error => (scan, store, session, .error error)
  | .ok table =>
    match store.enter session with
    | .error error => (scan, store, session, .error error)
    | .ok (store, session, txn) =>
      if txn.doomed then (scan, store, session, .error .transactionAborted)
      else
        let (scan, step) := scan.advance table store.ledger (txn.view ownStatement)
        (scan, store, session, .ok step)

/-! ## 4. Structure and reclamation -/

/-- Adds an index to a table; returns its number, the longest key of its fields and the number of
rows whose key was owned by another row already. -/
def buildIndex (store : Store) (id : TableId) (spec : KeySpec)
    (visit : Table.Visit := .byPlace) : Store × Except Error (Nat × Nat × Nat) :=
  match (do (← store.table id).buildIndex store.ledger spec visit : Except Error _) with
  | .error error => (store, .error error)
  | .ok (table, index, filling) =>
    (store.setTable id table, .ok (index, filling.index.spec.width, filling.violations))

/-- Frees what no snapshot can reach in one table. -/
def reclaimTable (store : Store) (id : TableId) : Store × ReclaimStats :=
  match store.tables[id]? with
  | none => (store, {})
  | some table =>
    let (table, ledger, stats) := table.reclaim store.ledger
    ({ store with ledger }.setTable id table, stats)

/-- Frees what no snapshot can reach, table by table in the given order. -/
def reclaimTables (store : Store) : List TableId → Store × ReclaimStats
  | [] => (store, {})
  | id :: ids =>
    let (store, stats) := store.reclaimTable id
    let (store, more) := store.reclaimTables ids
    (store, stats.add more)

/-! ## 5. Logs in parts -/

/-- Undoing begins with the last write. -/
theorem undo_append (store : Store) (transaction : Int) (later earlier : List LogEntry) :
    store.undo transaction (later ++ earlier) =
      (store.undo transaction later).undo transaction earlier := by
  simp [undo]

end Store

end SnapshotStore
