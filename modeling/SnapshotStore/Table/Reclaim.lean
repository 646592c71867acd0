import SnapshotStore.Table.Basic

/-!
# Reclamation

Reclamation frees what no snapshot, held now or taken later, can reach. It works from the horizon
of the ledger and has four parts, in this order: rows whose deletion was committed at or below the
horizon are purged; chains whose newest version everybody sees lose their history; entries outdated
by a commit at or below the horizon go, unless a version that somebody may see carries their key
again; and the ledger forgets what it no longer needs.
-/

namespace SnapshotStore

/-- What reclamation freed. -/
structure ReclaimStats where
  rows : Nat := 0
  versions : Nat := 0
  bindings : Nat := 0
  transactions : Nat := 0
deriving DecidableEq, Inhabited

namespace ReclaimStats

/-- The sum of two counts. -/
def add (a b : ReclaimStats) : ReclaimStats where
  rows := a.rows + b.rows
  versions := a.versions + b.versions
  bindings := a.bindings + b.bindings
  transactions := a.transactions + b.transactions

end ReclaimStats

namespace Chain

/-- Some version that a snapshot may see carries the key of the entry: one from the newest down to
the first that everybody sees. -/
def mayCarry (ledger : Ledger) (horizon : Int) (spec : KeySpec) (entry : Bytes) : Chain → Bool
  | [] => false
  | version :: older =>
    match spec.carries version.record entry with
    | .ok true => true
    | _ =>
      !ledger.committedBy version.created.transaction horizon
        && mayCarry ledger horizon spec entry older

end Chain

namespace Table

/-! ## 1. Deleted rows -/

/-- Takes the entries of one version out of every index. -/
def unbindVersion (row : RowHandle) (table : Table) (version : Version) : Table :=
  { table with
    indexes := table.indexes.map fun index =>
      match index.spec.entry table.maxKeyLength version.record row with
      | .ok entry => { index with trie := (index.trie.remove entry row).1 }
      | .error _ => index }

/-- Drops a row and every entry that a version of it has, and says whether the row was there. -/
def purgeRow (table : Table) (row : RowHandle) : Table × Bool :=
  match table.rows[row]? with
  | none => (table, false)
  | some chain =>
    let table := List.foldl (unbindVersion row) table chain
    (table.forgetRow row, true)

/-- Purges rows and counts those that were there. -/
def purgeRows (table : Table) : List RowHandle → Table × Nat
  | [] => (table, 0)
  | row :: rows =>
    let (table, here) := table.purgeRow row
    let (table, count) := table.purgeRows rows
    (table, count + if here then 1 else 0)

/-- Purges the rows whose deletion is at or below the horizon. -/
def purgeDeleted (table : Table) (horizon : Int) : Table × Nat :=
  let (ready, waiting) := table.pendingDeletes.partition fun (_, sequence) => sequence ≤ horizon
  purgeRows { table with pendingDeletes := waiting } (ready.map Prod.fst)

/-! ## 2. History -/

/-- A chain without the history that nobody can reach, if it is longer than the table keeps. -/
def truncated (table : Table) (ledger : Ledger) (horizon : Int) (chain : Chain) : Chain :=
  if chain.length > table.maxVersionHistory then chain.truncate ledger horizon else chain

/-- Truncates every chain and counts the versions dropped. -/
def truncateChains (table : Table) (ledger : Ledger) (horizon : Int) : Table × Nat :=
  ({ table with rows := table.rows.map fun _ chain => table.truncated ledger horizon chain },
    (table.rows.toList.map fun (_, chain) =>
      chain.length - (table.truncated ledger horizon chain).length).foldr (· + ·) 0)

/-! ## 3. Outdated entries -/

/-- An outdated entry has to stay: the row is there, and a version that somebody may see carries
its key. -/
def mustKeep (table : Table) (ledger : Ledger) (horizon : Int) (index : Index)
    (outdated : OutdatedEntry) : Bool :=
  match table.rows[outdated.row]? with
  | none => false
  | some chain => chain.mayCarry ledger horizon index.spec outdated.entry

/-- Takes an outdated entry out of its index unless it has to stay, and says whether it went. -/
def dropOutdated (table : Table) (ledger : Ledger) (horizon : Int) (outdated : OutdatedEntry) :
    Table × Bool :=
  match table.indexes[outdated.index]? with
  | none => (table, false)
  | some index =>
    if table.mustKeep ledger horizon index outdated then (table, false)
    else
      let (trie, gone) := index.trie.remove outdated.entry outdated.row
      (table.modifyIndex outdated.index fun _ => trie, gone)

/-- Takes outdated entries out and counts those that went. -/
def dropAllOutdated (ledger : Ledger) (horizon : Int) (table : Table) :
    List OutdatedEntry → Table × Nat
  | [] => (table, 0)
  | outdated :: rest =>
    let (table, gone) := table.dropOutdated ledger horizon outdated
    let (table, count) := dropAllOutdated ledger horizon table rest
    (table, count + if gone then 1 else 0)

/-- Takes out the entries that were outdated at or below the horizon. -/
def unbindOutdated (table : Table) (ledger : Ledger) (horizon : Int) : Table × Nat :=
  let (ready, waiting) := table.outdated.partition fun outdated => outdated.sequence ≤ horizon
  dropAllOutdated ledger horizon { table with outdated := waiting } ready

/-! ## 4. All together -/

/-- Frees what no snapshot can reach. -/
def reclaim (table : Table) (ledger : Ledger) : Table × Ledger × ReclaimStats :=
  let horizon := ledger.horizon
  let (table, rows) := table.purgeDeleted horizon
  let (table, versions) := table.truncateChains ledger horizon
  let (table, bindings) := table.unbindOutdated ledger horizon
  let (ledger, transactions) := ledger.prune
  (table, ledger, { rows, versions, bindings, transactions })

end Table

end SnapshotStore
