import SnapshotStore.Table.Basic

/-!
# Who owns a key

A key of a unique index belongs to one row at a time. Entries alone cannot tell, because they stay
behind when a row gives its key up, so a writer who wants a key looks at the chains of all other
rows stored under it. A row still owns the key if its newest version carries it and is not deleted
for good. While the newest version is another transaction's and not committed, the version below it
counts too: that transaction may yet be undone, and then the row has its old key again.

Adding an entry to an index is refused if the key is taken. A refused step leaves the table alone.
-/

namespace SnapshotStore

namespace Chain

/-- A row with this chain owns the key of the entry, as `transaction` has to see it. A deletion
that is committed, or the transaction's own, has given the key up. -/
def owns (chain : Chain) (spec : KeySpec) (ledger : Ledger) (transaction : Int) (entry : Bytes) :
    Except Error Bool :=
  match chain with
  | [] => .ok false
  | newest :: older =>
    if newest.deleted.any fun stamp =>
        stamp.transaction == transaction || ledger.isCommitted stamp.transaction then
      .ok false
    else do
      if ← spec.carries newest.record entry then
        return true
      let creator := newest.created.transaction
      if creator == transaction || ledger.isCommitted creator then
        return false
      match older with
      | [] => return false
      | previous :: _ => spec.carries previous.record entry

end Chain

namespace Table

/-- Why a step of a write was refused. -/
inductive Refusal where
  /-- Another row owns the key in the unique index of that number. -/
  | taken (index : Nat)
  | failed (error : Error)
deriving DecidableEq

/-- A row other than `row` owns the key of the entry in the index. -/
def isOwned (table : Table) (ledger : Ledger) (transaction : Int) (index : Index)
    (entry : Bytes) (row : RowHandle) : Except Error Bool :=
  ((index.owners entry).filter (· ≠ row)).anyM fun owner =>
    match table.rows[owner]? with
    | none => .ok false
    | some chain => chain.owns index.spec ledger transaction entry

/-- Adds an entry to an index, unless the index is unique and another row owns the key. -/
def bindEntry (table : Table) (ledger : Ledger) (transaction : Int) (id : Nat) (index : Index)
    (entry : Bytes) (row : RowHandle) : Except Refusal (Table × List Write) := do
  if index.spec.unique then
    if ← (table.isOwned ledger transaction index entry row).mapError .failed then
      throw (.taken id)
  match index.trie.putIfAbsent entry row with
  | (trie, none) => return (table.modifyIndex id fun _ => trie, [.bound id entry row])
  | (trie, some _) => return (table.modifyIndex id fun _ => trie, [])

/-- Adds the entry of a new row's record to an index. -/
def bindRecord (ledger : Ledger) (transaction : Int) (record : Record) (row : RowHandle)
    (table : Table) (id : Nat) : Except Refusal (Table × List Write) := do
  let index ← (table.index id).mapError .failed
  let entry ← (index.spec.entry table.maxKeyLength record row).mapError .failed
  table.bindEntry ledger transaction id index entry row

/-- Adds the entry of a row's new record to an index if the key has changed; the entry of the
record it replaces is then outdated. -/
def rebindRecord (ledger : Ledger) (transaction : Int) (old new : Record) (row : RowHandle)
    (table : Table) (id : Nat) : Except Refusal (Table × List Write) := do
  let index ← (table.index id).mapError .failed
  if ← (index.spec.sameKey old new).mapError .failed then
    return (table, [])
  let oldEntry ← (index.spec.entry table.maxKeyLength old row).mapError .failed
  let newEntry ← (index.spec.entry table.maxKeyLength new row).mapError .failed
  let (table, writes) ← table.bindEntry ledger transaction id index newEntry row
  return (table, writes ++ [.outdated id oldEntry row])

/-- Takes a step for each index in turn until one is refused, and returns the writes made and the
refusal. -/
def forEachIndex (step : Table → Nat → Except Refusal (Table × List Write)) :
    List Nat → Table → Table × List Write × Option Refusal
  | [], table => (table, [], none)
  | id :: ids, table =>
    match step table id with
    | .error refusal => (table, [], some refusal)
    | .ok (table, writes) =>
      let (table, later, refusal) := forEachIndex step ids table
      (table, writes ++ later, refusal)

end Table

end SnapshotStore
