import SnapshotStore.Table.Basic

/-!
# Reading rows

A reader who follows an index entry reads the chain of the row it leads to under its view, and
takes the row only if the version it sees carries the key of the entry. So an outdated entry shows
nothing to a reader who sees the row under its new key, and shows the row to one who still sees it
under the old one.

An index scan is a cursor over the entries of an index, with the entries that show nothing passed
over. A table scan is a cursor over the primary structure and passes nothing over: a row that the
reader does not see is reported as such, one at a time.
-/

namespace SnapshotStore

namespace Table

/-- The row that an entry shows to a view: the version the view sees, if it carries the key. -/
def visibleRow (table : Table) (ledger : Ledger) (view : View) (spec : KeySpec) (entry : Bytes)
    (row : RowHandle) : Except Error (Option RowRef) :=
  match table.rows[row]? with
  | none => .ok none
  | some chain =>
    match Chain.read ledger view chain with
    | .deleted | .invisible => .ok none
    | .visible version older => do
      if ← spec.carries version.record entry then
        return some ⟨row, version, older⟩
      else
        return none

/-- The first row in handle order that the view sees with that key. -/
def lookupRow (table : Table) (ledger : Ledger) (view : View) (index : Index) (key : Bytes) :
    Except Error (Option RowRef) := do
  let beginning ← Key.lookup table.maxKeyLength key
  let entries := (index.trie.entriesBeginning beginning).filter fun (entry, _) =>
    entry.length == beginning.length + RowHandle.width
  entries.findSomeM? fun (entry, row) => table.visibleRow ledger view index.spec entry row

end Table

/-! ## Index scans -/

/-- Which entries of an index a scan runs over, and in which order. -/
inductive ScanKind where
  /-- Ascending from a start. -/
  | range
  /-- Descending from a start. -/
  | reverseRange
  /-- Ascending over the keys with a given beginning. -/
  | beginning
deriving DecidableEq, Inhabited

namespace ScanKind

/-- The direction of the scan. -/
def direction : ScanKind → Direction
  | range | beginning => .forward
  | reverseRange => .backward

/-- The name that messages use. -/
def describe : ScanKind → String
  | range => "Range"
  | reverseRange => "ReverseRange"
  | beginning => "Prefix"

/-- Where among the entries a scan over keys starts. The entries of a key `k` lie between `encode k`
and `encode k` with the greatest handle; a start that has to pass all of them, or to take in all of
them from above, is the upper end, any other start the lower one. -/
def start (kind : ScanKind) (key : Bytes) (inclusive : Bool) : Bytes × Bool :=
  let greatest := List.replicate RowHandle.width 255
  match kind with
  | beginning => (Key.escape key, true)
  | range => (if inclusive then Key.encode key else Key.encode key ++ greatest, inclusive)
  | reverseRange => (if inclusive then Key.encode key ++ greatest else Key.encode key, inclusive)

/-- A cursor on the first entry of the scan. -/
def cursor (kind : ScanKind) (trie : Trie) (key : Bytes) (inclusive : Bool) : Trie.Cursor :=
  let (bytes, inclusive) := kind.start key inclusive
  match kind with
  | beginning => trie.scanBeginning bytes
  | range | reverseRange => trie.scan bytes inclusive kind.direction

end ScanKind

/-- The position of a scan over an index. -/
structure IndexScan where
  /-- The table and the number of the index. -/
  table : TableId
  index : Nat
  kind : ScanKind
  cursor : Trie.Cursor
  /-- The cursor rests on an entry that has not been looked at. -/
  pending : Bool
  /-- The scan has reported its end. -/
  finished : Bool
deriving DecidableEq, Inhabited

namespace IndexScan

/-- Looks at up to `count` entries of the scan's index for one that shows a row of `table` to the
view. -/
def advanceWithin (index : Index) (table : Table) (ledger : Ledger) (view : View) :
    (count : Nat) → IndexScan → IndexScan × Except Error (Option Table.RowRef)
  | 0, scan => ({ scan with finished := true }, .ok none)
  | count + 1, scan =>
    let cursor := if scan.pending then scan.cursor else scan.cursor.next index.trie
    let scan := { scan with cursor, pending := false }
    match cursor.current with
    | none => ({ scan with finished := true }, .ok none)
    | some (entry, row) =>
      match table.visibleRow ledger view index.spec entry row with
      | .error error => (scan, .error error)
      | .ok (some ref) => (scan, .ok (some ref))
      | .ok none => advanceWithin index table ledger view count scan

/-- Moves to the next entry that shows a row. There is at most the pending entry, one entry for each
node of the trie, and the end. -/
def advance (scan : IndexScan) (index : Index) (table : Table) (ledger : Ledger) (view : View) :
    IndexScan × Except Error (Option Table.RowRef) :=
  if scan.finished then (scan, .ok none)
  else scan.advanceWithin index table ledger view (index.trie.nodeCount + 2)

/-- The description that logs use, given the name of the index. -/
def describe (scan : IndexScan) (name : String) : String :=
  Text.described "IndexCursor" [
    ("index", Text.quoted name),
    ("kind", scan.kind.describe),
    ("finished", Text.truth scan.finished)]

end IndexScan

/-! ## Table scans -/

/-- The position of a scan over all rows of a table. -/
structure TableScan where
  cursor : Trie.Cursor
  /-- The cursor rests on a row that has not been looked at. -/
  pending : Bool := true
  /-- The scan has reported its end. -/
  finished : Bool := false
deriving DecidableEq, Inhabited

/-- One step of a table scan. -/
inductive TableScanStep where
  | row (row : Table.RowRef)
  | endOfTable
  /-- The reader sees the row as deleted. -/
  | deleted
  /-- The reader sees no version of the row. -/
  | invisible
deriving DecidableEq

namespace TableScan

/-- A scan that starts at the first row. -/
def first (table : Table) : TableScan := { cursor := table.primary.scan [] true .forward }

/-- Goes on by one row. -/
def advance (scan : TableScan) (table : Table) (ledger : Ledger) (view : View) :
    TableScan × TableScanStep :=
  if scan.finished then (scan, .endOfTable)
  else
    let cursor := if scan.pending then scan.cursor else scan.cursor.next table.primary
    let scan := { scan with cursor, pending := false }
    match cursor.current with
    | none => ({ scan with finished := true }, .endOfTable)
    | some (_, row) =>
      match table.rows[row]? with
      | none => (scan, .deleted)
      | some chain =>
        match Chain.read ledger view chain with
        | .visible version older => (scan, .row ⟨row, version, older⟩)
        | .deleted => (scan, .deleted)
        | .invisible => (scan, .invisible)

end TableScan

end SnapshotStore
