import Std.Data.ExtTreeMap

/-!
# The ledger of transactions

The ledger hands out transaction ids and a sequence that both begins and commits draw from. What a
transaction wrote is visible to a snapshot exactly if it committed with a sequence at or below the
snapshot, so this is all there is to visibility between transactions.

Transactions that have ended are forgotten when nobody can tell the difference. A commit at or
below the *horizon*, the oldest snapshot that anyone holds or will ever take, is visible to
everybody; its entry goes, and the highest id that went is kept as a mark. An id at or below the
mark that is neither active nor aborted committed long ago, and its commit sequence is reported as
`frozen`, which is below every snapshot. An abort is remembered until no snapshot is as old as it
is; what the transaction wrote was undone before, so nobody asks about its id later.
-/

namespace SnapshotStore

/-- The state of every transaction that somebody may still ask about. -/
structure Ledger where
  /-- The last transaction id handed out. -/
  lastId : Int := 0
  /-- The last sequence drawn. -/
  sequence : Int := 0
  /-- The snapshot of each active transaction. -/
  active : Std.ExtTreeMap Int Int := ∅
  /-- The commit sequence of each committed transaction that has not been forgotten. -/
  committed : Std.ExtTreeMap Int Int := ∅
  /-- The sequence at the abort of each aborted transaction that has not been forgotten. -/
  aborted : Std.ExtTreeMap Int Int := ∅
  /-- The highest id of a committed transaction that has been forgotten. -/
  prunedMark : Int := 0
  /-- Whether new transactions are admitted. -/
  accepting : Bool := true
deriving DecidableEq, Inhabited

namespace Ledger

/-- The id that no transaction has. -/
def noTransaction : Int := 0

/-- The commit sequence of a transaction whose commit has been forgotten. -/
def frozen : Int := 0

/-- Begins a transaction and returns its id and its snapshot; `none` if none is admitted. -/
def begin? (ledger : Ledger) : Option (Ledger × Int × Int) :=
  if ledger.accepting then
    let id := ledger.lastId + 1
    let snapshot := ledger.sequence + 1
    some ({ ledger with
      lastId := id, sequence := snapshot, active := ledger.active.insert id snapshot },
      id, snapshot)
  else none

/-- Takes a fresh snapshot for an active transaction. -/
def refresh (ledger : Ledger) (id : Int) : Ledger × Int :=
  ({ ledger with active := ledger.active.modify id fun _ => ledger.sequence }, ledger.sequence)

/-- Commits a transaction and returns its commit sequence. -/
def commit (ledger : Ledger) (id : Int) : Ledger × Int :=
  let sequence := ledger.sequence + 1
  ({ ledger with
    sequence
    committed := ledger.committed.insert id sequence
    active := ledger.active.erase id }, sequence)

/-- Aborts a transaction, whose writes have been undone. -/
def abort (ledger : Ledger) (id : Int) : Ledger :=
  { ledger with
    aborted := ledger.aborted.insert id ledger.sequence
    active := ledger.active.erase id }

/-- The transaction is running. -/
def isActive (ledger : Ledger) (id : Int) : Bool := ledger.active.contains id

/-- The commit sequence of a transaction, if it committed. -/
def commitSequence? (ledger : Ledger) (id : Int) : Option Int :=
  if id ≤ noTransaction then none
  else
    match ledger.committed[id]? with
    | some sequence => some sequence
    | none =>
      if id > ledger.prunedMark || ledger.active.contains id || ledger.aborted.contains id then none
      else some frozen

/-- The transaction committed, at whatever sequence. -/
def isCommitted (ledger : Ledger) (id : Int) : Bool := (ledger.commitSequence? id).isSome

/-- The transaction committed at or below `bound`. -/
def committedBy (ledger : Ledger) (id bound : Int) : Bool :=
  (ledger.commitSequence? id).any (· ≤ bound)

/-- What transaction `writer` wrote is visible to transaction `viewer` under `snapshot`. -/
def isVisible (ledger : Ledger) (writer viewer snapshot : Int) : Bool :=
  writer == viewer || ledger.committedBy writer snapshot

/-- The oldest snapshot that anyone holds or will ever take. -/
def horizon (ledger : Ledger) : Int :=
  (ledger.active.toList.map Prod.snd).foldl min ledger.sequence

/-- Forgets the transactions that nobody can tell apart from ones that ended long ago, and counts
them. -/
def prune (ledger : Ledger) : Ledger × Nat :=
  let horizon := ledger.horizon
  let committed := ledger.committed.filter fun _ sequence => sequence ≤ horizon
  let aborted := ledger.aborted.filter fun _ sequence => sequence < horizon
  ({ ledger with
    committed := ledger.committed.filter fun _ sequence => !(sequence ≤ horizon)
    aborted := ledger.aborted.filter fun _ sequence => !(sequence < horizon)
    prunedMark := (committed.toList.map Prod.fst).foldl max ledger.prunedMark },
    committed.size + aborted.size)

/-- Admits no new transactions from now on. -/
def stop (ledger : Ledger) : Ledger := { ledger with accepting := false }

/-- Admits new transactions again. -/
def start (ledger : Ledger) : Ledger := { ledger with accepting := true }

end Ledger

end SnapshotStore
