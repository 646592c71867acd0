import SnapshotStore.Error
import SnapshotStore.Isolation
import SnapshotStore.Version.Chain

/-!
# Transactions and sessions

A session runs one transaction after another. A running transaction remembers every write it made,
the last one first, so that it can be undone write by write in the opposite order. A transaction
that lost a write-write conflict is *doomed*: it can do nothing any more but roll back.

A session also begins transactions on its own: the first operation of a session that runs none
begins one.
-/

namespace SnapshotStore

/-- The number of a table in its store. -/
abbrev TableId := Nat

/-- One effect of a write on a table. -/
inductive Write where
  /-- A version was put on a row's chain, or began it. -/
  | created (row : RowHandle) (version : VersionId) (isNewRow : Bool)
  /-- A version was marked deleted. -/
  | marked (row : RowHandle) (version : VersionId)
  /-- An entry was added to an index. -/
  | bound (index : Nat) (entry : Bytes) (row : RowHandle)
  /-- An entry of an index went out of use: the row has moved to another key. -/
  | outdated (index : Nat) (entry : Bytes) (row : RowHandle)
deriving DecidableEq

/-- A write as the log of a transaction remembers it. -/
structure LogEntry where
  statement : Nat
  table : TableId
  write : Write
deriving DecidableEq

/-- A running transaction. -/
structure Transaction where
  id : Int
  snapshot : Int
  /-- The current statement. -/
  statement : Nat := 1
  /-- The transaction lost a write-write conflict. -/
  doomed : Bool := false
  /-- The writes made so far, the last one first. -/
  log : List LogEntry := []
deriving DecidableEq

namespace Transaction

/-- Statement numbers stop here; all later statements share this one. -/
def lastStatement : Nat := 0xFFFFFFFF

/-- Begins a transaction. -/
def begin (ledger : Ledger) : Except Error (Ledger × Transaction) :=
  match ledger.begin? with
  | none => .error .engineClosed
  | some (ledger, id, snapshot) => .ok (ledger, { id, snapshot })

/-- The stamp that the transaction's writes bear. -/
def stamp (txn : Transaction) : Stamp := Stamp.of txn.id txn.statement

/-- The view under which the transaction reads. -/
def view (txn : Transaction) (ownStatement : Bool) : View :=
  ⟨txn.id, txn.snapshot, txn.statement, ownStatement⟩

/-- Goes on to the next statement. -/
def nextStatement (txn : Transaction) : Transaction :=
  { txn with statement := min (txn.statement + 1) lastStatement }

/-- Remembers writes to a table, given in the order in which they were made. -/
def remember (txn : Transaction) (table : TableId) (writes : List Write) : Transaction :=
  { txn with log := (writes.map (LogEntry.mk txn.statement table)).reverse ++ txn.log }

/-- The writes of the current statement, the last one first. -/
def currentWrites (txn : Transaction) : List LogEntry :=
  txn.log.takeWhile (·.statement == txn.statement)

/-- The transaction without the writes of the current statement. -/
def forgetStatement (txn : Transaction) : Transaction :=
  { txn with log := txn.log.dropWhile (·.statement == txn.statement) }

end Transaction

/-- What a commit or a rollback is meant to end. -/
inductive Scope where
  /-- One statement. It ends the transaction too, unless the session runs transactions of several
  statements. -/
  | statement
  /-- The whole unit of work. -/
  | session
deriving DecidableEq, Inhabited

/-- A worker's place in the store. -/
structure Session where
  /-- The worker's number. -/
  worker : Nat
  /-- The worker on whose behalf the last transaction was begun. -/
  owner : Nat
  isolation : Isolation
  /-- The end of a statement leaves the transaction open. -/
  multiStatement : Bool := false
  transaction : Option Transaction := none
deriving DecidableEq

namespace Session

/-- A session of a worker that runs no transaction. -/
def idle (worker : Nat) (isolation : Isolation) : Session := { worker, owner := worker, isolation }

/-- A transaction is running. -/
def isActive (session : Session) : Bool := session.transaction.isSome

/-- Begins a transaction on behalf of `owner`. -/
def begin (session : Session) (ledger : Ledger) (owner : Nat) : Except Error (Ledger × Session) :=
  match session.transaction with
  | some _ => .error .transactionAlreadyStarted
  | none => do
    let (ledger, txn) ← Transaction.begin ledger
    return (ledger, { session with owner, transaction := some txn })

/-- The running transaction, begun now if none was running. -/
def enter (session : Session) (ledger : Ledger) :
    Except Error (Ledger × Session × Transaction) :=
  match session.transaction with
  | some txn => .ok (ledger, session, txn)
  | none => do
    let (ledger, txn) ← Transaction.begin ledger
    return (ledger, { session with transaction := some txn }, txn)

/-- Goes on to the next statement of the running transaction, which takes a fresh snapshot at the
read-committed level. -/
def beginStatement (session : Session) (ledger : Ledger) : Ledger × Session :=
  match session.transaction with
  | none => (ledger, session)
  | some txn =>
    let txn := txn.nextStatement
    match session.isolation with
    | .snapshot => (ledger, { session with transaction := some txn })
    | .readCommitted =>
      let (ledger, snapshot) := ledger.refresh txn.id
      (ledger, { session with transaction := some { txn with snapshot } })

/-- Sets the level of the transactions to come. -/
def setIsolation (session : Session) (level : Isolation) : Except Error Session :=
  if session.isActive then .error .transactionAlreadyStarted
  else .ok { session with isolation := level }

/-- Dooms the running transaction. -/
def doom (session : Session) : Session :=
  { session with transaction := session.transaction.map ({ · with doomed := true }) }

/-- Remembers writes of the running transaction. -/
def remember (session : Session) (table : TableId) (writes : List Write) : Session :=
  { session with transaction := session.transaction.map (·.remember table writes) }

/-- Ends the running transaction. -/
def reset (session : Session) : Session := { session with transaction := none }

/-- The description that logs use; a session that runs no transaction shows zeros. -/
def describe (session : Session) : String :=
  let shown : Transaction := session.transaction.getD { id := 0, snapshot := 0, statement := 0 }
  Text.described "TransactionContext" [
    ("state", if session.isActive then "Active" else "Idle"),
    ("txn_id", toString shown.id),
    ("snapshot", toString shown.snapshot),
    ("stmt_id", toString shown.statement),
    ("isolation_level", session.isolation.describe),
    ("abort_pending", Text.truth shown.doomed),
    ("writes", toString shown.log.length)]

end Session

end SnapshotStore
