import SnapshotStore.Store

/-!
# Sessions at work on a store

A store together with the sessions that work on it and the scans they have open, and the requests
they make. A request names its session, its table and its scan by number, so a run of a store under
any number of workers is a list of requests, and everything that a worker can learn from it is the
list of replies.
-/

namespace SnapshotStore

/-- The number of a session. -/
abbrev SessionId := Nat

/-- The number of an open scan. -/
abbrev ScanId := Nat

/-- A store at work. -/
structure Service where
  store : Store := {}
  /-- The number of the last session opened; the first is session `1`. -/
  lastSession : SessionId := 0
  sessions : Std.ExtTreeMap SessionId Session := ∅
  indexScans : Std.ExtTreeMap ScanId IndexScan := ∅
  tableScans : Std.ExtTreeMap ScanId TableScan := ∅

/-- What a worker asks of a store. -/
inductive Request where
  /-- Begin a transaction on behalf of a worker. -/
  | begin (session : SessionId) (owner : Nat)
  | beginStatement (session : SessionId)
  | commit (session : SessionId) (scope : Scope)
  | rollback (session : SessionId) (scope : Scope)
  | abort (session : SessionId)
  | setIsolation (session : SessionId) (level : Isolation)
  | setMultiStatement (session : SessionId) (on : Bool)
  | insert (session : SessionId) (table : TableId) (record : Record)
  | update (session : SessionId) (table : TableId) (row : RowHandle) (record : Record)
  | delete (session : SessionId) (table : TableId) (row : RowHandle)
  | lookup (session : SessionId) (table : TableId) (index : Nat) (key : Bytes)
      (ownStatement : Bool)
  | openScan (session : SessionId) (table : TableId) (scan : ScanId) (kind : ScanKind)
      (index : Nat) (key : Bytes) (inclusive ownStatement : Bool)
  | nextInScan (session : SessionId) (table : TableId) (scan : ScanId) (kind : ScanKind)
      (ownStatement : Bool)
  | openTableScan (table : TableId) (scan : ScanId)
  | nextInTable (session : SessionId) (table : TableId) (scan : ScanId) (ownStatement : Bool)
  /-- Add an index, and visit the rows in that order to fill it. -/
  | buildIndex (table : TableId) (spec : KeySpec) (visit : Table.Visit := .byPlace)
  /-- Free what no snapshot can reach in these tables, one after another. -/
  | reclaim (tables : List TableId)
  /-- Have a new session, which runs no transaction. -/
  | openSession (isolation : Isolation)
  /-- Undo what the session has running, and drop it. -/
  | closeSession (session : SessionId)
  /-- Admit new transactions, or admit none. -/
  | setAccepting (on : Bool)

/-- What a store answers. -/
inductive Reply where
  | done
  | opened (session : SessionId)
  | failed (error : Error)
  | committed (outcome : Store.CommitOutcome)
  | wrote (outcome : WriteOutcome)
  | found (finding : Store.Finding)
  | scanned (step : TableScanStep)
  /-- The number of the new index, the longest key of its fields and the number of rows whose key
  was owned by another row already. -/
  | indexed (index width violations : Nat)
  | reclaimed (stats : ReclaimStats)
  /-- There is no session, scan or table of that number. -/
  | unknown
deriving DecidableEq

namespace Reply

/-- The reply to an operation that may have failed. -/
def of {α : Type} (reply : α → Reply) : Except Error α → Reply
  | .ok a => reply a
  | .error error => failed error

end Reply

namespace Service

/-- Has an operation done for a session and keeps what it makes of the store and the session. -/
def forSession (service : Service) (id : SessionId)
    (operation : Store → Session → Store × Session × Reply) : Service × Reply :=
  match service.sessions[id]? with
  | none => (service, .unknown)
  | some session =>
    let (store, session, reply) := operation service.store session
    ({ service with store, sessions := service.sessions.insert id session }, reply)

/-- Has an operation done that may fail. -/
def attempt {α : Type} (service : Service) (id : SessionId)
    (operation : Store → Session → Store.Step α) (reply : α → Reply) : Service × Reply :=
  service.forSession id fun store session =>
    let (store, session, result) := operation store session
    (store, session, .of reply result)

/-- Has an operation done that cannot fail. -/
def perform (service : Service) (id : SessionId)
    (operation : Store → Session → Store × Session) : Service × Reply :=
  service.forSession id fun store session =>
    let (store, session) := operation store session
    (store, session, .done)

/-- Opens an index scan under a number; a scan that could not be opened leaves the number as it
was. -/
def openScan (service : Service) (session : SessionId) (id : ScanId)
    (operation : Store → Session → Store.Step (IndexScan × Store.Finding)) : Service × Reply :=
  match service.sessions[session]? with
  | none => (service, .unknown)
  | some asking =>
    let (store, asking, result) := operation service.store asking
    let service := { service with store, sessions := service.sessions.insert session asking }
    match result with
    | .error error => (service, .failed error)
    | .ok (scan, finding) =>
      ({ service with indexScans := service.indexScans.insert id scan }, .found finding)

/-- Goes on with an index scan. -/
def nextInScan (service : Service) (session : SessionId) (id : ScanId)
    (operation : Store → Session → IndexScan → IndexScan × Store.Step Store.Finding) :
    Service × Reply :=
  match service.sessions[session]?, service.indexScans[id]? with
  | some asking, some scan =>
    let (scan, store, asking, result) := operation service.store asking scan
    ({ service with
      store
      sessions := service.sessions.insert session asking
      indexScans := service.indexScans.insert id scan }, .of .found result)
  | _, _ => (service, .unknown)

/-- Goes on with a table scan. -/
def nextInTable (service : Service) (session : SessionId) (id : ScanId)
    (operation : Store → Session → TableScan → TableScan × Store.Step TableScanStep) :
    Service × Reply :=
  match service.sessions[session]?, service.tableScans[id]? with
  | some asking, some scan =>
    let (scan, store, asking, result) := operation service.store asking scan
    ({ service with
      store
      sessions := service.sessions.insert session asking
      tableScans := service.tableScans.insert id scan }, .of .scanned result)
  | _, _ => (service, .unknown)

/-- Answers a request. -/
def handle (service : Service) : Request → Service × Reply
  | .begin session owner =>
    service.attempt session (·.begin · owner) fun () => .done
  | .beginStatement session => service.perform session Store.beginStatement
  | .commit session scope => service.attempt session (·.commit · scope) .committed
  | .rollback session scope => service.perform session (·.rollback · scope)
  | .abort session => service.perform session Store.abort
  | .setIsolation session level =>
    service.forSession session fun store session =>
      match session.setIsolation level with
      | .ok session => (store, session, .done)
      | .error error => (store, session, .failed error)
  | .setMultiStatement session on =>
    service.perform session fun store session => (store, { session with multiStatement := on })
  | .insert session table record => service.attempt session (·.insert · table record) .wrote
  | .update session table row record =>
    service.attempt session (·.update · table row record) .wrote
  | .delete session table row => service.attempt session (·.delete · table row) .wrote
  | .lookup session table index key own =>
    service.attempt session (·.lookup · table index key own) .found
  | .openScan session table scan kind index key inclusive own =>
    service.openScan session scan (·.openScan · table kind index key inclusive own)
  | .nextInScan session table scan kind own =>
    service.nextInScan session scan (·.nextInScan · table kind · own)
  | .openTableScan table scan =>
    match service.store.tables[table]? with
    | none => (service, .unknown)
    | some rows =>
      ({ service with tableScans := service.tableScans.insert scan (.first rows) }, .done)
  | .nextInTable session table scan own =>
    service.nextInTable session scan (·.nextInTable · table · own)
  | .buildIndex table spec visit =>
    let (store, result) := service.store.buildIndex table spec visit
    ({ service with store },
      .of (fun (index, width, violations) => .indexed index width violations) result)
  | .reclaim tables =>
    let (store, stats) := service.store.reclaimTables tables
    ({ service with store }, .reclaimed stats)
  | .openSession isolation =>
    let id := service.lastSession + 1
    ({ service with
      lastSession := id
      sessions := service.sessions.insert id (.idle id isolation) }, .opened id)
  | .closeSession id =>
    let (service, reply) := service.perform id Store.abort
    ({ service with sessions := service.sessions.erase id }, reply)
  | .setAccepting on =>
    let ledger := if on then service.store.ledger.start else service.store.ledger.stop
    ({ service with store.ledger := ledger }, .done)

/-- Answers requests one after another. -/
def run (service : Service) : List Request → Service × List Reply
  | [] => (service, [])
  | request :: requests =>
    let (service, reply) := service.handle request
    let (service, replies) := service.run requests
    (service, reply :: replies)

/-- A run of requests is a run of the first of them and a run of the others from there. -/
theorem run_append (service : Service) (first second : List Request) :
    service.run (first ++ second) =
      let (middle, replies) := service.run first
      let (last, more) := middle.run second
      (last, replies ++ more) := by
  induction first generalizing service with
  | nil => rfl
  | cons request rest ih => simp [run, ih]

/-! ## Whole scans -/

/-- What ended a run of requests for the next row of a scan. -/
inductive ScanEnd where
  /-- The scan is at its end. -/
  | complete
  /-- As many rows were taken as were asked for. -/
  | full
  /-- The transaction is doomed. -/
  | doomed
  /-- A request failed, or there is no such session or scan. -/
  | broken (reply : Reply)

/-- Asks for the next row of an index scan until `count` rows were taken or there are no more. -/
def takeRows (service : Service) (session : SessionId) (table : TableId) (scan : ScanId)
    (kind : ScanKind) (ownStatement : Bool) :
    (count : Nat) → Service × List Table.RowRef × ScanEnd
  | 0 => (service, [], .full)
  | count + 1 =>
    match service.handle (.nextInScan session table scan kind ownStatement) with
    | (service, .found (.row row)) =>
      let (service, rows, ended) :=
        service.takeRows session table scan kind ownStatement count
      (service, row :: rows, ended)
    | (service, .found .nothing) => (service, [], .complete)
    | (service, .found .doomed) => (service, [], .doomed)
    | (service, reply) => (service, [], .broken reply)

/-- Asks for the next step of a table scan until `count` steps were taken or there are no more. -/
def takeSteps (service : Service) (session : SessionId) (table : TableId) (scan : ScanId)
    (ownStatement : Bool) : (count : Nat) → Service × List TableScanStep × ScanEnd
  | 0 => (service, [], .full)
  | count + 1 =>
    match service.handle (.nextInTable session table scan ownStatement) with
    | (service, .scanned .endOfTable) => (service, [], .complete)
    | (service, .scanned step) =>
      let (service, steps, ended) := service.takeSteps session table scan ownStatement count
      (service, step :: steps, ended)
    | (service, reply) => (service, [], .broken reply)

/-- The steps of a table scan up to the end of the table. There is at most the pending row, one row
for each node of the primary structure, and the end. -/
def restOfTable (service : Service) (session : SessionId) (table : TableId) (scan : ScanId)
    (ownStatement : Bool) : Service × List TableScanStep × ScanEnd :=
  let nodes := ((service.store.tables[table]?).map (·.primary.nodeCount)).getD 0
  service.takeSteps session table scan ownStatement (nodes + 2)

end Service

end SnapshotStore
