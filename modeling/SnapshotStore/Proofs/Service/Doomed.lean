import Mathlib
import SnapshotStore.Proofs.History.Concealed
import SnapshotStore.Proofs.Service.Rollback

/-!
# A doomed transaction never takes effect

A transaction that lost a conflict may do nothing any more but end, and every way to end takes back
what it has written. Three facts about one request carry this. What a doomed session asks about rows is
refused, and nothing changes (`Doomed.refused`). Nothing but the requests that end the transaction
clears the mark of doom, whoever makes them (`Doomed.lasts`). And those requests abort it, a commit like
all others (`Doomed.ended`). Along a run a transaction that was doomed once is therefore doomed still or
has aborted (`Onward.fate`); in both cases nobody else sees anything of it, and before the conflict
nobody did because it was running (`Reached.conflict_dooms`).
-/

namespace SnapshotStore

/-! ## 1. What a doomed session may ask -/

namespace Request

/-- The session asks for a new version of a row, or for its deletion. -/
def isRewriteOf (s : SessionId) : Request → Bool
  | .update t _ _ _ | .delete t _ _ => t == s
  | _ => false

/-- The session asks for something about rows. -/
def isRowWorkOf (s : SessionId) : Request → Bool
  | .insert t _ _ | .update t _ _ _ | .delete t _ _ | .lookup t _ _ _ _
  | .openScan t _ _ _ _ _ _ _ | .nextInScan t _ _ _ _ | .nextInTable t _ _ _ => t == s
  | _ => false

/-- The request makes an end of a doomed transaction of the session. `several` says whether the
transactions of the session have several statements. -/
def endsDoomed (s : SessionId) (several : Bool) : Request → Bool
  | .commit t _ | .abort t | .closeSession t => t == s
  | .rollback t scope => t == s && (decide (scope = .session) || !several)
  | _ => false

end Request

namespace Reply

/-- What was asked for was not done: the transaction is doomed, or something is wrong with the request
itself. -/
def isRefusal : Reply → Bool
  | .wrote .conflict | .found .doomed | .failed _ | .unknown => true
  | _ => false

end Reply

namespace Store

variable {store : Store} {session : Session} {txn : Transaction} {α : Type}

/-- The operation is refused and leaves the store and the session as they are. -/
def Refuses (store : Store) (session : Session) (step : Step α) (reply : α → Reply) : Prop :=
  ∃ result, step = (store, session, result) ∧ (Reply.of reply result).isRefusal = true

section Refusals

variable (store) (runs : session.transaction = some txn) (doomed : txn.doomed = true)
include runs doomed

theorem refuses_write (tid : TableId) (check : Table → Except Error Unit)
    (attempt : Table → Ledger → Transaction → Table.Attempt) :
    store.Refuses session (store.write session tid check attempt) .wrote := by
  rw [write]
  split
  · exact ⟨_, rfl, rfl⟩
  · split
    · exact ⟨_, rfl, rfl⟩
    · rw [enter_of_running runs]
      dsimp only
      rw [if_pos doomed]
      exact ⟨_, rfl, rfl⟩

theorem refuses_lookup (tid : TableId) (index : Nat) (key : Bytes) (own : Bool) :
    store.Refuses session (store.lookup session tid index key own) .found := by
  rw [lookup]
  split
  · exact ⟨_, rfl, rfl⟩
  · rw [enter_of_running runs]
    dsimp only
    rw [if_pos doomed]
    exact ⟨_, rfl, rfl⟩

theorem refuses_openScan (tid : TableId) (kind : ScanKind) (index : Nat) (key : Bytes)
    (inclusive own : Bool) :
    store.Refuses session (store.openScan session tid kind index key inclusive own)
      fun (_, finding) => .found finding := by
  rw [openScan]
  split
  · exact ⟨_, rfl, rfl⟩
  · rw [enter_of_running runs]
    dsimp only
    rw [if_pos doomed]
    exact ⟨_, rfl, rfl⟩

theorem refuses_nextInScan (tid : TableId) (kind : ScanKind) (scan : IndexScan) (own : Bool) :
    store.Refuses session (store.nextInScan session tid kind scan own).2 .found := by
  rw [nextInScan]
  split
  · exact ⟨_, rfl, rfl⟩
  · rw [enter_of_running runs]
    dsimp only
    rw [if_pos doomed]
    exact ⟨_, rfl, rfl⟩

theorem refuses_nextInTable (tid : TableId) (scan : TableScan) (own : Bool) :
    store.Refuses session (store.nextInTable session tid scan own).2 .scanned := by
  rw [nextInTable]
  split
  · exact ⟨_, rfl, rfl⟩
  · rw [enter_of_running runs]
    dsimp only
    rw [if_pos doomed]
    exact ⟨_, rfl, rfl⟩

end Refusals

/-- A write that met a conflict leaves its transaction doomed. -/
theorem doomed_of_conflict {work : Work} (ok : store.Ok work)
    (held : ∀ txn, session.transaction = some txn → work txn.id = some txn) {tid : TableId}
    {check : Table → Except Error Unit} {attempt : Table → Ledger → Transaction → Table.Attempt}
    (lost : (store.write session tid check attempt).2.2 = .ok .conflict) :
    ∃ txn, (store.write session tid check attempt).2.1.transaction = some txn ∧
      txn.doomed = true := by
  rcases store.write_cases session tid check attempt with ⟨error, heq⟩ |
    ⟨table, store', session', txn, _, henter, hcases⟩
  · rw [heq] at lost
    cases lost
  obtain ⟨_, _, _, hsession, _⟩ := enter_serves ok held henter
  rcases hcases with ⟨hdoomed, heq⟩ | ⟨_, tried, _, heq⟩
  · rw [heq]
    exact ⟨txn, hsession, hdoomed⟩
  · rw [heq] at lost ⊢
    have houtcome : tried.outcome = .ok .conflict := lost
    rw [Session.settled, houtcome]
    dsimp only
    rw [Session.doom_eq hsession]
    exact ⟨{ txn with doomed := true }, rfl, rfl⟩

end Store

namespace Service

variable {history history' : List Event} {service service' : Service} {s : SessionId} {id : Int}
  {session : Session} {txn : Transaction} {work : Work} {request : Request}

/-- The session runs that transaction, which is doomed. -/
def Doomed (service : Service) (s : SessionId) (id : Int) : Prop :=
  ∃ session txn, service.sessions[s]? = some session ∧ session.transaction = some txn ∧
    txn.id = id ∧ txn.doomed = true

theorem doomed_iff : service.Doomed s id ↔ (service.sessions[s]?.bind (·.transaction)).any
    (fun txn => txn.id == id && txn.doomed) = true := by
  simp only [Doomed, Option.any_eq_true, Option.bind_eq_some_iff, Bool.and_eq_true, beq_iff_eq]
  constructor
  · rintro ⟨session, txn, asks, runs, hid, hdoomed⟩
    exact ⟨txn, ⟨session, asks, runs⟩, hid, hdoomed⟩
  · rintro ⟨txn, ⟨session, asks, runs⟩, hid, hdoomed⟩
    exact ⟨session, txn, asks, runs, hid, hdoomed⟩

instance (service : Service) (s : SessionId) (id : Int) : Decidable (service.Doomed s id) :=
  decidable_of_iff _ doomed_iff.symm

theorem Doomed.asks (doomed : service.Doomed s id) :
    ∃ session, service.sessions[s]? = some session := by
  obtain ⟨session, _, asks, _⟩ := doomed
  exact ⟨session, asks⟩

/-- A session runs one transaction. -/
theorem Doomed.unique {other : Int} (doomed : service.Doomed s id) (again : service.Doomed s other) :
    id = other := by
  obtain ⟨session, txn, asks, runs, rfl, _⟩ := doomed
  obtain ⟨session', txn', asks', runs', rfl, _⟩ := again
  cases asks.symm.trans asks'
  cases runs.symm.trans runs'
  rfl

theorem Doomed.of_sessions (doomed : service.Doomed s id)
    (same : service'.sessions[s]? = service.sessions[s]?) : service'.Doomed s id := by
  obtain ⟨session, txn, asks, rest⟩ := doomed
  exact ⟨session, txn, same.trans asks, rest⟩

/-! ## 2. What it asks for is refused -/

/-- An operation that is refused leaves the service as it is. -/
theorem attempt_refused {α : Type} (asks : service.sessions[s]? = some session)
    {operation : Store → Session → Store.Step α} {reply : α → Reply}
    (refuses : service.store.Refuses session (operation service.store session) reply) :
    (service.attempt s operation reply).1 = service ∧
      (service.attempt s operation reply).2.isRefusal = true := by
  obtain ⟨result, heq, hrefusal⟩ := refuses
  rw [attempt, forSession, asks]
  dsimp only
  rw [heq]
  exact ⟨by rw [Maps.insert_self asks], hrefusal⟩

theorem refused_of_attempt (asks : service.sessions[s]? = some session) {α : Type}
    (operation : Store → Session → Store.Step α) {reply : α → Reply}
    (handled : service.handle request = service.attempt s operation reply)
    (refuses : service.store.Refuses session (operation service.store session) reply) :
    (service.handle request).2.isRefusal = true ∧
      (service.handle request).1.store = service.store ∧
      (service.handle request).1.sessions = service.sessions := by
  obtain ⟨hsame, hrefusal⟩ := attempt_refused asks refuses
  rw [handled, hsame]
  exact ⟨hrefusal, rfl, rfl⟩

/-- Whatever a doomed session asks for about rows is refused. -/
theorem Doomed.refused (doomed : service.Doomed s id) (works : request.isRowWorkOf s = true) :
    (service.handle request).2.isRefusal = true ∧
      (service.handle request).1.store = service.store ∧
      (service.handle request).1.sessions = service.sessions := by
  obtain ⟨session, txn, asks, runs, _, hdoomed⟩ := doomed
  cases request with
  | insert t tid record =>
    cases eq_of_beq works
    exact refused_of_attempt asks (·.insert · tid record) rfl
      (Store.refuses_write _ runs hdoomed _ _ _)
  | update t tid row record =>
    cases eq_of_beq works
    exact refused_of_attempt asks (·.update · tid row record) rfl
      (Store.refuses_write _ runs hdoomed _ _ _)
  | delete t tid row =>
    cases eq_of_beq works
    exact refused_of_attempt asks (·.delete · tid row) rfl
      (Store.refuses_write _ runs hdoomed _ _ _)
  | lookup t tid index key own =>
    cases eq_of_beq works
    exact refused_of_attempt asks (·.lookup · tid index key own) rfl
      (Store.refuses_lookup _ runs hdoomed _ _ _ _)
  | openScan t tid scan kind index key inclusive own =>
    cases eq_of_beq works
    obtain ⟨hstore, hsessions, _, hreply⟩ :=
      openScan_answer asks scan (·.openScan · tid kind index key inclusive own)
    obtain ⟨result, heq, hrefusal⟩ := Store.refuses_openScan service.store runs hdoomed tid
      kind index key inclusive own
    rw [heq] at hstore hsessions hreply
    exact ⟨(congrArg _ hreply).trans hrefusal, hstore, hsessions.trans (Maps.insert_self asks)⟩
  | nextInScan t tid scan kind own =>
    cases eq_of_beq works
    rw [handle]
    cases hscan : service.indexScans[scan]? with
    | none =>
      rw [nextInScan, asks, hscan]
      exact ⟨rfl, rfl, rfl⟩
    | some resting =>
      obtain ⟨hstore, hsessions, _, hreply⟩ :=
        nextInScan_answer asks hscan (·.nextInScan · tid kind · own)
      obtain ⟨result, heq, hrefusal⟩ := Store.refuses_nextInScan service.store runs hdoomed
        tid kind resting own
      rw [heq] at hstore hsessions hreply
      exact ⟨(congrArg _ hreply).trans hrefusal, hstore, hsessions.trans (Maps.insert_self asks)⟩
  | nextInTable t tid scan own =>
    cases eq_of_beq works
    rw [handle]
    cases hscan : service.tableScans[scan]? with
    | none =>
      rw [nextInTable, asks, hscan]
      exact ⟨rfl, rfl, rfl⟩
    | some resting =>
      obtain ⟨hstore, hsessions, _, hreply⟩ :=
        nextInTable_answer asks hscan (·.nextInTable · tid · own)
      obtain ⟨result, heq, hrefusal⟩ := Store.refuses_nextInTable service.store runs hdoomed
        tid resting own
      rw [heq] at hstore hsessions hreply
      exact ⟨(congrArg _ hreply).trans hrefusal, hstore, hsessions.trans (Maps.insert_self asks)⟩
  | _ => cases works

/-! ## 3. It stays doomed -/

/-- An operation after which the session still runs the transaction leaves it doomed. -/
theorem Doomed.of_forSession (asks : service.sessions[s]? = some session)
    {operation : Store → Session → Store × Session × Reply}
    (runs : (operation service.store session).2.1.transaction = some txn) (hid : txn.id = id)
    (hdoomed : txn.doomed = true) : (service.forSession s operation).1.Doomed s id := by
  rw [forSession, asks]
  exact ⟨_, txn, (Maps.get_insert _ _ _ _).trans (if_pos rfl), runs, hid, hdoomed⟩

/-- Nothing clears the mark of doom but an end of the transaction. -/
theorem Doomed.lasts (doomed : service.Doomed s id) (ok : service.Ok work)
    (stays : ∀ session, service.sessions[s]? = some session →
      request.endsDoomed s session.multiStatement = false) :
    (service.handle request).1.Doomed s id := by
  by_cases works : request.isRowWorkOf s = true
  · exact doomed.of_sessions (by rw [(doomed.refused works).2.2])
  by_cases apart : request.session? ≠ some s
  · obtain ⟨session, asks⟩ := doomed.asks
    exact doomed.of_sessions (sessions_handle_elsewhere ok apart asks)
  have mine := not_not.mp apart
  obtain ⟨session, txn, asks, runs, hid, hdoomed⟩ := doomed
  have hstays := stays session asks
  -- What is left are the requests of this session that have to do with the transaction itself.
  cases request with
  | begin t owner =>
    cases mine
    have hruns : (service.store.begin session owner).2.1.transaction = some txn := by
      rw [Store.begin, Session.begin, runs]
      exact runs
    exact Doomed.of_forSession asks hruns hid hdoomed
  | beginStatement t =>
    cases mine
    obtain ⟨ledger, snapshot, hnext⟩ := Store.beginStatement_of_running service.store runs
    have hruns : (service.store.beginStatement session).2.transaction =
        some { txn.nextStatement with snapshot } := by rw [hnext]
    exact Doomed.of_forSession asks hruns hid hdoomed
  | rollback t scope =>
    cases mine
    have hscope : ¬ (scope = .session ∨ ¬ session.multiStatement = true) := by
      simpa [Request.endsDoomed] using hstays
    have hruns : (service.store.rollback session scope).2.transaction =
        some txn.forgetStatement := by
      rw [Store.rollback, runs]
      dsimp only
      rw [if_neg hscope]
    exact Doomed.of_forSession asks hruns hid hdoomed
  | setIsolation t level =>
    cases mine
    have hset : session.setIsolation level = .error .transactionAlreadyStarted := by
      rw [Session.setIsolation, Session.isActive, runs]
      rfl
    refine Doomed.of_forSession asks ?_ hid hdoomed
    rw [hset]
    exact runs
  | setMultiStatement t on =>
    cases mine
    exact Doomed.of_forSession asks runs hid hdoomed
  | commit | abort | closeSession =>
    cases mine
    simp [Request.endsDoomed] at hstays
  | insert | update | delete | lookup | openScan | nextInScan | nextInTable =>
    cases mine
    simp [Request.isRowWorkOf] at works
  | _ => cases mine

/-! ## 4. How it ends -/

/-- A commit of a doomed transaction is an abort, and says so. -/
theorem handle_commit_of_doomed (asks : service.sessions[s]? = some session)
    (runs : session.transaction = some txn) (hdoomed : txn.doomed = true) (scope : Scope) :
    service.handle (.commit s scope) =
      ((service.handle (.abort s)).1, .failed (.writeConflict txn.id)) := by
  rw [handle, handle, attempt, perform, forSession, forSession, asks]
  dsimp only
  rw [Store.commit, runs]
  dsimp only
  rw [if_pos hdoomed]
  rfl

/-- An abort takes back what the transaction has written and leaves the session idle. -/
theorem handle_abort_of_running (asks : service.sessions[s]? = some session)
    (runs : session.transaction = some txn) :
    (service.handle (.abort s)).1.store = (service.store.undo txn.id txn.log).withLedger
        (service.store.ledger.abort txn.id) ∧
      (service.handle (.abort s)).1.sessions[s]? = some session.reset := by
  rw [handle, perform, forSession, asks]
  dsimp only
  rw [Store.abort, runs]
  dsimp only
  rw [(service.store.undo_spec txn.id txn.log).1]
  exact ⟨rfl, (Maps.get_insert _ _ _ _).trans (if_pos rfl)⟩

/-- Every request that ends a doomed transaction aborts it. -/
theorem Doomed.ended (doomed : service.Doomed s id) (asks : service.sessions[s]? = some session)
    (ends : request.endsDoomed s session.multiStatement = true) :
    Event.aborted id ∈ service.happening request := by
  obtain ⟨_, txn, asks', runs, rfl, hdoomed⟩ := doomed
  cases asks.symm.trans asks'
  have hhappening : request.session? = some s → ∀ reply, (service.handle request).2 = reply →
      Event.aborted txn.id ∈ request.eventsFor reply session.multiStatement txn.id →
      Event.aborted txn.id ∈ service.happening request := by
    rintro hsession _ rfl hin
    rw [happening, severalFor_present hsession asks, runningFor_present hsession asks, runs]
    exact hin
  cases request with
  | commit t scope =>
    cases eq_of_beq ends
    have hreply := congrArg Prod.snd (handle_commit_of_doomed asks runs hdoomed scope)
    refine hhappening rfl _ hreply ?_
    simp [Request.eventsFor]
  | abort t =>
    cases eq_of_beq ends
    refine hhappening rfl _ rfl ?_
    simp [Request.eventsFor]
  | closeSession t =>
    cases eq_of_beq ends
    refine hhappening rfl _ rfl ?_
    simp [Request.eventsFor]
  | rollback t scope =>
    obtain ⟨heq, hscope⟩ := Bool.and_eq_true_iff.mp ends
    cases eq_of_beq heq
    have hwhole : scope = .session ∨ ¬ session.multiStatement = true := by
      simpa using hscope
    refine hhappening rfl _ rfl ?_
    rw [Request.eventsFor, if_pos hwhole]
    simp
  | _ => cases ends

/-- What has become of the transaction when its session has ended it: its writes are taken back, the
last one first, the session is idle, and every chain is as if the transaction had not touched it. -/
structure Withdrawn (before after : Service) (s : SessionId) (id : Int) : Prop where
  undone : ∃ session txn, before.sessions[s]? = some session ∧ session.transaction = some txn ∧
    txn.id = id ∧ after.store.tables = (before.store.undo id txn.log).tables
  idle : ∃ session, after.sessions[s]? = some session ∧ session.transaction = none
  chains : ∀ {tid : TableId} {table : Table}, before.store.tables[tid]? = some table →
    ∃ table', after.store.tables[tid]? = some table' ∧
      ∀ row, table'.chainOf row = (table.chainOf row).without id

/-- An abort withdraws the transaction. -/
theorem Reached.withdrawn (reached : Reached history service)
    (few : service.store.ledger.lastId < 2 ^ 40) (asks : service.sessions[s]? = some session)
    (runs : session.transaction = some txn) :
    Withdrawn service (service.handle (.abort s)).1 s txn.id := by
  obtain ⟨_, ok⟩ := reached.ok
  have running := ok.linked.held asks runs
  obtain ⟨hstore, hidle⟩ := handle_abort_of_running asks runs
  refine ⟨⟨session, txn, asks, runs, rfl, by rw [hstore]; rfl⟩, ⟨_, hidle, rfl⟩,
    fun {tid table} here => ?_⟩
  have hafter : (service.handle (.abort s)).1.store.tables[tid]? =
      some (table.undoLog tid txn.id txn.log) := by
    rw [hstore]
    exact ((service.store.undo_spec txn.id txn.log).2.2 tid).trans (by rw [here]; rfl)
  refine ⟨_, hafter, fun row => ?_⟩
  -- Nothing of the transaction is left, so its parts may be left out on both sides.
  have hgone : (Table.undoLog tid txn.id txn.log table).chainOf row =
      ((Table.undoLog tid txn.id txn.log table).chainOf row).without txn.id := by
    have haborted : Event.aborted txn.id ∈ history ++ service.happening (.abort s) := by
      rw [happening, runningFor_present rfl asks, runs]
      simp [Request.events, Request.eventsFor]
    have few' : (service.handle (.abort s)).1.store.ledger.lastId < 2 ^ 40 := by
      rw [hstore]
      exact few
    exact (Chain.without_eq_self fun v hv =>
      (reached.asked (.abort s)).none_of_aborted few' haborted hafter hv).symm
  rw [hgone, Table.chainOf_undoLog]
  by_cases htouched : rowLog tid row txn.log = []
  · rw [htouched]
    rfl
  · have hlog := Work.log_eq running
    obtain ⟨hlayered, _⟩ := (ok.store.tables here).layered (by rw [hlog]; exact htouched)
    rw [hlog] at hlayered
    exact hlayered.without_undoLog ((ok.store.tables here).tidy row)

/-- What is left to a doomed transaction. -/
structure Powerless (history : List Event) (service : Service) (s : SessionId) (id : Int) :
    Prop where
  /-- It stays doomed until a request ends it. -/
  lasts : ∀ {session : Session} {request : Request}, service.sessions[s]? = some session →
    request.endsDoomed s session.multiStatement = false → (service.handle request).1.Doomed s id
  /-- The requests that end it abort it. -/
  ends : ∀ {session : Session} {request : Request}, service.sessions[s]? = some session →
    request.endsDoomed s session.multiStatement = true →
      Event.aborted id ∈ service.happening request
  refused : ∀ {request : Request}, request.isRowWorkOf s = true →
    (service.handle request).2.isRefusal = true ∧ (service.handle request).1.store = service.store
  commit : ∀ scope, (service.handle (.commit s scope)).2 = .failed (.writeConflict id) ∧
    Withdrawn service (service.handle (.commit s scope)).1 s id

theorem Reached.powerless (reached : Reached history service)
    (few : service.store.ledger.lastId < 2 ^ 40) (doomed : service.Doomed s id) :
    service.Powerless history s id := by
  obtain ⟨_, ok⟩ := reached.ok
  refine ⟨fun asks stays => doomed.lasts ok fun session asks' => ?_, fun asks => doomed.ended asks,
    fun works => ?_, fun scope => ?_⟩
  · cases asks.symm.trans asks'
    exact stays
  · obtain ⟨hrefusal, hstore, _⟩ := doomed.refused works
    exact ⟨hrefusal, hstore⟩
  · obtain ⟨session, txn, asks, runs, rfl, hdoomed⟩ := doomed
    rw [handle_commit_of_doomed asks runs hdoomed scope]
    exact ⟨rfl, reached.withdrawn few asks runs⟩

/-! ## 5. Along a run -/

/-- Whatever is asked, a doomed transaction stays doomed or is aborted. -/
theorem Doomed.next (doomed : service.Doomed s id) (reached : Reached history service)
    (request : Request) :
    (service.handle request).1.Doomed s id ∨ Event.aborted id ∈ service.happening request := by
  obtain ⟨_, ok⟩ := reached.ok
  obtain ⟨session, asks⟩ := doomed.asks
  cases hends : request.endsDoomed s session.multiStatement with
  | true => exact Or.inr (doomed.ended asks hends)
  | false =>
    refine Or.inl (doomed.lasts ok fun other asks' => ?_)
    cases asks.symm.trans asks'
    exact hends

/-- A transaction that was doomed once is doomed still or has aborted. -/
theorem Onward.fate (onward : Onward history service history' service')
    (reached : Reached history service) (doomed : service.Doomed s id) :
    service'.Doomed s id ∨ Event.aborted id ∈ history' := by
  induction onward with
  | refl => exact Or.inl doomed
  | added _ _ _ _ ih => exact ih
  | asked before request ih =>
    rcases ih with hdoomed | haborted
    · rcases hdoomed.next (before.reached reached) request with hdoomed | haborted
      · exact Or.inl hdoomed
      · exact Or.inr (List.mem_append_right _ haborted)
    · exact Or.inr (List.mem_append_left _ haborted)

/-- The transaction has aborted, and no session runs it. -/
def HasAborted (history : List Event) (service : Service) (id : Int) : Prop :=
  Event.aborted id ∈ history ∧ ∀ {t : SessionId} {session : Session} {txn : Transaction},
    service.sessions[t]? = some session → session.transaction = some txn → txn.id ≠ id

theorem Reached.hasAborted (reached : Reached history service)
    (few : service.store.ledger.lastId < 2 ^ 40) (haborted : Event.aborted id ∈ history) :
    service.HasAborted history id := by
  refine ⟨haborted, fun {t session txn} asks runs heq => ?_⟩
  obtain ⟨_, ok, shows⟩ := reached.shows few
  obtain ⟨_, hnone, _⟩ := shows.ledger.aborted (Chronicle.mem_aborted_of haborted)
  rw [← heq, ok.store.runs.running (ok.linked.held asks runs)] at hnone
  cases hnone

/-- A doomed transaction is running. -/
theorem Doomed.active (doomed : service.Doomed s id) (reached : Reached history service) :
    ∃ snapshot, service.store.ledger.active[id]? = some snapshot := by
  obtain ⟨_, ok⟩ := reached.ok
  obtain ⟨session, txn, asks, runs, rfl, _⟩ := doomed
  exact ⟨_, ok.store.runs.running (ok.linked.held asks runs)⟩

/-- Whoever was told that a version could not be replaced is doomed. -/
theorem Reached.doomed_of_conflict (reached : Reached history service) {write : Request}
    (rewrites : write.isRewriteOf s = true) (lost : (service.handle write).2 = .wrote .conflict) :
    ∃ id, (service.handle write).1.Doomed s id := by
  obtain ⟨_, ok⟩ := reached.ok
  have hlost : ∀ {session : Session} {tid : TableId} {check : Table → Except Error Unit}
      {attempt : Table → Ledger → Transaction → Table.Attempt},
      service.sessions[s]? = some session →
      Reply.of .wrote (service.store.write session tid check attempt).2.2 = .wrote .conflict →
      ∃ id, ({ service with
        store := (service.store.write session tid check attempt).1
        sessions := service.sessions.insert s
          (service.store.write session tid check attempt).2.1 } : Service).Doomed s id := by
    intro session tid check attempt asks hreply
    have houtcome : (service.store.write session tid check attempt).2.2 = .ok .conflict := by
      cases hresult : (service.store.write session tid check attempt).2.2 with
      | error error =>
        rw [hresult] at hreply
        cases hreply
      | ok outcome =>
        rw [hresult] at hreply
        cases hreply
        rfl
    obtain ⟨txn, runs, hdoomed⟩ :=
      Store.doomed_of_conflict ok.store (ok.linked.heldBy asks) houtcome
    exact ⟨txn.id, _, txn, (Maps.get_insert _ _ _ _).trans (if_pos rfl), runs, rfl, hdoomed⟩
  cases write with
  | update t tid row record =>
    cases eq_of_beq rewrites
    rw [handle, attempt, forSession] at lost ⊢
    split at lost
    · cases lost
    · rename_i asks
      exact hlost asks lost
  | delete t tid row =>
    cases eq_of_beq rewrites
    rw [handle, attempt, forSession] at lost ⊢
    split at lost
    · cases lost
    · rename_i asks
      exact hlost asks lost
  | _ => cases rewrites

/-- A transaction that lost a conflict can never take effect. At every moment before and afterwards
nobody else sees anything of it; afterwards it is doomed or has aborted; and as long as it is doomed it
can do nothing but abort. -/
theorem Reached.conflict_dooms (reached : Reached history service) {write : Request}
    (rewrites : write.isRewriteOf s = true) (lost : (service.handle write).2 = .wrote .conflict) :
    ∃ id, (service.handle write).1.Doomed s id ∧
      (∀ {past : List Event} {earlier : Service}, Reached past earlier →
        Onward past earlier history service → earlier.Conceals past id) ∧
      ∀ {future : List Event} {later : Service},
        Onward (history ++ service.happening write) (service.handle write).1 future later →
        later.store.ledger.lastId < 2 ^ 40 →
          later.Conceals future id ∧ (later.Doomed s id ∨ later.HasAborted future id) ∧
            (later.Doomed s id → later.Powerless future s id) := by
  obtain ⟨id, doomed⟩ := reached.doomed_of_conflict rewrites lost
  have hafter := reached.asked write
  refine ⟨id, doomed, fun {past earlier} before onward => ?_, fun {future later} onward few => ?_⟩
  · obtain ⟨_, running⟩ := doomed.active hafter
    exact (onward.asked write).conceals before running
  · have hlater := onward.reached hafter
    refine ⟨?_, ?_, hlater.powerless few⟩
    · rcases onward.fate hafter doomed with hdoomed | haborted
      · obtain ⟨_, running⟩ := hdoomed.active hlater
        exact Onward.refl.conceals hlater running
      · exact hlater.conceals_aborted few haborted
    · exact (onward.fate hafter doomed).imp_right (hlater.hasAborted few)

/-- The first session has a row of its own when the second writes over the row that both see. -/
def overtaken : List Request :=
  [.begin 1 1, .insert 1 0 (byteRecord 1), .commit 1 .session, .begin 1 1,
    .insert 1 0 (byteRecord 2), .begin 2 2, .update 2 0 firstRow (byteRecord 3),
    .commit 2 .session]

/-- The first session tries to write over it, too. -/
def lateUpdate : Request := .update 1 0 firstRow (byteRecord 4)

/-- What it asks for then does not help. -/
def tryingOn : List Request := [.beginStatement 1, .rollback 1 .statement, .begin 1 1, .reclaim [0]]

/-- The transaction that comes too late has not been seen, is doomed, and is powerless after more
statements. -/
theorem lateUpdate_powerless : (small.run overtaken).1.Conceals (small.happenings overtaken) 2 ∧
    ((small.run overtaken).1.handle lateUpdate).1.Doomed 1 2 ∧
    (((small.run overtaken).1.handle lateUpdate).1.run tryingOn).1.Powerless
      (small.happenings overtaken ++ (small.run overtaken).1.happening lateUpdate ++
        ((small.run overtaken).1.handle lateUpdate).1.happenings tryingOn) 1 2 := by
  have reached := reached_small.run overtaken
  have hlost : ((small.run overtaken).1.handle lateUpdate).2 = .wrote .conflict := by rfl
  have hnow : ((small.run overtaken).1.handle lateUpdate).1.Doomed 1 2 := by decide +kernel
  have hlater : (((small.run overtaken).1.handle lateUpdate).1.run tryingOn).1.Doomed 1 2 := by
    decide +kernel
  obtain ⟨id, doomed, hbefore, hafter⟩ :=
    reached.conflict_dooms (by decide : lateUpdate.isRewriteOf 1 = true) hlost
  cases doomed.unique hnow
  obtain ⟨_, _, hpowerless⟩ := hafter (Onward.refl.run tryingOn) (by decide +kernel)
  exact ⟨hbefore reached .refl, hnow, hpowerless hlater⟩

end Service
end SnapshotStore
