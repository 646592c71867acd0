import Mathlib
import SnapshotStore.Proofs.Service.SteadyScans
import SnapshotStore.Proofs.Twins.TableScans

/-!
# Asking two services the same

Two services with one history may hold different rows that nobody sees, and then a scan over a table comes
to such rows in one of them only. To be answered the same by both, whoever scans has to ask again there:
`Service.serve` does, as often as the table has rows. That is a run of ordinary requests
(`Service.serve_run`) of which only the first makes anything happen, so what is proved of runs holds of it.
Serving the same request then leads to services with one history that look the same (`Twinned.serve`),
wherever the scans rest, and any request but one that goes on with a scan is answered alike
(`Twinned.handle_alike`). Replies are alike if they tell the same of rows, records and keys
(`Reply.Alike`).
-/

namespace SnapshotStore

/-! ## 1. Replies -/

namespace Reply

/-- The scan has come to a row that the reader does not see, and has to be asked again. -/
def passesOver : Reply → Bool
  | .scanned step => step.passesOver
  | _ => false

/-- The replies tell the same: rows and their records, errors, the indexes that hold a key already.
Versions are not compared, nor is what reclamation has freed. -/
inductive Alike : Reply → Reply → Prop
  | same (reply : Reply) : Alike reply reply
  | wrote {outcome outcome' : WriteOutcome} (h : outcome.Alike outcome') :
    Alike (.wrote outcome) (.wrote outcome')
  | found {finding finding' : Store.Finding} (h : finding.Alike finding') :
    Alike (.found finding) (.found finding')
  | scanned {step step' : TableScanStep} (h : step.Alike step') :
    Alike (.scanned step) (.scanned step')
  | reclaimed (stats stats' : ReclaimStats) : Alike (.reclaimed stats) (.reclaimed stats')

theorem Alike.of {α : Type} {alike : α → α → Prop} (reply : α → Reply)
    (h : ∀ x y, alike x y → Alike (reply x) (reply y)) {x y : Except Error α}
    (agree : Store.Agree alike x y) : Alike (.of reply x) (.of reply y) := by
  cases agree with
  | failed error => exact .same _
  | done halike => exact h _ _ halike

theorem Alike.of_eq {α : Type} (reply : α → Reply) (x y : α) (h : x = y) :
    Alike (reply x) (reply y) := by
  rw [h]
  exact .same _

/-- The row to which a scan over a table has come. -/
def scannedRow? : Reply → Option RowHandle
  | .scanned (.row ref) => some ref.handle
  | _ => none

theorem Alike.scannedRow? {reply reply' : Reply} (h : reply.Alike reply') :
    reply.scannedRow? = reply'.scannedRow? := by
  cases h with
  | scanned h =>
    cases h with
    | endOfTable => rfl
    | row h => exact congrArg some h.handle
  | _ => rfl

end Reply

/-- Findings that are alike name the same row last. -/
theorem Store.Finding.Alike.row? {finding finding' : Store.Finding} (h : finding.Alike finding') :
    Store.Finding.Alike (.ofOption finding.row?) (.ofOption finding'.row?) := by
  cases h with
  | same => exact .same _
  | row h => exact .row h

theorem ScanCourse.table_after (course : ScanCourse) (reply : Reply) :
    (course.after reply).table = course.table := by
  rw [after.eq_def]
  split <;> rfl

/-- Replies that tell the same take scans to the same row. -/
theorem ScanCourse.Alike.after {course course' : ScanCourse} (alike : course.Alike course')
    {reply reply' : Reply} (h : reply.Alike reply') :
    (course.after reply).Alike (course'.after reply') := by
  have hlast : ∀ {last? last?' : Option Table.RowRef},
      Store.Finding.Alike (.ofOption last?) (.ofOption last?') →
        ScanCourse.Alike { course with last? } { course' with last? := last?' } :=
    fun h => { alike with last := h }
  have hfound : ∀ finding, (course.after (.found finding)).Alike (course'.after (.found finding)) := by
    intro finding
    cases finding with
    | row ref => exact hlast (.same _)
    | nothing => exact hlast (.same _)
    | doomed => exact alike
  cases h with
  | same =>
    cases reply with
    | found finding => exact hfound finding
    | _ => exact alike
  | found h =>
    cases h with
    | same => exact hfound _
    | row h => exact hlast (.row h)
  | _ => exact alike

namespace Request

/-- The request asks a scan for its next row. -/
def goesOn : Request → Bool
  | nextInScan _ _ _ _ _ | nextInTable _ _ _ _ => true
  | _ => false

/-- The request adds an index. -/
def builds : Request → Bool
  | buildIndex _ _ _ => true
  | _ => false

/-- Replies that tell the same tell of the same events. -/
theorem eventsFor_congr {request : Request} {reply reply' : Reply}
    (h : request.goesOn = true ∨ reply.Alike reply') (several : Bool) (id : Int) :
    request.eventsFor reply several id = request.eventsFor reply' several id := by
  rcases h with hgoes | halike
  · cases request with
    | nextInScan | nextInTable => rfl
    | _ => cases hgoes
  · cases halike with
    | same reply => rfl
    | wrote h =>
      cases h with
      | same => rfl
      | written row =>
        cases request with
        | insert =>
          show [Event.wrote _ _ _ _] = [Event.wrote _ _ _ _]
          rw [row.handle]
        | _ => rfl
    | _ => cases request <;> rfl

end Request

/-! ## 2. Asking again -/

namespace Service

variable {service : Service}

/-- Asks a table scan for its next row, and again, `count` times at most, while it comes to rows that
the reader does not see. -/
def askRow (s : SessionId) (tid : TableId) (id : ScanId) (own : Bool) :
    (count : Nat) → Service → Service × Reply
  | 0, service => service.handle (.nextInTable s tid id own)
  | count + 1, service =>
    if (service.handle (.nextInTable s tid id own)).2.passesOver then
      askRow s tid id own count (service.handle (.nextInTable s tid id own)).1
    else service.handle (.nextInTable s tid id own)

/-- How many rows a table has. -/
def rowCount (service : Service) (tid : TableId) : Nat :=
  ((service.store.tables[tid]?).map Table.rowCount).getD 0

/-- Answers a request for whoever asks a table scan again until it comes to a row or to the end. -/
def serve (service : Service) : Request → Service × Reply
  | .nextInTable s tid id own => service.askRow s tid id own (service.rowCount tid + 1)
  | request => service.handle request

/-- Asking again is going on to the next row that the reader sees. -/
theorem askRow_eq (service : Service) (s : SessionId) (tid : TableId) (id : ScanId) (own : Bool)
    (count : Nat) : service.askRow s tid id own count =
      service.nextInTable s id (fun store session scan =>
        store.seekRow session tid count scan own) := by
  induction count generalizing service with
  | zero => rfl
  | succ count ih =>
    have hhandle : service.handle (.nextInTable s tid id own) =
      service.nextInTable s id (·.nextInTable · tid · own) := rfl
    rw [askRow, hhandle]
    cases asks : service.sessions[s]? with
    | none =>
      rw [nextInTable, nextInTable, asks]
      rfl
    | some asking =>
      cases hscan : service.tableScans[id]? with
      | none =>
        rw [nextInTable, nextInTable, asks, hscan]
        rfl
      | some scan =>
        have hnext : ∀ operation, service.nextInTable s id operation =
            ({ service with
              store := (operation service.store asking scan).2.1
              sessions := service.sessions.insert s (operation service.store asking scan).2.2.1
              tableScans := service.tableScans.insert id (operation service.store asking scan).1 },
              .of .scanned (operation service.store asking scan).2.2.2) := by
          intro operation
          rw [nextInTable, asks, hscan]
        rw [hnext, hnext]
        dsimp only
        rcases service.store.seekRow_succ asking tid count scan own with
          ⟨hstops, heq⟩ | ⟨⟨step, hstep, hpasses⟩, heq⟩
        · rw [heq]
          split
          · rename_i hpasses
            cases hresult : (service.store.nextInTable asking tid scan own).2.2.2 with
            | error error =>
              rw [hresult] at hpasses
              cases hpasses
            | ok step =>
              rw [hresult] at hpasses
              cases (hstops step hresult).symm.trans hpasses
          · rfl
        · have hagain : (Reply.of .scanned (.ok step)).passesOver = true := hpasses
          rw [heq, hstep, if_pos hagain, ih, nextInTable]
          dsimp only
          rw [Maps.get_insert, if_pos rfl, Maps.get_insert, if_pos rfl]
          dsimp only
          rw [Maps.insert_insert, Maps.insert_insert]

/-- Whoever is told that the scan has come to a row runs a transaction. -/
theorem running_of_passes {s : SessionId} {tid : TableId} {id : ScanId} {own : Bool}
    (passes : (service.handle (.nextInTable s tid id own)).2.passesOver = true) :
    ∃ txn, (service.handle (.nextInTable s tid id own)).1.runningFor (.nextInTable s tid id own) =
      some txn := by
  have hhandle : service.handle (.nextInTable s tid id own) =
    service.nextInTable s id (·.nextInTable · tid · own) := rfl
  rw [hhandle] at passes ⊢
  rw [runningFor, Request.session?, Option.bind_some]
  cases asks : service.sessions[s]? with
  | none =>
    rw [nextInTable, asks] at passes
    cases passes
  | some asking =>
    cases hscan : service.tableScans[id]? with
    | none =>
      rw [nextInTable, asks, hscan] at passes
      cases passes
    | some scan =>
      obtain ⟨_, hsessions, _, hreply⟩ :=
        nextInTable_answer asks hscan (·.nextInTable · tid · own)
      rw [hsessions, Maps.get_insert, if_pos rfl]
      rw [hreply] at passes
      rw [Option.bind_some]
      rw [Store.nextInTable] at passes ⊢
      cases htable : service.store.table tid with
      | error error =>
        rw [htable] at passes
        cases passes
      | ok table =>
        rw [htable] at passes
        cases henter : service.store.enter asking with
        | error error =>
          rw [henter] at passes
          cases passes
        | ok entered =>
          obtain ⟨after, session, txn⟩ := entered
          refine ⟨txn, ?_⟩
          dsimp only
          split <;> exact (Store.enter_eq_ok henter).2

/-- Asking again is a run of requests, and only the first of them makes anything happen. -/
theorem askRow_run (service : Service) (s : SessionId) (tid : TableId) (id : ScanId) (own : Bool)
    (count : Nat) :
    ∃ rest, (service.askRow s tid id own count).1 =
        (service.run (.nextInTable s tid id own :: rest)).1 ∧
      service.happenings (.nextInTable s tid id own :: rest) =
        service.happening (.nextInTable s tid id own) ∧
      ∀ courses, service.learnt courses (.nextInTable s tid id own :: rest) = courses := by
  induction count generalizing service with
  | zero => exact ⟨[], rfl, by rw [happenings, happenings, List.append_nil], fun _ => rfl⟩
  | succ count ih =>
    rw [askRow]
    split
    · rename_i passes
      obtain ⟨rest, hrun, hhappened, hlearnt⟩ :=
        ih (service.handle (.nextInTable s tid id own)).1
      obtain ⟨txn, hrunning⟩ := running_of_passes passes
      have hquiet : (service.handle (.nextInTable s tid id own)).1.happening
          (.nextInTable s tid id own) = [] := by
        rw [happening, hrunning]
        rfl
      refine ⟨.nextInTable s tid id own :: rest, hrun, ?_, hlearnt⟩
      rw [happenings, hhappened, hquiet, List.append_nil]
    · exact ⟨[], rfl, by rw [happenings, happenings, List.append_nil], fun _ => rfl⟩

/-- Serving a request is a run of requests. What happens and what becomes known is what the first of
them makes happen and known. -/
theorem serve_run (service : Service) (request : Request) :
    ∃ rest, (service.serve request).1 = (service.run (request :: rest)).1 ∧
      service.happenings (request :: rest) = service.happening request ∧
      ∀ courses : Courses, service.learnt courses (request :: rest) =
        courses.told request (service.handle request).2 := by
  have hsingle : (service.serve request).1 = (service.handle request).1 →
      ∃ rest, (service.serve request).1 = (service.run (request :: rest)).1 ∧
        service.happenings (request :: rest) = service.happening request ∧
        ∀ courses : Courses, service.learnt courses (request :: rest) =
          courses.told request (service.handle request).2 :=
    fun h => ⟨[], h, by rw [happenings, happenings, List.append_nil], fun _ => rfl⟩
  cases request with
  | nextInTable s tid id own => exact askRow_run service s tid id own _
  | _ => exact hsingle rfl

variable {history : List Event} {courses : Courses}

theorem Reached.served (reached : Reached history service) (request : Request) :
    Reached (history ++ service.happening request) (service.serve request).1 := by
  obtain ⟨rest, hrun, hhappened, _⟩ := service.serve_run request
  rw [hrun, ← hhappened]
  exact reached.run _

theorem Followed.served (followed : Followed courses service) (request : Request) :
    Followed (courses.told request (service.handle request).2) (service.serve request).1 := by
  obtain ⟨rest, hrun, _, hlearnt⟩ := service.serve_run request
  rw [hrun, ← hlearnt]
  exact followed.run _

/-- Serving a request is a run of moves, and the first request is a part of it. -/
theorem serve_moves {work : Work} (ok : service.Ok work) (request : Request) :
    service.store.Extends (service.serve request).1.store ∧
      service.store.ledger.lastId ≤ (service.handle request).1.store.ledger.lastId ∧
      (service.handle request).1.store.ledger.lastId ≤
        (service.serve request).1.store.ledger.lastId := by
  obtain ⟨rest, hrun, _⟩ := service.serve_run request
  obtain ⟨_, _, moves⟩ := run_moves ok (request :: rest)
  obtain ⟨_, work', answered⟩ := handle_moves ok request
  rw [hrun]
  exact ⟨moves.extends ok.store, (answered.moves.grows ok.store).lastId_le,
    lastId_le_run answered.ok rest⟩

/-! ## 3. Two services -/

/-- The services look the same, but for what is in the tables and where the scans rest. -/
structure Peers (a b : Service) : Prop where
  store : a.store.Peers b.store
  lastSession : a.lastSession = b.lastSession
  sessions : ∀ s : SessionId, (a.sessions[s]?).map Session.face = (b.sessions[s]?).map Session.face
  indexScans : ∀ id : ScanId,
    (a.indexScans[id]?).map IndexScan.kind = (b.indexScans[id]?).map IndexScan.kind
  tableScans : ∀ id : ScanId, (a.tableScans[id]?).isSome = (b.tableScans[id]?).isSome

namespace Peers

variable {a b : Service} (peers : a.Peers b)
include peers

/-- Both have the session, with one face, or neither has. -/
theorem session (s : SessionId) :
    (a.sessions[s]? = none ∧ b.sessions[s]? = none) ∨
    ∃ session session', a.sessions[s]? = some session ∧ b.sessions[s]? = some session' ∧
      session.face = session'.face :=
  Maps.cases_of_map_eq (peers.sessions s)

/-- The store and a session have changed, and look the same. -/
theorem served (s : SessionId) {store store' : Store} {session session' : Session}
    (hstore : store.Peers store') (hface : session.face = session'.face) :
    Peers { a with store, sessions := a.sessions.insert s session }
      { b with store := store', sessions := b.sessions.insert s session' } :=
  { peers with
    store := hstore
    sessions := Maps.insert_congr peers.sessions s (congrArg some hface) }

/-- A request for a session. -/
theorem forSession (s : SessionId) {operation : Store → Session → Store × Session × Reply}
    (h : ∀ {session session' : Session}, a.sessions[s]? = some session →
      b.sessions[s]? = some session' →
        (operation a.store session).1.Peers (operation b.store session').1 ∧
        (operation a.store session).2.1.face = (operation b.store session').2.1.face ∧
        (operation a.store session).2.2.Alike (operation b.store session').2.2) :
    (a.forSession s operation).1.Peers (b.forSession s operation).1 ∧
      (a.forSession s operation).2.Alike (b.forSession s operation).2 := by
  rw [Service.forSession, Service.forSession]
  rcases peers.session s with ⟨hleft, hright⟩ | ⟨session, session', hleft, hright, _⟩
  · rw [hleft, hright]
    exact ⟨peers, .same _⟩
  · obtain ⟨hstore, hface, halike⟩ := h hleft hright
    rw [hleft, hright]
    exact ⟨peers.served s hstore hface, halike⟩

/-- A request that may fail. -/
theorem attempt (s : SessionId) {α : Type} {operation : Store → Session → Store.Step α}
    {reply : α → Reply} {alike : α → α → Prop}
    (replies : ∀ x y, alike x y → (reply x).Alike (reply y))
    (h : ∀ {session session' : Session}, a.sessions[s]? = some session →
      b.sessions[s]? = some session' →
        Store.Parallel (operation a.store session) (operation b.store session') ∧
        Store.Agree alike (operation a.store session).2.2 (operation b.store session').2.2) :
    (a.attempt s operation reply).1.Peers (b.attempt s operation reply).1 ∧
      (a.attempt s operation reply).2.Alike (b.attempt s operation reply).2 := by
  refine peers.forSession s fun asks asks' => ?_
  obtain ⟨⟨hstore, hface⟩, hagree⟩ := h asks asks'
  exact ⟨hstore, hface, Reply.Alike.of reply replies hagree⟩

/-- A request that cannot fail. -/
theorem perform (s : SessionId) {operation : Store → Session → Store × Session}
    (h : ∀ {session session' : Session}, a.sessions[s]? = some session →
      b.sessions[s]? = some session' →
        (operation a.store session).1.Peers (operation b.store session').1 ∧
        (operation a.store session).2.face = (operation b.store session').2.face) :
    (a.perform s operation).1.Peers (b.perform s operation).1 ∧
      (a.perform s operation).2.Alike (b.perform s operation).2 :=
  peers.forSession s fun asks asks' => ⟨(h asks asks').1, (h asks asks').2, .same _⟩

/-- A request that opens a scan over an index. -/
theorem openScan (s : SessionId) (id : ScanId)
    {operation : Store → Session → Store.Step (IndexScan × Store.Finding)}
    (h : ∀ {session session' : Session}, a.sessions[s]? = some session →
      b.sessions[s]? = some session' →
        Store.Parallel (operation a.store session) (operation b.store session') ∧
        Store.Agree (fun opened opened' => opened.1.kind = opened'.1.kind ∧
          opened.2.Alike opened'.2) (operation a.store session).2.2
            (operation b.store session').2.2) :
    (a.openScan s id operation).1.Peers (b.openScan s id operation).1 ∧
      (a.openScan s id operation).2.Alike (b.openScan s id operation).2 := by
  rw [Service.openScan, Service.openScan]
  rcases peers.session s with ⟨hleft, hright⟩ | ⟨session, session', hleft, hright, _⟩
  · rw [hleft, hright]
    exact ⟨peers, .same _⟩
  obtain ⟨⟨hstore, hface⟩, hagree⟩ := h hleft hright
  rw [hleft, hright]
  dsimp only
  have hserved := peers.served s hstore hface
  generalize (operation a.store session).2.2 = left at hagree
  generalize (operation b.store session').2.2 = right at hagree
  cases hagree with
  | failed error => exact ⟨hserved, .same _⟩
  | done halike =>
    exact ⟨{ hserved with
      indexScans := Maps.insert_congr hserved.indexScans id (congrArg some halike.1) },
      .found halike.2⟩

/-- A request that moves a scan over an index. -/
theorem nextInScan (s : SessionId) (id : ScanId)
    {operation : Store → Session → IndexScan → IndexScan × Store.Step Store.Finding}
    (h : ∀ {session session' : Session} {scan scan' : IndexScan}, a.sessions[s]? = some session →
      b.sessions[s]? = some session' → scan.kind = scan'.kind →
        Store.Parallel (operation a.store session scan).2 (operation b.store session' scan').2 ∧
        (operation a.store session scan).1.kind = (operation b.store session' scan').1.kind) :
    (a.nextInScan s id operation).1.Peers (b.nextInScan s id operation).1 := by
  rw [Service.nextInScan, Service.nextInScan]
  rcases peers.session s with ⟨hleft, hright⟩ | ⟨session, session', hleft, hright, _⟩
  · rw [hleft, hright]
    exact peers
  rw [hleft, hright]
  rcases Maps.cases_of_map_eq (peers.indexScans id) with
    ⟨hscan, hscan'⟩ | ⟨scan, scan', hscan, hscan', hkind⟩
  · rw [hscan, hscan']
    exact peers
  · rw [hscan, hscan']
    obtain ⟨⟨hstore, hface⟩, hkinds⟩ := h hleft hright hkind
    have hserved := peers.served s hstore hface
    exact { hserved with
      indexScans := Maps.insert_congr hserved.indexScans id (congrArg some hkinds) }

/-- A request that moves a scan over a table. -/
theorem nextInTable (s : SessionId) (id : ScanId)
    {operation operation' : Store → Session → TableScan → TableScan × Store.Step TableScanStep}
    (h : ∀ {session session' : Session} (scan scan' : TableScan), a.sessions[s]? = some session →
      b.sessions[s]? = some session' →
        Store.Parallel (operation a.store session scan).2
          (operation' b.store session' scan').2) :
    (a.nextInTable s id operation).1.Peers (b.nextInTable s id operation').1 := by
  rw [Service.nextInTable, Service.nextInTable]
  rcases peers.session s with ⟨hleft, hright⟩ | ⟨session, session', hleft, hright, _⟩
  · rw [hleft, hright]
    exact peers
  rw [hleft, hright]
  have hthere := peers.tableScans id
  cases hscan : a.tableScans[id]? with
  | none =>
    cases hscan' : b.tableScans[id]? with
    | none => exact peers
    | some scan' =>
      rw [hscan, hscan'] at hthere
      cases hthere
  | some scan =>
    cases hscan' : b.tableScans[id]? with
    | none =>
      rw [hscan, hscan'] at hthere
      cases hthere
    | some scan' =>
      obtain ⟨hstore, hface⟩ := h scan scan' hleft hright
      have hserved := peers.served s hstore hface
      exact { hserved with
        tableScans := Maps.insert_congr hserved.tableScans id rfl }

/-- What runs for a request has the same face in both. -/
theorem runningFor (request : Request) :
    (a.runningFor request).map Transaction.face = (b.runningFor request).map Transaction.face := by
  rw [Service.runningFor, Service.runningFor]
  cases request.session? with
  | none => rfl
  | some s =>
    rw [Option.bind_some, Option.bind_some]
    rcases peers.session s with ⟨hleft, hright⟩ | ⟨session, session', hleft, hright, hface⟩
    · rw [hleft, hright]
    · rw [hleft, hright]
      exact (Session.face_eq_iff.mp hface).2.2.2.2

theorem severalFor (request : Request) : a.severalFor request = b.severalFor request := by
  rw [Service.severalFor, Service.severalFor]
  cases request.session? with
  | none => rfl
  | some s =>
    rw [Option.bind_some, Option.bind_some]
    rcases peers.session s with ⟨hleft, hright⟩ | ⟨session, session', hleft, hright, hface⟩
    · rw [hleft, hright]
    · rw [hleft, hright]
      exact (Session.face_eq_iff.mp hface).2.2.2.1

end Peers

/-- Two services with one history that look the same. -/
structure Twinned (a b : Service) : Prop where
  history : ∃ history, Reached history a ∧ Reached history b
  peers : a.Peers b

namespace Twinned

variable {a b : Service} (twinned : Twinned a b)
include twinned

theorem ok : ∃ work, a.Ok work := by
  obtain ⟨⟨_, reached, _⟩, _⟩ := twinned
  exact reached.ok

/-- The same may be asked of both stores, while there are fewer than 2^40 transactions. -/
theorem abreast (few : a.store.ledger.lastId < 2 ^ 40) {s : SessionId} {session session' : Session}
    (asks : a.sessions[s]? = some session) (asks' : b.sessions[s]? = some session') :
    ∃ work work' c, Store.Abreast a.store work session b.store work' session' c := by
  obtain ⟨⟨history, reached, reached'⟩, peers⟩ := twinned
  have few' : b.store.ledger.lastId < 2 ^ 40 := peers.store.ledger.lastId ▸ few
  obtain ⟨work, ok, shows⟩ := reached.shows few
  obtain ⟨work', ok', shows'⟩ := reached'.shows few'
  have hface := peers.sessions s
  rw [asks, asks'] at hface
  exact ⟨work, work', .of history, ⟨ok.store, ok'.store, shows, shows', few, few'⟩, peers.store,
    Option.some.inj hface, ok.linked.heldBy asks, ok'.linked.heldBy asks'⟩

theorem few_before {request : Request} (few : (a.handle request).1.store.ledger.lastId < 2 ^ 40) :
    a.store.ledger.lastId < 2 ^ 40 := by
  obtain ⟨_, ok⟩ := twinned.ok
  exact Int.lt_of_le_of_lt (serve_moves ok request).2.1 few

end Twinned

/-! ## 4. One request -/

/-- The request leads to services that look the same and is answered alike. -/
def AnsweredAlike (a b : Service) (request : Request) : Prop :=
  (a.handle request).1.Peers (b.handle request).1 ∧ (a.handle request).2.Alike (b.handle request).2

/-- What a session has done leaves as few transactions as the request. -/
theorem few_of_attempt {service : Service} {α : Type} {s : SessionId} {session : Session}
    {operation : Store → Session → Store.Step α} {reply : α → Reply}
    (few : (service.attempt s operation reply).1.store.ledger.lastId < 2 ^ 40)
    (asks : service.sessions[s]? = some session) :
    (operation service.store session).1.ledger.lastId < 2 ^ 40 := by
  rw [attempt, forSession, asks] at few
  exact few

namespace Twinned

variable {a b : Service} (twinned : Twinned a b)
include twinned

section Before

-- What these requests come to does not depend on the rows, so it is enough that few transactions have
-- begun before.
variable (few : a.store.ledger.lastId < 2 ^ 40)
include few

theorem begin_alike (s : SessionId) (owner : Nat) : AnsweredAlike a b (.begin s owner) := by
  refine twinned.peers.attempt s (.of_eq _) fun asks asks' => ?_
  obtain ⟨_, _, _, abreast⟩ := twinned.abreast few asks asks'
  obtain ⟨hpeers, hface, hresult⟩ := abreast.peers.begin abreast.face owner
  exact ⟨⟨hpeers, hface⟩, .of_eq hresult⟩

theorem beginStatement_alike (s : SessionId) : AnsweredAlike a b (.beginStatement s) := by
  refine twinned.peers.perform s fun asks asks' => ?_
  obtain ⟨_, _, _, abreast⟩ := twinned.abreast few asks asks'
  exact abreast.peers.beginStatement abreast.face

theorem commit_alike (s : SessionId) (scope : Scope) : AnsweredAlike a b (.commit s scope) := by
  refine twinned.peers.attempt s (.of_eq _) fun asks asks' => ?_
  obtain ⟨_, _, _, abreast⟩ := twinned.abreast few asks asks'
  obtain ⟨hpeers, hface, hresult⟩ := abreast.peers.commit abreast.face scope
  exact ⟨⟨hpeers, hface⟩, .of_eq hresult⟩

theorem rollback_alike (s : SessionId) (scope : Scope) :
    AnsweredAlike a b (.rollback s scope) := by
  refine twinned.peers.perform s fun asks asks' => ?_
  obtain ⟨_, _, _, abreast⟩ := twinned.abreast few asks asks'
  exact abreast.peers.rollback abreast.face scope

theorem abort_alike (s : SessionId) : AnsweredAlike a b (.abort s) := by
  refine twinned.peers.perform s fun asks asks' => ?_
  obtain ⟨_, _, _, abreast⟩ := twinned.abreast few asks asks'
  exact abreast.peers.abort abreast.face

theorem closeSession_alike (s : SessionId) : AnsweredAlike a b (.closeSession s) := by
  obtain ⟨hpeers, hreply⟩ := twinned.abort_alike few s
  exact ⟨{ hpeers with sessions := Maps.erase_congr hpeers.sessions s }, hreply⟩

theorem setIsolation_alike (s : SessionId) (level : Isolation) :
    AnsweredAlike a b (.setIsolation s level) := by
  rw [AnsweredAlike, handle_setIsolation, handle_setIsolation]
  refine twinned.peers.forSession s fun {session session'} asks asks' => ?_
  obtain ⟨_, _, _, abreast⟩ := twinned.abreast few asks asks'
  have hagree := Store.agree_setIsolation abreast.face level
  generalize session.setIsolation level = left at hagree ⊢
  generalize session'.setIsolation level = right at hagree ⊢
  cases hagree with
  | failed error => exact ⟨abreast.peers, abreast.face, .same _⟩
  | done hface => exact ⟨abreast.peers, hface, .same _⟩

theorem setMultiStatement_alike (s : SessionId) (on : Bool) :
    AnsweredAlike a b (.setMultiStatement s on) := by
  refine twinned.peers.perform s fun asks asks' => ?_
  obtain ⟨_, _, _, abreast⟩ := twinned.abreast few asks asks'
  obtain ⟨hworker, howner, hisolation, _, htransaction⟩ := Session.face_eq_iff.mp abreast.face
  exact ⟨abreast.peers,
    Session.face_eq_iff.mpr ⟨hworker, howner, hisolation, rfl, htransaction⟩⟩

end Before

theorem insert_alike {s : SessionId} {tid : TableId} {record : Record}
    (few : (a.handle (.insert s tid record)).1.store.ledger.lastId < 2 ^ 40) :
    AnsweredAlike a b (.insert s tid record) := by
  refine twinned.peers.attempt s (fun _ _ => .wrote) fun asks asks' => ?_
  obtain ⟨_, _, _, abreast⟩ := twinned.abreast (twinned.few_before few) asks asks'
  exact abreast.insert (few_of_attempt few asks)

theorem update_alike {s : SessionId} {tid : TableId} {row : RowHandle} {record : Record}
    (few : (a.handle (.update s tid row record)).1.store.ledger.lastId < 2 ^ 40) :
    AnsweredAlike a b (.update s tid row record) := by
  refine twinned.peers.attempt s (fun _ _ => .wrote) fun asks asks' => ?_
  obtain ⟨_, _, _, abreast⟩ := twinned.abreast (twinned.few_before few) asks asks'
  exact abreast.update (few_of_attempt few asks)

theorem delete_alike {s : SessionId} {tid : TableId} {row : RowHandle}
    (few : (a.handle (.delete s tid row)).1.store.ledger.lastId < 2 ^ 40) :
    AnsweredAlike a b (.delete s tid row) := by
  refine twinned.peers.attempt s (fun _ _ => .wrote) fun asks asks' => ?_
  obtain ⟨_, _, _, abreast⟩ := twinned.abreast (twinned.few_before few) asks asks'
  exact abreast.delete (few_of_attempt few asks)

theorem lookup_alike {s : SessionId} {tid : TableId} {i : Nat} {key : Bytes} {own : Bool}
    (few : (a.handle (.lookup s tid i key own)).1.store.ledger.lastId < 2 ^ 40) :
    AnsweredAlike a b (.lookup s tid i key own) := by
  refine twinned.peers.attempt s (fun _ _ => .found) fun asks asks' => ?_
  obtain ⟨_, _, _, abreast⟩ := twinned.abreast (twinned.few_before few) asks asks'
  exact abreast.lookup (few_of_attempt few asks)

theorem openScan_alike {s : SessionId} {tid : TableId} {id : ScanId} {kind : ScanKind} {i : Nat}
    {start : Bytes} {inclusive own : Bool}
    (few : (a.handle (.openScan s tid id kind i start inclusive own)).1.store.ledger.lastId <
      2 ^ 40) : AnsweredAlike a b (.openScan s tid id kind i start inclusive own) := by
  refine twinned.peers.openScan s id fun asks asks' => ?_
  obtain ⟨_, _, _, abreast⟩ := twinned.abreast (twinned.few_before few) asks asks'
  have hopened := (openScan_answer asks id (·.openScan · tid kind i start inclusive own)).1
  exact abreast.openScan (hopened ▸ few)

theorem openTableScan_alike (tid : TableId) (id : ScanId) :
    AnsweredAlike a b (.openTableScan tid id) := by
  have peers := twinned.peers
  rw [AnsweredAlike, Service.handle, Service.handle]
  rcases peers.store.table tid with ⟨hleft, hright⟩ | ⟨table, table', hleft, hright, _⟩
  · rw [hleft, hright]
    exact ⟨peers, .same _⟩
  · rw [hleft, hright]
    exact ⟨{ peers with tableScans := Maps.insert_congr peers.tableScans id rfl }, .same _⟩

theorem reclaim_alike (tids : List TableId) : AnsweredAlike a b (.reclaim tids) := by
  obtain ⟨⟨history, reached, reached'⟩, peers⟩ := twinned
  obtain ⟨work, ok⟩ := reached.ok
  obtain ⟨work', ok'⟩ := reached'.ok
  exact ⟨{ peers with
    store := ((Store.peers_reclaimTables ok.store tids).trans peers.store).trans
      (Store.peers_reclaimTables ok'.store tids).symm }, .reclaimed _ _⟩

theorem openSession_alike (level : Isolation) : AnsweredAlike a b (.openSession level) := by
  have peers := twinned.peers
  rw [AnsweredAlike, Service.handle, Service.handle, peers.lastSession]
  exact ⟨{ peers with
    lastSession := rfl
    sessions := Maps.insert_congr peers.sessions _ rfl }, .same _⟩

theorem setAccepting_alike (on : Bool) : AnsweredAlike a b (.setAccepting on) := by
  have peers := twinned.peers
  refine ⟨{ peers with store := ?_ }, .same _⟩
  have haccepts := peers.store.withLedger (peers.store.ledger.accept on)
  cases on with
  | true => exact haccepts
  | false => exact haccepts

/-- A request leads to services that look the same and is answered alike, unless it goes on with a
scan. -/
theorem handle_alike {request : Request} (plain : request.goesOn = false)
    (keeps : request.builds = false)
    (few : (a.handle request).1.store.ledger.lastId < 2 ^ 40) : AnsweredAlike a b request := by
  have fewBefore := twinned.few_before few
  cases request with
  | begin s owner => exact twinned.begin_alike fewBefore s owner
  | beginStatement s => exact twinned.beginStatement_alike fewBefore s
  | commit s scope => exact twinned.commit_alike fewBefore s scope
  | rollback s scope => exact twinned.rollback_alike fewBefore s scope
  | abort s => exact twinned.abort_alike fewBefore s
  | closeSession s => exact twinned.closeSession_alike fewBefore s
  | setIsolation s level => exact twinned.setIsolation_alike fewBefore s level
  | setMultiStatement s on => exact twinned.setMultiStatement_alike fewBefore s on
  | insert => exact twinned.insert_alike few
  | update => exact twinned.update_alike few
  | delete => exact twinned.delete_alike few
  | lookup => exact twinned.lookup_alike few
  | openScan => exact twinned.openScan_alike few
  | openTableScan tid id => exact twinned.openTableScan_alike tid id
  | reclaim tids => exact twinned.reclaim_alike tids
  | openSession level => exact twinned.openSession_alike level
  | setAccepting on => exact twinned.setAccepting_alike on
  | nextInScan | nextInTable => cases plain
  | buildIndex => cases keeps

/-- A request for the next row leads to services that look the same as well, wherever the scans
rest. -/
theorem handle_peers {request : Request} (keeps : request.builds = false)
    (few : (a.handle request).1.store.ledger.lastId < 2 ^ 40) :
    (a.handle request).1.Peers (b.handle request).1 := by
  have fewBefore := twinned.few_before few
  cases request with
  | nextInScan s tid id kind own =>
    refine twinned.peers.nextInScan s id fun {session session' scan scan'} asks asks' same => ?_
    obtain ⟨_, _, _, abreast⟩ := twinned.abreast fewBefore asks asks'
    refine ⟨abreast.nextInScan same tid kind own, ?_⟩
    rw [Store.kind_nextInScan, Store.kind_nextInScan, same]
  | nextInTable s tid id own =>
    refine twinned.peers.nextInTable s id fun scan scan' asks asks' => ?_
    obtain ⟨_, _, _, abreast⟩ := twinned.abreast fewBefore asks asks'
    exact abreast.seekRow scan scan' tid 0 0 own
  | _ => exact (twinned.handle_alike rfl keeps few).1

/-- The same happens in both. -/
theorem happening_eq {request : Request} (keeps : request.builds = false)
    (few : (a.handle request).1.store.ledger.lastId < 2 ^ 40) :
    b.happening request = a.happening request := by
  have after := twinned.handle_peers keeps few
  have hreply : request.goesOn = true ∨ (a.handle request).2.Alike (b.handle request).2 := by
    cases hgoes : request.goesOn with
    | true => exact Or.inl rfl
    | false => exact Or.inr (twinned.handle_alike hgoes keeps few).2
  rw [happening, happening, twinned.peers.severalFor]
  rcases Maps.cases_of_map_eq (twinned.peers.runningFor request) with
    ⟨hleft, hright⟩ | ⟨txn, txn', hleft, hright, hface⟩
  · rw [hleft, hright]
    rcases Maps.cases_of_map_eq (after.runningFor request) with
      ⟨hleft', hright'⟩ | ⟨txn, txn', hleft', hright', hface⟩
    · rw [hleft', hright']
      rfl
    · rw [hleft', hright']
      have hid : txn.id = txn'.id := (Transaction.face_eq_iff.mp hface).1
      show _ :: request.eventsFor _ _ _ = _ :: request.eventsFor _ _ _
      rw [hid, Request.eventsFor_congr hreply]
  · have hid : txn.id = txn'.id := (Transaction.face_eq_iff.mp hface).1
    rw [hleft, hright]
    show request.eventsFor _ _ _ = request.eventsFor _ _ _
    rw [hid, Request.eventsFor_congr hreply]

/-- Serving the same request leads to services with one history that look the same. -/
theorem serve {request : Request} (keeps : request.builds = false)
    (few : (a.serve request).1.store.ledger.lastId < 2 ^ 40) :
    Twinned (a.serve request).1 (b.serve request).1 := by
  obtain ⟨work, ok⟩ := twinned.ok
  obtain ⟨_, hfirst, hserved⟩ := serve_moves ok request
  have fewHandled := Int.lt_of_le_of_lt hserved few
  have fewBefore := Int.lt_of_le_of_lt hfirst fewHandled
  obtain ⟨history, reached, reached'⟩ := twinned.history
  refine ⟨⟨_, reached.served request, ?_⟩, ?_⟩
  · rw [← twinned.happening_eq keeps fewHandled]
    exact reached'.served request
  · cases request with
    | nextInTable s tid id own =>
      rw [Service.serve, Service.serve, askRow_eq, askRow_eq]
      refine twinned.peers.nextInTable s id fun scan scan' asks asks' => ?_
      obtain ⟨_, _, _, abreast⟩ := twinned.abreast fewBefore asks asks'
      exact abreast.seekRow scan scan' tid _ _ own
    | _ => exact twinned.handle_peers keeps fewHandled

end Twinned

end Service
end SnapshotStore
