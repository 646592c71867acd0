import Mathlib
import SnapshotStore.Proofs.Service.Reached
import SnapshotStore.Proofs.Store.Extends
import SnapshotStore.Proofs.Table.Ranges

/-!
# Scans over an index

Whoever scans an index knows what was asked and what the replies were: over which range the scan runs,
and which row it has returned last (`ScanCourse`). That alone settles what the next reply is. The scan
may have been resting while rows were written, moved, undone and reclaimed; its cursor still rests on
the entry of the row it returned last (`Followed.fits`), so the next row is the first one past it that
the reader sees at the moment (`Followed.indexReads`).
-/

namespace SnapshotStore

/-! ## 1. What is known of a scan -/

/-- A scan over an index, as whoever asks for its rows knows it. -/
structure ScanCourse where
  table : TableId
  index : Nat
  kind : ScanKind
  start : Bytes
  inclusive : Bool
  /-- The row returned last; none once the scan has reported its end. -/
  last? : Option Table.RowRef

namespace ScanCourse

/-- What the reply to a request for the next row adds. -/
def after (course : ScanCourse) : Reply → ScanCourse
  | .found (.row ref) => { course with last? := some ref }
  | .found .nothing => { course with last? := none }
  | _ => course

end ScanCourse

namespace Store.Finding

/-- The row that was found. -/
def row? : Finding → Option Table.RowRef
  | row ref => some ref
  | nothing | doomed => none

@[simp] theorem row?_ofOption (found? : Option Table.RowRef) : (ofOption found?).row? = found? := by
  cases found? <;> rfl

end Store.Finding

/-- What is known of each scan. -/
abbrev Courses := ScanId → Option ScanCourse

/-- What a request and its reply make known. A scan that is asked for rows of another table than its
own is given up. -/
def Courses.told (courses : Courses) : Request → Reply → Courses
  | .openScan _ table id kind index start inclusive _, .found finding =>
    Function.update courses id (some ⟨table, index, kind, start, inclusive, finding.row?⟩)
  | .nextInScan _ table id _ _, reply =>
    Function.update courses id ((courses id).bind fun course =>
      if course.table = table then some (course.after reply) else none)
  | _, _ => courses

namespace Request

/-- The scan over an index that the request opens. -/
def opens? : Request → Option ScanId
  | openScan _ _ scan _ _ _ _ _ => some scan
  | _ => none

/-- The scan over an index that the request moves. -/
def moves? : Request → Option ScanId
  | nextInScan _ _ scan _ _ => some scan
  | _ => none

end Request

namespace Service

/-- The services there can be, and what is known of their scans. -/
inductive Followed : Courses → Service → Prop
  | start : Followed (fun _ => none) {}
  | added {courses : Courses} {service : Service} (before : Followed courses service)
    (name : String) (schema : Schema) (config : Config) :
    Followed courses (service.withTable name schema config)
  | asked {courses : Courses} {service : Service} (before : Followed courses service)
    (request : Request) :
    Followed (courses.told request (service.handle request).2) (service.handle request).1

theorem Followed.reached {courses : Courses} {service : Service}
    (followed : Followed courses service) : ∃ history, Reached history service := by
  induction followed with
  | start => exact ⟨_, .start⟩
  | added _ name schema config ih =>
    obtain ⟨history, reached⟩ := ih
    exact ⟨_, reached.added name schema config⟩
  | asked _ request ih =>
    obtain ⟨history, reached⟩ := ih
    exact ⟨_, reached.asked request⟩

/-- What is known after requests that are answered one after another. -/
def learnt (service : Service) (courses : Courses) : List Request → Courses
  | [] => courses
  | request :: requests =>
    (service.handle request).1.learnt (courses.told request (service.handle request).2) requests

theorem Followed.run {courses : Courses} {service : Service} (followed : Followed courses service)
    (requests : List Request) :
    Followed (service.learnt courses requests) (service.run requests).1 := by
  induction requests generalizing courses service with
  | nil => exact followed
  | cons request requests ih => exact ih (followed.asked request)

end Service

/-! ## 2. Answers about scans -/

namespace Store

variable {store store' : Store} {session session' : Session} {tid : TableId} {own : Bool}

theorem index_eq_ok {table : Table} {i : Nat} {index : Index} :
    table.index i = .ok index ↔ table.indexes[i]? = some index := by
  rw [Table.index]
  cases table.indexes[i]? <;> simp

/-- What comes of opening a scan: it is at its end if the transaction is doomed, and has been moved to
its first row otherwise. -/
theorem openScan_eq_ok {kind : ScanKind} {i : Nat} {start : Bytes} {inclusive : Bool}
    {scan : IndexScan} {finding : Finding}
    (h : store.openScan session tid kind i start inclusive own =
      (store', session', .ok (scan, finding))) :
    ∃ table index txn, store'.tables[tid]? = some table ∧ table.indexes[i]? = some index ∧
      session'.transaction = some txn ∧
      ((scan.table = tid ∧ scan.index = i ∧ scan.kind = kind ∧ scan.finished = true ∧
          finding = .doomed) ∨
        ∃ found?, (⟨tid, i, kind, kind.cursor index.trie start inclusive, true, false⟩ :
            IndexScan).advance index table store'.ledger (txn.view own) = (scan, .ok found?) ∧
          finding = .ofOption found?) := by
  rw [openScan] at h
  cases hfor : store.indexFor tid i start with
  | error error =>
    rw [hfor] at h
    cases h
  | ok found =>
    obtain ⟨table, index⟩ := found
    rw [hfor] at h
    dsimp only at h
    obtain ⟨_, htable, hrest⟩ := Fallible.bind_eq_ok.mp hfor
    obtain ⟨_, hindex, hrest⟩ := Fallible.bind_eq_ok.mp hrest
    obtain ⟨_, _, heq⟩ := Fallible.bind_eq_ok.mp hrest
    cases heq
    cases henter : store.enter session with
    | error error =>
      rw [henter] at h
      cases h
    | ok entered =>
      obtain ⟨middle, asking, txn⟩ := entered
      obtain ⟨htables, hrunning⟩ := enter_eq_ok henter
      rw [henter] at h
      dsimp only at h
      have hhere : middle.tables[tid]? = some table := by
        rw [htables]
        exact table_eq_ok.mp htable
      have hthere := index_eq_ok.mp hindex
      split at h
      · cases h
        exact ⟨table, index, txn, hhere, hthere, hrunning, Or.inl ⟨rfl, rfl, rfl, rfl, rfl⟩⟩
      · have hadvance : ∀ opened : IndexScan, opened.table = tid → opened.index = i →
            middle.advanceScan txn tid opened own =
              ((opened.advance index table middle.ledger (txn.view own)).1,
                (opened.advance index table middle.ledger (txn.view own)).2.map .ofOption) := by
          intro opened ht hi
          rw [advanceScan, ht, hi, table_eq_ok.mpr hhere]
          dsimp only [Fallible.ok_bind]
          rw [hindex]
          rfl
        rw [hadvance _ rfl rfl] at h
        cases hresult : ((⟨tid, i, kind, kind.cursor index.trie start inclusive, true, false⟩ :
            IndexScan).advance index table middle.ledger (txn.view own)).2 with
        | error error =>
          rw [hresult] at h
          cases h
        | ok found? =>
          rw [hresult] at h
          cases h
          exact ⟨table, index, txn, hhere, hthere, hrunning,
            Or.inr ⟨found?, Prod.ext rfl hresult, rfl⟩⟩

/-- What comes of a request for the next row: the scan stays where it is, or it is moved. -/
theorem nextInScan_cases (store : Store) (session : Session) (tid : TableId) (kind : ScanKind)
    (scan : IndexScan) (own : Bool) {scan' : IndexScan} {result : Except Error Finding}
    (h : store.nextInScan session tid kind scan own = (scan', store', session', result)) :
    store'.tables = store.tables ∧
      ((scan' = scan ∧ (∀ ref, result ≠ .ok (.row ref)) ∧ result ≠ .ok .nothing) ∨
        ∃ txn table on index, session'.transaction = some txn ∧
          store'.tables[tid]? = some table ∧ store'.tables[scan.table]? = some on ∧
          on.indexes[scan.index]? = some index ∧
          scan' = (scan.advance index table store'.ledger (txn.view own)).1 ∧
          result = (scan.advance index table store'.ledger (txn.view own)).2.map .ofOption) := by
  rw [nextInScan] at h
  split at h
  · cases h
    exact ⟨rfl, Or.inl ⟨rfl, (fun _ h => by cases h), (fun h => by cases h)⟩⟩
  · cases henter : store.enter session with
    | error error =>
      rw [henter] at h
      cases h
      exact ⟨rfl, Or.inl ⟨rfl, (fun _ h => by cases h), (fun h => by cases h)⟩⟩
    | ok entered =>
      obtain ⟨middle, asking, txn⟩ := entered
      obtain ⟨htables, hrunning⟩ := enter_eq_ok henter
      rw [henter] at h
      dsimp only at h
      split at h
      · cases h
        exact ⟨htables, Or.inl ⟨rfl, (fun _ h => by cases h), (fun h => by cases h)⟩⟩
      · rw [advanceScan] at h
        split at h
        · cases h
          exact ⟨htables, Or.inl ⟨rfl, (fun _ h => by cases h), (fun h => by cases h)⟩⟩
        · rename_i table index hfound
          obtain ⟨_, htable, hrest⟩ := Fallible.bind_eq_ok.mp hfound
          obtain ⟨on, hon, hrest⟩ := Fallible.bind_eq_ok.mp hrest
          obtain ⟨_, hindex, heq⟩ := Fallible.bind_eq_ok.mp hrest
          cases heq
          cases h
          exact ⟨htables, Or.inr ⟨txn, table, on, index, hrunning, table_eq_ok.mp htable,
            table_eq_ok.mp hon, index_eq_ok.mp hindex, rfl, rfl⟩⟩

/-- A scan stays of its kind. -/
theorem kind_nextInScan (store : Store) (session : Session) (tid : TableId) (kind : ScanKind)
    (scan : IndexScan) (own : Bool) :
    (store.nextInScan session tid kind scan own).1.kind = scan.kind := by
  cases hnext : store.nextInScan session tid kind scan own with
  | mk scan' rest =>
    obtain ⟨store', session', result⟩ := rest
    rcases (nextInScan_cases store session tid kind scan own hnext).2 with
      ⟨hsame, _⟩ | ⟨_, _, _, _, _, _, _, _, hmoved, _⟩
    · rw [hsame]
    · rw [hmoved, (IndexScan.advance_rest ..).2.2]

section Indexes

variable {table : Table} {i : Nat} {index : Index}

theorem indexFor_eq_ok (here : store.tables[tid]? = some table)
    (there : table.indexes[i]? = some index) {key : Bytes} (short : key.length ≤ table.maxKeyLength) :
    store.indexFor tid i key = .ok (table, index) := by
  rw [indexFor, table_eq_ok.mpr here, Fallible.ok_bind, index_eq_ok.mpr there,
    Fallible.ok_bind, Key.checkLength_eq_ok.mpr short]
  rfl

theorem indexFor_eq_error (here : store.tables[tid]? = some table)
    (there : table.indexes[i]? = some index) {key : Bytes} (long : table.maxKeyLength < key.length) :
    store.indexFor tid i key = .error (.keyTooLong table.maxKeyLength key.length) := by
  rw [indexFor, table_eq_ok.mpr here, Fallible.ok_bind, index_eq_ok.mpr there,
    Fallible.ok_bind, Key.checkLength, if_pos long]
  rfl

theorem advanceScan_eq (store : Store) (txn : Transaction) (own : Bool) {scan : IndexScan}
    {on : Table} (here : store.tables[tid]? = some table)
    (hon : store.tables[scan.table]? = some on) (hindex : on.indexes[scan.index]? = some index) :
    store.advanceScan txn tid scan own =
      ((scan.advance index table store.ledger (txn.view own)).1,
        (scan.advance index table store.ledger (txn.view own)).2.map .ofOption) := by
  rw [advanceScan, table_eq_ok.mpr here, Fallible.ok_bind, table_eq_ok.mpr hon,
    Fallible.ok_bind, index_eq_ok.mpr hindex]
  rfl

end Indexes

end Store

/-! ## 3. Where scans rest -/

/-- The scan is where the last reply left it. -/
structure ScanCourse.Fits (store : Store) (course : ScanCourse) (scan : IndexScan) : Prop where
  table : scan.table = course.table
  index : scan.index = course.index
  kind : scan.kind = course.kind
  there : ∃ table index, store.tables[course.table]? = some table ∧
    table.indexes[course.index]? = some index
  ended : course.last? = none → scan.finished = true
  rests : ∀ last, course.last? = some last → ∃ table index key,
    store.tables[course.table]? = some table ∧ table.indexes[course.index]? = some index ∧
      index.spec.keyOf last.record = .ok key ∧ course.kind.Covers course.start course.inclusive key ∧
      scan.RestsOn index.trie (course.kind.front course.start) key last.handle

theorem ScanCourse.Fits.mono {store store' : Store} {course : ScanCourse} {scan : IndexScan}
    (fits : course.Fits store scan) (extends' : store.Extends store') : course.Fits store' scan := by
  refine ⟨fits.table, fits.index, fits.kind, ?_, fits.ended, fun last hlast => ?_⟩
  · obtain ⟨table, index, here, there⟩ := fits.there
    obtain ⟨table', here', htable⟩ := extends'.keeps here
    obtain ⟨index', there', _⟩ := htable.indexes there
    exact ⟨table', index', here', there'⟩
  obtain ⟨table, index, key, here, there, hkey, hcovers, hrests⟩ := fits.rests last hlast
  obtain ⟨table', here', htable⟩ := extends'.keeps here
  obtain ⟨index', there', hspec, hlinks⟩ := htable.indexes there
  exact ⟨table', index', key, here', there', by rw [hspec]; exact hkey, hcovers,
    { hrests with sound := hrests.sound.mono hlinks }⟩

/-- A scan that has just found a row rests there; one that has found none is at its end. -/
theorem ScanCourse.fits_of_found {store : Store} {course : ScanCourse} {scan : IndexScan}
    {table : Table} {index : Index} {l : Ledger} {view : View}
    {found? : Option Table.RowRef} {among : Bytes × RowHandle → Prop}
    (htable : scan.table = course.table) (hindex : scan.index = course.index)
    (hkind : scan.kind = course.kind) (here : store.tables[course.table]? = some table)
    (there : table.indexes[course.index]? = some index)
    (first : table.First l view index.spec course.kind among found?)
    (covers : ∀ entry, among entry → course.kind.Covers course.start course.inclusive entry.1)
    (ended : found? = none → scan.finished = true)
    (rests : ∀ ref, found? = some ref → ∃ key, table.Visible l view index.spec key ref ∧
      scan.RestsOn index.trie (course.kind.front course.start) key ref.handle) :
    ScanCourse.Fits store { course with last? := found? } scan := by
  refine ⟨htable, hindex, hkind, ⟨table, index, here, there⟩, ended, fun last hlast => ?_⟩
  dsimp only at hlast
  obtain ⟨key, hvisible, hrests⟩ := rests last hlast
  rw [hlast] at first
  obtain ⟨key', hvisible', hin, _⟩ := first
  have heq : key = key' := (hvisible.unique hvisible' rfl).1
  exact ⟨table, index, key, here, there, hvisible.keyed, heq ▸ covers _ hin, hrests⟩

section Moved

variable {store store' : Store} {session session' : Session} {work : Work} {kind : ScanKind}
  {own : Bool} {scan : IndexScan}

/-- A scan that has been opened is where the reply says. -/
theorem ScanCourse.fits_of_opened {tid : TableId} {i : Nat} {start : Bytes} {inclusive : Bool}
    {finding : Store.Finding}
    (opened : store.openScan session tid kind i start inclusive own =
      (store', session', .ok (scan, finding)))
    (ok : store'.Ok work)
    (viewing : ∀ txn, session'.transaction = some txn →
      Chain.Viewing store'.ledger (txn.view own)) :
    ScanCourse.Fits store' ⟨tid, i, kind, start, inclusive, finding.row?⟩ scan := by
  obtain ⟨table, index, txn, htable, hindex, hrunning, hcases⟩ := Store.openScan_eq_ok opened
  rcases hcases with ⟨ht, hi, hk, hfinished, rfl⟩ | ⟨found?, hadvance, rfl⟩
  · exact ⟨ht, hi, hk, ⟨table, index, htable, hindex⟩, fun _ => hfinished, fun _ h => by cases h⟩
  · obtain ⟨found?', hfound, hfirst, hended, hrests⟩ :=
      IndexScan.advance_cursor_spec ((ok.tables htable).indexes hindex) (viewing txn hrunning)
        tid i kind start inclusive _ rfl
    obtain ⟨ht, hi, hk⟩ := IndexScan.advance_rest index table store'.ledger (txn.view own)
      ⟨tid, i, kind, kind.cursor index.trie start inclusive, true, false⟩
    rw [hadvance] at hfound hended hrests ht hi hk
    cases hfound
    rw [Store.Finding.row?_ofOption]
    let course : ScanCourse := ⟨tid, i, kind, start, inclusive, none⟩
    have htid : scan.table = course.table := ht
    exact ScanCourse.fits_of_found htid hi hk htable hindex hfirst (fun _ h => h) hended hrests

/-- A scan that has been asked for the next row is where the reply says. -/
theorem ScanCourse.Fits.next {course : ScanCourse} {scan' : IndexScan}
    {result : Except Error Store.Finding} (fits : course.Fits store' scan)
    (asked : store.nextInScan session course.table kind scan own =
      (scan', store', session', result))
    (ok : store'.Ok work)
    (viewing : ∀ txn, session'.transaction = some txn →
      Chain.Viewing store'.ledger (txn.view own)) :
    (course.after (.of .found result)).Fits store' scan' := by
  obtain ⟨_, ⟨rfl, hrow, hnothing⟩ | ⟨txn, table, on, index, hrunning, hhere, hon, hindex, hscan',
    hresult⟩⟩ := Store.nextInScan_cases store session course.table kind scan own asked
  · -- The scan has not moved, and the reply says nothing of it.
    have hsame : course.after (.of .found result) = course := by
      cases result with
      | error => rfl
      | ok finding =>
        cases finding with
        | row ref => exact absurd rfl (hrow ref)
        | nothing => exact absurd rfl hnothing
        | doomed => rfl
    rw [hsame]
    exact fits
  cases hlast : course.last? with
  | none =>
    -- It has reported its end before, and does so again.
    have hadvance : scan.advance index table store'.ledger (txn.view own) = (scan, .ok none) := by
      rw [IndexScan.advance, fits.ended hlast, if_pos rfl]
    rw [hadvance] at hscan' hresult
    rw [hscan', hresult]
    have hsame : course.after (.found .nothing) = course := by
      obtain ⟨_, _, _, _, _, _⟩ := course
      cases hlast
      rfl
    exact hsame.symm ▸ fits
  | some last =>
    obtain ⟨table', index', key, htable', hindex', hkey, hcovers, hrests⟩ := fits.rests last hlast
    rw [fits.table] at hon
    rw [fits.index] at hindex
    cases hhere.symm.trans htable'
    cases hhere.symm.trans hon
    cases hindex.symm.trans hindex'
    rw [← fits.kind] at hrests hcovers
    obtain ⟨found?, hfound, hfirst, hended, hrests'⟩ :=
      IndexScan.advance_spec ((ok.tables hhere).indexes hindex) (viewing txn hrunning) hrests
        hcovers
    obtain ⟨ht, hi, hk⟩ := IndexScan.advance_rest index table store'.ledger (txn.view own) scan
    rw [← hscan'] at hended hrests' ht hi hk
    rw [fits.kind] at hfirst hrests' hk
    have hafter : course.after (.of .found result) = { course with last? := found? } := by
      rw [hresult, hfound]
      cases found? <;> rfl
    rw [hafter]
    exact ScanCourse.fits_of_found (ht.trans fits.table) (hi.trans fits.index) hk hhere hindex
      hfirst (fun _ h => h.1) hended hrests'

end Moved

namespace Service

variable {courses : Courses} {service : Service} {work : Work}

/-- What a session's transaction is in a service in order. -/
theorem Ok.viewing (ok : service.Ok work) {s : SessionId} {session : Session} {txn : Transaction}
    (asks : service.sessions[s]? = some session) (runs : session.transaction = some txn)
    (own : Bool) : Chain.Viewing service.store.ledger (txn.view own) := by
  have hactive := ok.store.runs.running (ok.linked.held asks runs)
  exact ⟨Ledger.not_isCommitted_of_active ok.store.ledger hactive,
    Ledger.horizon_le_snapshot hactive⟩

theorem indexScans_forSession (service : Service) (s : SessionId)
    (operation : Store → Session → Store × Session × Reply) :
    (service.forSession s operation).1.indexScans = service.indexScans := by
  rw [forSession]
  split <;> rfl

/-- Only requests about scans over indexes change these. -/
theorem indexScans_handle (service : Service) {request : Request} (hopens : request.opens? = none)
    (hmoves : request.moves? = none) :
    (service.handle request).1.indexScans = service.indexScans := by
  cases request with
  | openScan => cases hopens
  | nextInScan => cases hmoves
  | begin | beginStatement | commit | rollback | abort | setIsolation | setMultiStatement | insert
  | update | delete | lookup => exact indexScans_forSession _ _ _
  | closeSession s =>
    show (service.perform s Store.abort).1.indexScans = _
    exact indexScans_forSession _ _ _
  | openTableScan tid id =>
    rw [handle]
    split <;> rfl
  | nextInTable s tid id own =>
    rw [handle, nextInTable]
    split <;> rfl
  | buildIndex | reclaim | openSession | setAccepting => rfl

theorem told_of_other {request : Request} (hopens : request.opens? = none)
    (hmoves : request.moves? = none) (courses : Courses) (reply : Reply) :
    courses.told request reply = courses := by
  cases request with
  | openScan => cases hopens
  | nextInScan => cases hmoves
  | begin | beginStatement | commit | rollback | abort | setIsolation | setMultiStatement | insert
  | update | delete | lookup | closeSession | openTableScan | nextInTable | buildIndex | reclaim
  | openSession | setAccepting => rfl

/-- Every scan that is followed is where the last reply left it. -/
def Fitting (courses : Courses) (service : Service) : Prop :=
  ∀ id course, courses id = some course →
    ∃ scan, service.indexScans[id]? = some scan ∧ course.Fits service.store scan

theorem fitting_openScan (ok : service.Ok work) (fitting : Fitting courses service)
    (s : SessionId) (tid : TableId) (id : ScanId) (kind : ScanKind) (i : Nat) (start : Bytes)
    (inclusive own : Bool) :
    let request : Request := .openScan s tid id kind i start inclusive own
    Fitting (courses.told request (service.handle request).2) (service.handle request).1 := by
  intro request
  obtain ⟨_, work', answered⟩ := handle_moves ok request
  have hextends := answered.moves.extends ok.store
  have hok := answered.ok
  have hkeep : ∀ {id : ScanId} {course : ScanCourse} {scan : IndexScan}, service.indexScans[id]? = some scan →
      course.Fits service.store scan →
      course.Fits (service.handle request).1.store scan := fun _ fits => fits.mono hextends
  have hhandle : service.handle request =
      service.openScan s id (·.openScan · tid kind i start inclusive own) := rfl
  rw [hhandle] at hextends hok hkeep ⊢
  rw [openScan] at hextends hok hkeep ⊢
  cases here : service.sessions[s]? with
  | none =>
    rw [here] at hextends
    exact fitting
  | some asking =>
    rw [here] at hextends hok hkeep
    dsimp only at hextends hok hkeep ⊢
    cases hopened : service.store.openScan asking tid kind i start inclusive own with
    | mk store' rest =>
      obtain ⟨asking', result⟩ := rest
      rw [hopened] at hextends hok hkeep
      dsimp only at hextends hok hkeep ⊢
      cases result with
      | error error =>
        intro other course hcourse
        obtain ⟨scan, hscan, fits⟩ := fitting other course hcourse
        exact ⟨scan, hscan, hkeep hscan fits⟩
      | ok opened =>
        obtain ⟨scan, finding⟩ := opened
        dsimp only at hextends hok hkeep ⊢
        intro other course hcourse
        rw [Courses.told, Function.update_apply] at hcourse
        by_cases heq : other = id
        · rw [if_pos heq] at hcourse
          cases hcourse
          exact ⟨scan, by rw [Maps.get_insert, if_pos heq], ScanCourse.fits_of_opened hopened hok.store
            fun _ hrunning => hok.viewing (s := s) (by rw [Maps.get_insert, if_pos rfl]) hrunning own⟩
        · rw [if_neg heq] at hcourse
          obtain ⟨old, hold, fits⟩ := fitting other course hcourse
          exact ⟨old, by rw [Maps.get_insert, if_neg heq]; exact hold, hkeep hold fits⟩

theorem fitting_nextInScan (ok : service.Ok work) (fitting : Fitting courses service)
    (s : SessionId) (tid : TableId) (id : ScanId) (kind : ScanKind) (own : Bool) :
    let request : Request := .nextInScan s tid id kind own
    Fitting (courses.told request (service.handle request).2) (service.handle request).1 := by
  intro request
  obtain ⟨_, work', answered⟩ := handle_moves ok request
  have hextends := answered.moves.extends ok.store
  have hok := answered.ok
  have hhandle : service.handle request =
      service.nextInScan s id (·.nextInScan · tid kind · own) := rfl
  rw [hhandle] at hextends hok ⊢
  intro other course hcourse
  rw [Courses.told, Function.update_apply] at hcourse
  by_cases heq : other = id
  · rw [if_pos heq] at hcourse
    obtain ⟨old, hold, hcourse⟩ := Option.bind_eq_some_iff.mp hcourse
    split at hcourse
    · rename_i htable
      cases hcourse
      obtain ⟨scan, hscan, fits⟩ := fitting id old hold
      rw [nextInScan, hscan] at hextends hok ⊢
      cases here : service.sessions[s]? with
      | none =>
        dsimp only
        exact ⟨scan, heq ▸ hscan, fits⟩
      | some asking =>
        rw [here] at hextends hok
        dsimp only at hextends hok ⊢
        cases hnext : service.store.nextInScan asking tid kind scan own with
        | mk scan' rest =>
          obtain ⟨store', asking', result⟩ := rest
          rw [hnext] at hextends hok
          dsimp only at hextends hok ⊢
          have fits' := (fits.mono hextends).next (by rw [htable]; exact hnext) hok.store
            fun _ hrunning => hok.viewing (s := s) (by rw [Maps.get_insert, if_pos rfl]) hrunning own
          exact ⟨scan', by rw [Maps.get_insert, if_pos heq], fits'⟩
    · cases hcourse
  · rw [if_neg heq] at hcourse
    obtain ⟨scan, hscan, fits⟩ := fitting other course hcourse
    refine ⟨scan, ?_, fits.mono hextends⟩
    rw [nextInScan]
    split
    · dsimp only
      rw [Maps.get_insert, if_neg heq]
      exact hscan
    · exact hscan

/-- Whatever happens, the scans stay where their last replies left them. -/
theorem Followed.fits (followed : Followed courses service) : Fitting courses service := by
  induction followed with
  | start => exact fun _ _ h => by cases h
  | @added courses service before name schema config ih =>
    intro id course hcourse
    obtain ⟨history, reached⟩ := before.reached
    obtain ⟨work, ok⟩ := reached.ok
    obtain ⟨scan, hscan, fits⟩ := ih id course hcourse
    exact ⟨scan, hscan, fits.mono ((Store.Move.added name schema config).extends ok.store)⟩
  | @asked courses service before request ih =>
    obtain ⟨history, reached⟩ := before.reached
    obtain ⟨work, ok⟩ := reached.ok
    cases hopens : request.opens? with
    | some id =>
      cases request with
      | openScan => exact fitting_openScan ok ih _ _ _ _ _ _ _ _
      | _ => cases hopens
    | none =>
      cases hmoves : request.moves? with
      | some id =>
        cases request with
        | nextInScan => exact fitting_nextInScan ok ih _ _ _ _ _
        | _ => cases hmoves
      | none =>
        intro id course hcourse
        rw [told_of_other hopens hmoves] at hcourse
        obtain ⟨_, _, answered⟩ := handle_moves ok request
        obtain ⟨scan, hscan, fits⟩ := ih id course hcourse
        exact ⟨scan, by rw [indexScans_handle service hopens hmoves]; exact hscan,
          fits.mono (answered.moves.extends ok.store)⟩

/-! ## 4. Replies -/

section Replies

variable {s : SessionId} {session : Session} {txn : Transaction} {tid : TableId} {table : Table}
  {i : Nat} {index : Index}

variable (asks : service.sessions[s]? = some session) (runs : session.transaction = some txn)
  (alive : txn.doomed = false)
include asks runs alive

theorem reply_openScan (here : service.store.tables[tid]? = some table)
    (there : table.indexes[i]? = some index) {start : Bytes}
    (short : start.length ≤ table.maxKeyLength) (id : ScanId) (kind : ScanKind)
    (inclusive own : Bool) :
    (service.handle (.openScan s tid id kind i start inclusive own)).2 =
      .of .found (((⟨tid, i, kind, kind.cursor index.trie start inclusive, true, false⟩ :
        IndexScan).advance index table service.store.ledger (txn.view own)).2.map .ofOption) := by
  rw [handle, (openScan_answer asks id _).2.2.2, Store.openScan,
    Store.indexFor_eq_ok here there short]
  dsimp only
  rw [Store.enter_of_running runs]
  dsimp only
  rw [if_neg (by rw [alive]; exact Bool.false_ne_true),
    Store.advanceScan_eq service.store txn own here]
  · cases ((⟨tid, i, kind, kind.cursor index.trie start inclusive, true, false⟩ :
      IndexScan).advance index table service.store.ledger (txn.view own)).2 <;> rfl
  · exact here
  · exact there

theorem reply_nextInScan (here : service.store.tables[tid]? = some table) {id : ScanId}
    {scan : IndexScan} (hscan : service.indexScans[id]? = some scan) (htable : scan.table = tid)
    (there : table.indexes[scan.index]? = some index) (own : Bool) :
    (service.handle (.nextInScan s tid id scan.kind own)).2 =
      .of .found ((scan.advance index table service.store.ledger (txn.view own)).2.map
        .ofOption) := by
  rw [handle, (nextInScan_answer asks hscan _).2.2.2, Store.nextInScan, if_neg (not_not.mpr rfl)]
  rw [Store.enter_of_running runs]
  dsimp only
  rw [if_neg (by rw [alive]; exact Bool.false_ne_true),
    Store.advanceScan_eq service.store txn own here (htable ▸ here) there]

theorem reply_lookup (here : service.store.tables[tid]? = some table)
    (there : table.indexes[i]? = some index) {key : Bytes}
    (short : key.length ≤ table.maxKeyLength) (own : Bool) :
    (service.handle (.lookup s tid i key own)).2 =
      .of .found ((table.lookupRow service.store.ledger (txn.view own) index key).map
        .ofOption) := by
  rw [handle, attempt, forSession, asks]
  dsimp only
  rw [Store.lookup, Store.indexFor_eq_ok here there short]
  dsimp only
  rw [Store.enter_of_running runs]
  dsimp only
  rw [if_neg (by rw [alive]; exact Bool.false_ne_true)]

end Replies

/-- A scan at its end stays there until its number is used again. -/
theorem finished_stays {id : ScanId} {scan : IndexScan}
    (hscan : service.indexScans[id]? = some scan) (finished : scan.finished = true)
    {request : Request} (hopens : request.opens? ≠ some id) :
    (service.handle request).1.indexScans[id]? = some scan := by
  cases request with
  | openScan s tid other kind i start inclusive own =>
    have hne : id ≠ other := fun heq => hopens (congrArg some heq.symm)
    rw [handle, openScan]
    split
    · exact hscan
    · dsimp only
      split
      · exact hscan
      · dsimp only
        rw [Maps.get_insert, if_neg hne]
        exact hscan
  | nextInScan s tid other kind own =>
    rw [handle, nextInScan]
    split
    · rename_i asking old _ hold
      dsimp only
      rw [Maps.get_insert]
      split
      · rename_i heq
        rw [← heq, hscan] at hold
        cases hold
        have hadvance : ∀ index table l view, (scan.advance index table l view).1 = scan := by
          intro index table l view
          rw [IndexScan.advance, finished, if_pos rfl]
        cases hnext : service.store.nextInScan asking tid kind scan own with
        | mk scan' rest =>
          obtain ⟨store', asking', result⟩ := rest
          rcases (Store.nextInScan_cases service.store asking tid kind scan own hnext).2 with
            ⟨hsame, _⟩ | ⟨_, _, _, _, _, _, _, _, hsame, _⟩
          · rw [hsame]
          · rw [hsame, hadvance]
      · exact hscan
    · exact hscan
  | _ =>
    rw [indexScans_handle service rfl rfl]
    exact hscan

theorem finished_run {id : ScanId} {scan : IndexScan}
    (hscan : service.indexScans[id]? = some scan) (finished : scan.finished = true)
    {requests : List Request} (hopens : ∀ request ∈ requests, request.opens? ≠ some id) :
    (service.run requests).1.indexScans[id]? = some scan := by
  induction requests generalizing service with
  | nil => exact hscan
  | cons request requests ih =>
    exact ih (finished_stays hscan finished (hopens request List.mem_cons_self))
      fun r hr => hopens r (List.mem_cons_of_mem _ hr)

/-- What a running transaction finds in an index: when it opens a scan, when it asks a scan for the
next row, and when it looks a key up. -/
structure ReadsIndex (service : Service) (courses : Courses) (s : SessionId) (txn : Transaction)
    (tid : TableId) (table : Table) (i : Nat) (index : Index) (own : Bool) : Prop where
  /-- A new scan returns the first visible row of its range. -/
  opens : ∀ (id : ScanId) (kind : ScanKind) (start : Bytes) (inclusive : Bool),
    start.length ≤ table.maxKeyLength → ∃ found?,
      (service.handle (.openScan s tid id kind i start inclusive own)).2 =
        .found (.ofOption found?) ∧
      table.First service.store.ledger (txn.view own) index.spec kind
        (fun entry => kind.Covers start inclusive entry.1) found?
  /-- A scan that has returned a row returns the first visible one past it in its range. -/
  goesOn : ∀ (id : ScanId) (course : ScanCourse) (last : Table.RowRef),
    courses id = some course → course.table = tid → course.index = i → course.last? = some last →
      ∃ key found?, index.spec.keyOf last.record = .ok key ∧
        (service.handle (.nextInScan s tid id course.kind own)).2 = .found (.ofOption found?) ∧
        table.First service.store.ledger (txn.view own) index.spec course.kind
          (fun entry => course.kind.Covers course.start course.inclusive entry.1 ∧
            course.kind.Precedes (key, last.handle) entry) found?
  /-- A scan that has reported its end goes on to do so, whoever asks and whatever happens. -/
  ends : ∀ (id : ScanId) (course : ScanCourse), courses id = some course → course.last? = none →
    ∀ requests : List Request, (∀ request ∈ requests, request.opens? ≠ some id) →
      ∀ (s' : SessionId) (session' : Session) (txn' : Transaction) (own' : Bool),
        (service.run requests).1.sessions[s']? = some session' →
        session'.transaction = some txn' → txn'.doomed = false →
          ((service.run requests).1.handle
            (.nextInScan s' course.table id course.kind own')).2 = .found .nothing
  /-- A lookup returns the visible row of the key with the least handle. -/
  looksUp : ∀ key : Bytes, key.length ≤ table.maxKeyLength → ∃ found?,
    (service.handle (.lookup s tid i key own)).2 = .found (.ofOption found?) ∧
      table.First service.store.ledger (txn.view own) index.spec .range (fun entry => entry.1 = key)
        found?
  /-- Longer keys than the table allows are refused. -/
  refuses : ∀ key : Bytes, table.maxKeyLength < key.length →
    (service.handle (.lookup s tid i key own)).2 =
        .failed (.keyTooLong table.maxKeyLength key.length) ∧
      ∀ id kind inclusive, (service.handle (.openScan s tid id kind i key inclusive own)).2 =
        .failed (.keyTooLong table.maxKeyLength key.length)

section Reads

variable (followed : Followed courses service) {s : SessionId} {session : Session}
  {txn : Transaction} (asks : service.sessions[s]? = some session)
  (runs : session.transaction = some txn) (alive : txn.doomed = false) {tid : TableId} {table : Table}
  (here : service.store.tables[tid]? = some table) {i : Nat} {index : Index}
  (there : table.indexes[i]? = some index) (own : Bool)
include followed asks runs alive here there

/-- A scan that is opened returns the first visible row of its range. -/
theorem Followed.opened (id : ScanId) (kind : ScanKind) {start : Bytes} (inclusive : Bool)
    (short : start.length ≤ table.maxKeyLength) : ∃ found?,
    (service.handle (.openScan s tid id kind i start inclusive own)).2 = .found (.ofOption found?) ∧
      table.First service.store.ledger (txn.view own) index.spec kind
        (fun entry => kind.Covers start inclusive entry.1) found? := by
  obtain ⟨history, reached⟩ := followed.reached
  obtain ⟨work, ok⟩ := reached.ok
  obtain ⟨found?, hfound, hfirst, _⟩ := IndexScan.advance_cursor_spec
    ((ok.store.tables here).indexes there) (ok.viewing asks runs own) tid i kind start inclusive _ rfl
  refine ⟨found?, ?_, hfirst⟩
  rw [reply_openScan asks runs alive here there short, hfound]
  rfl

/-- A scan that has returned a row goes on past it. -/
theorem Followed.goes_on {id : ScanId} {course : ScanCourse} {last : Table.RowRef}
    (hcourse : courses id = some course) (htable : course.table = tid) (hindex : course.index = i)
    (hlast : course.last? = some last) : ∃ key found?, index.spec.keyOf last.record = .ok key ∧
    (service.handle (.nextInScan s tid id course.kind own)).2 = .found (.ofOption found?) ∧
      table.First service.store.ledger (txn.view own) index.spec course.kind
        (fun entry => course.kind.Covers course.start course.inclusive entry.1 ∧
          course.kind.Precedes (key, last.handle) entry) found? := by
  obtain ⟨history, reached⟩ := followed.reached
  obtain ⟨work, ok⟩ := reached.ok
  obtain ⟨scan, hscan, fits⟩ := followed.fits id course hcourse
  obtain ⟨_, _, key, here', there', hkey, hcovers, hrests⟩ := fits.rests last hlast
  rw [htable] at here'
  rw [hindex] at there'
  cases here.symm.trans here'
  cases there.symm.trans there'
  rw [← fits.kind] at hcovers hrests
  obtain ⟨found?, hfound, hfirst, _⟩ := IndexScan.advance_spec
    ((ok.store.tables here).indexes there) (ok.viewing asks runs own) hrests hcovers
  rw [fits.kind] at hfirst
  refine ⟨key, found?, hkey, ?_, hfirst⟩
  rw [← fits.kind, reply_nextInScan asks runs alive here hscan (fits.table.trans htable)
    (by rw [fits.index, hindex]; exact there), hfound]
  rfl

omit asks runs alive here there in
/-- A scan that has reported its end reports it again, whoever asks. -/
theorem Followed.ended {id : ScanId} {course : ScanCourse} (hcourse : courses id = some course)
    (hlast : course.last? = none) {requests : List Request}
    (hopens : ∀ request ∈ requests, request.opens? ≠ some id)
    (asks : (service.run requests).1.sessions[s]? = some session)
    (runs : session.transaction = some txn) (alive : txn.doomed = false) :
    ((service.run requests).1.handle (.nextInScan s course.table id course.kind own)).2 =
      .found .nothing := by
  obtain ⟨history, reached⟩ := followed.reached
  obtain ⟨work, ok⟩ := reached.ok
  obtain ⟨scan, hscan, fits⟩ := followed.fits id course hcourse
  have hscan' := finished_run hscan (fits.ended hlast) hopens
  obtain ⟨work', _, moves⟩ := run_moves ok requests
  obtain ⟨table', index', here', there'⟩ := (fits.mono (moves.extends ok.store)).there
  rw [← fits.kind, reply_nextInScan asks runs alive here' hscan' fits.table
    (by rw [fits.index]; exact there'), IndexScan.advance, fits.ended hlast, if_pos rfl]
  rfl

end Reads

/-- Reads of an index agree with what the reader sees, in every service that can be and at every step
of every scan. -/
theorem Followed.indexReads (followed : Followed courses service) {s : SessionId}
    {session : Session} {txn : Transaction} (asks : service.sessions[s]? = some session)
    (runs : session.transaction = some txn) (alive : txn.doomed = false) {tid : TableId}
    {table : Table} (here : service.store.tables[tid]? = some table) {i : Nat} {index : Index}
    (there : table.indexes[i]? = some index) (own : Bool) :
    service.ReadsIndex courses s txn tid table i index own := by
  obtain ⟨history, reached⟩ := followed.reached
  obtain ⟨work, ok⟩ := reached.ok
  refine ⟨fun id kind start inclusive short => ?_, fun id course last hcourse htable hindex hlast => ?_,
    fun id course hcourse hlast requests hopens s' session' txn' own' asks' runs' alive' => ?_,
    fun key short => ?_, fun key long => ⟨?_, fun id kind inclusive => ?_⟩⟩
  · exact followed.opened asks runs alive here there own id kind inclusive short
  · exact followed.goes_on asks runs alive here there own hcourse htable hindex hlast
  · exact followed.ended own' hcourse hlast hopens asks' runs' alive'
  · obtain ⟨found?, hfound, hforemost⟩ := Table.lookupRow_spec
      ((ok.store.tables here).indexes there) (ok.viewing asks runs own) short
    refine ⟨found?, ?_, hforemost.first fun key' row => ?_⟩
    · rw [reply_lookup asks runs alive here there short, hfound]
      rfl
    · rw [Key.encode_isPrefix_entry]
      exact eq_comm
  · rw [handle, attempt, forSession, asks]
    dsimp only
    rw [Store.lookup, Store.indexFor_eq_error here there long]
    rfl
  · rw [handle, (openScan_answer asks id _).2.2.2, Store.openScan,
      Store.indexFor_eq_error here there long]
    rfl

/-- The second session has opened a scan and got its first row. Then the first session moves that row
to a key ahead of the scan. -/
def movedAhead : List Request :=
  [.buildIndex 0 byteIndex, .begin 1 1, .insert 1 0 (byteRecord 1), .insert 1 0 (byteRecord 2),
    .commit 1 .session, .begin 2 2, .openScan 2 0 0 .range 0 [1] true true, .begin 1 1,
    .update 1 0 firstRow (byteRecord 3), .commit 1 .session]

theorem followed_small : Followed (fun _ => none) small :=
  (Followed.start.added "t" byteSchema {}).run twoSessions

/-- The second session goes on reading what it sees. -/
theorem movedAhead_reads : ∃ txn table index, txn.id = 2 ∧ index.spec.parts = [0] ∧
    (small.run movedAhead).1.ReadsIndex (small.learnt (fun _ => none) movedAhead) 2 txn 0 table 0
      index true := by
  have hsession : ((small.run movedAhead).1.sessions[2]?.bind (·.transaction)).map
      (fun txn => (txn.id, txn.doomed)) = some (2, false) := by
    decide +kernel
  have hindex : ((small.run movedAhead).1.store.tables[0]?.bind (·.indexes[0]?)).map
      (·.spec.parts) = some [0] := by
    decide +kernel
  obtain ⟨txn, hrunning, htxn⟩ := Option.map_eq_some_iff.mp hsession
  obtain ⟨session, asks, runs⟩ := Option.bind_eq_some_iff.mp hrunning
  obtain ⟨hid, alive⟩ := Prod.mk.inj htxn
  obtain ⟨index, hfound, hparts⟩ := Option.map_eq_some_iff.mp hindex
  obtain ⟨table, here, there⟩ := Option.bind_eq_some_iff.mp hfound
  exact ⟨txn, table, index, hid, hparts,
    (followed_small.run movedAhead).indexReads asks runs alive here there true⟩

end Service
end SnapshotStore
