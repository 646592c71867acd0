import Mathlib
import SnapshotStore.Proofs.Twins.ScansInUse

/-!
# Reclamation does not show

Of two services with one history, one may have reclaimed what no snapshot reaches. They look the same
(`Twinned`), and the scans in use stand at the same places in both. Both is kept by every request
(`Abreast.serve`), and while it holds a request is answered alike (`Abreast.alike`): with the same rows and
records, the same errors, the same index where a key exists already. Reclamation leads from a service to
one that is abreast of it (`Used.abreast_reclaim`), so no run of requests tells whether it has taken place
(`Used.reclaim_transparent`), but for scans that are given up.
-/

namespace SnapshotStore
namespace Service

variable {service : Service}

/-! ## 1. Two services abreast -/

/-- Two services have the same scans in use, and these rest at the same places. -/
structure Abreast (scans : Scans) (a b : Service) : Prop where
  twinned : Twinned a b
  courses : ∃ courses courses', Followed courses a ∧ Followed courses' b ∧
    scans.Matched courses courses'
  tables : ∀ id tid, scans.table id = some tid →
    ∃ passed?, a.StandsAt id tid passed? ∧ b.StandsAt id tid passed?

namespace Abreast

variable {scans : Scans} {a b : Service} (abreast : Abreast scans a b)
include abreast

/-- A scan over an index that is in use goes on alike. -/
theorem nextInScan {s : SessionId} {tid : TableId} {id : ScanId} {kind : ScanKind} {own : Bool}
    (known : scans.index id = some tid)
    (few : (a.handle (.nextInScan s tid id kind own)).1.store.ledger.lastId < 2 ^ 40) :
    (a.handle (.nextInScan s tid id kind own)).2.Alike
      (b.handle (.nextInScan s tid id kind own)).2 := by
  obtain ⟨courses, courses', followed, followed', matched⟩ := abreast.courses
  obtain ⟨course, course', hcourse, hcourse', rfl, alike⟩ := matched id tid known
  obtain ⟨scan, hscan, fits⟩ := followed.fits id course hcourse
  obtain ⟨scan', hscan', fits'⟩ := followed'.fits id course' hcourse'
  obtain ⟨work, ok⟩ := abreast.twinned.ok
  have fewBefore : a.store.ledger.lastId < 2 ^ 40 :=
    Int.lt_of_le_of_lt (serve_moves ok (.nextInScan s course.table id kind own)).2.1 few
  rw [handle, handle, Service.nextInScan, Service.nextInScan, hscan, hscan']
  rw [handle, Service.nextInScan, hscan] at few
  rcases abreast.twinned.peers.session s with ⟨asks, asks'⟩ | ⟨session, session', asks, asks', _⟩
  · rw [asks, asks']
    exact .same _
  · rw [asks, asks']
    rw [asks] at few
    obtain ⟨_, _, _, stores⟩ := abreast.twinned.abreast fewBefore asks asks'
    exact .of .found (fun _ _ h => .found h) (stores.nextInScan_alike fits fits' alike few)

/-- A scan over a table that is in use goes on to the same row, and rests on the same row then. -/
theorem nextInTable {s : SessionId} {tid : TableId} {id : ScanId} {own : Bool}
    (known : scans.table id = some tid)
    (few : (a.serve (.nextInTable s tid id own)).1.store.ledger.lastId < 2 ^ 40) :
    (a.serve (.nextInTable s tid id own)).2.Alike (b.serve (.nextInTable s tid id own)).2 ∧
      ∃ further?, (a.serve (.nextInTable s tid id own)).1.StandsAt id tid further? ∧
        (b.serve (.nextInTable s tid id own)).1.StandsAt id tid further? := by
  obtain ⟨passed?, stands, stands'⟩ := abreast.tables id tid known
  obtain ⟨table, scan, here, hscan, hstands⟩ := stands
  obtain ⟨table', scan', here', hscan', hstands'⟩ := stands'
  obtain ⟨work, ok⟩ := abreast.twinned.ok
  have hmoves := serve_moves ok (.nextInTable s tid id own)
  have fewBefore : a.store.ledger.lastId < 2 ^ 40 :=
    Int.lt_of_le_of_lt hmoves.2.1 (Int.lt_of_le_of_lt hmoves.2.2 few)
  have hcount : ∀ {service : Service} {t : Table}, service.store.tables[tid]? = some t →
      service.rowCount tid = t.rows.size := by
    intro service t h
    rw [rowCount, h]
    rfl
  rw [serve, askRow_eq, hcount here] at few ⊢
  rw [serve, askRow_eq, hcount here']
  rcases abreast.twinned.peers.session s with ⟨asks, asks'⟩ | ⟨session, session', asks, asks', _⟩
  · rw [Service.nextInTable, Service.nextInTable, asks, asks']
    exact ⟨.same _, passed?, ⟨table, scan, here, hscan, hstands⟩,
      table', scan', here', hscan', hstands'⟩
  · obtain ⟨_, _, _, stores⟩ := abreast.twinned.abreast fewBefore asks asks'
    obtain ⟨hstore, _, _, hreply⟩ := nextInTable_answer asks hscan fun store session scan =>
      store.seekRow session tid (table.rows.size + 1) scan own
    obtain ⟨_, _, _, hreply'⟩ := nextInTable_answer asks' hscan' fun store session scan =>
      store.seekRow session tid (table'.rows.size + 1) scan own
    rw [hstore] at few
    obtain ⟨agree, further?, hfurther, hfurther'⟩ :=
      stores.seekRow_alike here here' hstands hstands' few
    rw [hreply, hreply']
    refine ⟨.of .scanned (fun _ _ h => .scanned h) agree, further?, ?_, ?_⟩
    · exact standsAt_nextInTable asks hscan (by rw [Store.tables_seekRow]; exact here) hfurther
    · exact standsAt_nextInTable asks' hscan' (by rw [Store.tables_seekRow]; exact here') hfurther'

/-- Requests that ask no scan that is given up are answered alike. -/
theorem alike {request : Request} (keeps : request.builds = false)
    (few : (a.serve request).1.store.ledger.lastId < 2 ^ 40) (follows : scans.Follows request) :
    (a.serve request).2.Alike (b.serve request).2 := by
  cases request with
  | nextInScan => exact abreast.nextInScan follows few
  | nextInTable => exact (abreast.nextInTable follows few).1
  | _ => exact (abreast.twinned.handle_alike rfl keeps few).2

/-- What is known of scans over indexes stays the same. -/
theorem courses_serve {request : Request} (keeps : request.builds = false)
    (few : (a.serve request).1.store.ledger.lastId < 2 ^ 40) :
    ∃ courses courses', Followed courses (a.serve request).1 ∧
      Followed courses' (b.serve request).1 ∧
        (scans.told a b request (a.serve request).2).Matched courses courses' := by
  obtain ⟨courses, courses', followed, followed', matched⟩ := abreast.courses
  refine ⟨_, _, followed.served request, followed'.served request, ?_⟩
  cases request with
  | nextInTable => exact matched
  | _ => exact matched.told (abreast.alike keeps few)

/-- Scans over tables that are in use stand at the same places again. -/
theorem tables_serve {request : Request}
    (few : (a.serve request).1.store.ledger.lastId < 2 ^ 40) {id : ScanId} {tid : TableId}
    (known : (scans.told a b request (a.serve request).2).table id = some tid) :
    ∃ passed?, (a.serve request).1.StandsAt id tid passed? ∧
      (b.serve request).1.StandsAt id tid passed? := by
  obtain ⟨history, reached, reached'⟩ := abreast.twinned.history
  obtain ⟨work, ok⟩ := reached.ok
  obtain ⟨work', ok'⟩ := reached'.ok
  by_cases elsewhere : request.tableScan? ≠ some id
  · rw [Scans.table_told elsewhere] at known
    obtain ⟨passed?, stands, stands'⟩ := abreast.tables id tid known
    exact ⟨passed?, stands.mono (serve_moves ok request).1 (a.tableScans_serve elsewhere).2,
      stands'.mono (serve_moves ok' request).1 (b.tableScans_serve elsewhere).2⟩
  · cases request with
    | openTableScan tid' other =>
      cases Option.some.inj (not_not.mp elsewhere)
      have hserve : ∀ service : Service, service.serve (.openTableScan tid' id) =
        service.handle (.openTableScan tid' id) := fun _ => rfl
      rw [hserve] at known ⊢
      rw [hserve]
      rcases abreast.twinned.peers.store.table tid' with ⟨hnone, hnone'⟩ | ⟨_, _, here, here', _⟩
      · have hunknown : ∀ service : Service, service.store.tables[tid']? = none →
            service.handle (.openTableScan tid' id) = (service, .unknown) := by
          intro service h
          rw [handle, h]
        rw [hunknown a hnone] at known ⊢
        rw [hunknown b hnone']
        exact abreast.tables id tid known
      · have hdone : ∀ {service : Service} {t : Table}, service.store.tables[tid']? = some t →
            (service.handle (.openTableScan tid' id)).2 = .done := by
          intro service t h
          rw [handle, h]
        have stands := standsAt_opened ok (hdone here)
        have stands' := standsAt_opened ok' (hdone here')
        rw [hdone here, Scans.told] at known
        dsimp only at known
        rw [Function.update_self] at known
        split at known
        · rename_i both
          cases known
          rw [← if_congr both rfl rfl] at stands'
          exact ⟨_, stands, stands'⟩
        · cases known
    | nextInTable s tid' other own =>
      cases Option.some.inj (not_not.mp elsewhere)
      rw [Scans.table_told_moved] at known
      obtain ⟨hknown, htid⟩ := Option.filter_eq_some_iff.mp known
      cases of_decide_eq_true htid
      exact (abreast.nextInTable hknown few).2
    | _ => exact absurd (fun h => by cases h) elsewhere

/-- Serving the same request leaves two services abreast. -/
theorem serve {request : Request} (keeps : request.builds = false)
    (few : (a.serve request).1.store.ledger.lastId < 2 ^ 40) :
    Abreast (scans.told a b request (a.serve request).2) (a.serve request).1
      (b.serve request).1 :=
  ⟨abreast.twinned.serve keeps few, abreast.courses_serve keeps few,
    fun _ _ => abreast.tables_serve few⟩

end Abreast

/-! ## 2. Whole runs -/

/-- Two services that are asked the same answer alike, but for scans that are given up. -/
def AnswersAlike (scans : Scans) (a b : Service) : List Request → Prop
  | [] => True
  | request :: requests =>
    (scans.Follows request → (a.serve request).2.Alike (b.serve request).2) ∧
      AnswersAlike (scans.told a b request (a.serve request).2) (a.serve request).1
        (b.serve request).1 requests

/-- Serves requests one after another. -/
def serveAll (service : Service) : List Request → Service
  | [] => service
  | request :: requests => (service.serve request).1.serveAll requests

/-- Serving requests hands out transaction ids and takes none back. -/
theorem Reached.lastId_le_serveAll {history : List Event} (reached : Reached history service)
    (requests : List Request) :
    service.store.ledger.lastId ≤ (service.serveAll requests).store.ledger.lastId := by
  induction requests generalizing history service with
  | nil => exact Int.le_refl _
  | cons request requests ih =>
    obtain ⟨work, ok⟩ := reached.ok
    obtain ⟨_, hfirst, hserved⟩ := serve_moves ok request
    exact (hfirst.trans hserved).trans (ih (reached.served request))

/-- Whatever they are asked, services that are abreast answer alike. -/
theorem Abreast.answersAlike {scans : Scans} {a b : Service} (abreast : Abreast scans a b)
    {requests : List Request} (keeps : ∀ request ∈ requests, request.builds = false)
    (few : (a.serveAll requests).store.ledger.lastId < 2 ^ 40) :
    AnswersAlike scans a b requests := by
  induction requests generalizing scans a b with
  | nil => trivial
  | cons request requests ih =>
    obtain ⟨keepsFirst, keepsRest⟩ := List.forall_mem_cons.mp keeps
    obtain ⟨history, reached, _⟩ := abreast.twinned.history
    have fewServed : (a.serve request).1.store.ledger.lastId < 2 ^ 40 :=
      Int.lt_of_le_of_lt ((reached.served request).lastId_le_serveAll requests) few
    have served := abreast.serve keepsFirst fewServed
    exact ⟨abreast.alike keepsFirst fewServed, ih served keepsRest few⟩

/-! ## 3. Reclamation -/

/-- A service that has reclaimed what it can is abreast of the one that has not. -/
theorem Used.abreast_reclaim {scans : Scans} (used : Used scans service) (tids : List TableId) :
    Abreast scans service (service.handle (.reclaim tids)).1 := by
  obtain ⟨history, reached⟩ := used.reached
  obtain ⟨work, ok⟩ := reached.ok
  obtain ⟨_, _, answered⟩ := handle_moves ok (.reclaim tids)
  have reclaimed := reached.asked (.reclaim tids)
  have hquiet : service.happening (.reclaim tids) = [] := rfl
  rw [hquiet, List.append_nil] at reclaimed
  refine ⟨⟨⟨history, reached, reclaimed⟩, ?_⟩, ?_, ?_⟩
  · exact ⟨(Store.peers_reclaimTables ok.store tids).symm, rfl, fun _ => rfl, fun _ => rfl,
      fun _ => rfl⟩
  · obtain ⟨courses, followed, matched⟩ := used.followed
    exact ⟨courses, courses, followed, followed.asked (.reclaim tids), matched⟩
  · intro id tid known
    obtain ⟨passed?, stands⟩ := used.stands known
    exact ⟨passed?, stands, stands.mono (answered.moves.extends ok.store) rfl⟩

/-- Reclamation does not show. Whatever is asked after it, by whomever, is answered as it would have been
without it; only the scans that are given up are left out. Building an index is left out as well. -/
theorem Used.reclaim_transparent {scans : Scans} (used : Used scans service) (tids : List TableId)
    {requests : List Request} (keeps : ∀ request ∈ requests, request.builds = false)
    (few : (service.serveAll requests).store.ledger.lastId < 2 ^ 40) :
    AnswersAlike scans service (service.handle (.reclaim tids)).1 requests :=
  (used.abreast_reclaim tids).answersAlike keeps few

/-- What is known of the scans of a service that has answered requests one after another. -/
def scansAfter (scans : Scans) (service : Service) : List Request → Scans
  | [] => scans
  | request :: requests =>
    scansAfter (scans.told service service request (service.handle request).2)
      (service.handle request).1 requests

theorem Used.run {scans : Scans} (used : Used scans service) (requests : List Request) :
    Used (scansAfter scans service requests) (service.run requests).1 := by
  induction requests generalizing scans service with
  | nil => exact used
  | cons request requests ih => exact ih (used.asked request)

theorem used_small : Used {} small :=
  (Used.start.added "t" byteSchema {}).run twoSessions

/-- Two rows, of which the first is deleted under a scan over the table and one over an index. -/
def deletedUnderScans : List Request :=
  [.buildIndex 0 byteIndex, .insert 1 0 (byteRecord 1), .insert 1 0 (byteRecord 2),
    .commit 1 .session, .openTableScan 0 0, .openScan 2 0 0 .range 0 [1] true true,
    .commit 2 .session, .delete 1 0 firstRow, .commit 1 .session]

/-- Goes on with both scans, and writes. -/
def goingOn : List Request :=
  [.nextInScan 2 0 0 .range true, .nextInTable 2 0 0 true, .insert 1 0 (byteRecord 1),
    .update 1 0 secondRow (byteRecord 3), .nextInTable 1 0 0 true]

/-- The deleted row is taken out of the table and its entry out of the index, and both scans go on. -/
theorem reclaimed_under_scans :
    ((small.run deletedUnderScans).1.handle (.reclaim [0])).2 = .reclaimed ⟨1, 0, 0, 3⟩ ∧
      (scansAfter {} small deletedUnderScans).index 0 = some 0 ∧
      (scansAfter {} small deletedUnderScans).table 0 = some 0 ∧
      AnswersAlike (scansAfter {} small deletedUnderScans) (small.run deletedUnderScans).1
        ((small.run deletedUnderScans).1.handle (.reclaim [0])).1 goingOn := by
  refine ⟨by decide +kernel, by decide +kernel, by decide +kernel, ?_⟩
  exact (used_small.run deletedUnderScans).reclaim_transparent [0] (by decide) (by decide +kernel)

/-- A table whose only row is deleted. -/
def deserted : Service :=
  (small.run [.insert 1 0 (byteRecord 1), .commit 1 .session, .delete 1 0 firstRow,
    .commit 1 .session]).1

/-- Two tables with two rows each. The first row of the first table is deleted. -/
def paired : Service :=
  ((small.withTable "u" byteSchema {}).run [.insert 1 0 (byteRecord 1), .insert 1 0 (byteRecord 2),
    .insert 1 1 (byteRecord 1), .insert 1 1 (byteRecord 2), .commit 1 .session,
    .delete 1 0 firstRow, .commit 1 .session]).1

/-- Scans that are given up tell whether a table has been reclaimed. One that is opened on a table that has
been emptied does not go on to a row written later, and one that is asked for rows of the second table looks
at those that the first has. -/
theorem given_up_scans_differ :
    ((∃ scans, Used scans deserted) ∧
      ¬ ((deserted.serveAll [.openTableScan 0 0, .insert 1 0 (byteRecord 2)]).serve
          (.nextInTable 1 0 0 true)).2.Alike
        (((deserted.handle (.reclaim [0])).1.serveAll
          [.openTableScan 0 0, .insert 1 0 (byteRecord 2)]).serve (.nextInTable 1 0 0 true)).2) ∧
    (∃ scans, Used scans paired) ∧
      ¬ ((paired.serveAll [.openTableScan 0 0]).serve (.nextInTable 1 1 0 true)).2.Alike
        (((paired.handle (.reclaim [0])).1.serveAll [.openTableScan 0 0]).serve
          (.nextInTable 1 1 0 true)).2 :=
  ⟨⟨⟨_, used_small.run _⟩, fun alike => absurd alike.scannedRow? (by decide +kernel)⟩,
    ⟨_, (used_small.added "u" byteSchema {}).run _⟩,
    fun alike => absurd alike.scannedRow? (by decide +kernel)⟩

end Service
end SnapshotStore
