import Mathlib
import SnapshotStore.Proofs.Twins.Services

/-!
# Scans in use

What a scan gives in two services can be the same only while it is used as it is meant to be. A scan that
is asked for rows of another table than its own looks up the entries of the one in the other, and a scan
over a table without rows is at its end from the start. Such scans are given up (`Scans.told`): one that
has been asked for rows of another table, and one opened over a table that has rows in only one of the two
services. All others are in use. One over an index rests on the row that was returned last
(`Scans.Matched`). One over a table stands somewhere, whatever else is asked (`Used.stands`): at a number,
up to which the rows have been dealt with, or at the end (`StandsAt`).
-/

namespace SnapshotStore

/-! ## 1. Scans in use -/

/-- The scan over a table that the request opens or moves. -/
def Request.tableScan? : Request → Option ScanId
  | openTableScan _ scan | nextInTable _ _ scan _ => some scan
  | _ => none

/-- The scans that go by the rules, each with the table that it was opened on: a scan that is asked for
rows of another table is given up. -/
structure Scans where
  index : ScanId → Option TableId := fun _ => none
  table : ScanId → Option TableId := fun _ => none

namespace Scans

/-- What a request and its reply make known of the scans of two services. A scan over a table that has
rows in only one of them is given up at once. -/
def told (scans : Scans) (a b : Service) : Request → Reply → Scans
  | .openScan _ tid id _ _ _ _ _, .found _ =>
    { scans with index := Function.update scans.index id (some tid) }
  | .nextInScan _ tid id _ _, _ =>
    { scans with index := Function.update scans.index id ((scans.index id).filter (· = tid)) }
  | .openTableScan tid id, .done =>
    { scans with
      table := Function.update scans.table id
        (if (a.rowCount tid = 0 ↔ b.rowCount tid = 0) then some tid else none) }
  | .nextInTable _ tid id _, _ =>
    { scans with table := Function.update scans.table id ((scans.table id).filter (· = tid)) }
  | _, _ => scans

/-- The request does not ask a scan that is given up. -/
def Follows (scans : Scans) : Request → Prop
  | .nextInScan _ tid id _ _ => scans.index id = some tid
  | .nextInTable _ tid id _ => scans.table id = some tid
  | _ => True

variable {scans : Scans} {a b : Service} {request : Request} {reply : Reply}

/-- Other requests say nothing of a scan over a table. -/
theorem table_told {id : ScanId} (elsewhere : request.tableScan? ≠ some id) :
    (scans.told a b request reply).table id = scans.table id := by
  cases request with
  | openTableScan tid other =>
    have hne : id ≠ other := fun heq => elsewhere (congrArg some heq.symm)
    cases reply with
    | done => exact Function.update_of_ne hne _ _
    | _ => rfl
  | nextInTable s tid other own =>
    exact Function.update_of_ne (fun heq => elsewhere (congrArg some heq.symm)) _ _
  | openScan => cases reply <;> rfl
  | _ => rfl

/-- A scan that is asked for rows of another table is given up. -/
theorem table_told_moved {s : SessionId} {tid : TableId} {id : ScanId} {own : Bool} :
    (scans.told a b (.nextInTable s tid id own) reply).table id =
      (scans.table id).filter (· = tid) :=
  Function.update_self ..

/-- What is known of the scans in use is the same for two services, but for versions. -/
def Matched (scans : Scans) (courses courses' : Courses) : Prop :=
  ∀ id tid, scans.index id = some tid → ∃ course course', courses id = some course ∧
    courses' id = some course' ∧ course.table = tid ∧ course.Alike course'

/-- Replies that tell the same keep it the same. -/
theorem Matched.told {courses courses' : Courses} (matched : scans.Matched courses courses')
    {reply' : Reply} (alike : scans.Follows request → reply.Alike reply') :
    (scans.told a b request reply).Matched (courses.told request reply)
      (courses'.told request reply') := by
  cases request with
  | openScan s tid other kind i start inclusive own =>
    have hopened : ∀ {finding finding' : Store.Finding}, finding.Alike finding' →
        (scans.told a b (.openScan s tid other kind i start inclusive own) (.found finding)).Matched
          (courses.told (.openScan s tid other kind i start inclusive own) (.found finding))
          (courses'.told (.openScan s tid other kind i start inclusive own) (.found finding')) := by
      intro finding finding' h id tid' known
      rw [Scans.told] at known
      dsimp only at known
      rw [Function.update_apply] at known
      rw [Courses.told, Courses.told, Function.update_apply, Function.update_apply]
      split at known
      · rename_i heq
        cases known
        rw [if_pos heq, if_pos heq]
        exact ⟨_, _, rfl, rfl, rfl, rfl, rfl, rfl, rfl, rfl, h.row?⟩
      · rename_i hne
        rw [if_neg hne, if_neg hne]
        exact matched id tid' known
    cases alike trivial with
    | same =>
      cases reply with
      | found finding => exact hopened (.same finding)
      | _ => exact matched
    | found h => exact hopened h
    | _ => exact matched
  | nextInScan s tid other kind own =>
    intro id tid' known
    rw [Scans.told] at known
    dsimp only at known
    rw [Function.update_apply] at known
    rw [Courses.told, Courses.told, Function.update_apply, Function.update_apply]
    split at known
    · rename_i heq
      obtain ⟨hknown, htid⟩ := Option.filter_eq_some_iff.mp known
      cases of_decide_eq_true htid
      obtain ⟨course, course', hcourse, hcourse', htable, hsame⟩ := matched other _ hknown
      rw [if_pos heq, if_pos heq, hcourse, hcourse', Option.bind_some, Option.bind_some,
        if_pos htable, if_pos (hsame.table.symm.trans htable)]
      exact ⟨_, _, rfl, rfl, (course.table_after reply).trans htable, hsame.after (alike hknown)⟩
    · rename_i hne
      rw [if_neg hne, if_neg hne]
      exact matched id tid' known
  | openTableScan => cases reply <;> exact matched
  | _ => exact matched

end Scans

/-! ## 2. Where scans over tables stand -/

namespace Service

/-- The services there can be, and the scans in use. -/
inductive Used : Scans → Service → Prop
  | start : Used {} {}
  | added {scans : Scans} {service : Service} (before : Used scans service) (name : String)
    (schema : Schema) (config : Config) : Used scans (service.withTable name schema config)
  | asked {scans : Scans} {service : Service} (before : Used scans service) (request : Request) :
    Used (scans.told service service request (service.handle request).2) (service.handle request).1

/-- Where a scan over a table stands. -/
def StandsAt (service : Service) (id : ScanId) (tid : TableId) (passed? : Option Nat) : Prop :=
  ∃ table scan, service.store.tables[tid]? = some table ∧ service.tableScans[id]? = some scan ∧
    scan.Stands table passed?

theorem StandsAt.mono {service after : Service} {id : ScanId} {tid : TableId}
    {passed? : Option Nat} (stands : service.StandsAt id tid passed?)
    (extends' : service.store.Extends after.store)
    (same : after.tableScans[id]? = service.tableScans[id]?) : after.StandsAt id tid passed? := by
  obtain ⟨table, scan, here, hscan, hstands⟩ := stands
  obtain ⟨table', here', htable⟩ := extends'.keeps here
  exact ⟨table', scan, here', same.trans hscan, hstands.mono htable⟩

variable {service : Service}

theorem tableScans_nextInTable (service : Service) (s : SessionId) {id other : ScanId}
    (hne : id ≠ other)
    (operation : Store → Session → TableScan → TableScan × Store.Step TableScanStep) :
    (service.nextInTable s other operation).1.tableScans[id]? = service.tableScans[id]? := by
  rw [nextInTable]
  split
  · dsimp only
    rw [Maps.get_insert, if_neg hne]
  · rfl

/-- Other requests leave a scan over a table where it is. -/
theorem tableScans_serve (service : Service) {request : Request} {id : ScanId}
    (elsewhere : request.tableScan? ≠ some id) :
    (service.handle request).1.tableScans[id]? = service.tableScans[id]? ∧
      (service.serve request).1.tableScans[id]? = service.tableScans[id]? := by
  have hsession : ∀ (s : SessionId) (operation : Store → Session → Store × Session × Reply),
      (service.forSession s operation).1.tableScans = service.tableScans := by
    intro s operation
    rw [forSession]
    split <;> rfl
  have hsame : (service.handle request).1.tableScans = service.tableScans →
      (service.serve request).1 = (service.handle request).1 →
      (service.handle request).1.tableScans[id]? = service.tableScans[id]? ∧
        (service.serve request).1.tableScans[id]? = service.tableScans[id]? :=
    fun h heq => ⟨by rw [h], by rw [heq, h]⟩
  cases request with
  | openTableScan tid other =>
    have hne : id ≠ other := fun heq => elsewhere (congrArg some heq.symm)
    have hopened : (service.handle (.openTableScan tid other)).1.tableScans[id]? =
        service.tableScans[id]? := by
      rw [handle]
      split
      · rfl
      · dsimp only
        rw [Maps.get_insert, if_neg hne]
    exact ⟨hopened, hopened⟩
  | nextInTable s tid other own =>
    have hne : id ≠ other := fun heq => elsewhere (congrArg some heq.symm)
    rw [serve, askRow_eq]
    exact ⟨service.tableScans_nextInTable s hne _, service.tableScans_nextInTable s hne _⟩
  | begin | beginStatement | commit | rollback | abort | setIsolation | setMultiStatement | insert
  | update | delete | lookup => exact hsame (hsession _ _) rfl
  | closeSession s =>
    refine hsame ?_ rfl
    show (service.perform s Store.abort).1.tableScans = _
    exact hsession _ _
  | openScan s tid other kind i start inclusive own =>
    refine hsame ?_ rfl
    rw [handle, openScan]
    split
    · rfl
    · dsimp only
      split <;> rfl
  | nextInScan s tid other kind own =>
    refine hsame ?_ rfl
    rw [handle, nextInScan]
    split <;> rfl
  | buildIndex | reclaim | openSession | setAccepting => exact hsame rfl rfl

/-- A table that is there has no rows, or some row has a chain. -/
theorem rowCount_eq_zero {work : Work} (ok : service.Ok work) {tid : TableId} {table : Table}
    (here : service.store.tables[tid]? = some table) :
    service.rowCount tid = 0 ↔ ∀ row, table.chainOf row = [] := by
  rw [rowCount, here, Option.map_some, Option.getD_some, Table.rowCount,
    ← Std.ExtTreeMap.length_keys, List.length_eq_zero_iff, List.eq_nil_iff_forall_not_mem]
  refine forall_congr' fun row => ?_
  rw [Std.ExtTreeMap.mem_keys, Std.ExtTreeMap.mem_iff_isSome_getElem?]
  constructor
  · intro hnot
    exact Table.chainOf_of_absent (Option.not_isSome_iff_eq_none.mp hnot)
  · intro hnil hsome
    exact (ok.store.tables here).chainOf_ne_nil hsome hnil

/-- A scan over a table can be opened if the table is there. -/
theorem openTableScan_cases (service : Service) (tid : TableId) (id : ScanId) :
    service.handle (.openTableScan tid id) = (service, .unknown) ∨
      (service.handle (.openTableScan tid id)).2 = .done := by
  rw [handle]
  split
  · exact Or.inl rfl
  · exact Or.inr rfl

/-- A scan over a table that has just been opened stands at the end if there are no rows, and before
all of them otherwise. -/
theorem standsAt_opened {work : Work} (ok : service.Ok work) {tid : TableId} {id : ScanId}
    (opened : (service.handle (.openTableScan tid id)).2 = .done) :
    (service.handle (.openTableScan tid id)).1.StandsAt id tid
      (if service.rowCount tid = 0 then none else some 0) := by
  rw [handle] at opened ⊢
  cases here : service.store.tables[tid]? with
  | none =>
    rw [here] at opened
    cases opened
  | some table =>
    obtain ⟨passed?, hstands, hcases⟩ := TableScan.Stands.first (ok.store.tables here)
    refine ⟨table, .first table, here, ?_, ?_⟩
    · dsimp only
      rw [Maps.get_insert, if_pos rfl]
    · rcases hcases with ⟨rfl, hnone⟩ | ⟨rfl, row, hrow⟩
      · rw [if_pos ((rowCount_eq_zero ok here).mpr hnone)]
        exact hstands
      · rw [if_neg fun h => hrow ((rowCount_eq_zero ok here).mp h row)]
        exact hstands

/-- Where a scan stands that has been moved. -/
theorem standsAt_nextInTable {s : SessionId} {asking : Session} {id : ScanId} {scan : TableScan}
    (asks : service.sessions[s]? = some asking) (hscan : service.tableScans[id]? = some scan)
    {operation : Store → Session → TableScan → TableScan × Store.Step TableScanStep}
    {tid : TableId} {table : Table}
    (here : (operation service.store asking scan).2.1.tables[tid]? = some table)
    {further? : Option Nat} (stands : (operation service.store asking scan).1.Stands table further?) :
    (service.nextInTable s id operation).1.StandsAt id tid further? := by
  rw [nextInTable, asks, hscan]
  exact ⟨table, _, here, by rw [Maps.get_insert, if_pos rfl], stands⟩

/-- A scan that is asked for a row stands somewhere afterwards. -/
theorem standsAt_stepped {work : Work} (ok : service.Ok work) {tid : TableId} {id : ScanId}
    {passed? : Option Nat} (stands : service.StandsAt id tid passed?) (s : SessionId) (own : Bool) :
    ∃ further?, (service.handle (.nextInTable s tid id own)).1.StandsAt id tid further? := by
  obtain ⟨table, scan, here, hscan, hstands⟩ := stands
  have hhandle : service.handle (.nextInTable s tid id own) =
    service.nextInTable s id (·.nextInTable · tid · own) := rfl
  rw [hhandle]
  cases asks : service.sessions[s]? with
  | none =>
    rw [nextInTable, asks]
    exact ⟨passed?, table, scan, here, hscan, hstands⟩
  | some asking =>
    obtain ⟨further?, hfurther⟩ :=
      Store.nextInTable_stands (ok.store.tables here) here hstands asking own
    have htables : (service.store.nextInTable asking tid scan own).2.1.tables =
      service.store.tables := service.store.tables_seekRow asking tid 0 scan own
    exact ⟨further?, standsAt_nextInTable asks hscan (by rw [htables]; exact here) hfurther⟩

namespace Used

variable {scans : Scans}

theorem reached (used : Used scans service) : ∃ history, Reached history service := by
  induction used with
  | start => exact ⟨_, .start⟩
  | added _ name schema config ih =>
    obtain ⟨history, reached⟩ := ih
    exact ⟨_, reached.added name schema config⟩
  | asked _ request ih =>
    obtain ⟨history, reached⟩ := ih
    exact ⟨_, reached.asked request⟩

/-- A scan over a table that is in use stands somewhere. -/
theorem stands (used : Used scans service) {id : ScanId} {tid : TableId}
    (known : scans.table id = some tid) : ∃ passed?, service.StandsAt id tid passed? := by
  -- A scan stands where it stood unless it is opened or asked to go on.
  induction used generalizing id tid with
  | start => cases known
  | added before name schema config ih =>
    obtain ⟨history, reached⟩ := before.reached
    obtain ⟨work, ok⟩ := reached.ok
    obtain ⟨passed?, hstands⟩ := ih known
    exact ⟨passed?, hstands.mono ((Store.Move.added name schema config).extends ok.store) rfl⟩
  | @asked scans service before request ih =>
    obtain ⟨history, reached⟩ := before.reached
    obtain ⟨work, ok⟩ := reached.ok
    obtain ⟨_, _, answered⟩ := handle_moves ok request
    by_cases elsewhere : request.tableScan? ≠ some id
    · rw [Scans.table_told elsewhere] at known
      obtain ⟨passed?, hstands⟩ := ih known
      exact ⟨passed?, hstands.mono (answered.moves.extends ok.store)
        (service.tableScans_serve elsewhere).1⟩
    · cases request with
      | openTableScan tid' other =>
        cases Option.some.inj (not_not.mp elsewhere)
        rcases service.openTableScan_cases tid' id with hunknown | hdone
        · rw [hunknown] at known ⊢
          exact ih known
        · rw [hdone, Scans.told] at known
          dsimp only at known
          rw [Function.update_self, if_pos Iff.rfl] at known
          cases known
          exact ⟨_, standsAt_opened ok hdone⟩
      | nextInTable s tid' other own =>
        cases Option.some.inj (not_not.mp elsewhere)
        rw [Scans.table_told_moved] at known
        obtain ⟨hknown, htid⟩ := Option.filter_eq_some_iff.mp known
        cases of_decide_eq_true htid
        obtain ⟨passed?, hstands⟩ := ih hknown
        exact standsAt_stepped ok hstands s own
      | _ => exact absurd (fun h => by cases h) elsewhere

/-- What is known of the scans in use over indexes. -/
theorem followed (used : Used scans service) :
    ∃ courses, Followed courses service ∧ scans.Matched courses courses := by
  induction used with
  | start => exact ⟨_, .start, fun _ _ known => by cases known⟩
  | added _ name schema config ih =>
    obtain ⟨courses, followed, matched⟩ := ih
    exact ⟨courses, followed.added name schema config, matched⟩
  | asked _ request ih =>
    obtain ⟨courses, followed, matched⟩ := ih
    exact ⟨_, followed.asked request, matched.told fun _ => .same _⟩

end Used

end Service
end SnapshotStore
