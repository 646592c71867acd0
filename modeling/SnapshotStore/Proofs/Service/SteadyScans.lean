import Mathlib
import SnapshotStore.Proofs.Service.IndexScans
import SnapshotStore.Proofs.Service.Steady

/-!
# Scans that feed writes

A statement that updates or deletes what it finds scans an index and writes to the rows while the scan
goes on. If the scan leaves the writes of the statement out, they do not disturb it: whatever the
statement writes and takes back and whatever others do in between, a scan that gets to its end has
returned what there was to see when it was opened, each row once and in order
(`Followed.scan_complete`).
-/

namespace SnapshotStore

namespace Reply

/-- The row that the reply returns. -/
def row? : Reply → Option Table.RowRef
  | .found finding => finding.row?
  | _ => none

/-- The reply is that there is no row, or none left. -/
def isNothing : Reply → Bool
  | .found .nothing => true
  | _ => false

end Reply

namespace Request

/-- The request is about that scan over an index. -/
def scans (request : Request) (id : ScanId) : Bool :=
  request.opens? = some id || request.moves? = some id

end Request

/-- The rows that a scan has returned, given the requests and the replies. -/
def returned (id : ScanId) (answers : List (Request × Reply)) : List Table.RowRef :=
  (answers.filter fun answer => answer.1.scans id).filterMap fun answer => answer.2.row?

/-- The scan has reported its end. -/
def Reported (id : ScanId) (answers : List (Request × Reply)) : Prop :=
  ∃ answer ∈ answers, answer.1.scans id = true ∧ answer.2.isNothing = true

theorem returned_cons (id : ScanId) (request : Request) (reply : Reply)
    (answers : List (Request × Reply)) : returned id ((request, reply) :: answers) =
      (if request.scans id then reply.row?.toList else []) ++ returned id answers := by
  rw [returned, List.filter_cons]
  split
  · rw [List.filterMap_cons]
    cases reply.row? <;> rfl
  · rfl

theorem reported_cons {id : ScanId} {request : Request} {reply : Reply}
    {answers : List (Request × Reply)} : Reported id ((request, reply) :: answers) ↔
      request.scans id = true ∧ reply.isNothing = true ∨ Reported id answers := by
  simp [Reported]

/-! ## 1. How far a scan has come -/

/-- One row comes before another in the order of the scan. -/
def RowsInOrder (spec : KeySpec) (kind : ScanKind) (a b : Table.RowRef) : Prop :=
  ∃ key key', spec.keyOf a.record = .ok key ∧ spec.keyOf b.record = .ok key' ∧
    kind.Precedes (key, a.handle) (key', b.handle)

theorem ScanKind.Precedes.trans {kind : ScanKind} {a b c : Bytes × RowHandle}
    (hab : kind.Precedes a b) (hbc : kind.Precedes b c) : kind.Precedes a c :=
  precedes_iff.mpr ((precedes_iff.mp hab).trans (precedes_iff.mp hbc))

theorem RowsInOrder.trans {spec : KeySpec} {kind : ScanKind} {a b c : Table.RowRef}
    (hab : RowsInOrder spec kind a b) (hbc : RowsInOrder spec kind b c) :
    RowsInOrder spec kind a c := by
  obtain ⟨ka, kb, ha, hb, h⟩ := hab
  obtain ⟨kb', kc, hb', hc, h'⟩ := hbc
  cases Except.ok.inj (hb.symm.trans hb')
  exact ⟨ka, kc, ha, hc, h.trans h'⟩

/-- The row is to be found, with a key in the range. -/
structure InRange (found : Std.ExtTreeMap RowHandle Record) (spec : KeySpec) (kind : ScanKind)
    (start : Bytes) (inclusive : Bool) (row : RowHandle) (record : Record) (key : Bytes) : Prop where
  there : found[row]? = some record
  keyed : spec.keyOf record = .ok key
  covered : kind.Covers start inclusive key

/-- What a scan has returned so far of the rows to be found: all up to the last, or all. -/
structure Progress (found : Std.ExtTreeMap RowHandle Record) (spec : KeySpec) (kind : ScanKind)
    (start : Bytes) (inclusive : Bool) (last? : Option Table.RowRef) (rows : List Table.RowRef) :
    Prop where
  sound : ∀ ref ∈ rows, ∃ key, InRange found spec kind start inclusive ref.handle ref.record key
  order : rows.Pairwise (RowsInOrder spec kind)
  last : ∀ last, last? = some last → ∃ before, rows = before ++ [last]
  ahead : ∀ row record key, InRange found spec kind start inclusive row record key →
    (∃ ref ∈ rows, ref.handle = row ∧ ref.record = record) ∨
      ∃ last lastKey, last? = some last ∧ spec.keyOf last.record = .ok lastKey ∧
        kind.Precedes (lastKey, last.handle) (key, row)

section Progress

variable {found : Std.ExtTreeMap RowHandle Record} {spec : KeySpec} {kind : ScanKind}
  {start : Bytes} {inclusive : Bool} {table : Table} {l : Ledger} {view : View}
  (sees : ∀ row, (Chain.read l view (table.chainOf row)).record? = found[row]?)
include sees

/-- What is visible is to be found. -/
theorem found_of_visible {key : Bytes} {ref : Table.RowRef}
    (h : table.Visible l view spec key ref) : found[ref.handle]? = some ref.record := by
  rw [← sees, h.read]
  rfl

theorem visible_of_found {row : RowHandle} {record : Record} {key : Bytes}
    (there : found[row]? = some record) (keyed : spec.keyOf record = .ok key) :
    ∃ ref, table.Visible l view spec key ref ∧ ref.handle = row ∧ ref.record = record := by
  have hread := sees row
  rw [there] at hread
  cases hreading : Chain.read l view (table.chainOf row) with
  | visible version older =>
    rw [hreading] at hread
    cases hread
    exact ⟨⟨row, version, older⟩, ⟨hreading, keyed⟩, rfl, rfl⟩
  | deleted | invisible =>
    rw [hreading] at hread
    cases hread

/-- A new scan starts with the first row. -/
theorem Progress.opened {found? : Option Table.RowRef}
    (first : table.First l view spec kind (fun entry => kind.Covers start inclusive entry.1)
      found?) : Progress found spec kind start inclusive found? found?.toList := by
  cases found? with
  | none =>
    refine ⟨(fun _ h => by cases h), List.Pairwise.nil, (fun _ h => by cases h),
      fun row record key h => ?_⟩
    obtain ⟨ref, hvisible, rfl, rfl⟩ := visible_of_found sees h.there h.keyed
    exact absurd h.covered (first key ref hvisible)
  | some ref =>
    obtain ⟨key, hvisible, hcovers, hfirst⟩ := first
    refine ⟨fun other hother => ?_, List.pairwise_singleton _ _, fun last hlast => ?_,
      fun row record key' h => ?_⟩
    · rw [List.mem_singleton.mp hother]
      exact ⟨key, found_of_visible sees hvisible, hvisible.keyed, hcovers⟩
    · cases hlast
      exact ⟨[], rfl⟩
    · obtain ⟨other, hother, rfl, rfl⟩ := visible_of_found sees h.there h.keyed
      rcases hfirst key' other hother h.covered with rfl | hprecedes
      · exact Or.inl ⟨other, List.mem_singleton_self _, rfl, rfl⟩
      · exact Or.inr ⟨ref, key, rfl, hvisible.keyed, hprecedes⟩

/-- A scan goes on by the first row past the last. -/
theorem Progress.next {last : Table.RowRef} {rows : List Table.RowRef}
    (progress : Progress found spec kind start inclusive (some last) rows) {lastKey : Bytes}
    (hlast : spec.keyOf last.record = .ok lastKey) {found? : Option Table.RowRef}
    (first : table.First l view spec kind (fun entry => kind.Covers start inclusive entry.1 ∧
      kind.Precedes (lastKey, last.handle) entry) found?) :
    Progress found spec kind start inclusive found? (rows ++ found?.toList) := by
  have hahead : ∀ row record key, InRange found spec kind start inclusive row record key →
      (∃ ref ∈ rows, ref.handle = row ∧ ref.record = record) ∨
        ∃ ref, table.Visible l view spec key ref ∧ ref.handle = row ∧ ref.record = record ∧
          kind.Covers start inclusive key ∧ kind.Precedes (lastKey, last.handle) (key, ref.handle) := by
    intro row record key h
    refine (progress.ahead row record key h).imp_right ?_
    rintro ⟨_, _, heq, hkey, hprecedes⟩
    cases heq
    cases Except.ok.inj (hlast.symm.trans hkey)
    obtain ⟨ref, hvisible, rfl, rfl⟩ := visible_of_found sees h.there h.keyed
    exact ⟨ref, hvisible, rfl, rfl, h.covered, hprecedes⟩
  cases found? with
  | none =>
    rw [Option.toList_none, List.append_nil]
    refine ⟨progress.sound, progress.order, (fun _ h => by cases h), fun row record key h => ?_⟩
    refine (hahead row record key h).imp_right ?_
    rintro ⟨ref, hvisible, _, _, hcovers, hprecedes⟩
    exact absurd ⟨hcovers, hprecedes⟩ (first key ref hvisible)
  | some ref =>
    obtain ⟨key, hvisible, ⟨hcovers, hpast⟩, hfirst⟩ := first
    have hafter : RowsInOrder spec kind last ref := ⟨lastKey, key, hlast, hvisible.keyed, hpast⟩
    obtain ⟨before, hrows⟩ := progress.last last rfl
    rw [Option.toList_some]
    refine ⟨fun other hother => ?_, ?_, fun last' hlast' => ?_, fun row record key' h => ?_⟩
    · rcases List.mem_append.mp hother with hother | hother
      · exact progress.sound other hother
      · rw [List.mem_singleton.mp hother]
        exact ⟨key, found_of_visible sees hvisible, hvisible.keyed, hcovers⟩
    · refine List.pairwise_append.mpr ⟨progress.order, List.pairwise_singleton _ _,
        fun a ha b hb => ?_⟩
      rw [List.mem_singleton.mp hb]
      have horder := progress.order
      rw [hrows] at ha horder
      rcases List.mem_append.mp ha with ha | ha
      · exact ((List.pairwise_append.mp horder).2.2 a ha last (List.mem_singleton_self _)).trans
          hafter
      · rw [List.mem_singleton.mp ha]
        exact hafter
    · cases hlast'
      exact ⟨rows, rfl⟩
    · rcases hahead row record key' h with ⟨other, hother, heq⟩ | ⟨other, hother, rfl, rfl, hin⟩
      · exact Or.inl ⟨other, List.mem_append_left _ hother, heq⟩
      · rcases hfirst key' other hother hin with rfl | hprecedes
        · exact Or.inl ⟨other, List.mem_append_right _ (List.mem_singleton_self _), rfl, rfl⟩
        · exact Or.inr ⟨ref, key, rfl, hvisible.keyed, hprecedes⟩

end Progress

/-! ## 2. Requests one after another -/

namespace Service

/-- The transaction runs in the session and is not doomed. -/
def Runs (service : Service) (s : SessionId) (id : Int) : Prop :=
  ∃ session txn, service.sessions[s]? = some session ∧ session.transaction = some txn ∧
    txn.id = id ∧ txn.doomed = false

/-- The transaction goes on through all these requests: it neither ends nor is doomed, and stays in
its statement. -/
def Persists (s : SessionId) (id : Int) : Service → List Request → Prop
  | service, [] => service.Runs s id
  | service, request :: requests =>
    service.Runs s id ∧ request ≠ .beginStatement s ∧
      Persists s id (service.handle request).1 requests

/-- The requests about the scan are all made by the session: it asks for the next row, without the
writes of its statement. -/
def ScansAlone (s : SessionId) (tid : TableId) (id : ScanId) (kind : ScanKind)
    (requests : List Request) : Prop :=
  ∀ request ∈ requests, request.scans id = true → request = .nextInScan s tid id kind false

theorem runs_iff {service : Service} {s : SessionId} {id : Int} : service.Runs s id ↔
    (service.sessions[s]?.bind (·.transaction)).any (fun txn => txn.id == id && !txn.doomed) =
      true := by
  simp only [Runs, Option.any_eq_true, Option.bind_eq_some_iff, Bool.and_eq_true, beq_iff_eq,
    Bool.not_eq_true']
  constructor
  · rintro ⟨session, txn, asks, runs, hid, alive⟩
    exact ⟨txn, ⟨session, asks, runs⟩, hid, alive⟩
  · rintro ⟨txn, ⟨session, asks, runs⟩, hid, alive⟩
    exact ⟨session, txn, asks, runs, hid, alive⟩

instance (service : Service) (s : SessionId) (id : Int) : Decidable (service.Runs s id) :=
  decidable_of_iff _ runs_iff.symm

/-- The session whose next statement is to begin. -/
def continuing : Request → Option SessionId
  | .beginStatement s => some s
  | _ => none

theorem continuing_iff {request : Request} {s : SessionId} :
    continuing request = some s ↔ request = .beginStatement s := by
  cases request <;> simp [continuing]

/-- The session that goes on with an index scan, and what it asks of the scan. -/
def advancing : Request → Option (SessionId × TableId × ScanId × ScanKind × Bool)
  | .nextInScan s tid id kind own => some (s, tid, id, kind, own)
  | _ => none

theorem advancing_iff {request : Request} {s : SessionId} {tid : TableId} {id : ScanId}
    {kind : ScanKind} {own : Bool} :
    advancing request = some (s, tid, id, kind, own) ↔ request = .nextInScan s tid id kind own := by
  cases request <;> simp [advancing]

instance (request : Request) (s : SessionId) : Decidable (request = .beginStatement s) :=
  decidable_of_iff _ continuing_iff

instance (request : Request) (s : SessionId) (tid : TableId) (id : ScanId) (kind : ScanKind)
    (own : Bool) : Decidable (request = .nextInScan s tid id kind own) :=
  decidable_of_iff _ advancing_iff

instance decidablePersists (s : SessionId) (id : Int) :
    (service : Service) → (requests : List Request) → Decidable (Persists s id service requests)
  | service, [] => inferInstanceAs (Decidable (service.Runs s id))
  | service, request :: requests =>
    have := decidablePersists s id (service.handle request).1 requests
    inferInstanceAs (Decidable (_ ∧ _ ∧ _))

instance (s : SessionId) (tid : TableId) (id : ScanId) (kind : ScanKind) (requests : List Request) :
    Decidable (ScansAlone s tid id kind requests) :=
  inferInstanceAs (Decidable (∀ request ∈ requests, _ → _))

theorem Persists.runs {s : SessionId} {id : Int} {service : Service} {requests : List Request}
    (h : Persists s id service requests) : service.Runs s id := by
  cases requests with
  | nil => exact h
  | cons => exact h.1

theorem lastId_le_run {service : Service} {work : Work} (ok : service.Ok work)
    (requests : List Request) :
    service.store.ledger.lastId ≤ (service.run requests).1.store.ledger.lastId := by
  obtain ⟨_, _, moves⟩ := run_moves ok requests
  exact (moves.grows ok.store).lastId_le

/-- What is known of a scan stays while nothing is asked about it. -/
theorem told_of_elsewhere {courses : Courses} {request : Request} {reply : Reply} {id : ScanId}
    (h : request.scans id = false) : courses.told request reply id = courses id := by
  rw [Request.scans, Bool.or_eq_false_iff, decide_eq_false_iff_not, decide_eq_false_iff_not] at h
  cases request with
  | openScan s tid other kind i start inclusive own =>
    have hne : id ≠ other := fun heq => h.1 (congrArg some heq.symm)
    cases reply with
    | found finding => exact Function.update_of_ne hne _ _
    | _ => rfl
  | nextInScan s tid other kind own =>
    have hne : id ≠ other := fun heq => h.2 (congrArg some heq.symm)
    exact Function.update_of_ne hne _ _
  | _ => rfl

/-- A transaction in its statement, with the rows that are to be found in an index. -/
structure Scanning (history : List Event) (service : Service) (courses : Courses) (s : SessionId)
    (txn : Transaction) (found : Std.ExtTreeMap RowHandle Record) (tid : TableId) (i : Nat)
    (spec : KeySpec) : Prop where
  reached : Reached history service
  followed : Followed courses service
  runs : ∃ session now, service.sessions[s]? = some session ∧ session.transaction = some now ∧
    now.id = txn.id ∧ now.snapshot = txn.snapshot ∧ now.statement = txn.statement
  found : (Chronicle.of history).rows tid txn.id txn.snapshot false = found
  there : ∃ table index, service.store.tables[tid]? = some table ∧ table.indexes[i]? = some index ∧
    index.spec = spec

section Step

variable {history : List Event} {service : Service} {courses : Courses} {s : SessionId}
  {txn : Transaction} {found : Std.ExtTreeMap RowHandle Record} {tid : TableId} {i : Nat}
  {spec : KeySpec} {id : ScanId} {kind : ScanKind} {start : Bytes} {inclusive : Bool}
  {last? : Option Table.RowRef} {request : Request}

/-- The transaction reads the rows to be found. -/
theorem Scanning.sees (scanning : Scanning history service courses s txn found tid i spec)
    (few : service.store.ledger.lastId < 2 ^ 40) (short : txn.statement ≤ Stamp.maxStatement)
    {table : Table} (here : service.store.tables[tid]? = some table) {now : Transaction}
    {session : Session} (asks : service.sessions[s]? = some session)
    (runs : session.transaction = some now) (row : RowHandle) :
    (Chain.read service.store.ledger (now.view false) (table.chainOf row)).record? = found[row]? := by
  obtain ⟨work, ok, shows⟩ := scanning.reached.shows few
  obtain ⟨_, _, asks', runs', hid, hsnapshot, hstatement⟩ := scanning.runs
  cases asks.symm.trans asks'
  cases runs.symm.trans runs'
  have hread := shows.read ok.store few (ok.linked.held asks runs) (by rw [hstatement]; exact short)
    here row false
  rw [hread, hid, hsnapshot, scanning.found]

/-- A request leaves the transaction with the same rows to be found. -/
theorem Scanning.asked (scanning : Scanning history service courses s txn found tid i spec)
    (few : (service.handle request).1.store.ledger.lastId < 2 ^ 40)
    (stays : request ≠ .beginStatement s)
    (runs' : (service.handle request).1.Runs s txn.id) :
    Scanning (history ++ service.happening request) (service.handle request).1
      (courses.told request (service.handle request).2) s txn found tid i spec := by
  obtain ⟨session, now, asks, runs, hid, hsnapshot, hstatement⟩ := scanning.runs
  obtain ⟨session', now', asks', running', hid', _⟩ := runs'
  obtain ⟨_, hsnapshot', hstatement', hrows⟩ :=
    scanning.reached.rows_stay few asks runs asks' running' stays
  refine ⟨scanning.reached.asked request, scanning.followed.asked request,
    ⟨session', now', asks', running', hid', hsnapshot'.trans hsnapshot,
      hstatement'.trans hstatement⟩, ?_, ?_⟩
  · rw [← scanning.found, ← hid, ← hsnapshot]
    exact hrows tid
  · obtain ⟨work, ok⟩ := scanning.reached.ok
    obtain ⟨_, _, answered⟩ := handle_moves ok request
    obtain ⟨table, index, here, there, hspec⟩ := scanning.there
    obtain ⟨table', here', hextends⟩ := (answered.moves.extends ok.store).keeps here
    obtain ⟨index', there', hspec', _⟩ := hextends.indexes there
    exact ⟨table', index', here', there', hspec'.trans hspec⟩

/-- A request for the next row brings the scan further. -/
theorem Scanning.next (scanning : Scanning history service courses s txn found tid i spec)
    (few : service.store.ledger.lastId < 2 ^ 40) (short : txn.statement ≤ Stamp.maxStatement)
    (alive : service.Runs s txn.id)
    (known : courses id = some ⟨tid, i, kind, start, inclusive, last?⟩) {rows : List Table.RowRef}
    (progress : Progress found spec kind start inclusive last? rows) :
    ∃ found?, (service.handle (.nextInScan s tid id kind false)).2 = .found (.ofOption found?) ∧
      Progress found spec kind start inclusive found? (rows ++ found?.toList) ∧
      (last? = none → found? = none) := by
  obtain ⟨session, now, asks, runs, _, alive⟩ := alive
  obtain ⟨table, index, here, there, rfl⟩ := scanning.there
  cases last? with
  | none =>
    refine ⟨none, ?_, ?_, fun _ => rfl⟩
    · have hnone : ∀ request ∈ ([] : List Request), request.opens? ≠ some id :=
        fun _ h => by cases h
      exact scanning.followed.ended false known rfl hnone asks runs alive
    · rw [Option.toList_none, List.append_nil]
      exact progress
  | some last =>
    obtain ⟨key, found?, hkey, hreply, hfirst⟩ :=
      scanning.followed.goes_on asks runs alive here there false known rfl rfl rfl
    exact ⟨found?, hreply, progress.next (scanning.sees few short here asks runs) hkey hfirst,
      fun h => by cases h⟩

/-- A scan that the transaction goes on with to its end has returned all rows to be found. -/
theorem Scanning.run (short : txn.statement ≤ Stamp.maxStatement) {requests : List Request}
    {rows : List Table.RowRef}
    (scanning : Scanning history service courses s txn found tid i spec)
    (known : courses id = some ⟨tid, i, kind, start, inclusive, last?⟩)
    (progress : Progress found spec kind start inclusive last? rows)
    (persists : Persists s txn.id service requests) (alone : ScansAlone s tid id kind requests)
    (few : (service.run requests).1.store.ledger.lastId < 2 ^ 40) :
    ∃ final?, Progress found spec kind start inclusive final?
        (rows ++ returned id (requests.zip (service.run requests).2)) ∧
      (last? = none ∨ Reported id (requests.zip (service.run requests).2) → final? = none) := by
  -- A request elsewhere leaves the progress of the scan; one that goes on with it adds the row returned.
  induction requests generalizing history service courses last? rows with
  | nil =>
    refine ⟨last?, ?_, ?_⟩
    · rw [show returned id ([].zip (service.run []).2) = [] from rfl, List.append_nil]
      exact progress
    · rintro (hnone | ⟨_, hin, _⟩)
      · exact hnone
      · cases hin
  | cons request requests ih =>
    obtain ⟨alive, stays, hrest⟩ := persists
    have few' : ((service.handle request).1.run requests).1.store.ledger.lastId < 2 ^ 40 := few
    obtain ⟨work', ok'⟩ := (scanning.reached.asked request).ok
    have fewMiddle := Int.lt_of_le_of_lt (lastId_le_run ok' requests) few'
    obtain ⟨work, ok⟩ := scanning.reached.ok
    have fewBefore := Int.lt_of_le_of_lt (lastId_le_run ok [request]) fewMiddle
    have alone' : ScansAlone s tid id kind requests := fun r hr => alone r (List.mem_cons_of_mem _ hr)
    have scanning' := scanning.asked fewMiddle stays hrest.runs
    have hrun : (service.run (request :: requests)).2 =
        (service.handle request).2 :: ((service.handle request).1.run requests).2 := rfl
    rw [hrun, List.zip_cons_cons, returned_cons, reported_cons, ← List.append_assoc]
    cases hscans : request.scans id with
    | false =>
      rw [if_neg Bool.false_ne_true, List.append_nil]
      obtain ⟨final?, hprogress, hends⟩ := ih scanning' ((told_of_elsewhere hscans).trans known)
        progress hrest alone' few'
      exact ⟨final?, hprogress, fun h => hends (h.imp_right fun h =>
        h.resolve_left fun hin => Bool.false_ne_true hin.1)⟩
    | true =>
      have hrequest := alone request List.mem_cons_self hscans
      subst hrequest
      obtain ⟨found?, hreply, hprogress, hnone⟩ :=
        scanning.next fewBefore short alive known progress
      have hknown : courses.told (.nextInScan s tid id kind false)
          (service.handle (.nextInScan s tid id kind false)).2 id =
            some ⟨tid, i, kind, start, inclusive, found?⟩ := by
        rw [Courses.told, Function.update_self, known, Option.bind_some, if_pos rfl, hreply]
        cases found? <;> rfl
      have hrow : (service.handle (.nextInScan s tid id kind false)).2.row? = found? := by
        rw [hreply, Reply.row?, Store.Finding.row?_ofOption]
      rw [if_pos rfl, hrow]
      obtain ⟨final?, hall, hends⟩ := ih scanning' hknown hprogress hrest alone' few'
      refine ⟨final?, hall, fun h => hends ?_⟩
      rcases h with h | ⟨_, h⟩ | h
      · exact Or.inl (hnone h)
      · rw [hreply] at h
        cases found? with
        | none => exact Or.inl rfl
        | some ref => cases h
      · exact Or.inr h

end Step

theorem Reached.followed {history : List Event} {service : Service}
    (reached : Reached history service) : ∃ courses, Followed courses service := by
  induction reached with
  | start => exact ⟨_, .start⟩
  | added _ name schema config ih =>
    obtain ⟨courses, followed⟩ := ih
    exact ⟨_, followed.added name schema config⟩
  | asked _ request ih =>
    obtain ⟨courses, followed⟩ := ih
    exact ⟨_, followed.asked request⟩

/-- A scan that leaves out the writes of its statement, and that the statement gets to the end of, has
returned what was to be seen when it was opened: each row once, with its record, and in order. What
the statement itself and others have written in between makes no difference. -/
theorem Reached.scan_complete {history : List Event} {service : Service}
    (reached : Reached history service) {s : SessionId} {session : Session} {txn : Transaction}
    (asks : service.sessions[s]? = some session) (runs : session.transaction = some txn)
    (short : txn.statement ≤ Stamp.maxStatement) {tid : TableId} {table : Table}
    (here : service.store.tables[tid]? = some table) {i : Nat} {index : Index}
    (there : table.indexes[i]? = some index) (id : ScanId) (kind : ScanKind) {start : Bytes}
    (within : start.length ≤ table.maxKeyLength) (inclusive : Bool) {requests rest : List Request}
    (opened : requests = .openScan s tid id kind i start inclusive false :: rest)
    (persists : Persists s txn.id service requests) (alone : ScansAlone s tid id kind rest)
    (few : (service.run requests).1.store.ledger.lastId < 2 ^ 40)
    (ended : Reported id (requests.zip (service.run requests).2)) :
    (∀ row record, (∃ ref ∈ returned id (requests.zip (service.run requests).2),
        ref.handle = row ∧ ref.record = record) ↔
      ∃ key ref, table.Visible service.store.ledger (txn.view false) index.spec key ref ∧
        kind.Covers start inclusive key ∧ ref.handle = row ∧ ref.record = record) ∧
    (returned id (requests.zip (service.run requests).2)).Pairwise
      (RowsInOrder index.spec kind) := by
  subst opened
  obtain ⟨alive, stays, hrest⟩ := persists
  obtain ⟨courses, followed⟩ := reached.followed
  have scanning : Scanning history service courses s txn
      ((Chronicle.of history).rows tid txn.id txn.snapshot false) tid i index.spec :=
    ⟨reached, followed, ⟨session, txn, asks, runs, rfl, rfl, rfl⟩, rfl,
      ⟨table, index, here, there, rfl⟩⟩
  obtain ⟨work', ok'⟩ := (reached.asked (.openScan s tid id kind i start inclusive false)).ok
  have fewMiddle := Int.lt_of_le_of_lt (lastId_le_run ok' rest) few
  obtain ⟨work, ok⟩ := reached.ok
  have fewBefore := Int.lt_of_le_of_lt
    (lastId_le_run ok [.openScan s tid id kind i start inclusive false]) fewMiddle
  have hsees := scanning.sees fewBefore short here asks runs
  obtain ⟨_, _, asks', runs', _, hdoomed⟩ := alive
  cases asks.symm.trans asks'
  cases runs.symm.trans runs'
  obtain ⟨found?, hreply, hfirst⟩ :=
    followed.opened asks runs hdoomed here there false id kind inclusive within
  have hknown : courses.told (.openScan s tid id kind i start inclusive false)
      (service.handle (.openScan s tid id kind i start inclusive false)).2 id =
        some ⟨tid, i, kind, start, inclusive, found?⟩ := by
    rw [hreply, Courses.told, Function.update_self, Store.Finding.row?_ofOption]
  obtain ⟨final?, hprogress, hends⟩ := (scanning.asked fewMiddle stays hrest.runs).run short hknown
    (Progress.opened hsees hfirst) hrest alone few
  have hrun : (service.run (.openScan s tid id kind i start inclusive false :: rest)).2 =
      (service.handle (.openScan s tid id kind i start inclusive false)).2 ::
        ((service.handle (.openScan s tid id kind i start inclusive false)).1.run rest).2 := rfl
  have hscans : (Request.openScan s tid id kind i start inclusive false).scans id = true := by
    simp [Request.scans, Request.opens?]
  rw [hrun, List.zip_cons_cons, reported_cons] at ended
  rw [hrun, List.zip_cons_cons, returned_cons, if_pos hscans, hreply, Reply.row?,
    Store.Finding.row?_ofOption]
  have hfinal : final? = none := by
    refine hends (ended.imp_left fun h => ?_)
    have hnothing := h.2
    rw [hreply] at hnothing
    cases found? with
    | none => rfl
    | some ref => cases hnothing
  rw [hfinal] at hprogress
  refine ⟨fun row record => ⟨?_, ?_⟩, hprogress.order⟩
  · rintro ⟨ref, hin, rfl, rfl⟩
    obtain ⟨key, hrange⟩ := hprogress.sound ref hin
    obtain ⟨seen, hvisible, hhandle, hrecord⟩ :=
      visible_of_found hsees hrange.there hrange.keyed
    exact ⟨key, seen, hvisible, hrange.covered, hhandle, hrecord⟩
  · rintro ⟨key, ref, hvisible, hcovers, rfl, rfl⟩
    rcases hprogress.ahead ref.handle ref.record key
      ⟨found_of_visible hsees hvisible, hvisible.keyed, hcovers⟩ with hin | ⟨_, _, heq, _⟩
    · exact hin
    · cases heq

/-- Two rows are committed. The first session begins and moves each row that its scan returns to a key
ahead of the scan, until the scan is at its end. -/
def movingWhatIsFound : List Request :=
  [.openScan 1 0 0 .range 0 [0] true false,
    .update 1 0 firstRow (byteRecord 5), .nextInScan 1 0 0 .range false,
    .update 1 0 secondRow (byteRecord 6), .nextInScan 1 0 0 .range false]

/-- Two rows are committed, and a transaction begins. -/
def twoRows : List Request :=
  [.buildIndex 0 byteIndex, .begin 1 1, .insert 1 0 (byteRecord 1), .insert 1 0 (byteRecord 2),
    .commit 1 .session, .begin 1 1]

/-- The scan returns the two rows, with the keys that they had. -/
theorem movingWhatIsFound_complete : ∃ (txn : Transaction) (table : Table) (index : Index),
    txn.id = 2 ∧ (small.run twoRows).1.store.tables[0]? = some table ∧
    table.indexes[0]? = some index ∧
    ∀ row record, (∃ ref ∈ returned 0
        (movingWhatIsFound.zip ((small.run twoRows).1.run movingWhatIsFound).2),
          ref.handle = row ∧ ref.record = record) ↔
      ∃ key ref, table.Visible (small.run twoRows).1.store.ledger (txn.view false) index.spec key
          ref ∧ ScanKind.range.Covers [0] true key ∧ ref.handle = row ∧ ref.record = record := by
  have hsession : ((small.run twoRows).1.sessions[1]?.bind (·.transaction)).map
      (fun txn => (txn.id, txn.statement)) = some (2, 1) := by
    decide +kernel
  have hindex : ((small.run twoRows).1.store.tables[0]?.bind fun table =>
      table.indexes[0]?.map fun _ => table.maxKeyLength) = some 4096 := by
    decide +kernel
  obtain ⟨txn, hrunning, htxn⟩ := Option.map_eq_some_iff.mp hsession
  obtain ⟨session, asks, runs⟩ := Option.bind_eq_some_iff.mp hrunning
  obtain ⟨hid, hstatement⟩ := Prod.mk.inj htxn
  obtain ⟨table, here, hfound⟩ := Option.bind_eq_some_iff.mp hindex
  obtain ⟨index, there, hlimit⟩ := Option.map_eq_some_iff.mp hfound
  refine ⟨txn, table, index, hid, here, there, ?_⟩
  have opened : movingWhatIsFound =
      .openScan 1 0 0 .range 0 [0] true false :: movingWhatIsFound.tail := rfl
  obtain ⟨persists, few, ended⟩ : Persists 1 2 (small.run twoRows).1 movingWhatIsFound ∧
      ((small.run twoRows).1.run movingWhatIsFound).1.store.ledger.lastId < 2 ^ 40 ∧
      Reported 0 (movingWhatIsFound.zip ((small.run twoRows).1.run movingWhatIsFound).2) := by
    unfold Reported
    decide +kernel
  exact ((reached_small.run twoRows).scan_complete asks runs (by rw [hstatement]; decide) here there 0
    .range (by rw [hlimit]; decide) true opened (by rw [hid]; exact persists) (by decide +kernel) few
    ended).1

end Service
end SnapshotStore
