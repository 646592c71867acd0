import Mathlib
import SnapshotStore.Proofs.Service.IndexScans
import SnapshotStore.Proofs.Service.Refused
import SnapshotStore.Proofs.Table.Verdict

/-!
# Records of any layout

A table looks at the length of a record and at nothing else of its layout, so its rows may be laid out by
schemas of all kinds. What keeps them apart from each other is that a version is linked only once every
index has found its key, and that an index is built only once it has found the key of every version that
is linked. From then on no reader and no writer can meet a row in which a key cannot be found: whoever
asks with a short key, or writes a record that fits, is never told of a schema, a field or a key
(`Reached.rows_readable`).

The errors that are ruled out are all that the reading of records and the building of keys can raise. It
does not matter how a reader comes to the entry it looks at, so this holds of scans in any position.
-/

namespace SnapshotStore

open Fallible

/-! ## 1. The errors in question -/

namespace Error

/-- A schema, a field, or the length of a record or of a key is at fault. -/
def concernsLayout : Error → Bool
  | invalidSchema _ | recordLengthMismatch _ _ | fieldIndexOutOfBounds _ | fieldTooLong _ _ _
  | keyTooLong _ _ => true
  | _ => false

end Error

namespace Reply

/-- The request failed, and a schema, a field, or the length of a record or of a key is at fault. -/
def concernsLayout : Reply → Bool
  | failed error => error.concernsLayout
  | _ => false

/-- Only a failure can concern the layout of records. -/
theorem concernsLayout_of {α : Type} {reply : α → Reply} {result : Except Error α}
    (hreply : ∀ a, (reply a).concernsLayout = false)
    (h : ∀ error, result = .error error → error.concernsLayout = false) :
    (Reply.of reply result).concernsLayout = false := by
  cases result with
  | error error => exact h error rfl
  | ok a => exact hreply a

end Reply

/-! ## 2. Reading rows whose keys can be found -/

/-- Matching any bytes with a record whose key can be found comes out well. -/
theorem KeySpec.Keyed.exists_carries {spec : KeySpec} {limit : Nat} {record : Record} {key : Bytes}
    (h : spec.Keyed limit record key) (stored : Bytes) : ∃ b, spec.carries record stored = .ok b := by
  obtain ⟨parts, hparts, _⟩ := keyOf_eq_ok.mp h.1
  rw [carries]
  split
  · exact ⟨false, rfl⟩
  · exact ⟨_, matchParts_eq hparts _⟩

/-- Looking for the first comes out well if looking at each does. -/
theorem List.exists_findSomeM? {α β ε : Type} {f : α → Except ε (Option β)} {l : List α}
    (h : ∀ a ∈ l, ∃ b, f a = .ok b) : ∃ b, l.findSomeM? f = .ok b := by
  induction l with
  | nil => exact ⟨none, rfl⟩
  | cons a l ih =>
    obtain ⟨b, hb⟩ := h a List.mem_cons_self
    rw [List.findSomeM?_cons, hb]
    cases b with
    | some b => exact ⟨some b, rfl⟩
    | none => exact ih fun a' h' => h a' (List.mem_cons_of_mem _ h')

namespace Table

/-- Every version of every row has a key by the specification. -/
def AllKeyed (table : Table) (spec : KeySpec) : Prop :=
  ∀ row, ∀ v ∈ table.chainOf row, ∃ key, spec.Keyed table.maxKeyLength v.record key

theorem Ok.allKeyed {l : Ledger} {work : Work} {tid : TableId} {table : Table}
    (ok : Ok l work tid [] table) {i : Nat} {index : Index} (h : table.indexes[i]? = some index) :
    table.AllKeyed index.spec :=
  fun _ _ hv => (ok.indexes h).keyed hv

section Reading

variable {table : Table} (l : Ledger) (view : View)

theorem AllKeyed.exists_visibleRow {spec : KeySpec} (keyed : table.AllKeyed spec) (entry : Bytes)
    (row : RowHandle) : ∃ found?, table.visibleRow l view spec entry row = .ok found? := by
  rw [visibleRow]
  cases hrow : table.rows[row]? with
  | none => exact ⟨none, rfl⟩
  | some chain =>
    dsimp only
    cases hread : Chain.read l view chain with
    | deleted => exact ⟨none, rfl⟩
    | invisible => exact ⟨none, rfl⟩
    | visible version older =>
      have hmem : version ∈ table.chainOf row := by
        rw [chainOf_eq hrow]
        exact (Chain.suffix_of_read hread).subset List.mem_cons_self
      obtain ⟨key, hkey⟩ := keyed row version hmem
      obtain ⟨b, hb⟩ := hkey.exists_carries entry
      dsimp only
      rw [hb, ok_bind]
      cases b with
      | true => exact ⟨some ⟨row, version, older⟩, rfl⟩
      | false => exact ⟨none, rfl⟩

theorem AllKeyed.exists_lookupRow {index : Index} (keyed : table.AllKeyed index.spec) {key : Bytes}
    (short : key.length ≤ table.maxKeyLength) :
    ∃ found?, table.lookupRow l view index key = .ok found? := by
  rw [lookupRow, Key.lookup_of_le short, ok_bind]
  exact List.exists_findSomeM? fun entry _ => keyed.exists_visibleRow l view entry.1 entry.2

theorem AllKeyed.exists_advanceWithin {index : Index} (keyed : table.AllKeyed index.spec)
    (count : Nat) (scan : IndexScan) :
    ∃ found?, (scan.advanceWithin index table l view count).2 = .ok found? := by
  induction count generalizing scan with
  | zero => exact ⟨none, rfl⟩
  | succ count ih =>
    rw [IndexScan.advanceWithin]
    dsimp only
    split
    · exact ⟨none, rfl⟩
    · rename_i entry row _
      obtain ⟨found?, hfound⟩ := keyed.exists_visibleRow l view entry row
      rw [hfound]
      cases found? with
      | some ref => exact ⟨some ref, rfl⟩
      | none => exact ih _

/-- A scan goes on without failing from wherever it is. -/
theorem AllKeyed.exists_advance {index : Index} (keyed : table.AllKeyed index.spec)
    (scan : IndexScan) : ∃ found?, (scan.advance index table l view).2 = .ok found? := by
  rw [IndexScan.advance]
  split
  · exact ⟨none, rfl⟩
  · exact keyed.exists_advanceWithin l view _ scan

end Reading

end Table

/-! ## 3. What an operation may fail with -/

namespace Store

variable {store : Store} {session : Session} {tid : TableId} {table : Table} {own : Bool}
  {error : Error}

/-- A transaction cannot be entered only if none is admitted. -/
theorem enter_eq_error (h : store.enter session = .error error) : error = .engineClosed := by
  rw [enter, Session.enter] at h
  cases hsession : session.transaction with
  | some txn =>
    rw [hsession] at h
    cases h
  | none =>
    rw [hsession] at h
    cases hbegin : store.ledger.begin? with
    | none =>
      simp only [Transaction.begin, hbegin, error_bind] at h
      cases h
      rfl
    | some begun =>
      simp only [Transaction.begin, hbegin, ok_bind] at h
      cases h

section Reads

variable {i : Nat} {index : Index} (here : store.tables[tid]? = some table)
  (keyed : ∀ {i : Nat} {index : Index}, table.indexes[i]? = some index → table.AllKeyed index.spec)
include here keyed

theorem lookup_error (there : table.indexes[i]? = some index) {key : Bytes}
    (short : key.length ≤ table.maxKeyLength)
    (h : (store.lookup session tid i key own).2.2 = .error error) : error = .engineClosed := by
  rw [lookup, indexFor_eq_ok here there short] at h
  dsimp only at h
  cases henter : store.enter session with
  | error error' =>
    rw [henter] at h
    cases h
    exact enter_eq_error henter
  | ok entered =>
    rw [henter] at h
    dsimp only at h
    split at h
    · cases h
    · obtain ⟨found?, hfound⟩ := (keyed there).exists_lookupRow entered.1.ledger
        (entered.2.2.view own) short
      rw [hfound] at h
      cases h

/-- A scan of its own table fails only if its index does not exist. -/
theorem advanceScan_error {txn : Transaction} {scan : IndexScan} (hscan : scan.table = tid)
    (h : (store.advanceScan txn tid scan own).2 = .error error) :
    table.indexes[scan.index]? = none ∧ error.concernsLayout = false := by
  cases hindex : table.indexes[scan.index]? with
  | none =>
    refine ⟨rfl, ?_⟩
    rw [advanceScan, hscan, table_eq_ok.mpr here, ok_bind, ok_bind, Table.index, hindex] at h
    cases h
    rfl
  | some index =>
    rw [advanceScan_eq store txn own here (hscan ▸ here) hindex] at h
    obtain ⟨found?, hfound⟩ := (keyed hindex).exists_advance store.ledger (txn.view own) scan
    rw [hfound] at h
    cases h

theorem openScan_error (there : table.indexes[i]? = some index) {kind : ScanKind} {start : Bytes}
    {inclusive : Bool} (short : start.length ≤ table.maxKeyLength)
    (h : (store.openScan session tid kind i start inclusive own).2.2 = .error error) :
    error = .engineClosed := by
  rw [openScan, indexFor_eq_ok here there short] at h
  dsimp only at h
  cases henter : store.enter session with
  | error error' =>
    rw [henter] at h
    cases h
    exact enter_eq_error henter
  | ok entered =>
    have here' : entered.1.tables[tid]? = some table := by
      rw [(enter_eq_ok henter).1]
      exact here
    rw [henter] at h
    dsimp only at h
    split at h
    · cases h
    · cases hresult : (entered.1.advanceScan entered.2.2 tid
          ⟨tid, i, kind, kind.cursor index.trie start inclusive, true, false⟩ own).2 with
      | error error' =>
        have hnone := (advanceScan_error here' keyed rfl hresult).1
        rw [there] at hnone
        cases hnone
      | ok finding =>
        rw [hresult] at h
        cases h

theorem nextInScan_error {kind : ScanKind} {scan : IndexScan} (hscan : scan.table = tid)
    (h : (store.nextInScan session tid kind scan own).2.2.2 = .error error) :
    error.concernsLayout = false := by
  rw [nextInScan] at h
  split at h
  · cases h
    rfl
  · cases henter : store.enter session with
    | error error' =>
      rw [henter] at h
      cases h
      rw [enter_eq_error henter]
      rfl
    | ok entered =>
      have here' : entered.1.tables[tid]? = some table := by
        rw [(enter_eq_ok henter).1]
        exact here
      rw [henter] at h
      dsimp only at h
      split at h
      · cases h
      · exact (advanceScan_error here' keyed hscan h).2

end Reads

section Writes

variable {work : Work} (ok : store.Ok work)
  (held : ∀ txn, session.transaction = some txn → work txn.id = some txn)
  (here : store.tables[tid]? = some table)
include ok held here

/-- A write to a table that is there, of a record that is not too long or too short, fails with what
entering the transaction or the attempt fails with. -/
theorem write_error {check : Table → Except Error Unit}
    {attempt : Table → Ledger → Transaction → Table.Attempt} (checked : check table = .ok ())
    (h : (store.write session tid check attempt).2.2 = .error error) :
    error = .engineClosed ∨ ∃ l work txn, Table.Ok l work tid [] table ∧
      (attempt table l txn).outcome = .error error := by
  rw [write, table_eq_ok.mpr here] at h
  dsimp only at h
  rw [checked] at h
  dsimp only at h
  cases henter : store.enter session with
  | error error' =>
    rw [henter] at h
    cases h
    exact Or.inl (enter_eq_error henter)
  | ok entered =>
    obtain ⟨store', session', txn⟩ := entered
    obtain ⟨_, work', serves, _, _, htables⟩ := enter_serves ok held henter
    have here' : store'.tables[tid]? = some table := by
      rw [htables]
      exact here
    rw [henter] at h
    dsimp only at h
    split at h
    · cases h
    · exact Or.inr ⟨store'.ledger, work', txn, (serves.moves.ok ok).tables here', h⟩

variable {record : Record} (length : record.bytes.length = table.schema.rowLength)
  (fits : table.Fits record)
include length fits

theorem insert_error (h : (store.insert session tid record).2.2 = .error error) :
    error.concernsLayout = false := by
  have checked : table.checkRecord record = .ok () := by
    rw [Table.checkRecord, if_neg (not_not.mpr length)]
  rcases write_error ok held here checked h with rfl | ⟨l, _, txn, tableOk, houtcome⟩
  · rfl
  · cases hrow : RowHandle.ofNat? table.nextHandle with
    | none =>
      rw [Table.insertRow, hrow] at houtcome
      cases houtcome
      rfl
    | some row =>
      rcases tableOk.insertRow_outcome txn hrow fits with ⟨_, _, hdone⟩ | ⟨_, hdone⟩
      all_goals
        rw [hdone] at houtcome
        cases houtcome

theorem update_error {row : RowHandle}
    (h : (store.update session tid row record).2.2 = .error error) :
    error.concernsLayout = false := by
  have checked : table.checkRecord record = .ok () := by
    rw [Table.checkRecord, if_neg (not_not.mpr length)]
  rcases write_error ok held here checked h with rfl | ⟨l, _, txn, tableOk, houtcome⟩
  · rfl
  · rcases tableOk.updateRow_spec txn row record with ⟨_, hconflict⟩ | ⟨_, _, hchain, hwritable, _⟩
    · rw [hconflict] at houtcome
      cases houtcome
    · rcases tableOk.updateRow_outcome txn hchain hwritable fits with ⟨_, _, hdone⟩ | ⟨_, hdone⟩
      all_goals
        rw [hdone] at houtcome
        cases houtcome

end Writes

end Store

/-! ## 4. What a worker may be told -/

namespace Service

variable {history : List Event} {service : Service}

/-- Nobody who asks with a short key, or writes a record that fits, is told of the layout of records. -/
structure Readable (service : Service) (tid : TableId) (table : Table) : Prop where
  /-- The entry of every version can be built for every index. -/
  entries : ∀ (row : RowHandle) (v : Version) (i : Nat) (index : Index), v ∈ table.chainOf row →
    table.indexes[i]? = some index → ∃ entry, index.spec.entry table.maxKeyLength v.record row = .ok entry
  lookups : ∀ (s : SessionId) (i : Nat) (key : Bytes) (own : Bool), i < table.indexes.length →
    key.length ≤ table.maxKeyLength →
      (service.handle (.lookup s tid i key own)).2.concernsLayout = false
  opens : ∀ (s : SessionId) (id : ScanId) (kind : ScanKind) (i : Nat) (start : Bytes)
    (inclusive own : Bool), i < table.indexes.length → start.length ≤ table.maxKeyLength →
      (service.handle (.openScan s tid id kind i start inclusive own)).2.concernsLayout = false
  /-- A scan that was opened on the table, wherever it is. -/
  steps : ∀ (s : SessionId) (id : ScanId) (scan : IndexScan) (kind : ScanKind) (own : Bool),
    service.indexScans[id]? = some scan → scan.table = tid →
      (service.handle (.nextInScan s tid id kind own)).2.concernsLayout = false
  inserts : ∀ (s : SessionId) (record : Record), record.bytes.length = table.schema.rowLength →
    table.Fits record → (service.handle (.insert s tid record)).2.concernsLayout = false
  updates : ∀ (s : SessionId) (row : RowHandle) (record : Record),
    record.bytes.length = table.schema.rowLength → table.Fits record →
      (service.handle (.update s tid row record)).2.concernsLayout = false

/-- An operation done for a session concerns the layout of records only if it fails on account of it. -/
theorem concernsLayout_attempt {α : Type} {s : SessionId} {operation : Store → Session → Store.Step α}
    {reply : α → Reply} (hreply : ∀ a, (reply a).concernsLayout = false)
    (h : ∀ session, service.sessions[s]? = some session → ∀ error,
      (operation service.store session).2.2 = .error error → error.concernsLayout = false) :
    (service.attempt s operation reply).2.concernsLayout = false := by
  rw [attempt, forSession]
  cases asks : service.sessions[s]? with
  | none => rfl
  | some session => exact Reply.concernsLayout_of hreply (h session asks)

/-- Whatever was written to a table, and by whatever schema it was laid out, no reader and no writer whose
own key or record is in order is told of a schema, a field or a key. -/
theorem Reached.rows_readable (reached : Reached history service) {tid : TableId} {table : Table}
    (here : service.store.tables[tid]? = some table) : service.Readable tid table := by
  obtain ⟨work, ok⟩ := reached.ok
  have tableOk := ok.store.tables here
  have keyed : ∀ {i : Nat} {index : Index}, table.indexes[i]? = some index →
      table.AllKeyed index.spec := tableOk.allKeyed
  refine ⟨fun row v i index hv hindex => ?_, fun s i key own hi short => ?_,
    fun s id kind i start inclusive own hi short => ?_, fun s id scan kind own hscan htable => ?_,
    fun s record length fits => ?_, fun s row record length fits => ?_⟩
  · obtain ⟨key, hkey⟩ := keyed hindex row v hv
    exact ⟨_, hkey.entry_eq row⟩
  · refine concernsLayout_attempt (fun _ => rfl) fun session _ error h => ?_
    rw [Store.lookup_error here keyed (List.getElem?_eq_getElem hi) short h]
    rfl
  · cases asks : service.sessions[s]? with
    | none =>
      rw [handle, openScan, asks]
      rfl
    | some session =>
      rw [handle, (openScan_answer asks id _).2.2.2]
      refine Reply.concernsLayout_of (fun _ => rfl) fun error h => ?_
      rw [Store.openScan_error here keyed (List.getElem?_eq_getElem hi) short h]
      rfl
  · cases asks : service.sessions[s]? with
    | none =>
      rw [handle, nextInScan, asks]
      rfl
    | some session =>
      rw [handle, (nextInScan_answer asks hscan _).2.2.2]
      exact Reply.concernsLayout_of (fun _ => rfl) fun error h =>
        Store.nextInScan_error here keyed htable h
  · exact concernsLayout_attempt (fun _ => rfl) fun session asks error h =>
      Store.insert_error ok.store (ok.linked.heldBy asks) here length fits h
  · exact concernsLayout_attempt (fun _ => rfl) fun session asks error h =>
      Store.update_error ok.store (ok.linked.heldBy asks) here length fits h

/-- A row of one byte by another schema. -/
def foreignRecord (b : UInt8) : Record := ⟨⟨0, [⟨"other", 0, .fixed 1⟩], 1⟩, [b], rfl⟩

/-- A table whose only row has versions of two layouts. A record in which no key can be found was taken
back before there was an index, and is refused since. -/
def mixed : Service :=
  (small.run [.insert 1 0 blankRecord, .abort 1, .buildIndex 0 byteIndex, .insert 1 0 (byteRecord 1),
    .update 1 0 secondRow (foreignRecord 2), .insert 1 0 blankRecord]).1

/-- The table of mixed layouts can be read and written, though not everything can be written to it. -/
theorem mixed_readable : ∃ table, mixed.store.tables[0]? = some table ∧
    (table.chainOf secondRow).map (·.record) = [foreignRecord 2, byteRecord 1] ∧
    table.indexes.length = 1 ∧ mixed.Readable 0 table ∧
    (mixed.handle (.insert 1 0 blankRecord)).2 = .failed (.fieldIndexOutOfBounds 0) := by
  have hthere : (mixed.store.tables[0]?).map (fun table =>
      ((table.chainOf secondRow).map (·.record), table.indexes.length)) =
        some ([foreignRecord 2, byteRecord 1], 1) := by
    decide +kernel
  obtain ⟨table, here, hboth⟩ := Option.map_eq_some_iff.mp hthere
  obtain ⟨hchain, hindexes⟩ := Prod.mk.inj hboth
  have reached := reached_small.run [.insert 1 0 blankRecord, .abort 1, .buildIndex 0 byteIndex,
    .insert 1 0 (byteRecord 1), .update 1 0 secondRow (foreignRecord 2), .insert 1 0 blankRecord]
  exact ⟨table, here, hchain, hindexes, reached.rows_readable here, by decide +kernel⟩

end Service
end SnapshotStore
