import Mathlib
import SnapshotStore.Proofs.History.Latest
import SnapshotStore.Proofs.History.Reads

/-!
# Scans over a whole table

A scan over a table asks for one row after another until there are no more. When nobody else acts in
between it meets every row of the primary structure once, in handle order, and so the rows that it
returns are those that history has for the reader (`Reached.tableScan_rows`).

History has the writes as they were asked for. Only the row of an insert is up to the table, and it takes
one that nobody has written to before (`Reached.inserts_unwritten`), whatever has become of those writes.
-/

namespace SnapshotStore

namespace TableScanStep

/-- The row that the step has returned. -/
def row? : TableScanStep → Option Table.RowRef
  | .row ref => some ref
  | .endOfTable | .deleted | .invisible => none

end TableScanStep

/-- The step of a scan that has come to a row. -/
def Table.stepAt (table : Table) (ledger : Ledger) (view : View) (row : RowHandle) : TableScanStep :=
  match table.rows[row]? with
  | none => .deleted
  | some chain =>
    match Chain.read ledger view chain with
    | .visible version older => .row ⟨row, version, older⟩
    | .deleted => .deleted
    | .invisible => .invisible

/-- At a row the scan returns the record that the view reads. -/
theorem Table.row?_stepAt (table : Table) (ledger : Ledger) (view : View) (row : RowHandle) :
    ((table.stepAt ledger view row).row?).map (fun ref => (ref.handle, ref.record)) =
      ((Chain.read ledger view (table.chainOf row)).record?).map fun record => (row, record) := by
  rw [stepAt]
  cases hrow : table.rows[row]? with
  | none =>
    rw [chainOf_of_absent hrow]
    rfl
  | some chain =>
    rw [chainOf_eq hrow]
    dsimp only
    cases Chain.read ledger view chain <;> rfl

/-! ## 1. The entries that a cursor meets -/

namespace Trie

/-- Looking at more entries than there are nodes shows no more of them. -/
theorem entries_eq_toList {trie : Trie} (tree : trie.pool.IsTree) {count : Nat}
    (enough : trie.nodeCount ≤ count) :
    (trie.scanBeginning []).entries trie count = trie.toList := by
  have hmoved := scanBeginning_spec tree []
  cases hfirst : (trie.scanBeginning []).current with
  | none =>
    have hnil : ∀ n, (trie.scanBeginning []).entries trie n = [] := by
      intro n
      cases n with
      | zero => rfl
      | succ n => rw [Cursor.entries, hfirst]
    rw [toList, entriesBeginning, hnil, hnil]
  | some first =>
    obtain ⟨key, row⟩ := first
    have hfinds := hmoved.finds
    rw [hfirst] at hfinds
    have hlt : trie.keysAhead (trie.scanBeginning []).direction key < trie.nodeCount :=
      keysAhead_lt_nodeCount tree (by rw [hfinds.2.1]; rfl)
    have hmore := Cursor.entries_spec tree hmoved.sound hfirst (Nat.lt_of_lt_of_le hlt enough)
    have hleast := Cursor.entries_spec tree hmoved.sound hfirst hlt
    have hsorted : Std.Antisymm fun x y : Bytes × RowHandle =>
        (trie.scanBeginning []).direction.After x.1 y.1 :=
      ⟨fun _ _ h h' => absurd h' h.asymm⟩
    have hirrefl : Std.Irrefl fun x y : Bytes × RowHandle =>
        (trie.scanBeginning []).direction.After x.1 y.1 :=
      ⟨fun _ h => Direction.After.irrefl _ h⟩
    exact hmore.2.eq_of_mem_iff hleast.2 fun entry => (hmore.1 entry).trans (hleast.1 entry).symm

theorem length_entries_le (cursor : Cursor) (trie : Trie) (count : Nat) :
    (cursor.entries trie count).length ≤ count := by
  induction count generalizing cursor with
  | zero => exact Nat.le_refl 0
  | succ count ih =>
    rw [Cursor.entries]
    split
    · exact Nat.zero_le _
    · exact Nat.succ_le_succ (ih _)

end Trie

/-- The primary structure lists the rows by their handles. -/
theorem Table.Ok.primary_toList {l : Ledger} {work : Work} {tid : TableId} {table : Table}
    (ok : Ok l work tid [] table) :
    (∀ entry, entry ∈ table.primary.toList ↔
      entry.1 = entry.2.toBytes ∧ (table.rows[entry.2]?).isSome = true) ∧
    table.primary.toList.Pairwise fun x y => x.2.val < y.2.val := by
  obtain ⟨hmem, hsorted⟩ := Trie.entriesBeginning_spec ok.primaryTree []
  rw [← Trie.toList] at hmem hsorted
  have hentry : ∀ entry, entry ∈ table.primary.toList ↔
      entry.1 = entry.2.toBytes ∧ (table.rows[entry.2]?).isSome = true := by
    intro entry
    rw [hmem, ok.primary]
    exact and_iff_right List.nil_prefix
  refine ⟨hentry, hsorted.imp_of_mem fun {x y} hx hy hlt => ?_⟩
  rw [((hentry x).mp hx).1, ((hentry y).mp hy).1, RowHandle.order_toBytes] at hlt
  exact Nat.compare_eq_lt.mp hlt

/-- Stepping through all rows returns what the view reads in each, in handle order. -/
theorem Table.Ok.rows_stepped {l ledger : Ledger} {work : Work} {tid : TableId} {table : Table}
    (ok : Ok l work tid [] table) {view : View} {found : Std.ExtTreeMap RowHandle Record}
    (reads : ∀ row, (Chain.read ledger view (table.chainOf row)).record? = found[row]?) :
    ((table.primary.toList.map fun entry => table.stepAt ledger view entry.2).filterMap
      (·.row?)).map (fun ref => (ref.handle, ref.record)) = found.toList := by
  obtain ⟨hmem, hsorted⟩ := ok.primary_toList
  rw [List.filterMap_map, List.map_filterMap]
  simp only [Function.comp_apply, row?_stepAt, reads]
  -- Both lists are in handle order, so it is enough that they have the same rows.
  have hascending : (table.primary.toList.filterMap fun entry =>
      found[entry.2]?.map (entry.2, ·)).Pairwise fun x y => x.1.val < y.1.val := by
    refine hsorted.filterMap _ fun a b hlt x hx y hy => ?_
    obtain ⟨_, _, rfl⟩ := Option.map_eq_some_iff.mp hx
    obtain ⟨_, _, rfl⟩ := Option.map_eq_some_iff.mp hy
    exact hlt
  have hordered : found.toList.Pairwise fun x y => x.1.val < y.1.val := by
    refine (Std.ExtTreeMap.ordered_keys_toList (t := found)).imp fun {x y} hlt => ?_
    exact Nat.compare_eq_lt.mp (show compare x.1.val y.1.val = .lt from hlt)
  have hantisymm : Std.Antisymm fun x y : RowHandle × Record => x.1.val < y.1.val :=
    ⟨fun _ _ h h' => absurd h' (Nat.lt_asymm h)⟩
  have hirrefl : Std.Irrefl fun x y : RowHandle × Record => x.1.val < y.1.val :=
    ⟨fun _ => Nat.lt_irrefl _⟩
  refine hascending.eq_of_mem_iff hordered ?_
  rintro ⟨row, record⟩
  rw [Std.ExtTreeMap.mem_toList_iff_getElem?_eq_some, List.mem_filterMap]
  constructor
  · rintro ⟨entry, _, hentry⟩
    obtain ⟨_, hfound, heq⟩ := Option.map_eq_some_iff.mp hentry
    cases heq
    exact hfound
  · intro hfound
    refine ⟨(row.toBytes, row), (hmem _).mpr ⟨rfl, ?_⟩, by rw [hfound]; rfl⟩
    have hread := reads row
    cases hrow : table.rows[row]? with
    | some chain => rfl
    | none =>
      rw [chainOf_of_absent hrow, hfound] at hread
      cases hread

/-! ## 2. New rows -/

/-- The row of an insert gets the next handle. -/
theorem Table.handle_of_insertRow {table : Table} {l : Ledger} {txn : Transaction} {record : Record}
    {ref : RowRef} (h : (table.insertRow l txn record).outcome = .ok (.written ref)) :
    ref.handle.val = table.nextHandle := by
  rw [insertRow] at h
  split at h
  · cases h
  · rename_i row hrow
    rw [complete] at h
    split at h
    · cases h
      exact val_of_ofNat? hrow
    · rename_i refusal _
      cases refusal <;> cases h

namespace Store

variable {store store' : Store} {work work' : Work} {events : List Event} {tid : TableId}

theorem handle_of_insert {session : Session} {record : Record} {ref : Table.RowRef}
    (h : (store.insert session tid record).2.2 = .ok (.written ref)) :
    ∃ table, store.tables[tid]? = some table ∧ ref.handle.val = table.nextHandle := by
  rw [insert] at h
  rcases store.write_cases session tid (·.checkRecord record)
      (fun table ledger txn => table.insertRow ledger txn record) with
    ⟨error, heq⟩ | ⟨table, entered, asking, txn, here, _, ⟨_, heq⟩ | ⟨_, tried, rfl, heq⟩⟩
  · rw [heq] at h
    cases h
  · rw [heq] at h
    cases h
  · rw [heq] at h
    exact ⟨table, here, Table.handle_of_insertRow h⟩

theorem Moves.places (moves : Moves store work events store' work') (ok : store.Ok work) {id : Int}
    {row : RowHandle} {record? : Option Record} (h : .wrote id tid row record? ∈ events) :
    ∃ table, store'.tables[tid]? = some table ∧ row.val < table.nextHandle := by
  induction moves with
  | refl => cases h
  | step move rest ih =>
    rcases List.mem_cons.mp h with rfl | h
    · exact (rest.extends (move.ok ok)).placed (move.places ok)
    · exact ih (move.ok ok) h

end Store

namespace Service

/-- Every row that was ever written to has its handle. -/
theorem Reached.placed {history : List Event} {service : Service} (reached : Reached history service)
    {id : Int} {tid : TableId} {row : RowHandle} {record? : Option Record}
    (h : .wrote id tid row record? ∈ history) :
    ∃ table, service.store.tables[tid]? = some table ∧ row.val < table.nextHandle := by
  induction reached with
  | start => cases h
  | added before name schema config ih =>
    obtain ⟨_, ok⟩ := before.ok
    exact ((Store.Move.added name schema config).extends ok.store).placed (ih h)
  | asked before request ih =>
    obtain ⟨_, ok⟩ := before.ok
    obtain ⟨_, _, answered⟩ := handle_moves ok request
    rcases List.mem_append.mp h with h | h
    · exact (answered.moves.extends ok.store).placed (ih h)
    · rw [happening, ← answered.told.loud] at h
      exact answered.moves.places ok.store (List.mem_of_mem_filter h)

/-- A row that is inserted is one that nobody has written to before. -/
theorem Reached.inserts_unwritten {history : List Event} {service : Service}
    (reached : Reached history service) {s : SessionId} {tid : TableId} {record : Record}
    {ref : Table.RowRef} (h : (service.handle (.insert s tid record)).2 = .wrote (.written ref))
    (id : Int) (record? : Option Record) : .wrote id tid ref.handle record? ∉ history := by
  intro hin
  obtain ⟨table, here, hlt⟩ := reached.placed hin
  rw [handle, attempt, forSession] at h
  split at h
  · cases h
  · rename_i session _
    have hwritten : (service.store.insert session tid record).2.2 = .ok (.written ref) := by
      dsimp only at h
      cases hresult : (service.store.insert session tid record).2.2 with
      | error error =>
        rw [hresult] at h
        cases h
      | ok outcome =>
        rw [hresult] at h
        cases h
        rfl
    obtain ⟨table', here', hhandle⟩ := Store.handle_of_insert hwritten
    cases here.symm.trans here'
    exact absurd hhandle (Nat.ne_of_lt hlt)

/-! ## 3. Asking for one row after another -/

variable {service : Service} {s : SessionId} {session : Session} {txn : Transaction}
  {tid : TableId} {table : Table} {id : ScanId} {own : Bool}

/-- A request for the next row of a table moves the scan and nothing else. -/
theorem handle_nextInTable (asks : service.sessions[s]? = some session)
    (runs : session.transaction = some txn) (alive : txn.doomed = false)
    (here : service.store.tables[tid]? = some table) {scan : TableScan}
    (hscan : service.tableScans[id]? = some scan) :
    service.handle (.nextInTable s tid id own) =
      ({ service with
        sessions := service.sessions.insert s session
        tableScans := service.tableScans.insert id
          (scan.advance table service.store.ledger (txn.view own)).1 },
        .scanned (scan.advance table service.store.ledger (txn.view own)).2) := by
  rw [handle, nextInTable, asks, hscan]
  dsimp only
  rw [Store.nextInTable, Store.table, here]
  dsimp only
  rw [Store.enter_of_running runs]
  dsimp only
  rw [if_neg (by rw [alive]; exact Bool.false_ne_true)]
  rfl

/-- A scan that is asked often enough steps through the entries from its cursor on. -/
theorem takeSteps_spec (runs : session.transaction = some txn) (alive : txn.doomed = false)
    {count : Nat} {cursor : Trie.Cursor} {pending : Bool}
    (asks : service.sessions[s]? = some session)
    (here : service.store.tables[tid]? = some table)
    (hscan : service.tableScans[id]? = some { cursor, pending, finished := false })
    (enough : ((if pending then cursor else cursor.next table.primary).entries table.primary
      count).length < count) :
    ∃ after, service.takeSteps s tid id own count =
      (after, ((if pending then cursor else cursor.next table.primary).entries table.primary
        count).map (fun entry => table.stepAt service.store.ledger (txn.view own) entry.2),
        .complete) := by
  -- A scan that was just opened waits at its first entry; after a step it has to move on first.
  induction count generalizing service cursor pending with
  | zero => exact absurd enough (Nat.not_lt_zero _)
  | succ count ih =>
    rw [takeSteps, handle_nextInTable asks runs alive here hscan]
    rw [TableScan.advance, if_neg Bool.false_ne_true]
    dsimp only
    generalize (if pending then cursor else cursor.next table.primary) = now at enough ⊢
    rw [Trie.Cursor.entries] at enough ⊢
    cases hcurrent : now.current with
    | none => exact ⟨_, rfl⟩
    | some entry =>
      obtain ⟨key, row⟩ := entry
      rw [hcurrent] at enough
      have hrest := fun (service' : Service) (hsessions : service'.sessions[s]? = some session)
          (hstore : service'.store = service.store)
          (hscan' : service'.tableScans[id]? = some ⟨now, false, false⟩) =>
        ih hsessions (by rw [hstore]; exact here) hscan' (by
          rw [if_neg Bool.false_ne_true]
          exact Nat.lt_of_succ_lt_succ enough)
      have hsessions : (service.sessions.insert s session)[s]? = some session := by
        rw [Maps.get_insert, if_pos rfl]
      have hscans : (service.tableScans.insert id ⟨now, false, false⟩)[id]? =
          some ⟨now, false, false⟩ := by
        rw [Maps.get_insert, if_pos rfl]
      have hafter := hrest { service with
          sessions := service.sessions.insert s session
          tableScans := service.tableScans.insert id ⟨now, false, false⟩ } hsessions rfl hscans
      obtain ⟨after, hafter⟩ := hafter
      refine ⟨after, ?_⟩
      rw [List.map_cons, Table.stepAt]
      dsimp only
      cases hrow : table.rows[row]? with
      | none =>
        dsimp only
        rw [hafter]
        rfl
      | some chain =>
        dsimp only
        cases Chain.read service.store.ledger (txn.view own) chain <;>
        · dsimp only
          rw [hafter]
          rfl

/-- A scan that was just opened steps through all rows of the table. -/
theorem restOfTable_opened {l : Ledger} {work : Work} (ok : Table.Ok l work tid [] table)
    (asks : service.sessions[s]? = some session) (runs : session.transaction = some txn)
    (alive : txn.doomed = false) (here : service.store.tables[tid]? = some table) (id : ScanId)
    (own : Bool) :
    ∃ after, (service.handle (.openTableScan tid id)).1.restOfTable s tid id own =
      (after, table.primary.toList.map (fun entry =>
        table.stepAt service.store.ledger (txn.view own) entry.2), .complete) := by
  have hlisted : ∀ count, table.primary.nodeCount ≤ count →
      (table.primary.scan [] true .forward).entries table.primary count = table.primary.toList :=
    fun count enough => Trie.entries_eq_toList ok.primaryTree enough
  have hlength : table.primary.toList.length < table.primary.nodeCount + 2 := by
    rw [← hlisted _ (Nat.le_refl _)]
    exact Nat.lt_of_le_of_lt (Trie.length_entries_le _ _ _) (by omega)
  have hopen : (service.handle (.openTableScan tid id)).1 =
      { service with tableScans := service.tableScans.insert id (.first table) } := by
    rw [handle, here]
  have hscan : (service.tableScans.insert id (.first table))[id]? =
      some { cursor := table.primary.scan [] true .forward, pending := true, finished := false } := by
    rw [Maps.get_insert, if_pos rfl]
    rfl
  have enough : ((if true then table.primary.scan [] true .forward
      else (table.primary.scan [] true .forward).next table.primary).entries table.primary
        (table.primary.nodeCount + 2)).length < table.primary.nodeCount + 2 := by
    rw [if_pos rfl, hlisted _ (by omega)]
    exact hlength
  obtain ⟨after, hsteps⟩ : ∃ after, takeSteps
      { service with tableScans := service.tableScans.insert id (.first table) } s tid id own _ =
        (after, _, .complete) := takeSteps_spec runs alive asks here hscan enough
  rw [if_pos rfl, hlisted _ (by omega)] at hsteps
  rw [hopen, restOfTable]
  dsimp only
  rw [here]
  exact ⟨after, hsteps⟩

/-- A scan over a table returns the rows that history has for the reader, each row once, in handle
order: those that come of the writes of everybody who committed under its snapshot, and its own. History
has each write as it was asked for, and from the reply only the row of an insert, which is a row that
nobody has written to before. -/
theorem Reached.tableScan_rows {history : List Event} (reached : Reached history service)
    (few : service.store.ledger.lastId < 2 ^ 40) (asks : service.sessions[s]? = some session)
    (runs : session.transaction = some txn) (alive : txn.doomed = false)
    (short : txn.statement ≤ Stamp.maxStatement)
    (here : service.store.tables[tid]? = some table) (id : ScanId) (own : Bool) :
    (∃ after steps, (service.handle (.openTableScan tid id)).1.restOfTable s tid id own =
        (after, steps, .complete) ∧
      (steps.filterMap (·.row?)).map (fun ref => (ref.handle, ref.record)) =
        ((Chronicle.of history).rows tid txn.id txn.snapshot own).toList) ∧
    ∀ (writer : SessionId) (record : Record) (ref : Table.RowRef),
      (service.handle (.insert writer tid record)).2 = .wrote (.written ref) →
        ∀ id record?, .wrote id tid ref.handle record? ∉ history := by
  refine ⟨?_, fun _ _ _ => reached.inserts_unwritten⟩
  obtain ⟨work, ok, shows⟩ := reached.shows few
  have tableOk := ok.store.tables here
  obtain ⟨after, hsteps⟩ := restOfTable_opened tableOk asks runs alive here id own
  refine ⟨after, _, hsteps, tableOk.rows_stepped fun row => ?_⟩
  exact shows.read ok.store few (ok.linked.held asks runs) short here row own

/-- Two rows are committed. The second session begins; then the first changes one row, deletes the
other and commits. -/
def changedBehind : List Request :=
  [.begin 1 1, .insert 1 0 (byteRecord 1), .insert 1 0 (byteRecord 2), .commit 1 .session,
    .begin 2 2, .begin 1 1, .update 1 0 firstRow (byteRecord 3),
    .delete 1 0 secondRow, .commit 1 .session]

/-- The second session finds both rows as they were. -/
theorem changedBehind_rows : ∃ after steps,
    ((small.run changedBehind).1.handle (.openTableScan 0 0)).1.restOfTable 2 0 0 true =
      (after, steps, .complete) ∧
    (steps.filterMap (·.row?)).map (fun ref => (ref.handle.val, ref.record.bytes)) =
      [(1, [1]), (2, [2])] := by
  have reached := reached_small.run changedBehind
  have hsession : ((small.run changedBehind).1.sessions[2]?.bind (·.transaction)).map
      (fun txn => (txn.id, txn.snapshot, txn.statement, txn.doomed)) = some (2, 3, 1, false) := by
    decide +kernel
  obtain ⟨txn, hrunning, htxn⟩ := Option.map_eq_some_iff.mp hsession
  obtain ⟨session, asks, runs⟩ := Option.bind_eq_some_iff.mp hrunning
  obtain ⟨hid, hsnapshot, hstatement, halive⟩ := by simpa using htxn
  have hhere : ((small.run changedBehind).1.store.tables[0]?).isSome = true := by decide +kernel
  obtain ⟨table, here⟩ := Option.isSome_iff_exists.mp hhere
  obtain ⟨⟨after, steps, hsteps, hrows⟩, _⟩ := reached.tableScan_rows (by decide +kernel) asks runs halive
    (by rw [hstatement]; decide) here 0 true
  refine ⟨after, steps, hsteps, ?_⟩
  rw [hid, hsnapshot] at hrows
  have hfound : (((Chronicle.of ([] ++ small.happenings changedBehind)).rows 0 2 3 true).toList).map
      (fun row => (row.1.val, row.2.bytes)) = [(1, [1]), (2, [2])] := by
    decide +kernel
  rw [← hfound, ← hrows, List.map_map]
  rfl

end Service
end SnapshotStore
