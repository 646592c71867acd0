import Mathlib
import SnapshotStore.Proofs.Store.Reclaiming
import SnapshotStore.Proofs.Upkeep.Spotless

/-!
# The books of a store

Every move of a store keeps the books of a table in order, except that the table itself is reclaimed or
given an index (`Move.accounts`); and so does either of these, if it finds the table as it has to be
(`Accounts.buildIndex`, `Accounts.reclaimTables`). Several tables may be reclaimed at once, and the others
prune the ledger before it is this one's turn: what this one was found to be it still is by then
(`Unhindered.reclaimTable`).
-/

namespace SnapshotStore
namespace Store

/-- The entries of the table of that number are accounted for. -/
structure Accounts (store : Store) (work : Work) (c : Chronicle) (tid : TableId) : Prop where
  table : ∀ {table : Table}, store.tables[tid]? = some table →
    Table.Accounted store.ledger work c tid table

variable {store store' : Store} {work work' : Work} {c c' : Chronicle} {event : Event}
  {tid : TableId}

/-! ## 1. Move by move -/

/-- The books stay in order while the table is not touched, nor what is known of it. -/
theorem Accounts.goes_on (accounts : store.Accounts work c tid)
    (hhorizon : store.ledger.horizon ≤ store'.ledger.horizon)
    (htable : ∀ {after : Table}, store'.tables[tid]? = some after →
      ∃ table, store.tables[tid]? = some table ∧ table.Unchanged after)
    (hlog : ∀ {id : Int} {s : Nat} {write : Write},
      ⟨s, tid, write⟩ ∈ work'.log id ↔ ⟨s, tid, write⟩ ∈ work.log id)
    (hwrites : ∀ id row, c'.writes id tid row = c.writes id tid row)
    (hsettled : ∀ row, c'.settled tid row = c.settled tid row)
    (hcommitted : ∀ {id s : Int}, c.CommittedAt id s → c'.CommittedAt id s) :
    store'.Accounts work' c' tid where
  table h := by
    obtain ⟨table, here, unchanged⟩ := htable h
    exact (accounts.table here).goes_on hhorizon hlog hwrites hsettled hcommitted unchanged

/-- They do while no table is touched, and no log. -/
theorem Accounts.same_tables (accounts : store.Accounts work c tid)
    (hhorizon : store.ledger.horizon ≤ store'.ledger.horizon) (htables : store'.tables = store.tables)
    (hlog : ∀ id, work'.log id = work.log id)
    (hwrites : ∀ id row, c'.writes id tid row = c.writes id tid row)
    (hsettled : ∀ row, c'.settled tid row = c.settled tid row)
    (hcommitted : ∀ {id s : Int}, c.CommittedAt id s → c'.CommittedAt id s) :
    store'.Accounts work' c' tid := by
  refine accounts.goes_on hhorizon (fun {after} h => ⟨after, ?_, .refl after⟩) ?_ hwrites hsettled
    hcommitted
  · rw [← htables]
    exact h
  · intro id statement write
    rw [hlog]

/-- What is done to another table is nothing to this one. -/
theorem unchanged_setTable {other : TableId} {after table : Table} (hne : tid ≠ other)
    (h : (store.setTable other after).tables[tid]? = some table) :
    ∃ before, store.tables[tid]? = some before ∧ before.Unchanged table := by
  rw [tables_setTable, if_neg hne] at h
  exact ⟨table, h, .refl table⟩

section Deeds

variable {id : Int} {txn : Transaction} {other : TableId} {table after : Table} {row : RowHandle}
  (accounts : store.Accounts work c tid) (shows : store.Shows work c)
  (running : work id = some txn) (here : store.tables[other]? = some table)
include accounts shows running here

/-- A deed is booked with its table. -/
theorem Accounts.deed {record? : Option Record} {writes : List Write}
    (hothers : ∀ writer, writer ≠ id → c.writes writer other row = [])
    (hunmarked : ∀ newest older, table.chainOf row = newest :: older → newest.isMarked = false)
    (hhandle : table.chainOf row = [] → row.val = table.nextHandle)
    (booked : Table.Booked table row (c.writes id other row ++ c.settled other row)
      ⟨id, c.statement id, other, row, record?⟩ writes after) :
    (store.setTable other after).Accounts
      (Function.update work id (some (txn.remember other writes)))
      (c.tell (.wrote id other row record?)) tid := by
  by_cases htid : tid = other
  · subst htid
    refine ⟨fun {t} h => ?_⟩
    rw [tables_setTable, if_pos rfl] at h
    cases h
    obtain ⟨_, hrecords⟩ := (shows.tables here).undeleted hothers hunmarked hhandle
    exact (accounts.table here).booked running (shows.work.statement running) hrecords booked
  · refine accounts.goes_on (Int.le_refl _) (unchanged_setTable htid) ?_ (fun writer r => ?_)
      (fun _ => rfl) fun hat => hat
    · intro writer s write
      rw [Table.mem_log_remembering running]
      refine or_iff_right ?_
      rintro ⟨_, _, _, heq⟩
      cases heq
      exact htid rfl
    · rw [Chronicle.writes_wrote, if_neg fun hhere => htid hhere.2.1]

end Deeds

/-- A new table has no entries. -/
theorem accounted_create (l : Ledger) (name : String) (schema : Schema) (config : Config)
    (hdeeds : ∀ id row, c.writes id tid row ++ c.settled tid row = [])
    (hlog : ∀ {id : Int} {entry : LogEntry}, entry ∈ work.log id → entry.table ≠ tid) :
    Table.Accounted l work c tid (.create name schema config) where
  follows id row := by
    rw [hdeeds]
    exact List.isChain_nil
  bound hin := absurd rfl (hlog hin)
  logged hin := absurd rfl (hlog hin)
  outdated _ hnote := by cases hnote
  deleted {row _ _} hall _ _ := by
    have hnone := hdeeds 0 row
    rw [hall] at hnone
    exact absurd (List.append_eq_nil_iff.mp hnone).2 (List.cons_ne_nil _ _)
  linked hbears := by
    obtain ⟨_, hindex, _⟩ := hbears
    cases hindex
  covered hbears := by
    obtain ⟨_, hindex, _⟩ := hbears
    cases hindex

section Moving

variable {id : Int} {txn : Transaction} {other : TableId} {table after : Table} {row : RowHandle}
  (accounts : store.Accounts work c tid) (ok : store.Ok work) (shows : store.Shows work c)
include accounts

theorem Accounts.began {l : Ledger} {snapshot : Int} (ok : store.Ok work)
    (begin : store.ledger.begin? = some (l, id, snapshot)) (hhorizon : store.ledger.horizon ≤ l.horizon) :
    (store.withLedger l).Accounts (Function.update work id (some { id, snapshot }))
      (c.tell (.began id)) tid := by
  obtain ⟨_, rfl, rfl, rfl⟩ := Ledger.begin?_eq_some.mp begin
  refine accounts.same_tables hhorizon rfl (Work.log_update_same ?_) (fun _ _ => rfl) (fun _ => rfl)
    fun hat => hat
  rw [Work.log, ok.idle_next]
  rfl

theorem Accounts.refused (here : store.tables[other]? = some table)
    (unchanged : table.Unchanged after) : (store.setTable other after).Accounts work c tid := by
  refine accounts.goes_on (Int.le_refl _) (fun {t} h => ?_) Iff.rfl (fun _ _ => rfl) (fun _ => rfl)
    fun hat => hat
  by_cases htid : tid = other
  · rw [tables_setTable, if_pos htid] at h
    cases h
    exact ⟨table, htid ▸ here, unchanged⟩
  · exact unchanged_setTable htid h

include ok shows in
theorem Accounts.wrote {record : Record} {old? : Option Record} {writes : List Write}
    (running : work id = some txn) (here : store.tables[other]? = some table)
    (wrote : Table.Wrote store.ledger txn table row record old? after writes)
    (writable : ∀ newest older, table.chainOf row = newest :: older →
      newest.isWritable store.ledger txn.id txn.snapshot = true) :
    (store.setTable other after).Accounts
      (Function.update work id (some (txn.remember other writes)))
      (c.tell (.wrote id other row (some record))) tid := by
  have hid := ok.runs.id running
  subst hid
  have hothers := Table.writes_eq_nil (ok.tables here) ok.ledger ok.runs shows.work writable
  have hunmarked := fun newest older hchain =>
    (Table.isWritable_iff.mp (writable newest older hchain)).1
  exact accounts.deed shows running here hothers hunmarked wrote.handle
    (wrote.booked (ok.tables here) ((shows.tables here).chains txn.id row hothers) rfl)

include ok shows in
theorem Accounts.marked {newest : Version} {older : Chain} (running : work id = some txn)
    (here : store.tables[other]? = some table) (chain : table.chainOf row = newest :: older)
    (writable : newest.isWritable store.ledger txn.id txn.snapshot = true) :
    (store.setTable other (table.withChain row (newest.mark txn.stamp :: older))).Accounts
      (Function.update work id (some (txn.remember other [.marked row newest.id])))
      (c.tell (.wrote id other row none)) tid := by
  have hid := ok.runs.id running
  subst hid
  have hwritable := Table.writable_newest chain writable
  have hothers := Table.writes_eq_nil (ok.tables here) ok.ledger ok.runs shows.work hwritable
  have hunmarked := fun newest older hchain =>
    (Table.isWritable_iff.mp (hwritable newest older hchain)).1
  refine accounts.deed shows running here hothers hunmarked (fun hnil => ?_)
    (Table.booked_marked _ (List.cons_ne_nil _ _) rfl)
  rw [chain] at hnil
  cases hnil

include ok shows in
theorem Accounts.committed (running : work id = some txn) :
    ((store.withLedger (store.ledger.commit id).1).publish (store.ledger.sequence + 1)
      txn.log).Accounts (Function.update work id none) (c.tell (.committed id)) tid := by
  obtain ⟨hledger, _, htables⟩ :=
    (store.withLedger (store.ledger.commit id).1).publish_spec (store.ledger.sequence + 1) txn.log
  refine ⟨fun {after} h => ?_⟩
  rw [htables] at h
  obtain ⟨table, here, rfl⟩ := Option.map_eq_some_iff.mp h
  rw [hledger, ← Work.log_eq running]
  exact (accounts.table here).committed (shows.tables here) (ok.tables here) ok.ledger shows.ledger
    shows.work shows.sound (ok.runs.running running)
    (Table.published_publishLog table tid (store.ledger.sequence + 1) (work.log id))

include ok shows in
theorem Accounts.undone (few : store.ledger.lastId < 2 ^ 40) (running : work id = some txn)
    (whole : Bool) : (store.undo id (txn.undoing whole)).Accounts
      (Function.update work id (some { txn with log := txn.remaining whole }))
      (c.tell (.undone id whole)) tid := by
  obtain ⟨hledger, _, htables⟩ := store.undo_spec id (txn.undoing whole)
  have hfits : id < 2 ^ 40 :=
    Int.lt_of_le_of_lt (ok.ledger.active (ok.runs.running running)).2.1 few
  refine ⟨fun {after} h => ?_⟩
  rw [htables] at h
  obtain ⟨table, here, rfl⟩ := Option.map_eq_some_iff.mp h
  rw [hledger]
  exact (accounts.table here).undone ok.runs shows.work running (shows.tables here) (ok.tables here)
    ok.ledger shows.ledger shows.sound hfits

include ok shows in
theorem Accounts.added (name : String) (schema : Schema) (config : Config) :
    (store.addTable (.create name schema config)).1.Accounts work c tid := by
  refine ⟨fun {table} h => ?_⟩
  rw [tables_addTable] at h
  split at h
  · rename_i hnew
    cases h
    refine accounted_create _ _ _ _ (fun id row => ?_) fun {id entry} hin => ?_
    · by_contra hne
      exact absurd (shows.known hne) (by rw [hnew]; exact Nat.lt_irrefl _)
    · rw [hnew]
      exact Nat.ne_of_lt (ok.logged hin)
  · exact accounts.table h

/-- What is done to another table, and to the ledger meanwhile, leaves the books as they are. -/
theorem Accounts.elsewhere {l : Ledger} (hhorizon : store.ledger.horizon ≤ l.horizon)
    (hne : tid ≠ other) : ((store.withLedger l).setTable other after).Accounts work c tid :=
  accounts.goes_on hhorizon (unchanged_setTable hne) Iff.rfl (fun _ _ => rfl) (fun _ => rfl)
    fun hat => hat

end Moving

/-- Whatever happens to a store keeps the books of a table in order, as long as the table is not given
an index or reclaimed. -/
theorem Move.accounts (move : Move store work event store' work') (ok : store.Ok work)
    (few : store'.ledger.lastId < 2 ^ 40) (shows : store.Shows work c)
    (accounts : store.Accounts work c tid) (untended : event ≠ .quiet (some tid)) :
    store'.Accounts work' (c.tell event) tid := by
  have hhorizon := (move.grows ok).horizon_le
  have fewNow : store.ledger.lastId < 2 ^ 40 := Int.lt_of_le_of_lt (move.grows ok).lastId_le few
  cases move with
  | began begin => exact accounts.began ok begin hhorizon
  | statement running | refreshed running | doomed running =>
    exact accounts.same_tables hhorizon rfl (Work.log_update_same (Work.log_eq running).symm)
      (fun _ _ => rfl) (fun _ => rfl) fun hat => hat
  | refused here unchanged => exact accounts.refused here unchanged
  | wrote running _ here wrote writable => exact accounts.wrote ok shows running here wrote writable
  | marked running _ here chain writable =>
    exact accounts.marked ok shows running here chain writable
  | committed running _ => exact accounts.committed ok shows running
  | undone running whole => exact accounts.undone ok shows fewNow running whole
  | @aborted id txn running blank =>
    refine accounts.same_tables hhorizon rfl (Work.log_update_same ?_) (fun _ _ => rfl) (fun _ => rfl)
      fun hat => hat
    rw [Work.log_eq running, blank]
    rfl
  | built | reclaimed =>
    refine accounts.elsewhere hhorizon ?_
    rintro rfl
    exact untended rfl
  | admitted on =>
    exact accounts.same_tables hhorizon rfl (fun _ => rfl) (fun _ _ => rfl) (fun _ => rfl)
      fun hat => hat
  | added name schema config => exact accounts.added ok shows name schema config

/-- So does a run of moves. -/
theorem Moves.accounts {events : List Event} (moves : Moves store work events store' work')
    (ok : store.Ok work) (few : store'.ledger.lastId < 2 ^ 40) (shows : store.Shows work c)
    (accounts : store.Accounts work c tid) (untended : .quiet (some tid) ∉ events) :
    store'.Accounts work' (events.foldl Chronicle.tell c) tid := by
  induction moves generalizing c with
  | refl => exact accounts
  | step move rest ih =>
    have hok := move.ok ok
    have fewNext := Int.lt_of_le_of_lt (rest.grows hok).lastId_le few
    have haccounts := move.accounts ok fewNext shows accounts fun heq =>
      untended (heq ▸ List.mem_cons_self)
    exact ih hok few (move.shows ok fewNext shows) haccounts fun hin =>
      untended (List.mem_cons_of_mem _ hin)

/-! ## 2. The table is tended -/

/-- Nothing is in the way of reclaiming the table of that number. -/
structure Unhindered (store : Store) (tid : TableId) : Prop where
  table : ∀ {table : Table}, store.tables[tid]? = some table → table.Unhindered store.ledger

/-- A key of this kind is one that every version of the table has from the last record of its row, and an
index may be built of it. -/
structure AllLast (store : Store) (c : Chronicle) (tid : TableId) (spec : KeySpec) : Prop where
  table : ∀ {table : Table} {bound : KeySpec}, store.tables[tid]? = some table →
    spec.bind table.schema = .ok bound → table.AllLast c tid bound

section Tending

variable (accounts : store.Accounts work c tid) (shows : store.Shows work c) (ok : store.Ok work)

include accounts shows ok in
/-- Building an index keeps the books in order, if what is linked has the last keys of the rows. -/
theorem Accounts.buildIndex {spec : KeySpec} {visit : Table.Visit}
    (allLast : store.AllLast c tid spec) : (store.buildIndex tid spec visit).1.Accounts work c tid := by
  rw [Store.buildIndex]
  cases hresult : (do (← store.table tid).buildIndex store.ledger spec visit :
      Except Error (Table × Nat × Table.Filling)) with
  | error error => exact accounts
  | ok done =>
    obtain ⟨after, index, filling⟩ := done
    obtain ⟨table, htable, hbuild⟩ := Fallible.bind_eq_ok.mp hresult
    have here := Store.table_eq_ok.mp htable
    obtain ⟨_, built⟩ := Table.buildIndex_spec hbuild
    refine ⟨fun {t} ht => ?_⟩
    rw [tables_setTable, if_pos rfl] at ht
    cases ht
    exact (accounts.table here).built (shows.tables here) ok.ledger ok.runs shows.ledger shows.work
      shows.sound (ok.tables here) built (allLast.table here built.spec)

include ok in
/-- Nothing comes to be in the way when a table is reclaimed. -/
theorem Unhindered.reclaimTable (unhindered : store.Unhindered tid) (other : TableId) :
    (store.reclaimTable other).1.Unhindered tid := by
  cases there : store.tables[other]? with
  | none =>
    rw [reclaimTable_of_absent there]
    exact unhindered
  | some before =>
    refine ⟨fun {table} here => ⟨fun note hnote hdue {index} hindex v hv hcarries => ?_⟩⟩
    have hledger : (store.reclaimTable other).1.ledger = store.ledger.prune.1 := by
      rw [reclaimTable_eq there]
      rfl
    rw [hledger, Ledger.horizon_prune] at hdue
    rw [hledger]
    by_cases heq : tid = other
    · -- The notes that were due have been dealt with.
      subst heq
      rw [reclaimTable_eq there, tables_setTable, if_pos rfl] at here
      cases here
      rw [((ok.tables there).reclaim_waiting ok.ledger ok.runs).2] at hnote
      have hlate := (List.mem_filter.mp hnote).2
      rw [decide_eq_true hdue] at hlate
      cases hlate
    · rw [tables_reclaimTable heq] at here
      exact (Ledger.grows_prune ok.ledger).isCommitted ok.ledger
        ((unhindered.table here).committed note hnote hdue hindex v hv hcarries)

include accounts shows ok in
/-- Reclaiming a table keeps the books in order, if nothing is in its way. -/
theorem Accounts.reclaimTable {other : TableId} (unhindered : tid = other → store.Unhindered tid) :
    (store.reclaimTable other).1.Accounts work c tid := by
  cases there : store.tables[other]? with
  | none =>
    rw [reclaimTable_of_absent there]
    exact accounts
  | some before =>
    rw [reclaimTable_eq there]
    by_cases heq : tid = other
    · subst heq
      refine ⟨fun {table} here => ?_⟩
      rw [tables_setTable, if_pos rfl] at here
      cases here
      exact (accounts.table there).reclaimed (shows.tables there) (ok.tables there) ok.ledger ok.runs
        shows.ledger shows.work shows.sound ((unhindered rfl).table there)
    · exact accounts.goes_on (Ledger.grows_prune ok.ledger).horizon_le (unchanged_setTable heq) Iff.rfl
        (fun _ _ => rfl) (fun _ => rfl) fun hat => hat

end Tending

/-- Reclaiming keeps what history says. -/
theorem Shows.reclaimTable (shows : store.Shows work c) (ok : store.Ok work)
    (few : store.ledger.lastId < 2 ^ 40) (other : TableId) :
    (store.reclaimTable other).1.Shows work c := by
  cases there : store.tables[other]? with
  | none =>
    rw [reclaimTable_of_absent there]
    exact shows
  | some before =>
    rw [reclaimTable_eq there]
    exact (Move.reclaimed there).shows ok few shows

/-- Reclaiming several tables keeps the books in order, if nothing is in the way, and goes with the same
history. -/
theorem Accounts.reclaimTables (accounts : store.Accounts work c tid) (shows : store.Shows work c)
    (ok : store.Ok work) (few : store.ledger.lastId < 2 ^ 40) {tids : List TableId}
    (unhindered : tid ∈ tids → store.Unhindered tid) :
    (store.reclaimTables tids).1.Accounts work c tid ∧ (store.reclaimTables tids).1.Shows work c := by
  induction tids generalizing store with
  | nil => exact ⟨accounts, shows⟩
  | cons other tids ih =>
    rw [reclaimTables_cons]
    have hfew : (store.reclaimTable other).1.ledger.lastId < 2 ^ 40 := by
      cases there : store.tables[other]? with
      | none =>
        rw [reclaimTable_of_absent there]
        exact few
      | some before =>
        rw [reclaimTable_eq there]
        exact few
    refine ih (accounts.reclaimTable shows ok fun heq => unhindered (heq ▸ List.mem_cons_self))
      (shows.reclaimTable ok few other) (ok.reclaimTable other) hfew fun hin => ?_
    exact (unhindered (List.mem_cons_of_mem _ hin)).reclaimTable ok other

/-! ## 3. Nobody is running -/

/-- Nothing is in the way of reclaiming while nobody is running. -/
theorem Ok.unhindered (ok : store.Ok work) (idle : store.ledger.Idle) (tid : TableId) :
    store.Unhindered tid where
  table here := (ok.tables here).unhindered fun id row => by
    rw [ok.runs.log_eq_nil idle]
    rfl

/-- A table that has nothing left to give stays as it is, whatever is reclaimed. -/
theorem Exhausted.tables_reclaimTables (done : store.Exhausted tid) (ok : store.Ok work)
    (tids : List TableId) : (store.reclaimTables tids).1.tables[tid]? = store.tables[tid]? := by
  induction tids generalizing store with
  | nil => rfl
  | cons other tids ih =>
    rw [reclaimTables_cons]
    refine (ih (done.after ok other) (ok.reclaimTable other)).trans ?_
    by_cases heq : tid = other
    · rw [← heq, done]
    · exact tables_reclaimTable heq store

/-- Reclaiming a table without history while nobody is running leaves what was committed last, and nothing
else, whatever is reclaimed with it. -/
theorem Accounts.spotless (accounts : store.Accounts work c tid) (shows : store.Shows work c)
    (ok : store.Ok work) (idle : store.ledger.Idle) {table : Table}
    (here : store.tables[tid]? = some table) (depth : table.maxVersionHistory = 0)
    {tids : List TableId} (hin : tid ∈ tids) :
    ∃ after, (store.reclaimTables tids).1.tables[tid]? = some after ∧ after.Spotless c tid := by
  refine ⟨(table.reclaim store.ledger).1, ?_, ?_⟩
  · -- The order makes no difference, so let it be the first.
    rw [ok.reclaimTables_perm (List.perm_cons_erase hin), reclaimTables_cons,
      (ok.exhausted tid).tables_reclaimTables (ok.reclaimTable tid), reclaimTable_eq here,
      tables_setTable, if_pos rfl]
  · exact (accounts.table here).spotless (shows.tables here) (ok.tables here) ok.ledger ok.runs
      shows.ledger shows.work shows.sound idle depth

end Store
end SnapshotStore
