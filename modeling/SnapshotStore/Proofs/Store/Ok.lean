import Mathlib
import SnapshotStore.Store
import SnapshotStore.Proofs.Table.Build
import SnapshotStore.Proofs.Table.Reclaim

/-!
# What is always true of a store

A store is in order if its ledger is, if the ledger agrees with the transactions that run about who is
active under which snapshot, and if every table is in order among these transactions (`Store.Ok`). The
transactions themselves are kept by the sessions; here they are a parameter.
-/

namespace SnapshotStore
namespace Store

/-- What is always true of a store and of the transactions that run on it. -/
structure Ok (store : Store) (work : Work) : Prop where
  ledger : store.ledger.Ok
  runs : Work.Ok store.ledger work
  tables : ∀ {tid : TableId} {table : Table}, store.tables[tid]? = some table →
    Table.Ok store.ledger work tid [] table
  numbered : ∀ tid : TableId, (store.tables[tid]?).isSome = true ↔ tid < store.tables.size
  logged : ∀ {id : Int} {entry : LogEntry}, entry ∈ work.log id → entry.table < store.tables.size

/-! ## 1. The tables after a change -/

theorem table_eq_ok {store : Store} {tid : TableId} {table : Table} :
    store.table tid = .ok table ↔ store.tables[tid]? = some table := by
  rw [Store.table]
  cases store.tables[tid]? <;> simp

variable (store : Store)

theorem tables_setTable (id : TableId) (table : Table) (tid : TableId) :
    (store.setTable id table).tables[tid]? = if tid = id then some table else store.tables[tid]? :=
  Maps.get_insert _ _ _ _

theorem tables_modifyTable (id : TableId) (change : Table → Table) (tid : TableId) :
    (store.modifyTable id change).tables[tid]? =
      if tid = id then (store.tables[tid]?).map change else store.tables[tid]? :=
  Maps.get_modify _ _ _ _

theorem size_setTable {id : TableId} (table : Table) (h : (store.tables[id]?).isSome = true) :
    (store.setTable id table).tables.size = store.tables.size := by
  have hmem : id ∈ store.tables := Std.ExtTreeMap.mem_iff_isSome_getElem?.mpr h
  exact Std.ExtTreeMap.size_insert.trans (if_pos hmem)

theorem size_modifyTable (id : TableId) (change : Table → Table) :
    (store.modifyTable id change).tables.size = store.tables.size :=
  Std.ExtTreeMap.size_modify

/-- Undoing writes changes the tables they were made to, each by its own. -/
theorem undo_spec (id : Int) (log : List LogEntry) :
    (store.undo id log).ledger = store.ledger ∧
      (store.undo id log).tables.size = store.tables.size ∧
      ∀ tid : TableId, (store.undo id log).tables[tid]? =
        (store.tables[tid]?).map (Table.undoLog tid id log) := by
  induction log generalizing store with
  | nil =>
    refine ⟨rfl, rfl, fun tid => ?_⟩
    exact Option.map_id'.symm ▸ rfl
  | cons entry log ih =>
    obtain ⟨hledger, hsize, htables⟩ :=
      ih (store.modifyTable entry.table (·.undo id entry.write))
    refine ⟨hledger, hsize.trans (size_modifyTable ..), fun tid => (htables tid).trans ?_⟩
    rw [tables_modifyTable]
    by_cases heq : tid = entry.table
    · rw [if_pos heq, Option.map_map]
      congr 1
      funext table
      simp [Table.undoLog, heq]
    · rw [if_neg heq]
      congr 1
      funext table
      simp [Table.undoLog, Ne.symm heq]

/-- Publishing writes changes the tables they were made to, each by its own. -/
theorem publish_spec (sequence : Int) (log : List LogEntry) :
    (store.publish sequence log).ledger = store.ledger ∧
      (store.publish sequence log).tables.size = store.tables.size ∧
      ∀ tid : TableId, (store.publish sequence log).tables[tid]? =
        (store.tables[tid]?).map (Table.publishLog tid sequence log) := by
  induction log with
  | nil =>
    refine ⟨rfl, rfl, fun tid => ?_⟩
    exact Option.map_id'.symm ▸ rfl
  | cons entry log ih =>
    obtain ⟨hledger, hsize, htables⟩ := ih
    have hstep : store.publish sequence (entry :: log) =
        (store.publish sequence log).modifyTable entry.table (·.publish sequence entry.write) := rfl
    rw [hstep]
    refine ⟨hledger, (size_modifyTable ..).trans hsize, fun tid => ?_⟩
    rw [tables_modifyTable, htables]
    by_cases heq : tid = entry.table
    · rw [if_pos heq, Option.map_map]
      congr 1
      funext table
      simp [Table.publishLog, heq]
    · rw [if_neg heq]
      congr 1
      funext table
      simp [Table.publishLog, Ne.symm heq]

end Store

/-! ## 2. Transactions -/

namespace Transaction

variable {txn : Transaction}

theorem ok_begin (id snapshot : Int) : Ok { id, snapshot } where
  begun := Nat.one_pos
  short := (by decide : 1 ≤ lastStatement)
  positive _ h := by cases h
  upTo _ h := by cases h
  sorted := List.Pairwise.nil
  backed := trivial

theorem Ok.nextStatement (ok : txn.Ok) : txn.nextStatement.Ok where
  begun := Nat.lt_min.mpr ⟨Nat.succ_pos _, by decide⟩
  short := Nat.min_le_right _ _
  positive := ok.positive
  upTo entry h :=
    Nat.le_trans (ok.upTo entry h) (Nat.le_min.mpr ⟨Nat.le_succ _, ok.short⟩)
  sorted := ok.sorted
  backed := ok.backed

theorem Ok.earlier {undoing earlier : List LogEntry} (ok : txn.Ok)
    (h : txn.log = undoing ++ earlier) : Ok { txn with log := earlier } := by
  have hmem : ∀ entry ∈ earlier, entry ∈ txn.log := fun entry hentry => by
    rw [h]
    exact List.mem_append_right _ hentry
  refine ⟨ok.begun, ok.short, fun entry hentry => ok.positive entry (hmem entry hentry),
    fun entry hentry => ok.upTo entry (hmem entry hentry), ?_, ?_⟩
  · have hsorted := ok.sorted
    rw [h] at hsorted
    exact (List.pairwise_append.mp hsorted).2.1
  · have hbacked := ok.backed
    rw [h] at hbacked
    exact hbacked.of_append

theorem Backed.append {later earlier : List LogEntry} (h : Backed earlier)
    (hlater : ∀ entry ∈ later, ∀ index key row, entry.write = .bound index key row →
      ∃ version isNewRow, ⟨entry.statement, entry.table, .created row version isNewRow⟩ ∈ earlier) :
    Backed (later ++ earlier) := by
  induction later with
  | nil => exact h
  | cons entry later ih =>
    refine ⟨fun index key row hwrite => ?_, ih fun e he => hlater e (List.mem_cons_of_mem _ he)⟩
    obtain ⟨version, isNewRow, hin⟩ := hlater entry List.mem_cons_self index key row hwrite
    exact ⟨version, isNewRow, List.mem_append_right _ hin⟩

/-- The log stays in order when writes come on top of it, each entry bound after the version that it
leads to was created. -/
theorem Ok.remember (ok : txn.Ok) (tid : TableId) {write : Write} {more : List Write}
    (hfirst : ∀ index key row, write ≠ .bound index key row)
    (hmore : ∀ w ∈ more, ∀ index key row, w = .bound index key row →
      ∃ version isNewRow, write = .created row version isNewRow) :
    (txn.remember tid (write :: more)).Ok := by
  have hmem : ∀ entry ∈ ((write :: more).map (LogEntry.mk txn.statement tid)).reverse,
      entry.statement = txn.statement := by
    intro entry hentry
    obtain ⟨w, _, rfl⟩ := List.mem_map.mp (List.mem_reverse.mp hentry)
    rfl
  refine ⟨ok.begun, ok.short, fun entry hentry => ?_, fun entry hentry => ?_, ?_, ?_⟩
  · rcases List.mem_append.mp hentry with hentry | hentry
    · rw [hmem entry hentry]
      exact ok.begun
    · exact ok.positive entry hentry
  · rcases List.mem_append.mp hentry with hentry | hentry
    · rw [hmem entry hentry]
      exact Nat.le_refl _
    · exact ok.upTo entry hentry
  · refine List.pairwise_append.mpr ⟨?_, ok.sorted, fun later hlater earlier hearlier => ?_⟩
    · refine List.Pairwise.imp_of_mem (fun ha hb _ => ?_) (List.pairwise_of_forall fun _ _ => trivial)
      rw [hmem _ ha, hmem _ hb]
    · rw [hmem later hlater]
      exact ok.upTo earlier hearlier
  · have hlog : (txn.remember tid (write :: more)).log =
        (more.map (LogEntry.mk txn.statement tid)).reverse ++
          (⟨txn.statement, tid, write⟩ :: txn.log) := by
      simp [Transaction.remember]
    rw [hlog]
    refine Backed.append ⟨fun index key row h => absurd h (hfirst index key row), ok.backed⟩ ?_
    intro entry hentry index key row hwrite
    obtain ⟨w, hw, rfl⟩ := List.mem_map.mp (List.mem_reverse.mp hentry)
    obtain ⟨version, isNewRow, rfl⟩ := hmore w hw index key row hwrite
    exact ⟨version, isNewRow, List.mem_cons_self⟩

theorem log_eq_currentWrites_append (txn : Transaction) :
    txn.log = txn.currentWrites ++ txn.forgetStatement.log :=
  List.takeWhile_append_dropWhile.symm

theorem statement_of_mem_currentWrites {entry : LogEntry} (h : entry ∈ txn.currentWrites) :
    entry.statement = txn.statement := by
  have hcond := List.mem_takeWhile_imp h
  simpa using hcond

/-- Once the entries of the present statement are gone, those of earlier ones are left. -/
theorem lt_of_mem_dropWhile {statement : Nat} {log : List LogEntry}
    (sorted : log.Pairwise fun later earlier => earlier.statement ≤ later.statement)
    (upTo : ∀ e ∈ log, e.statement ≤ statement) {entry : LogEntry}
    (h : entry ∈ log.dropWhile (·.statement == statement)) : entry.statement < statement := by
  induction log with
  | nil => cases h
  | cons first log ih =>
    obtain ⟨hfirst, hsorted⟩ := List.pairwise_cons.mp sorted
    rw [List.dropWhile_cons] at h
    split at h
    · exact ih hsorted (fun e he => upTo e (List.mem_cons_of_mem _ he)) h
    · rename_i hne
      have hlt : first.statement < statement := by
        refine Nat.lt_of_le_of_ne (upTo first List.mem_cons_self) ?_
        simpa using hne
      rcases List.mem_cons.mp h with rfl | h
      · exact hlt
      · exact Nat.lt_of_le_of_lt (hfirst entry h) hlt

/-- What a statement rollback leaves is of earlier statements. -/
theorem Ok.statement_lt (ok : txn.Ok) {entry : LogEntry} (h : entry ∈ txn.forgetStatement.log) :
    entry.statement < txn.statement :=
  lt_of_mem_dropWhile ok.sorted ok.upTo h

end Transaction
end SnapshotStore
