import Mathlib
import SnapshotStore.Proofs.Key.Spec
import SnapshotStore.Proofs.Table.Parts

/-!
# What is always true of a table

`Table.Ok` is the invariant of a table among running transactions. Its heart is the pair `held` and
`complete`: a row is held by one running transaction at most, whose log says what lies on top of the
committed versions, and every version in reach has its entry in every index.

An index may hold more entries than that, and which ones is nobody's business, except that undoing a
write takes away the entry that the write bound. `bound` is what makes that harmless: at the time of
the write the entry was unbound, so no version in reach carried its key but the one being written;
whatever carries it now was written later by the same transaction and is undone earlier.

While a transaction is being undone its versions lose their entries before they go. The parameter
`undoing` lists the writes that are still to be undone, and excuses the versions they created.
-/

namespace SnapshotStore

/-- The running transactions, by id. -/
abbrev Work := Int → Option Transaction

namespace Work

/-- The log of a transaction; empty if it does not run. -/
def log (work : Work) (id : Int) : List LogEntry := (work id).elim [] (·.log)

theorem log_eq {work : Work} {id : Int} {txn : Transaction} (h : work id = some txn) :
    work.log id = txn.log := by
  rw [log, h]
  rfl

theorem log_update (work : Work) (id other : Int) (txn : Option Transaction) :
    Work.log (Function.update work id txn) other =
      if other = id then txn.elim [] (·.log) else work.log other := by
  rw [log, Function.update_apply]
  split <;> rfl

/-- A change of a transaction that leaves its log. -/
theorem log_update_same {work : Work} {id : Int} {txn : Option Transaction}
    (h : txn.elim [] (·.log) = work.log id) (other : Int) :
    Work.log (Function.update work id txn) other = work.log other := by
  rw [log_update]
  split
  · rename_i heq
    rw [heq]
    exact h
  · rfl

end Work

/-! ## 1. Logs -/

/-- An entry is bound by the write that created a version of the row, so that its log entry lies on
top of that one's. -/
def Backed : List LogEntry → Prop
  | [] => True
  | entry :: log =>
    (∀ index key row, entry.write = .bound index key row →
      ∃ version isNewRow, ⟨entry.statement, entry.table, .created row version isNewRow⟩ ∈ log) ∧
    Backed log

theorem Backed.of_append {later earlier : List LogEntry} (h : Backed (later ++ earlier)) :
    Backed earlier := by
  induction later with
  | nil => exact h
  | cons entry later ih => exact ih h.2

theorem Backed.exists_created {log : List LogEntry} (h : Backed log) {s : Nat} {table : TableId}
    {index : Nat} {key : Bytes} {row : RowHandle}
    (hmem : ⟨s, table, .bound index key row⟩ ∈ log) :
    ∃ version isNewRow, ⟨s, table, .created row version isNewRow⟩ ∈ log := by
  induction log with
  | nil => cases hmem
  | cons entry log ih =>
    rcases List.mem_cons.mp hmem with rfl | hmem
    · obtain ⟨version, isNewRow, hin⟩ := h.1 index key row rfl
      exact ⟨version, isNewRow, List.mem_cons_of_mem _ hin⟩
    · obtain ⟨version, isNewRow, hin⟩ := ih h.2 hmem
      exact ⟨version, isNewRow, List.mem_cons_of_mem _ hin⟩

/-- A log that bound an entry of a row has touched the row. -/
theorem Backed.rowLog_ne_nil {log : List LogEntry} (h : Backed log) {s : Nat} {table : TableId}
    {index : Nat} {key : Bytes} {row : RowHandle}
    (hmem : ⟨s, table, .bound index key row⟩ ∈ log) : rowLog table row log ≠ [] := by
  obtain ⟨version, isNewRow, hin⟩ := h.exists_created hmem
  refine List.ne_nil_of_mem (List.mem_filter.mpr ⟨hin, ?_⟩)
  simp [LogEntry.touches, Write.row?]

/-- The log of a transaction is in order. -/
structure Transaction.Ok (txn : Transaction) : Prop where
  begun : 0 < txn.statement
  short : txn.statement ≤ Transaction.lastStatement
  positive : ∀ entry ∈ txn.log, 0 < entry.statement
  upTo : ∀ entry ∈ txn.log, entry.statement ≤ txn.statement
  sorted : txn.log.Pairwise fun later earlier => earlier.statement ≤ later.statement
  backed : Backed txn.log

/-! ## 2. The invariant -/

open Chain in
/-- An index among the chains of its table. -/
structure IndexOk (l : Ledger) (table : Table) (tid : TableId) (undoing : List LogEntry)
    (index : Index) : Prop where
  tree : index.trie.pool.IsTree
  sound : ∀ {entry : Bytes} {row : RowHandle}, index.trie.get? entry = some row →
    ∃ key, entry = Key.entry key row
  keyed : ∀ {row : RowHandle} {v : Version}, v ∈ table.chainOf row →
    ∃ key, index.spec.Keyed table.maxKeyLength v.record key
  complete : ∀ {row : RowHandle} {v : Version} {key : Bytes},
    v ∈ reach l l.horizon (table.chainOf row) → index.spec.Keyed table.maxKeyLength v.record key →
      index.trie.get? (Key.entry key row) = some row ∨
        ∃ s isNewRow, ⟨s, tid, .created row v.id isNewRow⟩ ∈ undoing

namespace Table

open Chain

/-- What is always true of a table. -/
structure Ok (l : Ledger) (work : Work) (tid : TableId) (undoing : List LogEntry)
    (table : Table) : Prop where
  occupied : ∀ {row : RowHandle} {chain : Chain}, table.rows[row]? = some chain → chain ≠ []
  tidy : ∀ row, Tidy (table.chainOf row)
  serials : ∀ {row : RowHandle} {v : Version}, v ∈ table.chainOf row →
    v.id.serial < table.nextSerial
  handles : ∀ {row : RowHandle} {chain : Chain}, table.rows[row]? = some chain →
    row.val < table.nextHandle
  held : ∀ row, ∃ id, Layered l id (rowLog tid row (work.log id)) (table.chainOf row) ∧
    ∀ other, other ≠ id → rowLog tid row (work.log other) = []
  primaryTree : table.primary.pool.IsTree
  primary : ∀ {key : Bytes} {row : RowHandle}, table.primary.get? key = some row ↔
    key = row.toBytes ∧ (table.rows[row]?).isSome = true
  indexes : ∀ {i : Nat} {index : Index}, table.indexes[i]? = some index →
    IndexOk l table tid undoing index
  bound : ∀ {id : Int} {s i : Nat} {entry : Bytes} {row : RowHandle},
    ⟨s, tid, .bound i entry row⟩ ∈ work.log id → ∃ index, table.indexes[i]? = some index ∧
      ∀ v ∈ reach l l.horizon (table.chainOf row), ∀ key,
        index.spec.Keyed table.maxKeyLength v.record key → entry = Key.entry key row →
          ∃ s' isNewRow, s ≤ s' ∧ ⟨s', tid, .created row v.id isNewRow⟩ ∈ work.log id
  pending : ∀ {row : RowHandle} {sequence : Int}, (row, sequence) ∈ table.pendingDeletes →
    row.val < table.nextHandle ∧ (∀ v older, table.chainOf row = v :: older → v.isMarked = true) ∧
      ∀ id, rowLog tid row (work.log id) = []

theorem ok_create (l : Ledger) (work : Work) (tid : TableId) (name : String) (schema : Schema)
    (config : Config) (h : ∀ id, ∀ entry ∈ work.log id, entry.table ≠ tid) :
    Ok l work tid [] (create name schema config) := by
  have hchain : ∀ row, (create name schema config).chainOf row = [] := by
    intro row
    simp [create, chainOf]
  have hlog : ∀ row id, rowLog tid row (work.log id) = [] := by
    intro row id
    rw [rowLog, List.filter_eq_nil_iff]
    intro entry hentry htouches
    simp only [LogEntry.touches, Bool.and_eq_true, decide_eq_true_eq] at htouches
    exact h id entry hentry htouches.1
  refine ⟨?_, ?_, ?_, ?_, ?_, ?_, ?_, ?_, ?_, ?_⟩
  · intro row chain hrow
    simp [create] at hrow
  · intro row
    rw [hchain]
    exact ⟨fun v hv => (by cases hv), List.nodup_nil⟩
  · intro row v hv
    rw [hchain] at hv
    cases hv
  · intro row chain hrow
    simp [create] at hrow
  · intro row
    refine ⟨0, ?_, fun other _ => hlog row other⟩
    rw [hlog, hchain]
    intro v hv
    cases hv
  · exact NodePool.isTree_empty
  · intro key row
    simp [create]
  · intro i index hindex
    simp [create] at hindex
  · intro id s i entry row hmem
    exact absurd rfl (h id _ hmem)
  · intro row sequence hmem
    cases hmem

/-! ## 3. Holding a row -/

section Holder

variable {l : Ledger} {work : Work} {tid : TableId} {undoing : List LogEntry} {table : Table}
  (ok : Ok l work tid undoing table)
include ok

/-- Whoever has touched a row holds it. -/
theorem Ok.layered {id : Int} {row : RowHandle} (h : rowLog tid row (work.log id) ≠ []) :
    Layered l id (rowLog tid row (work.log id)) (table.chainOf row) ∧
      ∀ other, other ≠ id → rowLog tid row (work.log other) = [] := by
  obtain ⟨holder, hlayered, hothers⟩ := ok.held row
  by_cases heq : id = holder
  · subst heq
    exact ⟨hlayered, hothers⟩
  · exact absurd (hothers id heq) h

theorem Ok.chainOf_ne_nil {row : RowHandle} (h : (table.rows[row]?).isSome = true) :
    table.chainOf row ≠ [] := by
  obtain ⟨chain, hchain⟩ := Option.isSome_iff_exists.mp h
  rw [chainOf_eq hchain]
  exact ok.occupied hchain

end Holder

/-- A transaction has written a row or taken a write of it back: nothing else has another chain, and no
other log has changed for any row. -/
structure Touched (tid : TableId) (row : RowHandle) (id : Int) (log : List LogEntry)
    (work work' : Work) (table after : Table) : Prop where
  logs : ∀ (r : RowHandle) (other : Int), rowLog tid r (work'.log other) =
    if other = id ∧ r = row then log else rowLog tid r (work.log other)
  chains : ∀ r, r ≠ row → after.chainOf r = table.chainOf r

section Touched

variable {l : Ledger} {work work' : Work} {tid : TableId} {undoing log : List LogEntry}
  {table after : Table} {row : RowHandle} {id : Int} (ok : Ok l work tid undoing table)
  (touched : Touched tid row id log work work' table after)
include ok touched

/-- Whoever held the row still does, and the others are held by whom they were. -/
theorem Ok.held_of_touched (hothers : ∀ other, other ≠ id → rowLog tid row (work.log other) = [])
    (hlayered : Layered l id log (after.chainOf row)) (r : RowHandle) :
    ∃ holder, Layered l holder (rowLog tid r (work'.log holder)) (after.chainOf r) ∧
      ∀ other, other ≠ holder → rowLog tid r (work'.log other) = [] := by
  by_cases heq : r = row
  · rw [heq]
    refine ⟨id, ?_, fun other hne => ?_⟩
    · rw [touched.logs, if_pos ⟨rfl, rfl⟩]
      exact hlayered
    · rw [touched.logs, if_neg (fun h => hne h.1)]
      exact hothers other hne
  · obtain ⟨holder, hheld, hfree⟩ := ok.held r
    refine ⟨holder, ?_, fun other hne => ?_⟩
    · rw [touched.logs, if_neg (fun h => heq h.2), touched.chains r heq]
      exact hheld
    · rw [touched.logs, if_neg (fun h => heq h.2)]
      exact hfree other hne

/-- Nothing changes for the pending deletions if none of them is of the row. -/
theorem Ok.pending_of_touched (hnot : ∀ sequence, (row, sequence) ∉ table.pendingDeletes)
    (hnext : table.nextHandle ≤ after.nextHandle) {r : RowHandle} {sequence : Int}
    (hin : (r, sequence) ∈ table.pendingDeletes) : r.val < after.nextHandle ∧
      (∀ v older, after.chainOf r = v :: older → v.isMarked = true) ∧
      ∀ other, rowLog tid r (work'.log other) = [] := by
  obtain ⟨hlt, hmarked, hfree⟩ := ok.pending hin
  have hne : r ≠ row := by
    rintro rfl
    exact hnot sequence hin
  refine ⟨Nat.lt_of_lt_of_le hlt hnext, ?_, fun other => ?_⟩
  · rw [touched.chains r hne]
    exact hmarked
  · rw [touched.logs, if_neg (fun h => hne h.2)]
    exact hfree other

end Touched

theorem rows_eq {table : Table} {row : RowHandle} (h : table.chainOf row ≠ []) :
    table.rows[row]? = some (table.chainOf row) := by
  cases hrow : table.rows[row]? with
  | none => exact absurd (chainOf_of_absent hrow) h
  | some chain => rw [chainOf_eq hrow]

end Table
end SnapshotStore
