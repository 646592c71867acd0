import Mathlib
import SnapshotStore.Proofs.Table.Written

/-!
# How a transaction ends for a table

A rollback takes writes off one by one, from the last one back, and each of them leaves the table in
order (`Ok.undoLog`). A commit leaves the rows as they are: the layers of the transaction become part
of what is committed, and the table notes what reclamation has to look at (`Ok.commit`).
-/

namespace SnapshotStore
namespace Table

open Chain

variable {l : Ledger} {work : Work} {tid : TableId} {table : Table} {txn : Transaction} {id : Int}

/-! ## 1. Rollback -/

/-- What undoing writes makes of one of the tables; they are given with the last one first. -/
def undoLog (tid : TableId) (id : Int) (log : List LogEntry) (table : Table) : Table :=
  log.foldl (fun table entry => if entry.table = tid then table.undo id entry.write else table)
    table

theorem Ok.excuse (ok : Ok l work tid [] table) (undoing : List LogEntry) :
    Ok l work tid undoing table :=
  { ok with
    indexes := fun h =>
      { ok.indexes h with
        complete := fun hv hkey =>
          Or.inl (((ok.indexes h).complete hv hkey).resolve_right (by simp)) } }

/-- Undoing the last statements of a running transaction keeps a table in order. -/
theorem Ok.undoLog {undoing earlier : List LogEntry} (lok : l.Ok)
    (running : ∃ snapshot, l.active[id]? = some snapshot) (txn : Transaction)
    (backed : Backed (work.log id)) (hlog : work.log id = undoing ++ earlier)
    (before : ∀ e ∈ undoing, ∀ e' ∈ earlier, e'.statement < e.statement)
    (ok : Ok l work tid undoing table) :
    Ok l (dropped work id txn earlier) tid [] (table.undoLog tid id undoing) := by
  -- The last write goes first, and what is left of the log is a log of the same transaction.
  induction undoing generalizing work table with
  | nil =>
    refine ok.grows (.refl l) lok fun other => ?_
    rw [log_dropped]
    split
    · rename_i heq
      rw [heq, hlog]
      rfl
    · rfl
  | cons entry undoing ih =>
    have hnext : (dropped work id txn (undoing ++ earlier)).log id = undoing ++ earlier := by
      rw [log_dropped, if_pos rfl]
    have hdone := ok.undo txn ⟨lok, running, hlog, backed, before entry List.mem_cons_self⟩
    have hbacked : Backed (undoing ++ earlier) := by
      rw [hlog] at backed
      exact backed.2
    have hrest := ih (by rw [hnext]; exact hbacked) hnext
      (fun e he => before e (List.mem_cons_of_mem _ he)) hdone
    rw [dropped, dropped, Function.update_idem] at hrest
    exact hrest

/-! ## 2. Commit -/

/-- What a table notes of committed writes; they are given with the last one first. -/
def publishLog (tid : TableId) (sequence : Int) (log : List LogEntry) (table : Table) : Table :=
  log.foldr (fun entry table =>
    if entry.table = tid then table.publish sequence entry.write else table) table

/-- The deletion that a table notes of a committed write. -/
def deleteNote? (sequence : Int) : Write → Option (RowHandle × Int)
  | .marked row _ => some (row, sequence)
  | .created _ _ _ | .bound _ _ _ | .outdated _ _ _ => none

/-- The entry out of use that a table notes of a committed write. -/
def outdatedNote? (sequence : Int) : Write → Option OutdatedEntry
  | .outdated index entry row => some ⟨index, entry, row, sequence⟩
  | .created _ _ _ | .marked _ _ | .bound _ _ _ => none

theorem deleteNote?_eq_some {sequence : Int} {write : Write} {note : RowHandle × Int} :
    deleteNote? sequence write = some note ↔
      note.2 = sequence ∧ ∃ version, write = .marked note.1 version := by
  obtain ⟨row, c⟩ := note
  cases write <;> simp [deleteNote?, and_comm, eq_comm]

theorem outdatedNote?_eq_some {sequence : Int} {write : Write} {note : OutdatedEntry} :
    outdatedNote? sequence write = some note ↔
      note.sequence = sequence ∧ write = .outdated note.index note.entry note.row := by
  obtain ⟨i, key, row, c⟩ := note
  cases write <;> grind [outdatedNote?]

theorem publish_eq (sequence : Int) (write : Write) (table : Table) :
    table.publish sequence write =
      { table with
        pendingDeletes := table.pendingDeletes ++ (deleteNote? sequence write).toList
        outdated := table.outdated ++ (outdatedNote? sequence write).toList } := by
  cases write <;> simp [publish, deleteNote?, outdatedNote?]

/-- The writes of a log to one table, the first one first. -/
def writesTo (tid : TableId) (log : List LogEntry) : List Write :=
  (log.reverse.filter (·.table = tid)).map (·.write)

theorem mem_writesTo {log : List LogEntry} {write : Write} :
    write ∈ writesTo tid log ↔ ∃ s, ⟨s, tid, write⟩ ∈ log := by
  constructor
  · intro hwrite
    obtain ⟨⟨s, other, _⟩, hkept, rfl⟩ := List.mem_map.mp hwrite
    obtain ⟨hin, htid⟩ := List.mem_filter.mp hkept
    cases of_decide_eq_true htid
    exact ⟨s, List.mem_reverse.mp hin⟩
  · rintro ⟨s, hin⟩
    exact List.mem_map.mpr ⟨_, List.mem_filter.mpr ⟨List.mem_reverse.mpr hin, by simp⟩, rfl⟩

theorem publishLog_eq (tid : TableId) (sequence : Int) (log : List LogEntry) (table : Table) :
    table.publishLog tid sequence log =
      { table with
        pendingDeletes := table.pendingDeletes ++
          (writesTo tid log).filterMap (deleteNote? sequence)
        outdated := table.outdated ++ (writesTo tid log).filterMap (outdatedNote? sequence) } := by
  induction log with
  | nil => simp [publishLog, writesTo]
  | cons entry log ih =>
    have hstep : table.publishLog tid sequence (entry :: log) =
        if entry.table = tid then (table.publishLog tid sequence log).publish sequence entry.write
        else table.publishLog tid sequence log := rfl
    rw [hstep, ih]
    by_cases heq : entry.table = tid
    · have hwrites : writesTo tid (entry :: log) = writesTo tid log ++ [entry.write] := by
        simp [writesTo, heq]
      rw [if_pos heq, publish_eq, hwrites]
      simp only [List.filterMap_append, List.append_assoc]
      rfl
    · have hwrites : writesTo tid (entry :: log) = writesTo tid log := by
        simp [writesTo, heq]
      rw [if_neg heq, hwrites]

/-- A commit changes nothing but the notes for reclamation. -/
theorem publishLog_spec (tid : TableId) (sequence : Int) (log : List LogEntry) (table : Table) :
    ∃ deletes outdated, table.publishLog tid sequence log =
        { table with
          pendingDeletes := table.pendingDeletes ++ deletes
          outdated := table.outdated ++ outdated } ∧
      (∀ note : RowHandle × Int, note ∈ deletes ↔ note.2 = sequence ∧ ∃ s version,
        ⟨s, tid, .marked note.1 version⟩ ∈ log) ∧
      ∀ note : OutdatedEntry, note ∈ outdated ↔ note.sequence = sequence ∧ ∃ s,
        ⟨s, tid, .outdated note.index note.entry note.row⟩ ∈ log := by
  refine ⟨_, _, publishLog_eq tid sequence log table, fun note => ?_, fun note => ?_⟩
  · simp only [List.mem_filterMap, mem_writesTo, deleteNote?_eq_some]
    constructor
    · rintro ⟨_, ⟨s, hin⟩, hc, version, rfl⟩
      exact ⟨hc, s, version, hin⟩
    · rintro ⟨hc, s, version, hin⟩
      exact ⟨_, ⟨s, hin⟩, hc, version, rfl⟩
  · simp only [List.mem_filterMap, mem_writesTo, outdatedNote?_eq_some]
    constructor
    · rintro ⟨_, ⟨s, hin⟩, hc, rfl⟩
      exact ⟨hc, s, hin⟩
    · rintro ⟨hc, s, hin⟩
      exact ⟨_, ⟨s, hin⟩, hc, rfl⟩

/-- Once its writer has committed, all of a chain is committed. -/
theorem Layered.committed {l' : Ledger} {log : List LogEntry} {chain : Chain}
    (h : Layered l id log chain) (grows : Ledger.Grows l l') (lok : l.Ok)
    (hid : l'.isCommitted id = true) : ∀ v ∈ chain, l'.isCommitted v.created.transaction = true := by
  intro v hv
  rcases h.creator v hv with ⟨_, hown⟩ | hcommitted
  · rw [hown]
    exact hid
  · exact grows.isCommitted lok hcommitted

/-- A row that its holder has marked bears the mark on top. -/
theorem Layered.newest_isMarked {log : List LogEntry} {chain : Chain}
    (h : Layered l id log chain) (tidy : Tidy chain) {s : Nat} {other : TableId} {row : RowHandle}
    {version : VersionId} (hin : ⟨s, other, .marked row version⟩ ∈ log) :
    ∃ newest older, chain = newest :: older ∧ newest.isMarked = true := by
  induction log generalizing chain with
  | nil => cases hin
  | cons entry log ih =>
    obtain ⟨s', table', write⟩ := entry
    cases write with
    | created row' version' isNewRow =>
      obtain ⟨v, older, rfl, _, _, _, hrest⟩ := layered_created.mp h
      have hbelow := (List.mem_cons.mp hin).resolve_left (by simp)
      obtain ⟨newest, rest, rfl, hmarked⟩ := ih hrest tidy.tail hbelow
      rw [tidy.unmarked newest List.mem_cons_self] at hmarked
      cases hmarked
    | marked row' version' =>
      obtain ⟨v, older, rfl, _, _, hpos, _⟩ := layered_marked.mp h
      exact ⟨_, older, rfl, Version.isMarked_mark hpos⟩
    | bound => exact h.elim
    | outdated => exact h.elim

section Committed

theorem log_committed (work : Work) (id other : Int) :
    Work.log (Function.update work id none) other = if other = id then [] else work.log other :=
  Work.log_update work id other none

variable {snapshot : Int}

theorem isCommitted_commit (lok : l.Ok) (running : l.active[id]? = some snapshot) :
    (l.commit id).1.isCommitted id = true := by
  rw [Ledger.isCommitted_iff (Ledger.ok_commit lok running), Ledger.committedBy_commit lok running,
    if_pos rfl]
  exact decide_eq_true (Int.le_refl _)

/-- A row is free once its holder has committed, and is held by nobody else. -/
theorem Ok.held_committed (ok : Ok l work tid [] table) (lok : l.Ok)
    (running : l.active[id]? = some snapshot) (row : RowHandle) :
    ∃ holder, Layered (l.commit id).1 holder
        (rowLog tid row (Work.log (Function.update work id none) holder)) (table.chainOf row) ∧
      ∀ other, other ≠ holder →
        rowLog tid row (Work.log (Function.update work id none) other) = [] := by
  have grows := Ledger.grows_commit lok running
  obtain ⟨holder, hlayered, hothers⟩ := ok.held row
  by_cases heq : id = holder
  · subst heq
    refine ⟨id, ?_, fun other hne => ?_⟩
    · rw [log_committed, if_pos rfl]
      exact Layered.committed hlayered grows lok (isCommitted_commit lok running)
    · rw [log_committed, if_neg hne]
      exact hothers other hne
  · refine ⟨holder, ?_, fun other hne => ?_⟩
    · rw [log_committed, if_neg (fun h => heq h.symm)]
      exact hlayered.grows grows lok
    · rw [log_committed]
      split
      · rfl
      · exact hothers other hne

/-- A row that the committing transaction has marked bears the mark on top, and nobody else has
written to it. -/
theorem Ok.marked_committed (ok : Ok l work tid [] table) {s : Nat} {row : RowHandle}
    {version : VersionId} (hin : ⟨s, tid, .marked row version⟩ ∈ work.log id) :
    row.val < table.nextHandle ∧
      (∀ v older, table.chainOf row = v :: older → v.isMarked = true) ∧
      ∀ other, other ≠ id → rowLog tid row (work.log other) = [] := by
  have hrowlog : (⟨s, tid, .marked row version⟩ : LogEntry) ∈ rowLog tid row (work.log id) :=
    List.mem_filter.mpr ⟨hin, by simp [LogEntry.touches, Write.row?]⟩
  obtain ⟨hlayered, hothers⟩ := ok.layered (List.ne_nil_of_mem hrowlog)
  obtain ⟨newest, older, hchain, hmarked⟩ := Layered.newest_isMarked hlayered (ok.tidy row) hrowlog
  refine ⟨ok.handles (rows_eq (by rw [hchain]; simp)), fun v below heq => ?_, hothers⟩
  have hsame : newest :: older = v :: below := hchain.symm.trans heq
  rw [← (List.cons.inj hsame).1]
  exact hmarked

/-- A commit keeps a table in order. -/
theorem Ok.commit (ok : Ok l work tid [] table) (lok : l.Ok)
    (running : ∃ snapshot, l.active[id]? = some snapshot) :
    Ok (l.commit id).1 (Function.update work id none) tid []
      (table.publishLog tid (l.sequence + 1) (work.log id)) := by
  obtain ⟨snapshot, running⟩ := running
  have grows := Ledger.grows_commit lok running
  obtain ⟨deletes, outdated, htable, hdeletes, _⟩ :=
    publishLog_spec tid (l.sequence + 1) (work.log id) table
  rw [htable]
  refine ⟨ok.occupied, ok.tidy, ok.serials, ok.handles, ok.held_committed lok running,
    ok.primaryTree, ok.primary, ?_, ?_, ?_⟩
  · intro i index hindex
    have hok := (ok.indexes hindex).grows grows lok
    exact ⟨hok.tree, hok.sound, hok.keyed, hok.complete⟩
  · intro other s i entry row hin
    rw [log_committed] at hin ⊢
    split at hin
    · cases hin
    · rename_i hne
      rw [if_neg hne]
      obtain ⟨index, hindex, hcarriers⟩ := ok.bound hin
      exact ⟨index, hindex, fun v hv => hcarriers v (mem_reach_of_grows grows lok hv)⟩
  · intro row sequence hin
    rcases List.mem_append.mp hin with hin | hin
    · obtain ⟨hlt, hmarked, hfree⟩ := ok.pending hin
      refine ⟨hlt, hmarked, fun other => ?_⟩
      rw [log_committed]
      split
      · rfl
      · exact hfree other
    · obtain ⟨_, s, version, hin⟩ := (hdeletes (row, sequence)).mp hin
      obtain ⟨hlt, hmarked, hothers⟩ := ok.marked_committed hin
      refine ⟨hlt, hmarked, fun other => ?_⟩
      rw [log_committed]
      split
      · rfl
      · rename_i hne
        exact hothers other hne

end Committed

end Table
end SnapshotStore
