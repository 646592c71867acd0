import Mathlib
import SnapshotStore.Proofs.Store.Session

/-!
# Undoing takes back what was written, and nothing else

A write remembers what it did, and taking that back leaves the table as it was: its rows with their
versions and marks, what every index binds and how many keys it counts, and what waits for reclamation
(`Tried.undone`). Only numbers stay used up and nodes stay blank, and tables that differ in these alone
are still alike when the same writes are taken back in both. So the writes on top of a log may be taken
back first and the rest of it later, and what comes out is what was there before any of them
(`Alike.withdrawn`).
-/

namespace SnapshotStore

/-! ## 1. Tables -/

namespace Table

variable {a b : Table}

/-- Taking the same log back in both tables leaves them alike. -/
theorem Unchanged.undoLog (h : a.Unchanged b) (trees : Trees a) (tid : TableId) (id : Int)
    (log : List LogEntry) : (a.undoLog tid id log).Unchanged (b.undoLog tid id log) := by
  induction log generalizing a b with
  | nil => exact h
  | cons entry log ih =>
    by_cases heq : entry.table = tid
    · have hstep := ih (h.undo trees id entry.write) (trees.undo id entry.write)
      simpa [Table.undoLog, heq] using hstep
    · have hstep := ih h trees
      simpa [Table.undoLog, heq] using hstep

/-- Writes that were just remembered are taken back one by one. -/
theorem undoLog_remembered (table : Table) (tid : TableId) (id : Int) (statement : Nat)
    (writes : List Write) :
    table.undoLog tid id (writes.map (LogEntry.mk statement tid)).reverse =
      table.undoAll id writes := by
  simp [undoLog, undoAll, List.foldr_map]

/-- Writes to another table are nothing to this one. -/
theorem undoLog_elsewhere (table : Table) {tid other : TableId} (hne : other ≠ tid) (id : Int)
    (statement : Nat) (writes : List Write) :
    table.undoLog tid id (writes.map (LogEntry.mk statement other)).reverse = table := by
  rw [undoLog, List.foldl_reverse, List.foldr_map]
  simp only [if_neg hne, List.foldr_const, Function.iterate_fixed]

end Table

namespace Store

/-- What a write that was tried has done to the table can be taken back. -/
theorem Tried.undone {l : Ledger} {work : Work} {tid : TableId} {table : Table} {txn : Transaction}
    {change : Change} {tried : Table.Attempt} (h : Tried l txn table change tried)
    (ok : Table.Ok l work tid [] table) (positive : 0 < txn.id) (few : txn.id < 2 ^ 40) :
    table.Unchanged (tried.table.undoAll txn.id tried.writes) := by
  cases h with
  | conflict => exact .refl table
  | refused unchanged _ => exact unchanged
  | wrote _ wrote _ => exact wrote.undone
  | @marked row newest older _ chain writable =>
    obtain ⟨hunmarked, _⟩ := Table.isWritable_iff.mp writable
    have hthere : table.rows[row]? = some (newest :: older) := by
      rw [← chain]
      exact Table.rows_eq (by rw [chain]; exact List.cons_ne_nil _ _)
    have htidy : Chain.Tidy (newest.mark txn.stamp :: older) := by
      have htidy := ok.tidy row
      rw [chain] at htidy
      have hbelow : ∀ v ∈ older, v.isMarked = false := htidy.unmarked
      refine ⟨hbelow, ?_⟩
      rw [List.map_cons, Version.id_mark]
      exact htidy.distinct
    -- The mark is the transaction's own, so clearing it gives the version that was marked.
    have hchain : Chain.change (newest.mark txn.stamp :: older) newest.id (·.unmark txn.id) =
        newest :: older := by
      rw [← Version.id_mark newest txn.stamp, htidy.change_cons, Transaction.stamp,
        Version.unmark_mark_of_lt hunmarked positive few]
    have hrows : ∀ other : RowHandle, ((table.withChain row (newest.mark txn.stamp :: older)).undo
        txn.id (.marked row newest.id)).rows[other]? = table.rows[other]? := by
      intro other
      rw [Table.rows_undo, Table.rows_withChain]
      by_cases heq : other = row
      · subst heq
        simp only [Write.row?, Write.begins, Bool.false_eq_true, if_false, if_true,
          Option.map_some, Chain.undo, hchain, hthere]
      · rw [if_neg heq]
        exact if_neg fun h => heq (Option.some.inj h).symm
    exact ⟨hrows, id, .refl _, fun _ => rfl, rfl, rfl, fun h => ⟨_, h, .refl _⟩, rfl, rfl,
      Nat.le_refl _, Nat.le_refl _, rfl, rfl, rfl, rfl⟩

/-! ## 2. Stores -/

/-- The stores have the same tables but for used-up numbers and blank nodes. -/
structure Alike (a b : Store) : Prop where
  tables : ∀ {tid : TableId} {table : Table}, a.tables[tid]? = some table →
    ∃ table', b.tables[tid]? = some table' ∧ table.Unchanged table'
  absent : ∀ {tid : TableId}, a.tables[tid]? = none → b.tables[tid]? = none

namespace Alike

variable {a b c : Store}

theorem of_tables (h : b.tables = a.tables) : a.Alike b := by
  refine ⟨fun {tid table} here => ⟨table, ?_, .refl table⟩, fun {tid} here => ?_⟩
  · rw [h]
    exact here
  · rw [h]
    exact here

theorem trans (hab : a.Alike b) (hbc : b.Alike c) : a.Alike c := by
  refine ⟨fun here => ?_, fun here => hbc.absent (hab.absent here)⟩
  obtain ⟨middle, hmiddle, hfirst⟩ := hab.tables here
  obtain ⟨last, hlast, hsecond⟩ := hbc.tables hmiddle
  exact ⟨last, hlast, hfirst.trans hsecond⟩

/-- Taking the same log back in both stores leaves them alike. -/
theorem undo {work : Work} (h : a.Alike b) (ok : a.Ok work) (id : Int) (log : List LogEntry) :
    (a.undo id log).Alike (b.undo id log) := by
  obtain ⟨_, _, ha⟩ := a.undo_spec id log
  obtain ⟨_, _, hb⟩ := b.undo_spec id log
  refine ⟨fun {tid table} here => ?_, fun {tid} here => ?_⟩
  · rw [ha] at here
    obtain ⟨old, hold, rfl⟩ := Option.map_eq_some_iff.mp here
    obtain ⟨new, hnew, hsame⟩ := h.tables hold
    rw [hb, hnew]
    exact ⟨_, rfl, hsame.undoLog (ok.tables hold).trees tid id log⟩
  · rw [ha] at here
    rw [hb, h.absent (Option.map_eq_none_iff.mp here)]
    rfl

/-- Writes that came later are taken back first. -/
theorem withdrawn {work : Work} {start store after : Store} {id : Int} {newer older : List LogEntry}
    (ok : store.Ok work) (before : start.Alike (store.undo id older))
    (step : store.Alike (after.undo id newer)) : start.Alike (after.undo id (newer ++ older)) := by
  rw [undo_append]
  exact before.trans (step.undo ok id older)

end Alike

/-- The writes of an attempt are taken back by undoing what is remembered of them. -/
theorem alike_undo_remembered {store : Store} {tid : TableId} {table after : Table} {id : Int}
    {writes : List Write} (here : store.tables[tid]? = some table)
    (undone : table.Unchanged (after.undoAll id writes)) (statement : Nat) :
    store.Alike ((store.setTable tid after).undo id
      (writes.map (LogEntry.mk statement tid)).reverse) := by
  obtain ⟨_, _, htables⟩ := (store.setTable tid after).undo_spec id
    (writes.map (LogEntry.mk statement tid)).reverse
  refine ⟨fun {other t} ht => ?_, fun {other} ht => ?_⟩
  · rw [htables, tables_setTable]
    by_cases heq : other = tid
    · rw [heq, here] at ht
      cases ht
      rw [if_pos heq, heq]
      exact ⟨_, rfl, by rw [Table.undoLog_remembered]; exact undone⟩
    · rw [if_neg heq, ht]
      exact ⟨_, rfl, by rw [Table.undoLog_elsewhere _ (Ne.symm heq)]; exact .refl t⟩
  · rw [htables, tables_setTable, if_neg (fun heq => by rw [heq, here] at ht; cases ht), ht]
    rfl

/-! ## 3. Writes -/

variable {store : Store} {work : Work} {session : Session}

/-- The transaction after it has remembered writes of its current statement. -/
structure Remembers (txn : Transaction) (newer : List LogEntry) (txn' : Transaction) : Prop where
  id : txn'.id = txn.id
  statement : txn'.statement = txn.statement
  log : txn'.log = newer ++ txn.log
  current : ∀ entry ∈ newer, entry.statement = txn.statement

/-- What a session has tried to write is remembered and can be taken back. -/
theorem write_undone (ok : store.Ok work)
    (held : ∀ txn, session.transaction = some txn → work txn.id = some txn) (tid : TableId)
    (change : Change) (check : Table → Except Error Unit)
    {attempt : Table → Ledger → Transaction → Table.Attempt}
    (htried : ∀ {l : Ledger} {work : Work} {table : Table}, Table.Ok l work tid [] table →
      ∀ txn, Tried l txn table change (attempt table l txn)) :
    (∃ error, store.write session tid check attempt = (store, session, .error error)) ∨
    ∃ store' session' txn txn' newer, store.enter session = .ok (store', session', txn) ∧
      (store.write session tid check attempt).2.1 = { session' with transaction := some txn' } ∧
      Remembers txn newer txn' ∧
      (txn.id < 2 ^ 40 → store.Alike ((store.write session tid check attempt).1.undo txn.id newer)) := by
  rcases store.write_cases session tid check attempt with ⟨error, heq⟩ |
    ⟨table, store', session', txn, hold, henter, hcases⟩
  · exact Or.inl ⟨error, heq⟩
  right
  obtain ⟨_, work', hserves, hsession, _, htables⟩ := enter_serves ok held henter
  have ok' := hserves.moves.ok ok
  have here : store'.tables[tid]? = some table := by rw [htables]; exact hold
  have hrunning := ok'.runs.running (hserves.held txn hsession)
  have hsame : session' = { session' with transaction := some txn } := by
    rw [← hsession]
  rcases hcases with ⟨_, heq⟩ | ⟨_, tried, htried', heq⟩
  · rw [heq]
    exact ⟨store', session', txn, txn, [], henter, hsame, ⟨rfl, rfl, rfl, fun _ h => by cases h⟩,
      fun _ => .of_tables htables⟩
  · have htry := htried (ok'.tables here) txn
    rw [← htried'] at htry
    have hundone := htry.undone (ok'.tables here) (ok'.ledger.active hrunning).1
    have hstore := fun few => (Alike.of_tables htables).trans
      (alike_undo_remembered here (hundone few) txn.statement)
    have hcurrent : ∀ entry ∈ (tried.writes.map (LogEntry.mk txn.statement tid)).reverse,
        entry.statement = txn.statement := by
      intro entry hentry
      obtain ⟨write, _, rfl⟩ := List.mem_map.mp (List.mem_reverse.mp hentry)
      rfl
    rw [heq, Session.settled]
    split
    · rename_i hconflict
      have hnone : tried.writes = [] := by
        cases htry with
        | conflict => rfl
        | refused _ refusal =>
          rcases refusal with ⟨_, rfl⟩ | ⟨_, rfl⟩ <;> cases hconflict
        | wrote => cases hconflict
        | marked => cases hconflict
      rw [hnone] at hstore
      exact ⟨store', session', txn, { txn with doomed := true }, [], henter, Session.doom_eq hsession,
        ⟨rfl, rfl, rfl, fun _ h => by cases h⟩, hstore⟩
    · exact ⟨store', session', txn, txn.remember tid tried.writes, _, henter,
        Session.remember_eq hsession tid tried.writes, ⟨rfl, rfl, rfl, hcurrent⟩, hstore⟩

end Store
end SnapshotStore
