import Mathlib
import SnapshotStore.Proofs.Table.Write

/-!
# Writes and the versions that have left their chain

A reference to a version that has left its chain still shows the mark of its deletion, and the table
remembers that mark for it (`Table.retired`). A write that is refused takes a version off the chain
again, but that version is its own and bears no mark, and the steps for the indexes touch neither the
rows nor what has left them (`SameRows`). So no write, refused or not, changes what such references show.
-/

namespace SnapshotStore
namespace Table

variable {l : Ledger} {table table' : Table} {transaction : Int} {row : RowHandle}
  {writes : List Write}

/-- The tables have the same rows, and the same versions have left them. -/
structure SameRows (table table' : Table) : Prop where
  rows : table'.rows = table.rows
  retired : table'.retired = table.retired

namespace SameRows

theorem refl (table : Table) : table.SameRows table := ⟨rfl, rfl⟩

theorem trans {middle last : Table} (first : table.SameRows middle) (second : middle.SameRows last) :
    table.SameRows last := ⟨second.rows.trans first.rows, second.retired.trans first.retired⟩

end SameRows

/-! ## 1. Steps for the indexes -/

/-- A write that is none of a row is undone without touching the rows. -/
theorem sameRows_undo (table : Table) (id : Int) {write : Write} (aside : write.row? = none) :
    table.SameRows (table.undo id write) := by
  cases write with
  | created => cases aside
  | marked => cases aside
  | bound => exact ⟨rfl, rfl⟩
  | outdated => exact ⟨rfl, rfl⟩

theorem sameRows_undoAll (table : Table) (id : Int)
    (aside : ∀ write ∈ writes, write.row? = none) : table.SameRows (table.undoAll id writes) := by
  induction writes with
  | nil => exact .refl table
  | cons write writes ih =>
    have hlater := ih fun w hw => aside w (List.mem_cons_of_mem _ hw)
    exact hlater.trans (sameRows_undo _ id (aside write List.mem_cons_self))

/-- The steps touch the entries of indexes alone. -/
def Aside (step : Table → Nat → Except Refusal (Table × List Write)) : Prop :=
  ∀ ⦃table table' : Table⦄ ⦃id : Nat⦄ ⦃writes : List Write⦄, step table id = .ok (table', writes) →
    table.SameRows table' ∧ ∀ write ∈ writes, write.row? = none

theorem aside_bindEntry {id : Nat} {index : Index} {entry : Bytes}
    (h : table.bindEntry l transaction id index entry row = .ok (table', writes)) :
    table.SameRows table' ∧ ∀ write ∈ writes, write.row? = none := by
  obtain ⟨⟨trie, rfl⟩, rfl | rfl⟩ := bindEntry_eq_ok h
  · refine ⟨⟨rfl, rfl⟩, fun write hwrite => ?_⟩
    rw [List.mem_singleton.mp hwrite]
    rfl
  · exact ⟨⟨rfl, rfl⟩, fun _ hwrite => by cases hwrite⟩

theorem aside_bindRecord (l : Ledger) (transaction : Int) (record : Record) (row : RowHandle) :
    Aside (bindRecord l transaction record row) := by
  intro table table' id writes h
  obtain ⟨_, _, h⟩ := Fallible.bind_eq_ok.mp h
  obtain ⟨_, _, h⟩ := Fallible.bind_eq_ok.mp h
  exact aside_bindEntry h

theorem aside_rebindRecord (l : Ledger) (transaction : Int) (old new : Record) (row : RowHandle) :
    Aside (rebindRecord l transaction old new row) := by
  intro table table' id writes h
  obtain ⟨_, _, h⟩ := Fallible.bind_eq_ok.mp h
  obtain ⟨same, _, h⟩ := Fallible.bind_eq_ok.mp h
  cases same with
  | true =>
    cases h
    exact ⟨.refl table, fun _ hwrite => by cases hwrite⟩
  | false =>
    obtain ⟨_, _, h⟩ := Fallible.bind_eq_ok.mp h
    obtain ⟨_, _, h⟩ := Fallible.bind_eq_ok.mp h
    obtain ⟨done, hbind, h⟩ := Fallible.bind_eq_ok.mp h
    obtain ⟨hsame, haside⟩ := aside_bindEntry hbind
    cases h
    refine ⟨hsame, fun write hwrite => ?_⟩
    rcases List.mem_append.mp hwrite with hwrite | hwrite
    · exact haside write hwrite
    · rw [List.mem_singleton.mp hwrite]
      rfl

theorem aside_forEachIndex {step : Table → Nat → Except Refusal (Table × List Write)}
    (aside : Aside step) (ids : List Nat) (table : Table) :
    table.SameRows (forEachIndex step ids table).1 ∧
      ∀ write ∈ (forEachIndex step ids table).2.1, write.row? = none := by
  induction ids generalizing table with
  | nil => exact ⟨.refl table, fun _ h => by cases h⟩
  | cons id ids ih =>
    rw [forEachIndex]
    cases hstep : step table id with
    | error refusal => exact ⟨.refl table, fun _ h => by cases h⟩
    | ok done =>
      obtain ⟨middle, writes⟩ := done
      obtain ⟨hfirst, hwrites⟩ := aside hstep
      obtain ⟨hrest, hlater⟩ := ih middle
      refine ⟨hfirst.trans hrest, fun write hwrite => ?_⟩
      exact (List.mem_append.mp hwrite).elim (hwrites write) (hlater write)

/-! ## 2. Writes -/

/-- Taking back a version that bears no mark leaves nothing of it. -/
theorem retired_undo_created {version : Version} {older : Chain} (id : Int)
    (chain : table.chainOf row = version :: older) (unmarked : version.isMarked = false)
    {isNewRow : Bool} (alone : isNewRow = true → older = []) :
    (table.undo id (.created row version.id isNewRow)).retired = table.retired := by
  have hunlink : (table.unlink row version.id).retired = table.retired := by
    rw [unlink, chain]
    simp [retire, unmarked, modifyRow]
  cases isNewRow with
  | false => exact hunlink
  | true =>
    have hgone : (table.unlink row version.id).chainOf row = [] := by
      have hafter := chainOf_modifyRow table row row (·.unlink version.id) rfl
      rw [if_pos rfl, chain, alone rfl] at hafter
      refine hafter.trans ?_
      rw [Chain.unlink, if_pos rfl]
    show ((table.unlink row version.id).retire _).retired = _
    rw [hgone]
    exact hunlink

/-- A write that is completed or taken back. -/
theorem retired_complete {step : Table → Nat → Except Refusal (Table × List Write)}
    (aside : Aside step) {version : Version} {older : Chain} (id : Int)
    (chain : table.chainOf row = version :: older) (unmarked : version.isMarked = false)
    {isNewRow : Bool} (alone : isNewRow = true → older = []) (ref : RowRef) :
    (table.complete id (.created row version.id isNewRow) ref step).table.retired =
      table.retired := by
  obtain ⟨hsame, hwrites⟩ := aside_forEachIndex aside (List.range table.indexes.length) table
  rw [complete]
  generalize forEachIndex step (List.range table.indexes.length) table = done at hsame hwrites
  obtain ⟨after, writes, refusal?⟩ := done
  cases refusal? with
  | none => exact hsame.retired
  | some refusal =>
    have hback := hsame.trans (sameRows_undoAll after id hwrites)
    have hchain : (after.undoAll id writes).chainOf row = version :: older := by
      rw [chainOf, hback.rows]
      exact chain
    exact (retired_undo_created id hchain unmarked alone).trans hback.retired

/-- A version that was just written bears no mark. -/
theorem isMarked_newVersion (table : Table) (txn : Transaction) (record : Record) :
    (table.newVersion txn record).isMarked = false := rfl

theorem retired_insertRow (table : Table) (l : Ledger) (txn : Transaction) (record : Record) :
    (table.insertRow l txn record).table.retired = table.retired := by
  rw [insertRow]
  split
  · rfl
  · rename_i row _
    have hchain : (table.begunInsert txn record row).chainOf row = [table.newVersion txn record] :=
      chainOf_eq ((rows_begunInsert row).trans (if_pos rfl))
    exact retired_complete (aside_bindRecord l txn.id record row) txn.id hchain
      (isMarked_newVersion table txn record) (fun _ => rfl) _

theorem retired_updateRow (table : Table) (l : Ledger) (txn : Transaction) (row : RowHandle)
    (record : Record) : (table.updateRow l txn row record).table.retired = table.retired := by
  rw [updateRow]
  split
  · rename_i newest older hrow
    split
    · have hchain : (table.begunUpdate txn record row).chainOf row =
          table.newVersion txn record :: newest :: older := by
        rw [← chainOf_eq hrow]
        exact chainOf_eq ((rows_begunUpdate row).trans (if_pos rfl))
      have hretired := retired_complete (aside_rebindRecord l txn.id newest.record record row) txn.id
        hchain (isMarked_newVersion table txn record) (fun h => absurd h Bool.false_ne_true)
        ⟨row, table.newVersion txn record, newest :: older⟩
      rw [begunUpdate, chainOf_eq hrow] at hretired
      exact hretired
    · rfl
  · rfl

theorem retired_deleteRow (table : Table) (l : Ledger) (txn : Transaction) (row : RowHandle) :
    (table.deleteRow l txn row).table.retired = table.retired := by
  rw [deleteRow]
  split
  · split <;> rfl
  · rfl

end Table
end SnapshotStore
