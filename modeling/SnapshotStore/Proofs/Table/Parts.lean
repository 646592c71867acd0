import Mathlib
import SnapshotStore.Table.Basic
import SnapshotStore.Proofs.Trie.Map
import SnapshotStore.Proofs.Version.Layers

/-!
# The parts of a table

A change of a table is looked at part by part: the chain of any row, what the primary structure finds
under any key, the index of any number. These lemmas say for each elementary change which parts it
changes and how, and that the rest stays; nothing later unfolds an operation to see what it leaves
alone.
-/

namespace SnapshotStore
namespace Table

open Maps

variable (table : Table)

/-! ## 1. One row, one index -/

theorem chainOf_eq {table : Table} {row : RowHandle} {chain : Chain}
    (h : table.rows[row]? = some chain) : table.chainOf row = chain := by
  rw [chainOf, h]
  rfl

theorem chainOf_of_absent {table : Table} {row : RowHandle} (h : table.rows[row]? = none) :
    table.chainOf row = [] := by
  rw [chainOf, h]
  rfl

@[simp] theorem chainOf_modifyRow (row other : RowHandle) (change : Chain → Chain)
    (hnil : change [] = []) : (table.modifyRow row change).chainOf other =
      if other = row then change (table.chainOf other) else table.chainOf other := by
  unfold chainOf modifyRow
  rw [get_modify]
  split
  · cases table.rows[other]? with
    | none => exact hnil.symm
    | some chain => rfl
  · rfl

theorem indexes_modifyIndex (id other : Nat) (change : Trie → Trie) :
    (table.modifyIndex id change).indexes[other]? =
      if other = id then
        (table.indexes[other]?).map fun index => { index with trie := change index.trie }
      else table.indexes[other]? := by
  unfold modifyIndex
  rw [List.getElem?_modify]
  by_cases h : other = id
  · rw [if_pos h]
    subst h
    cases table.indexes[other]? <;> simp
  · have h' : ¬ id = other := fun heq => h heq.symm
    rw [if_neg h]
    cases table.indexes[other]? <;> simp [h']

/-! ## 2. Undoing a write -/

variable (id : Int) (write : Write)

/-- Undoing a write changes the chain of the row that it changed, or drops the row it began. -/
theorem rows_undo (row : RowHandle) : (table.undo id write).rows[row]? =
    if write.row? = some row then
      if write.begins then none else (table.rows[row]?).map (·.undo id write)
    else table.rows[row]? := by
  cases write with
  | created touched version isNewRow =>
    simp only [Write.row?, Option.some.injEq, eq_comm (a := touched), Write.begins]
    cases isNewRow with
    | true =>
      have hrows : (table.undo id (.created touched version true)).rows[row]? =
          if row = touched then none else (table.unlink touched version).rows[row]? :=
        get_erase _ _ _
      have hunlink : (table.unlink touched version).rows[row]? =
          if row = touched then (table.rows[row]?).map (·.unlink version) else table.rows[row]? :=
        get_modify _ _ _ _
      rw [hrows, hunlink]
      by_cases h : row = touched
      · rw [if_pos h, if_pos h]
        rfl
      · rw [if_neg h, if_neg h, if_neg h]
    | false => exact get_modify _ _ _ _
  | marked touched version =>
    simp only [Write.row?, Option.some.injEq, eq_comm (a := touched), Write.begins]
    exact get_modify _ _ _ _
  | bound => rfl
  | outdated => rfl

theorem chainOf_undo (row : RowHandle) : (table.undo id write).chainOf row =
    if write.row? = some row then (table.chainOf row).undo id write else table.chainOf row := by
  rw [chainOf, rows_undo]
  split
  · cases write with
    | created touched version isNewRow =>
      cases isNewRow with
      | true => rfl
      | false => cases h : table.rows[row]? <;> simp [chainOf, h, Write.begins, Chain.undo, Chain.unlink]
    | marked touched version =>
      cases h : table.rows[row]? <;> simp [chainOf, h, Write.begins, Chain.undo, Chain.change]
    | bound => cases h : table.rows[row]? <;> simp [chainOf, h, Write.begins, Chain.undo]
    | outdated => cases h : table.rows[row]? <;> simp [chainOf, h, Write.begins, Chain.undo]
  · rfl

/-- A row is there after an undo if it was there and the undone write did not begin it. -/
theorem rows_undo_isSome (row : RowHandle) : ((table.undo id write).rows[row]?).isSome = true ↔
    (table.rows[row]?).isSome = true ∧ ∀ version, write ≠ .created row version true := by
  have hbegins : (write.row? = some row ∧ write.begins = true) ↔
      ∃ version, write = .created row version true := by
    cases write with
    | created touched version isNewRow =>
      simp [Write.row?, Write.begins]
    | marked => simp [Write.begins]
    | bound => simp [Write.begins]
    | outdated => simp [Write.begins]
  rw [rows_undo, ← not_exists, ← hbegins]
  by_cases hrow : write.row? = some row
  · by_cases hnew : write.begins = true
    · simp [hrow, hnew]
    · simp [hrow, hnew]
  · simp [hrow]

theorem indexes_undo (i : Nat) : (table.undo id write).indexes[i]? =
    match write with
    | .bound touched entry row =>
      if i = touched then
        (table.indexes[i]?).map fun index =>
          { index with trie := (index.trie.remove entry row).1 }
      else table.indexes[i]?
    | _ => table.indexes[i]? := by
  cases write with
  | created touched version isNewRow =>
    rw [undo]
    split <;> rfl
  | marked => rfl
  | bound touched entry row => exact indexes_modifyIndex table touched i _
  | outdated => rfl

theorem primary_undo : (table.undo id write).primary =
    match write with
    | .created row _ true => (table.primary.remove row.toBytes row).1
    | _ => table.primary := by
  cases write with
  | created row version isNewRow => cases isNewRow <;> rfl
  | marked => rfl
  | bound => rfl
  | outdated => rfl

/-- What undoing never changes. -/
theorem undo_rest : (table.undo id write).nextHandle = table.nextHandle ∧
    (table.undo id write).nextSerial = table.nextSerial ∧
    (table.undo id write).pendingDeletes = table.pendingDeletes ∧
    (table.undo id write).outdated = table.outdated ∧
    (table.undo id write).maxKeyLength = table.maxKeyLength := by
  cases write with
  | created row version isNewRow => cases isNewRow <;> exact ⟨rfl, rfl, rfl, rfl, rfl⟩
  | marked => exact ⟨rfl, rfl, rfl, rfl, rfl⟩
  | bound => exact ⟨rfl, rfl, rfl, rfl, rfl⟩
  | outdated => exact ⟨rfl, rfl, rfl, rfl, rfl⟩

theorem undo_constants : (table.undo id write).maxVersionHistory = table.maxVersionHistory ∧
    (table.undo id write).schema = table.schema ∧ (table.undo id write).name = table.name := by
  cases write with
  | created row version isNewRow => cases isNewRow <;> exact ⟨rfl, rfl, rfl⟩
  | marked row version => exact ⟨rfl, rfl, rfl⟩
  | bound => exact ⟨rfl, rfl, rfl⟩
  | outdated => exact ⟨rfl, rfl, rfl⟩

theorem length_indexes_undo : (table.undo id write).indexes.length = table.indexes.length := by
  cases write with
  | created row version isNewRow => cases isNewRow <;> rfl
  | marked => rfl
  | bound index entry row => exact List.length_modify _ _ _
  | outdated => rfl

end Table
end SnapshotStore
