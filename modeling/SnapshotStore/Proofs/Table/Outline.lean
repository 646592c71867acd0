import Mathlib
import SnapshotStore.Proofs.Table.Ending
import SnapshotStore.Proofs.Table.Reclaim
import SnapshotStore.Proofs.Table.Write

/-!
# A table but for its rows

What a table answers depends on its rows and on little else: its name, its layout, the longest key, the
number of the next row and what its indexes are keyed on (`Table.outline`). Of all that happens to a
table only an insert changes any of this, and an insert that is refused uses its number up just as one
that goes through. So of two tables that had one outline, and to which the same was done, the outline
is one still.

Whether the indexes refuse a version depends on the outline and on who owns which key
(`verdict_bindRecord`, `verdict_rebindRecord`).
-/

namespace List

/-- It is enough that the answers agree on the list. -/
theorem findSome?_congr {α β : Type} {f g : α → Option β} {l : List α} (h : ∀ a ∈ l, f a = g a) :
    l.findSome? f = l.findSome? g := by
  induction l with
  | nil => rfl
  | cons a l ih =>
    rw [findSome?_cons, findSome?_cons, h a mem_cons_self,
      ih fun b hb => h b (mem_cons_of_mem _ hb)]

end List

namespace SnapshotStore
namespace Table

/-- What there is to know of a table besides its rows. -/
structure Outline where
  name : String
  schema : Schema
  maxKeyLength : Nat
  /-- The number of the next row. -/
  nextHandle : Nat
  /-- What each index is keyed on. -/
  specs : List KeySpec

/-- The table but for its rows. -/
def outline (table : Table) : Outline where
  name := table.name
  schema := table.schema
  maxKeyLength := table.maxKeyLength
  nextHandle := table.nextHandle
  specs := table.indexes.map (·.spec)

variable {table table' : Table}

/-! ## 1. What leaves the outline as it is -/

theorem outline_modifyIndex (table : Table) (id : Nat) (change : Trie → Trie) :
    (table.modifyIndex id change).outline = table.outline := by
  have hspecs : (table.indexes.modify id fun index => { index with trie := change index.trie }).map
      (·.spec) = table.indexes.map (·.spec) := by
    refine List.ext_getElem? fun i => ?_
    rw [List.getElem?_map, List.getElem?_map, List.getElem?_modify]
    cases table.indexes[i]? with
    | none => rfl
    | some index =>
      by_cases h : id = i
      · simp [h]
      · simp [h]
  rw [outline, outline]
  exact congrArg (Outline.mk table.name table.schema table.maxKeyLength table.nextHandle) hspecs

theorem outline_undo (table : Table) (id : Int) (write : Write) :
    (table.undo id write).outline = table.outline := by
  cases write with
  | created row version isNewRow => cases isNewRow <;> rfl
  | marked | outdated => rfl
  | bound index entry row => exact outline_modifyIndex _ _ _

theorem outline_undoAll (table : Table) (id : Int) (writes : List Write) :
    (table.undoAll id writes).outline = table.outline := by
  induction writes with
  | nil => rfl
  | cons write writes ih => exact (outline_undo _ _ _).trans ih

theorem outline_undoLog (tid : TableId) (id : Int) (log : List LogEntry) (table : Table) :
    (table.undoLog tid id log).outline = table.outline := by
  induction log generalizing table with
  | nil => rfl
  | cons entry log ih =>
    have hstep : (if entry.table = tid then table.undo id entry.write else table).outline =
        table.outline := by
      split
      · exact outline_undo _ _ _
      · rfl
    exact (ih _).trans hstep

theorem outline_publishLog (tid : TableId) (sequence : Int) (log : List LogEntry)
    (table : Table) : (table.publishLog tid sequence log).outline = table.outline := by
  obtain ⟨_, _, htable, _⟩ := publishLog_spec tid sequence log table
  rw [htable]
  rfl

theorem outline_of_reclaimed {l : Ledger} (h : Reclaimed l table table') :
    table'.outline = table.outline := by
  have hspecs : table'.indexes.map (·.spec) = table.indexes.map (·.spec) := by
    refine List.ext_getElem? fun i => ?_
    rw [List.getElem?_map, List.getElem?_map]
    cases hi : table.indexes[i]? with
    | none =>
      rw [List.getElem?_eq_none_iff] at hi
      rw [List.getElem?_eq_none_iff.mpr (by rw [h.trimmed.count]; exact hi)]
    | some index =>
      obtain ⟨index', hi', htrimmed⟩ := h.trimmed.indexes hi
      rw [hi', Option.map_some, Option.map_some, htrimmed.spec]
  rw [outline, outline, hspecs, h.rest.name, h.rest.schema, h.rest.maxKeyLength, h.rest.nextHandle]

/-! ## 2. Writes -/

section Writes

variable {l : Ledger} {transaction : Int} {old record : Record} {row : RowHandle} {id : Nat}
  {writes : List Write}

theorem outline_bindEntry {index : Index} {entry : Bytes}
    (h : table.bindEntry l transaction id index entry row = .ok (table', writes)) :
    table'.outline = table.outline := by
  obtain ⟨⟨trie, rfl⟩, _⟩ := bindEntry_eq_ok h
  exact outline_modifyIndex _ _ _

theorem outline_bindRecord
    (h : bindRecord l transaction record row table id = .ok (table', writes)) :
    table'.outline = table.outline := by
  obtain ⟨_, _, hrest⟩ := Fallible.bind_eq_ok.mp h
  obtain ⟨_, _, hbind⟩ := Fallible.bind_eq_ok.mp hrest
  exact outline_bindEntry hbind

theorem outline_rebindRecord
    (h : rebindRecord l transaction old record row table id = .ok (table', writes)) :
    table'.outline = table.outline := by
  obtain ⟨_, _, hrest⟩ := Fallible.bind_eq_ok.mp h
  obtain ⟨same, _, hrest⟩ := Fallible.bind_eq_ok.mp hrest
  split at hrest
  · cases hrest
    rfl
  · obtain ⟨_, _, hrest⟩ := Fallible.bind_eq_ok.mp hrest
    obtain ⟨_, _, hrest⟩ := Fallible.bind_eq_ok.mp hrest
    obtain ⟨_, hbind, heq⟩ := Fallible.bind_eq_ok.mp hrest
    cases heq
    exact outline_bindEntry hbind

theorem outline_forEachIndex {step : Table → Nat → Except Refusal (Table × List Write)}
    (hstep : ∀ table id table' writes, step table id = .ok (table', writes) →
      table'.outline = table.outline)
    (ids : List Nat) (table : Table) : (forEachIndex step ids table).1.outline = table.outline := by
  induction ids generalizing table with
  | nil => rfl
  | cons id ids ih =>
    rw [forEachIndex]
    cases hresult : step table id with
    | error refusal => rfl
    | ok done => exact (ih done.1).trans (hstep _ _ _ _ hresult)

/-- A write that is taken back leaves the outline as one that is completed. -/
theorem outline_complete {step : Table → Nat → Except Refusal (Table × List Write)}
    (hstep : ∀ table id table' writes, step table id = .ok (table', writes) →
      table'.outline = table.outline)
    (table : Table) (transaction : Int) (created : Write) (ref : RowRef) :
    (table.complete transaction created ref step).table.outline = table.outline := by
  have hdone := outline_forEachIndex hstep (List.range table.indexes.length) table
  rw [complete]
  cases hresult : forEachIndex step (List.range table.indexes.length) table with
  | mk after rest =>
    obtain ⟨writes, refusal?⟩ := rest
    rw [hresult] at hdone
    cases refusal? with
    | none => exact hdone
    | some refusal => exact (outline_undoAll _ _ _).trans hdone

/-- An insert takes a number, whatever comes of it. -/
theorem outline_insertRow (table : Table) (l : Ledger) (txn : Transaction) (record : Record) :
    (table.insertRow l txn record).table.outline =
      if (RowHandle.ofNat? table.outline.nextHandle).isSome then
        { table.outline with nextHandle := table.outline.nextHandle + 1 }
      else table.outline := by
  rw [insertRow]
  cases hrow : RowHandle.ofNat? table.nextHandle with
  | none =>
    rw [show RowHandle.ofNat? table.outline.nextHandle = none from hrow]
    rfl
  | some row =>
    rw [show RowHandle.ofNat? table.outline.nextHandle = some row from hrow]
    exact outline_complete (fun _ _ _ _ h => outline_bindRecord h) _ _ _ _

theorem outline_updateRow (table : Table) (l : Ledger) (txn : Transaction) (row : RowHandle)
    (record : Record) : (table.updateRow l txn row record).table.outline = table.outline := by
  rw [updateRow]
  split
  · split
    · exact outline_complete (fun _ _ _ _ h => outline_rebindRecord h) _ _ _ _
    · rfl
  · rfl

theorem outline_deleteRow (table : Table) (l : Ledger) (txn : Transaction) (row : RowHandle) :
    (table.deleteRow l txn row).table.outline = table.outline := by
  rw [deleteRow]
  split
  · split <;> rfl
  · rfl

end Writes

/-! ## 3. What the indexes make of a version -/

section Verdicts

variable {l l' : Ledger} {id : Int} {old record : Record} {row : RowHandle}
  (same : table'.outline = table.outline)
include same

/-- Two tables with one outline have indexes that are keyed on the same. -/
theorem exists_index_of_outline {i : Nat} {index : Index} (h : table.indexes[i]? = some index) :
    ∃ index', table'.indexes[i]? = some index' ∧ index'.spec = index.spec := by
  have hspecs : table'.indexes.map (·.spec) = table.indexes.map (·.spec) := by
    exact congrArg Outline.specs same
  have hi : (table'.indexes.map (·.spec))[i]? = (table.indexes.map (·.spec))[i]? := by rw [hspecs]
  rw [List.getElem?_map, List.getElem?_map, h] at hi
  exact Option.map_eq_some_iff.mp hi

theorem length_indexes_of_outline : table'.indexes.length = table.indexes.length := by
  have hlength := congrArg List.length (congrArg Outline.specs same)
  rwa [outline, outline, List.length_map, List.length_map] at hlength

/-- What the indexes make of a write is the same if each of them makes the same of it. -/
theorem verdict_congr {step step' : Table → Nat → Except Refusal (Table × List Write)}
    (h : ∀ {i : Nat} {index index' : Index}, table.indexes[i]? = some index →
      table'.indexes[i]? = some index' → index'.spec = index.spec →
        refusal? (step table i) = refusal? (step' table' i)) :
    table.verdict step = table'.verdict step' := by
  rw [verdict, verdict, length_indexes_of_outline same]
  refine List.findSome?_congr fun i hi => ?_
  obtain ⟨index, hindex⟩ : ∃ index, table.indexes[i]? = some index :=
    ⟨_, List.getElem?_eq_getElem (List.mem_range.mp hi)⟩
  obtain ⟨index', hindex', hspec⟩ := exists_index_of_outline same hindex
  exact h hindex hindex' hspec

variable (free : ∀ spec key, Free l id spec key row table ↔ Free l' id spec key row table')
include free

omit same in
/-- An entry is refused by both tables or by neither. -/
theorem refusal_bindEntry_congr {i : Nat} {index index' : Index} (answers : Answers l table row index)
    (answers' : Answers l' table' row index') (hspec : index'.spec = index.spec) (key : Bytes) :
    refusal? (table.bindEntry l id i index (Key.entry key row) row) =
      refusal? (table'.bindEntry l' id i index' (Key.entry key row) row) := by
  have hfree := free index.spec key
  rcases bindEntry_spec i answers id key with ⟨hunique, hnot, hresult⟩ | ⟨hdone, hresult⟩
  · rcases bindEntry_spec i answers' id key with ⟨_, _, hresult'⟩ | ⟨hdone', _⟩
    · rw [hresult, hresult']
    · rw [hspec] at hdone'
      exact absurd (hfree.mpr (hdone' hunique)) hnot
  · rcases bindEntry_spec i answers' id key with ⟨hunique', hnot', _⟩ | ⟨_, hresult'⟩
    · rw [hspec] at hunique' hnot'
      exact absurd (hfree.mp (hdone hunique')) hnot'
    · rw [hresult, hresult']
      rfl

variable
  (answers : ∀ {i : Nat} {index : Index}, table.indexes[i]? = some index → Answers l table row index)
  (answers' : ∀ {i : Nat} {index : Index}, table'.indexes[i]? = some index →
    Answers l' table' row index)
include answers answers'

/-- The indexes refuse a new row in both tables or in neither. -/
theorem verdict_bindRecord : table.verdict (bindRecord l id record row) =
    table'.verdict (bindRecord l' id record row) := by
  refine verdict_congr same fun {i index index'} hindex hindex' hspec => ?_
  have hlimit : table'.maxKeyLength = table.maxKeyLength := congrArg Outline.maxKeyLength same
  rw [bindRecord, bindRecord, index_eq_ok hindex, index_eq_ok hindex']
  simp only [Fallible.mapError_ok, Fallible.ok_bind]
  rw [hspec, hlimit]
  cases hentry : index.spec.entry table.maxKeyLength record row with
  | error e => rfl
  | ok entry =>
    obtain ⟨key, _, rfl⟩ := KeySpec.entry_eq_ok.mp hentry
    exact refusal_bindEntry_congr free (answers hindex) (answers' hindex') hspec key

/-- The indexes refuse a new version of a row in both tables or in neither. -/
theorem verdict_rebindRecord : table.verdict (rebindRecord l id old record row) =
    table'.verdict (rebindRecord l' id old record row) := by
  refine verdict_congr same fun {i index index'} hindex hindex' hspec => ?_
  have hlimit : table'.maxKeyLength = table.maxKeyLength := congrArg Outline.maxKeyLength same
  rw [rebindRecord, rebindRecord, index_eq_ok hindex, index_eq_ok hindex']
  simp only [Fallible.mapError_ok, Fallible.ok_bind]
  rw [hspec, hlimit]
  cases index.spec.sameKey old record with
  | error e => rfl
  | ok unchanged =>
    cases unchanged with
    | true => rfl
    | false =>
      simp only [Fallible.mapError_ok, Fallible.ok_bind, Bool.false_eq_true, if_false]
      cases index.spec.entry table.maxKeyLength old row with
      | error e => rfl
      | ok oldEntry =>
        simp only [Fallible.mapError_ok, Fallible.ok_bind]
        cases hentry : index.spec.entry table.maxKeyLength record row with
        | error e => rfl
        | ok entry =>
          obtain ⟨key, _, rfl⟩ := KeySpec.entry_eq_ok.mp hentry
          simp only [Fallible.mapError_ok, Fallible.ok_bind]
          have hrefusal : refusal? (table.bindEntry l id i index (Key.entry key row) row) =
              refusal? (table'.bindEntry l' id i index' (Key.entry key row) row) :=
            refusal_bindEntry_congr free (answers hindex) (answers' hindex') hspec key
          cases hhere : table.bindEntry l id i index (Key.entry key row) row with
          | error refusal =>
            rw [hhere] at hrefusal
            cases hthere : table'.bindEntry l' id i index' (Key.entry key row) row with
            | error refusal' => rw [hthere] at hrefusal; exact hrefusal
            | ok done' => rw [hthere] at hrefusal; cases hrefusal
          | ok done =>
            rw [hhere] at hrefusal
            cases hthere : table'.bindEntry l' id i index' (Key.entry key row) row with
            | error refusal' => rw [hthere] at hrefusal; cases hrefusal
            | ok done' => rfl

end Verdicts

end Table
end SnapshotStore
