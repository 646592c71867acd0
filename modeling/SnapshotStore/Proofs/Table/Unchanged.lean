import Mathlib
import SnapshotStore.Table.Write
import SnapshotStore.Proofs.Table.Undo

/-!
# Writes that are refused leave nothing behind

A write is tried step by step, and when an index refuses, the steps are taken back. Afterwards the
table is what it was but for numbers that have been used up and nodes that hold nothing (`Unchanged`).
The relation is kept by undoing a write on both sides, so that steps can be taken back one by one, and
`Ok` does not tell the two tables apart.
-/

namespace SnapshotStore

/-- The index finds the same rows under as many keys, and no link of its trie was lost. -/
structure Index.Same (index index' : Index) : Prop where
  spec : index'.spec = index.spec
  tree : index.trie.pool.IsTree → index'.trie.pool.IsTree
  links : index.trie.Extends index'.trie
  get : ∀ key, index'.trie.get? key = index.trie.get? key
  size : index'.trie.size = index.trie.size

namespace Index.Same

theorem refl (index : Index) : index.Same index := ⟨rfl, fun h => h, .refl _, fun _ => rfl, rfl⟩

theorem trans {a b c : Index} (hab : a.Same b) (hbc : b.Same c) : a.Same c where
  spec := hbc.spec.trans hab.spec
  tree h := hbc.tree (hab.tree h)
  links := hab.links.trans hbc.links
  get key := (hbc.get key).trans (hab.get key)
  size := hbc.size.trans hab.size

end Index.Same

namespace Table

/-- The tables differ in nothing but used-up numbers and blank nodes. -/
structure Unchanged (a b : Table) : Prop where
  rows : ∀ row : RowHandle, b.rows[row]? = a.rows[row]?
  primaryTree : a.primary.pool.IsTree → b.primary.pool.IsTree
  primaryLinks : a.primary.Extends b.primary
  primary : ∀ key, b.primary.get? key = a.primary.get? key
  primarySize : b.primary.size = a.primary.size
  indexCount : b.indexes.length = a.indexes.length
  indexes : ∀ {i : Nat} {index : Index}, a.indexes[i]? = some index →
    ∃ index', b.indexes[i]? = some index' ∧ index.Same index'
  pendingDeletes : b.pendingDeletes = a.pendingDeletes
  outdated : b.outdated = a.outdated
  nextHandle : a.nextHandle ≤ b.nextHandle
  nextSerial : a.nextSerial ≤ b.nextSerial
  maxKeyLength : b.maxKeyLength = a.maxKeyLength
  maxVersionHistory : b.maxVersionHistory = a.maxVersionHistory
  schema : b.schema = a.schema
  name : b.name = a.name

namespace Unchanged

theorem refl (table : Table) : table.Unchanged table where
  rows _ := rfl
  primaryTree h := h
  primaryLinks := .refl _
  primary _ := rfl
  primarySize := rfl
  indexCount := rfl
  indexes h := ⟨_, h, .refl _⟩
  pendingDeletes := rfl
  outdated := rfl
  nextHandle := Nat.le_refl _
  nextSerial := Nat.le_refl _
  maxKeyLength := rfl
  maxVersionHistory := rfl
  schema := rfl
  name := rfl

theorem trans {a b c : Table} (hab : a.Unchanged b) (hbc : b.Unchanged c) : a.Unchanged c where
  rows row := (hbc.rows row).trans (hab.rows row)
  primaryTree h := hbc.primaryTree (hab.primaryTree h)
  primaryLinks := hab.primaryLinks.trans hbc.primaryLinks
  primary key := (hbc.primary key).trans (hab.primary key)
  primarySize := hbc.primarySize.trans hab.primarySize
  indexCount := hbc.indexCount.trans hab.indexCount
  indexes h := by
    obtain ⟨middle, hmiddle, hab'⟩ := hab.indexes h
    obtain ⟨last, hlast, hbc'⟩ := hbc.indexes hmiddle
    exact ⟨last, hlast, hab'.trans hbc'⟩
  pendingDeletes := hbc.pendingDeletes.trans hab.pendingDeletes
  outdated := hbc.outdated.trans hab.outdated
  nextHandle := Nat.le_trans hab.nextHandle hbc.nextHandle
  nextSerial := Nat.le_trans hab.nextSerial hbc.nextSerial
  maxKeyLength := hbc.maxKeyLength.trans hab.maxKeyLength
  maxVersionHistory := hbc.maxVersionHistory.trans hab.maxVersionHistory
  schema := hbc.schema.trans hab.schema
  name := hbc.name.trans hab.name

variable {a b : Table}

theorem chainOf (h : a.Unchanged b) (row : RowHandle) : b.chainOf row = a.chainOf row := by
  rw [Table.chainOf, Table.chainOf, h.rows]

/-- An index of the second table is one of the first. -/
theorem index_back (h : a.Unchanged b) {i : Nat} {index' : Index}
    (hi : b.indexes[i]? = some index') :
    ∃ index, a.indexes[i]? = some index ∧ index.Same index' := by
  have hlt := (List.getElem?_eq_some_iff.mp hi).1
  rw [h.indexCount] at hlt
  have hold : a.indexes[i]? = some a.indexes[i] := List.getElem?_eq_getElem hlt
  obtain ⟨found, hfound, hsame⟩ := h.indexes hold
  rw [hi] at hfound
  cases hfound
  exact ⟨_, hold, hsame⟩

end Unchanged

/-- All tries of the table are trees. -/
structure Trees (table : Table) : Prop where
  primary : table.primary.pool.IsTree
  indexes : ∀ {i : Nat} {index : Index}, table.indexes[i]? = some index → index.trie.pool.IsTree

theorem Ok.trees {l : Ledger} {work : Work} {tid : TableId} {undoing : List LogEntry}
    {table : Table} (ok : Ok l work tid undoing table) : Trees table :=
  ⟨ok.primaryTree, fun h => (ok.indexes h).tree⟩

theorem Unchanged.trees {a b : Table} (h : a.Unchanged b) (trees : Trees a) : Trees b where
  primary := h.primaryTree trees.primary
  indexes hi := by
    obtain ⟨index, hindex, hsame⟩ := h.index_back hi
    exact hsame.tree (trees.indexes hindex)

/-- Taking a key out of both of two tries that find the same leaves them so. -/
theorem same_remove {a b : Trie} (ta : a.pool.IsTree) (tb : b.pool.IsTree) (links : a.Extends b)
    (get : ∀ key, b.get? key = a.get? key) (size : b.size = a.size) (key : Bytes) (row : RowHandle) :
    (a.remove key row).1.Extends (b.remove key row).1 ∧
      (∀ other, (b.remove key row).1.get? other = (a.remove key row).1.get? other) ∧
      (b.remove key row).1.size = (a.remove key row).1.size := by
  obtain ⟨_, _, _, hga⟩ := Trie.remove_spec ta key row
  obtain ⟨_, _, _, hgb⟩ := Trie.remove_spec tb key row
  refine ⟨⟨fun h => ?_⟩, fun other => by rw [hga, hgb, get, get],
    by rw [Trie.size_remove, Trie.size_remove, get, size]⟩
  rw [Trie.child_remove] at h ⊢
  exact links.keeps h

theorem Trees.undo {table : Table} (trees : Trees table) (id : Int) (write : Write) :
    Trees (table.undo id write) where
  primary := by
    rw [primary_undo]
    split
    · exact (Trie.remove_spec trees.primary _ _).1
    · exact trees.primary
  indexes {i index} hi := by
    rw [indexes_undo] at hi
    split at hi
    · split at hi
      · obtain ⟨old, hold, rfl⟩ := Option.map_eq_some_iff.mp hi
        exact (Trie.remove_spec (trees.indexes hold) _ _).1
      · exact trees.indexes hi
    · exact trees.indexes hi

/-- Undoing the same write in both tables leaves them alike. -/
theorem Unchanged.undo {a b : Table} (h : a.Unchanged b) (trees : Trees a) (id : Int)
    (write : Write) : (a.undo id write).Unchanged (b.undo id write) := by
  have trees' := h.trees trees
  obtain ⟨hna, hsa, hpa, hoa, hka⟩ := undo_rest a id write
  obtain ⟨hnb, hsb, hpb, hob, hkb⟩ := undo_rest b id write
  have hprimary : (a.undo id write).primary.Extends (b.undo id write).primary ∧
      (∀ key, (b.undo id write).primary.get? key = (a.undo id write).primary.get? key) ∧
      (b.undo id write).primary.size = (a.undo id write).primary.size := by
    rw [primary_undo, primary_undo]
    split
    · exact same_remove trees.primary trees'.primary h.primaryLinks h.primary h.primarySize _ _
    · exact ⟨h.primaryLinks, h.primary, h.primarySize⟩
  obtain ⟨hha, hca, hta⟩ := undo_constants a id write
  obtain ⟨hhb, hcb, htb⟩ := undo_constants b id write
  refine ⟨?_, fun _ => (trees'.undo id write).primary, hprimary.1, hprimary.2.1, hprimary.2.2, ?_, ?_,
    ?_, ?_, ?_, ?_, ?_, ?_, ?_, ?_⟩
  · intro row
    rw [rows_undo, rows_undo, h.rows]
  · rw [length_indexes_undo, length_indexes_undo, h.indexCount]
  · intro i index hi
    rw [indexes_undo] at hi ⊢
    split at hi
    · rename_i touched entry row
      split at hi
      · rename_i heq
        obtain ⟨old, hold, rfl⟩ := Option.map_eq_some_iff.mp hi
        obtain ⟨new, hnew, hsame⟩ := h.indexes hold
        have hremove := same_remove (trees.indexes hold) (trees'.indexes hnew) hsame.links hsame.get
          hsame.size entry row
        refine ⟨{ new with trie := (new.trie.remove entry row).1 }, ?_, hsame.spec,
          fun _ => (Trie.remove_spec (trees'.indexes hnew) entry row).1, hremove.1, hremove.2.1, hremove.2.2⟩
        rw [if_pos heq, hnew]
        rfl
      · rename_i hne
        rw [if_neg hne]
        exact h.indexes hi
    · exact h.indexes hi
  · rw [hpa, hpb, h.pendingDeletes]
  · rw [hoa, hob, h.outdated]
  · rw [hna, hnb]
    exact h.nextHandle
  · rw [hsa, hsb]
    exact h.nextSerial
  · rw [hka, hkb, h.maxKeyLength]
  · rw [hha, hhb, h.maxVersionHistory]
  · rw [hca, hcb, h.schema]
  · rw [hta, htb, h.name]

theorem Unchanged.undoAll {a b : Table} (h : a.Unchanged b) (trees : Trees a) (id : Int)
    (writes : List Write) : (a.undoAll id writes).Unchanged (b.undoAll id writes) ∧
      Trees (a.undoAll id writes) := by
  induction writes with
  | nil => exact ⟨h, trees⟩
  | cons write writes ih => exact ⟨ih.1.undo ih.2 id write, ih.2.undo id write⟩

/-- The invariant does not tell the tables apart. -/
theorem Ok.of_unchanged {l : Ledger} {work : Work} {tid : TableId} {undoing : List LogEntry}
    {a b : Table} (ok : Ok l work tid undoing a) (h : a.Unchanged b) :
    Ok l work tid undoing b := by
  have hchain := h.chainOf
  refine ⟨?_, ?_, ?_, ?_, ?_, h.primaryTree ok.primaryTree, ?_, ?_, ?_, ?_⟩
  · intro row chain hrow
    rw [h.rows] at hrow
    exact ok.occupied hrow
  · intro row
    rw [hchain]
    exact ok.tidy row
  · intro row v hv
    rw [hchain] at hv
    exact Nat.lt_of_lt_of_le (ok.serials hv) h.nextSerial
  · intro row chain hrow
    rw [h.rows] at hrow
    exact Nat.lt_of_lt_of_le (ok.handles hrow) h.nextHandle
  · intro row
    rw [hchain]
    exact ok.held row
  · intro key row
    rw [h.primary, h.rows]
    exact ok.primary
  · intro i index' hi
    obtain ⟨index, hindex, hsame⟩ := h.index_back hi
    have hok := ok.indexes hindex
    refine ⟨hsame.tree hok.tree, ?_, ?_, ?_⟩
    · intro entry row hget
      rw [hsame.get] at hget
      exact hok.sound hget
    · intro row v hv
      rw [hchain] at hv
      rw [hsame.spec, h.maxKeyLength]
      exact hok.keyed hv
    · intro row v key hv hkey
      rw [hchain] at hv
      rw [hsame.spec, h.maxKeyLength] at hkey
      rw [hsame.get]
      exact hok.complete hv hkey
  · intro id s i entry row hmem
    obtain ⟨index, hindex, hcarriers⟩ := ok.bound hmem
    obtain ⟨index', hindex', hsame⟩ := h.indexes hindex
    refine ⟨index', hindex', fun v hv key hkey hentry => ?_⟩
    rw [hchain] at hv
    rw [hsame.spec, h.maxKeyLength] at hkey
    exact hcarriers v hv key hkey hentry
  · intro row sequence hmem
    rw [h.pendingDeletes] at hmem
    obtain ⟨hlt, hmarked, hfree⟩ := ok.pending hmem
    refine ⟨Nat.lt_of_lt_of_le hlt h.nextHandle, ?_, hfree⟩
    rw [hchain]
    exact hmarked

end Table
end SnapshotStore
