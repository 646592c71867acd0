import Mathlib
import SnapshotStore.Proofs.Store.Move

/-!
# What a cursor may rely on

A cursor remembers nodes of a trie. No move takes a node or a link of a trie away, replaces an index or
changes what it is an index of, so a cursor that stood somewhere still stands there, however many
moves were made in between (`Move.extends`). Nor does a row come that has an old number, so a scan in
handle order has all rows ahead of it that come later.
-/

namespace SnapshotStore

/-- The table has all indexes that it had, their tries and its own have all links, and its new rows
have new numbers. -/
structure Table.Extends (a b : Table) : Prop where
  primary : a.primary.Extends b.primary
  indexes : ∀ {i : Nat} {index : Index}, a.indexes[i]? = some index →
    ∃ index', b.indexes[i]? = some index' ∧ index'.spec = index.spec ∧
      index.trie.Extends index'.trie
  limit : b.maxKeyLength = a.maxKeyLength
  nextHandle : a.nextHandle ≤ b.nextHandle
  born : ∀ {row : RowHandle}, b.chainOf row ≠ [] → a.chainOf row ≠ [] ∨ a.nextHandle ≤ row.val

namespace Table.Extends

variable {a b c : Table}

theorem refl (table : Table) : table.Extends table :=
  ⟨.refl _, fun h => ⟨_, h, rfl, .refl _⟩, rfl, Nat.le_refl _, Or.inl⟩

theorem trans (hab : a.Extends b) (hbc : b.Extends c) : a.Extends c := by
  refine ⟨hab.primary.trans hbc.primary, fun h => ?_, hbc.limit.trans hab.limit,
    hab.nextHandle.trans hbc.nextHandle, fun h => ?_⟩
  · obtain ⟨middle, hmiddle, hspec, hlinks⟩ := hab.indexes h
    obtain ⟨last, hlast, hspec', hlinks'⟩ := hbc.indexes hmiddle
    exact ⟨last, hlast, hspec'.trans hspec, hlinks.trans hlinks'⟩
  · rcases hbc.born h with h | h
    · exact hab.born h
    · exact Or.inr (hab.nextHandle.trans h)

theorem of_unchanged (h : a.Unchanged b) : a.Extends b := by
  refine ⟨h.primaryLinks, fun hi => ?_, h.maxKeyLength, h.nextHandle, fun hrow => ?_⟩
  · obtain ⟨index', hindex', hsame⟩ := h.indexes hi
    exact ⟨index', hindex', hsame.spec, hsame.links⟩
  · rw [h.chainOf] at hrow
    exact Or.inl hrow

theorem of_wrote {l : Ledger} {txn : Transaction} {row : RowHandle} {record : Record}
    {old? : Option Record} {writes : List Write} (h : Table.Wrote l txn a row record old? b writes) :
    a.Extends b := by
  refine ⟨h.primaryLinks, fun hi => ?_, h.maxKeyLength, ?_, fun {other} hrow => ?_⟩
  · obtain ⟨key, trie, hafter, _, hbinds, _⟩ := h.indexes hi
    exact ⟨_, hafter, rfl, hbinds.links⟩
  · rw [h.nextHandle]
    split <;> omega
  · rw [h.chainOf] at hrow
    split at hrow
    · rename_i heq
      rw [heq]
      by_cases hnew : a.chainOf row = []
      · exact Or.inr (Nat.le_of_eq (h.handle hnew).symm)
      · exact Or.inl hnew
    · exact Or.inl hrow

theorem remove_extends (trie : Trie) (key : Bytes) (row : RowHandle) :
    trie.Extends (trie.remove key row).1 :=
  ⟨fun h => by rw [Trie.child_remove]; exact h⟩

theorem of_undo (table : Table) (id : Int) (write : Write) :
    table.Extends (table.undo id write) := by
  refine ⟨?_, fun {i index} hi => ?_, (undo_rest table id write).2.2.2.2,
    Nat.le_of_eq (undo_rest table id write).1.symm, fun {row} hrow => Or.inl fun hnil => hrow ?_⟩
  · rw [primary_undo]
    split
    · exact remove_extends _ _ _
    · exact .refl _
  · rw [indexes_undo]
    split
    · split
      · rw [hi]
        exact ⟨_, rfl, rfl, remove_extends _ _ _⟩
      · exact ⟨index, hi, rfl, .refl _⟩
    · exact ⟨index, hi, rfl, .refl _⟩
  · rw [chainOf_undo, hnil]
    split
    · exact Chain.undo_nil id write
    · rfl

theorem of_undoLog (tid : TableId) (id : Int) (log : List LogEntry) (table : Table) :
    table.Extends (table.undoLog tid id log) := by
  induction log generalizing table with
  | nil => exact .refl table
  | cons entry log ih =>
    have hstep : table.Extends (if entry.table = tid then table.undo id entry.write else table) := by
      split
      · exact of_undo _ _ _
      · exact .refl _
    exact hstep.trans (ih _)

theorem of_publishLog (tid : TableId) (sequence : Int) (log : List LogEntry) (table : Table) :
    table.Extends (table.publishLog tid sequence log) := by
  obtain ⟨_, _, htable, _⟩ := publishLog_spec tid sequence log table
  rw [htable]
  exact ⟨.refl _, fun h => ⟨_, h, rfl, .refl _⟩, rfl, Nat.le_refl _, Or.inl⟩

theorem of_built {spec : KeySpec} {filling : Filling} (h : Built a spec b filling) :
    a.Extends b := by
  obtain ⟨rfl, _⟩ := h
  refine ⟨.refl _, fun {i index} hi => ⟨index, ?_, rfl, .refl _⟩, rfl, Nat.le_refl _, Or.inl⟩
  show (a.indexes ++ [filling.index])[i]? = some index
  rw [List.getElem?_append_left (List.getElem?_eq_some_iff.mp hi).1]
  exact hi

theorem of_reclaimed {l : Ledger} (h : Reclaimed l a b) : a.Extends b := by
  refine ⟨h.primaryLinks, fun hi => ?_, h.rest.maxKeyLength, Nat.le_of_eq h.rest.nextHandle.symm,
    fun {row} hrow => Or.inl fun hnil => hrow ?_⟩
  · obtain ⟨index', hindex', htrimmed⟩ := h.trimmed.indexes hi
    exact ⟨index', hindex', htrimmed.spec, htrimmed.links⟩
  · rw [h.chainOf, hnil]
    split
    · rfl
    · exact truncated_nil _ _ _

end Table.Extends

namespace Store

/-- Every table is there still, and extends what it was. -/
structure Extends (store store' : Store) : Prop where
  keeps : ∀ {tid : TableId} {table : Table}, store.tables[tid]? = some table →
    ∃ table', store'.tables[tid]? = some table' ∧ table.Extends table'

/-- A store whose tables stay. -/
theorem Extends.of_tables {store store' : Store} (h : store'.tables = store.tables) :
    store.Extends store' :=
  ⟨fun {tid table} here => ⟨table, by rw [h]; exact here, .refl table⟩⟩

theorem Extends.trans {a b c : Store} (hab : a.Extends b) (hbc : b.Extends c) : a.Extends c := by
  refine ⟨fun h => ?_⟩
  obtain ⟨middle, hmiddle, hfirst⟩ := hab.keeps h
  obtain ⟨last, hlast, hsecond⟩ := hbc.keeps hmiddle
  exact ⟨last, hlast, hfirst.trans hsecond⟩

theorem extends_setTable {store : Store} {tid : TableId} {table after : Table}
    (here : store.tables[tid]? = some table) (h : table.Extends after) :
    store.Extends (store.setTable tid after) := by
  refine ⟨fun {other t} ht => ?_⟩
  rw [tables_setTable]
  split
  · rename_i heq
    rw [heq, here] at ht
    cases ht
    exact ⟨after, rfl, h⟩
  · exact ⟨t, ht, .refl t⟩

variable {store store' : Store} {work work' : Work} {event : Event}

/-- Moves take nothing away that a cursor may rest on. -/
theorem Move.extends (move : Move store work event store' work') (ok : store.Ok work) :
    store.Extends store' := by
  cases move with
  | began => exact .of_tables rfl
  | statement => exact .of_tables rfl
  | refreshed => exact .of_tables rfl
  | doomed => exact .of_tables rfl
  | refused here unchanged => exact extends_setTable here (.of_unchanged unchanged)
  | wrote _ _ here wrote _ => exact extends_setTable here (.of_wrote wrote)
  | marked _ _ here hchain _ =>
    refine extends_setTable here ⟨.refl _, fun h => ⟨_, h, rfl, .refl _⟩, rfl, Nat.le_refl _,
      fun {other} hrow => Or.inl ?_⟩
    rw [Table.chainOf_withChain] at hrow
    split at hrow
    · rename_i heq
      rw [heq, hchain]
      exact List.cons_ne_nil _ _
    · exact hrow
  | @committed id txn running sound =>
    refine ⟨fun {tid table} h => ⟨_, ?_, .of_publishLog tid (store.ledger.sequence + 1)
      txn.log table⟩⟩
    have htables := ((store.withLedger (store.ledger.commit id).1).publish_spec
      (store.ledger.sequence + 1) txn.log).2.2 tid
    rw [htables]
    exact congrArg _ h
  | @undone id txn running whole =>
    refine ⟨fun {tid table} h => ⟨_, ?_, .of_undoLog tid id (txn.undoing whole) table⟩⟩
    rw [(store.undo_spec id (txn.undoing whole)).2.2 tid, h]
    rfl
  | aborted => exact .of_tables rfl
  | built here built => exact extends_setTable here (.of_built built)
  | @reclaimed tid table here =>
    obtain ⟨hreclaimed, _⟩ := (ok.tables here).reclaim ok.ledger ok.runs
    have hledger : store.Extends (store.withLedger store.ledger.prune.1) := .of_tables rfl
    have htable : (store.withLedger store.ledger.prune.1).tables[tid]? = some table := here
    exact hledger.trans (extends_setTable htable (.of_reclaimed hreclaimed))
  | admitted => exact .of_tables rfl
  | added name schema config =>
    refine ⟨fun {tid table} h => ⟨table, ?_, .refl table⟩⟩
    have hlt := (ok.numbered tid).mp (by rw [h]; rfl)
    refine (Maps.get_insert _ _ _ _).trans ?_
    rw [if_neg (Nat.ne_of_lt hlt)]
    exact h

end Store
end SnapshotStore
