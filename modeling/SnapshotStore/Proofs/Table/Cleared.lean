import Mathlib
import SnapshotStore.Proofs.Table.Reclaim

/-!
# What reclamation takes out

`Proofs/Table/Reclaim` says what reclamation must leave alone. This is the other half: which entries are
certain to be gone afterwards (`Ok.reclaim_clears`). A row that was purged has lost the entry of every
version that was still linked, and an entry that was noted as outdated at or below the horizon is gone
unless a version in reach carries its key.

Nothing else is taken out. What no linked version carries and no note names stays in the index for good,
so whoever makes an entry out of date has to see to it that one of the two is the case.
-/

namespace SnapshotStore

namespace Table

open Chain

variable {l : Ledger} {work : Work} {tid : TableId} {table a b : Table} {row : RowHandle}
  {chain : Chain}

/-! ## 1. Purging -/

/-- No index has an entry of the row that one of the versions carries. -/
structure Cleared (row : RowHandle) (chain : Chain) (table : Table) : Prop where
  gone : ∀ {i : Nat} {index : Index} {v : Version} {key : Bytes}, table.indexes[i]? = some index →
    v ∈ chain → index.spec.Keyed table.maxKeyLength v.record key →
      index.trie.get? (Key.entry key row) ≠ some row

theorem cleared_nil (row : RowHandle) (table : Table) : table.Cleared row [] where
  gone _ hv := by cases hv

/-- What has been taken out stays out. -/
theorem Cleared.trimmed {gone : Nat → Bytes → RowHandle → Prop} (h : a.Cleared row chain)
    (trimmed : a.Trimmed gone b) (hlimit : b.maxKeyLength = a.maxKeyLength) : b.Cleared row chain := by
  refine ⟨fun hindex' hv hkey hbound => ?_⟩
  obtain ⟨index, hindex, htrimmed⟩ := trimmed.index_back hindex'
  rw [hlimit, htrimmed.spec] at hkey
  exact h.gone hindex hv hkey (htrimmed.of_get hbound)

theorem unbindVersion_clears (trees : Trees table) (row : RowHandle) (v : Version) :
    (unbindVersion row table v).Cleared row [v] := by
  refine ⟨fun {i index' w key} hindex' hw hkey => ?_⟩
  cases List.mem_singleton.mp hw
  change (table.indexes.map _)[i]? = some index' at hindex'
  rw [List.getElem?_map] at hindex'
  obtain ⟨index, hindex, rfl⟩ := Option.map_eq_some_iff.mp hindex'
  have hspec : index.spec.Keyed table.maxKeyLength v.record key := by
    split at hkey <;> exact hkey
  rw [hspec.entry_eq]
  exact Trie.get?_remove_ne (trees.indexes hindex) _ _

theorem unbindVersions_clears (trees : Trees table) (row : RowHandle) (chain : Chain) :
    (List.foldl (unbindVersion row) table chain).Cleared row chain := by
  induction chain generalizing table with
  | nil => exact cleared_nil row table
  | cons v older ih =>
    obtain ⟨hfirst, _⟩ := unbindVersion_spec trees row v
    have htrees : Trees (unbindVersion row table v) := by
      refine ⟨trees.primary, fun hindex => ?_⟩
      obtain ⟨_, _, htrimmed⟩ := hfirst.index_back hindex
      exact htrimmed.tree
    obtain ⟨hrest, indexes, hindexes⟩ := unbindVersions_spec htrees row older
    have hlimit : (List.foldl (unbindVersion row) (unbindVersion row table v) older).maxKeyLength =
        (unbindVersion row table v).maxKeyLength := by
      rw [hindexes]
      rfl
    have hnewest := (unbindVersion_clears trees row v).trimmed hrest hlimit
    refine ⟨fun hindex hw hkey => ?_⟩
    rcases List.mem_cons.mp hw with rfl | hw
    · exact hnewest.gone hindex (List.mem_singleton_self _) hkey
    · exact (ih htrees).gone hindex hw hkey

/-- A row that is purged loses the entry of every version. -/
theorem Ok.purgeRow_clears (ok : Ok l work tid [] table) (row : RowHandle) :
    (table.purgeRow row).1.Cleared row (table.chainOf row) := by
  cases hrow : table.rows[row]? with
  | none =>
    rw [chainOf_of_absent hrow]
    exact cleared_nil row _
  | some chain =>
    have hpurge : (table.purgeRow row).1 =
        (List.foldl (unbindVersion row) table chain).forgetRow row := by
      rw [purgeRow, hrow]
    have hcleared := unbindVersions_clears ok.trees row chain
    rw [hpurge, chainOf_eq hrow]
    exact ⟨hcleared.gone⟩

theorem Ok.purgeRows_clears {rows : List RowHandle} (ok : Ok l work tid [] table)
    (hfree : ∀ row ∈ rows, ∀ id, rowLog tid row (work.log id) = []) (hrow : row ∈ rows) :
    (table.purgeRows rows).1.Cleared row (table.chainOf row) := by
  induction rows generalizing table with
  | nil => cases hrow
  | cons first rows ih =>
    have hrows : (table.purgeRows (first :: rows)).1 = ((table.purgeRow first).1.purgeRows rows).1 :=
      rfl
    obtain ⟨hpurged, _⟩ := ok.purgeRow_spec first
    have hok := ok.purged hpurged (hfree first List.mem_cons_self)
    have hlater : ∀ row ∈ rows, ∀ id, rowLog tid row (work.log id) = [] :=
      fun row hin => hfree row (List.mem_cons_of_mem _ hin)
    rw [hrows]
    by_cases heq : row = first
    · obtain ⟨hrest, _⟩ := hok.purgeRows_spec hlater
      rw [heq]
      exact (ok.purgeRow_clears first).trimmed hrest.trimmed hrest.rest.maxKeyLength
    · have hcleared := ih hok hlater ((List.mem_cons.mp hrow).resolve_left heq)
      rw [hpurged.chainOf, if_neg heq] at hcleared
      exact hcleared

/-! ## 2. Outdated entries -/

/-- The entry of a note is gone, or a version in reach carries its key. -/
structure Dropped (l : Ledger) (note : OutdatedEntry) (table : Table) : Prop where
  carried : ∀ {index : Index}, table.indexes[note.index]? = some index →
    index.trie.get? note.entry = some note.row →
      ∃ v ∈ reach l l.horizon (table.chainOf note.row),
        index.spec.carries v.record note.entry = .ok true

theorem Dropped.unbound {note : OutdatedEntry} (h : a.Dropped l note) (hunbound : Unbound l a b) :
    b.Dropped l note := by
  refine ⟨fun hindex' hbound => ?_⟩
  obtain ⟨index, hindex, htrimmed⟩ := hunbound.trimmed.index_back hindex'
  rw [hunbound.chainOf, htrimmed.spec]
  exact h.carried hindex (htrimmed.of_get hbound)

theorem dropOutdated_drops (trees : Trees table) (note : OutdatedEntry) :
    (table.dropOutdated l l.horizon note).1.Dropped l note := by
  rw [dropOutdated]
  cases hindex : table.indexes[note.index]? with
  | none =>
    refine ⟨fun hindex' _ => ?_⟩
    rw [hindex] at hindex'
    cases hindex'
  | some index =>
    dsimp only
    by_cases hkeep : table.mustKeep l l.horizon index note = true
    · rw [if_pos hkeep]
      rw [mustKeep] at hkeep
      refine ⟨fun hindex' _ => ?_⟩
      rw [hindex] at hindex'
      cases hindex'
      split at hkeep
      · cases hkeep
      · rename_i chain hrow
        rw [chainOf_eq hrow]
        exact mayCarry_iff.mp hkeep
    · rw [if_neg hkeep]
      refine ⟨fun hindex' hbound => ?_⟩
      rw [indexes_modifyIndex, if_pos rfl, hindex] at hindex'
      cases hindex'
      exact absurd hbound (Trie.get?_remove_ne (trees.indexes hindex) _ _)

theorem dropAllOutdated_drops (trees : Trees table) {outdated : List OutdatedEntry}
    {note : OutdatedEntry} (hnote : note ∈ outdated) :
    (dropAllOutdated l l.horizon table outdated).1.Dropped l note := by
  induction outdated generalizing table with
  | nil => cases hnote
  | cons first rest ih =>
    have hfirst := dropOutdated_spec (l := l) trees first
    have htrees := hfirst.trees trees
    show ((dropAllOutdated l l.horizon (table.dropOutdated l l.horizon first).1 rest).1).Dropped l note
    rcases List.mem_cons.mp hnote with rfl | hnote
    · exact (dropOutdated_drops trees note).unbound (dropAllOutdated_spec htrees rest)
    · exact ih htrees hnote

theorem unbindOutdated_drops (trees : Trees table) {note : OutdatedEntry}
    (hnote : note ∈ table.outdated) (hle : note.sequence ≤ l.horizon) :
    (table.unbindOutdated l l.horizon).1.Dropped l note := by
  have hwaiting : Trees { table with outdated := table.waitingEntries l.horizon } :=
    ⟨trees.primary, trees.indexes⟩
  rw [unbindOutdated_eq]
  exact dropAllOutdated_drops hwaiting (List.mem_filter.mpr ⟨hnote, decide_eq_true hle⟩)

/-! ## 3. All together -/

/-- What is gone when a table has been reclaimed: the entries that the versions of the purged rows
carried, and the outdated entries that nothing in reach carries. -/
theorem Ok.reclaim_clears (ok : Ok l work tid [] table) (lok : l.Ok) (wok : Work.Ok l work) :
    (∀ row ∈ table.purging l.horizon,
        (table.reclaim l).1.Cleared row (table.chainOf row)) ∧
      ∀ note ∈ table.outdated, note.sequence ≤ l.horizon → (table.reclaim l).1.Dropped l note := by
  obtain ⟨hpurged, hfirst⟩ := ok.purgeDeleted_spec
  have htruncated := truncateChains_spec (table.purgeDeleted l.horizon).1 l
  have hmiddle := hfirst.truncated lok wok htruncated
  obtain ⟨hunbound, _⟩ := hmiddle.unbindOutdated_spec
  refine ⟨fun row hrow => ?_, fun note hnote hle => ?_⟩
  · have hcleared : (table.purgeDeleted l.horizon).1.Cleared row (table.chainOf row) := by
      rw [purgeDeleted_eq]
      exact (ok.waiting l.horizon).purgeRows_clears ok.purging_free hrow
    -- Truncation leaves the indexes as they are.
    have hwaiting : Cleared row (table.chainOf row)
        { ((table.purgeDeleted l.horizon).1.truncateChains l l.horizon).1 with
          outdated := ((table.purgeDeleted l.horizon).1.truncateChains l l.horizon).1.waitingEntries
            l.horizon } := by
      refine ⟨fun hindex hv hkey => ?_⟩
      change ((table.purgeDeleted l.horizon).1.truncateChains l l.horizon).1.indexes[_]? = _ at hindex
      rw [htruncated.indexes] at hindex
      exact hcleared.gone hindex hv hkey
    exact hwaiting.trimmed hunbound.trimmed hunbound.rest.maxKeyLength
  · rw [← hpurged.outdated, ← htruncated.outdated] at hnote
    exact ⟨(unbindOutdated_drops hmiddle.trees hnote hle).carried⟩

end Table
end SnapshotStore
