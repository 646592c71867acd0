import Mathlib
import SnapshotStore.Table.Build
import SnapshotStore.Proofs.Table.Written

/-!
# A new index is complete

Filling an index goes through all rows and gives every version of each its entry, or fails. So an index
that was built has what `IndexOk` asks for (`fill_spec`), whenever it is built and whatever the rows
look like by then, and the table with it is in order (`Ok.built`). It has nothing else: each of its
entries is that of a version.
-/

namespace SnapshotStore
namespace Table

open Fallible Chain

variable {l : Ledger} {work : Work} {tid : TableId} {table : Table}

/-- Every entry leads to the row that it names. -/
def Leads (index : Index) : Prop :=
  ∀ {entry : Bytes} {row : RowHandle}, index.trie.get? entry = some row →
    ∃ key, entry = Key.entry key row

/-- An index on the way to being filled, from what it was before. -/
structure Filling.Step (index index' : Index) : Prop where
  spec : index'.spec = index.spec
  tree : index'.trie.pool.IsTree
  leads : Leads index'
  keeps : ∀ {entry : Bytes} {row : RowHandle}, index.trie.get? entry = some row →
    index'.trie.get? entry = some row

namespace Filling.Step

theorem refl {index : Index} (tree : index.trie.pool.IsTree) (leads : Leads index) :
    Step index index :=
  ⟨rfl, tree, leads, id⟩

theorem trans {a b c : Index} (hab : Step a b) (hbc : Step b c) : Step a c :=
  ⟨hbc.spec.trans hab.spec, hbc.tree, hbc.leads, fun h => hbc.keeps (hab.keeps h)⟩

end Filling.Step

/-- The version has its entry. -/
def Entered (table : Table) (index : Index) (row : RowHandle) (v : Version) : Prop :=
  ∃ key, index.spec.Keyed table.maxKeyLength v.record key ∧
    index.trie.get? (Key.entry key row) = some row

theorem Entered.step {index index' : Index} {row : RowHandle} {v : Version}
    (h : table.Entered index row v) (step : Filling.Step index index') :
    table.Entered index' row v := by
  obtain ⟨key, hkeyed, hget⟩ := h
  exact ⟨key, by rw [step.spec]; exact hkeyed, step.keeps hget⟩

theorem fillVersion_spec {row : RowHandle} {index index' : Index} {v : Version}
    (tree : index.trie.pool.IsTree) (leads : Leads index)
    (h : table.fillVersion row index v = .ok index') :
    Filling.Step index index' ∧ table.Entered index' row v := by
  rw [fillVersion, bind_eq_ok] at h
  obtain ⟨entry, hentry, h⟩ := h
  obtain ⟨key, hkeyed, rfl⟩ := KeySpec.entry_eq_ok.mp hentry
  cases h
  obtain ⟨htree, _, _, hget⟩ := Trie.put_spec tree (Key.entry key row) row
  refine ⟨⟨rfl, htree, fun {entry r} hbound => ?_, fun {entry r} hbound => ?_⟩, key, hkeyed, ?_⟩
  · change (index.trie.put (Key.entry key row) row).1.get? entry = some r at hbound
    rw [hget] at hbound
    split at hbound
    · rename_i heq
      cases hbound
      exact ⟨key, heq⟩
    · exact leads hbound
  · show (index.trie.put (Key.entry key row) row).1.get? entry = some r
    rw [hget]
    split
    · rename_i heq
      obtain ⟨own, hown⟩ := leads hbound
      rw [heq] at hown
      rw [(Key.entry_injective hown).2]
    · exact hbound
  · show (index.trie.put (Key.entry key row) row).1.get? _ = _
    rw [hget, if_pos rfl]

theorem fillVersions_spec {row : RowHandle} {index index' : Index} {chain : Chain}
    (tree : index.trie.pool.IsTree) (leads : Leads index)
    (h : List.foldlM (table.fillVersion row) index chain = .ok index') :
    Filling.Step index index' ∧ ∀ v ∈ chain, table.Entered index' row v := by
  induction chain generalizing index with
  | nil =>
    cases h
    exact ⟨.refl tree leads, fun v hv => (by cases hv)⟩
  | cons v older ih =>
    rw [List.foldlM_cons, bind_eq_ok] at h
    obtain ⟨middle, hfirst, h⟩ := h
    obtain ⟨hstep, hentered⟩ := fillVersion_spec tree leads hfirst
    obtain ⟨hrest, hall⟩ := ih hstep.tree hstep.leads h
    refine ⟨hstep.trans hrest, fun w hw => ?_⟩
    rcases List.mem_cons.mp hw with rfl | hw
    · exact hentered.step hrest
    · exact hall w hw

/-- Nothing else is entered than the entries of the versions. -/
theorem fillVersions_only {row : RowHandle} {index index' : Index} {chain : Chain}
    (tree : index.trie.pool.IsTree) (leads : Leads index)
    (h : List.foldlM (table.fillVersion row) index chain = .ok index') {entry : Bytes}
    {other : RowHandle} (hbound : index'.trie.get? entry = some other) :
    index.trie.get? entry = some other ∨ other = row ∧ ∃ v ∈ chain, ∃ key,
      index.spec.Keyed table.maxKeyLength v.record key ∧ entry = Key.entry key row := by
  induction chain generalizing index with
  | nil =>
    cases h
    exact Or.inl hbound
  | cons v older ih =>
    rw [List.foldlM_cons, bind_eq_ok] at h
    obtain ⟨middle, hfirst, h⟩ := h
    obtain ⟨hstep, _⟩ := fillVersion_spec tree leads hfirst
    rcases ih hstep.tree hstep.leads h with hbefore | ⟨rfl, w, hw, key, hkey, hentry⟩
    · rw [fillVersion, bind_eq_ok] at hfirst
      obtain ⟨own, hown, hfirst⟩ := hfirst
      obtain ⟨key, hkey, rfl⟩ := KeySpec.entry_eq_ok.mp hown
      cases hfirst
      change (index.trie.put (Key.entry key row) row).1.get? entry = some other at hbefore
      rw [(Trie.put_spec tree (Key.entry key row) row).2.2.2] at hbefore
      split at hbefore
      · rename_i hentry
        cases hbefore
        exact Or.inr ⟨rfl, v, List.mem_cons_self, key, hkey, hentry⟩
      · exact Or.inl hbefore
    · rw [hstep.spec] at hkey
      exact Or.inr ⟨rfl, w, List.mem_cons_of_mem _ hw, key, hkey, hentry⟩

/-- Filling in a row is filling in its versions. -/
theorem index_of_fillRow {filling filling' : Filling} {row : RowHandle} {chain : Chain}
    (h : table.fillRow l filling row chain = .ok filling') :
    List.foldlM (table.fillVersion row) filling.index chain = .ok filling'.index := by
  have hrest : ∀ {clash : Bool}, (do
      let index ← List.foldlM (table.fillVersion row) filling.index chain
      return { index, violations := filling.violations + if clash then 1 else 0 } :
        Except Error Filling) = .ok filling' →
      List.foldlM (table.fillVersion row) filling.index chain = .ok filling'.index := by
    intro clash h
    rw [bind_eq_ok] at h
    obtain ⟨index, hfill, h⟩ := h
    cases h
    exact hfill
  rw [fillRow] at h
  split at h
  · obtain ⟨clash, _, h⟩ := bind_eq_ok.mp h
    exact hrest h
  · exact hrest h

/-- The entry is that of a version of these rows. -/
def EntryOf (table : Table) (spec : KeySpec) (rows : List (RowHandle × Chain)) (entry : Bytes)
    (row : RowHandle) : Prop :=
  ∃ chain, (row, chain) ∈ rows ∧ ∃ v ∈ chain, ∃ key,
    spec.Keyed table.maxKeyLength v.record key ∧ entry = Key.entry key row

/-- An index that was filled has the entry of every version, and no others than it had before. -/
theorem fill_spec {rows : List (RowHandle × Chain)} {filling filling' : Filling}
    (tree : filling.index.trie.pool.IsTree) (leads : Leads filling.index)
    (h : rows.foldlM (fun filling (row, chain) => table.fillRow l filling row chain) filling =
      .ok filling') :
    Filling.Step filling.index filling'.index ∧
      (∀ row chain, (row, chain) ∈ rows → ∀ v ∈ chain, table.Entered filling'.index row v) ∧
      ∀ entry row, filling'.index.trie.get? entry = some row →
        filling.index.trie.get? entry = some row ∨
          table.EntryOf filling.index.spec rows entry row := by
  -- What is entered for one row stays while the rest are filled, since entries are only added.
  induction rows generalizing filling with
  | nil =>
    cases h
    exact ⟨.refl tree leads, fun row chain hin => (by cases hin), fun _ _ h => Or.inl h⟩
  | cons first rows ih =>
    rw [List.foldlM_cons, bind_eq_ok] at h
    obtain ⟨middle, hfirst, h⟩ := h
    have hversions := index_of_fillRow hfirst
    obtain ⟨hstep, hentered⟩ := fillVersions_spec tree leads hversions
    obtain ⟨hrest, hall, honly⟩ := ih hstep.tree hstep.leads h
    refine ⟨hstep.trans hrest, fun row chain hin v hv => ?_, fun entry row hbound => ?_⟩
    · rcases List.mem_cons.mp hin with rfl | hin
      · exact (hentered v hv).step hrest
      · exact hall row chain hin v hv
    · rcases honly entry row hbound with hmiddle | ⟨chain, hin, hversion⟩
      · rcases fillVersions_only tree leads hversions hmiddle with hbefore | ⟨rfl, hversion⟩
        · exact Or.inl hbefore
        · exact Or.inr ⟨first.2, List.mem_cons_self, hversion⟩
      · rw [hstep.spec] at hversion
        exact Or.inr ⟨chain, List.mem_cons_of_mem _ hin, hversion⟩

/-- What building an index makes of a table. -/
structure Built (table : Table) (spec : KeySpec) (after : Table) (filling : Filling) : Prop where
  eq : after = { table with indexes := table.indexes ++ [filling.index] }
  spec : spec.bind table.schema = .ok filling.index.spec
  tree : filling.index.trie.pool.IsTree
  leads : Leads filling.index
  entered : ∀ {row : RowHandle} {v : Version}, v ∈ table.chainOf row →
    table.Entered filling.index row v
  only : ∀ {entry : Bytes} {row : RowHandle}, filling.index.trie.get? entry = some row →
    ∃ v ∈ table.chainOf row, ∃ key,
      filling.index.spec.Keyed table.maxKeyLength v.record key ∧ entry = Key.entry key row

theorem fill_of_buildIndex {spec : KeySpec} {visit : Visit} {after : Table} {id : Nat}
    {filling : Filling} (h : table.buildIndex l spec visit = .ok (after, id, filling)) :
    ∃ bound, spec.bind table.schema = .ok bound ∧
      table.fill l { spec := bound } (visit.rows table) = .ok filling ∧
      id = table.indexes.length ∧
      after = { table with indexes := table.indexes ++ [filling.index] } := by
  rw [buildIndex, bind_eq_ok] at h
  obtain ⟨bound, hbound, h⟩ := h
  rw [bind_eq_ok] at h
  obtain ⟨_, _, h⟩ := h
  split at h
  · cases h
  · simp only [pure_eq] at h
    rw [bind_eq_ok] at h
    obtain ⟨filled, hfill, h⟩ := h
    cases h
    exact ⟨bound, hbound, hfill, rfl, rfl⟩

theorem buildIndex_spec {spec : KeySpec} {visit : Visit} {after : Table} {id : Nat}
    {filling : Filling} (h : table.buildIndex l spec visit = .ok (after, id, filling)) :
    id = table.indexes.length ∧ Built table spec after filling := by
  obtain ⟨bound, hbound, hfill, hid, hafter⟩ := fill_of_buildIndex h
  have hempty : Leads { spec := bound } := by
    intro entry row hget
    rw [Trie.get?_empty] at hget
    cases hget
  obtain ⟨hstep, hall, honly⟩ := fill_spec NodePool.isTree_empty hempty hfill
  have hrows : ∀ row chain, (row, chain) ∈ visit.rows table ↔ table.rows[row]? = some chain := by
    intro row chain
    rw [(visit.perm table).mem_iff]
    exact Std.ExtTreeMap.mem_toList_iff_getElem?_eq_some
  refine ⟨hid, hafter, by rw [hstep.spec]; exact hbound, hstep.tree, hstep.leads, fun {row v} hv => ?_,
    fun {entry row} hget => ?_⟩
  · have hrow := rows_eq (List.ne_nil_of_mem hv)
    exact hall row (table.chainOf row) ((hrows _ _).mpr hrow) v hv
  · rcases honly entry row hget with hbefore | ⟨chain, hin, hversion⟩
    · rw [Trie.get?_empty] at hbefore
      cases hbefore
    · rw [chainOf_eq ((hrows _ _).mp hin), hstep.spec]
      exact hversion

/-- A table with a new index is in order. -/
theorem Ok.built (ok : Ok l work tid [] table) {spec : KeySpec} {after : Table} {filling : Filling}
    (h : Built table spec after filling) : Ok l work tid [] after := by
  obtain ⟨rfl, hbound, htree, hleads, hentered, _⟩ := h
  refine ⟨ok.occupied, ok.tidy, ok.serials, ok.handles, ok.held, ok.primaryTree, ok.primary, ?_, ?_,
    ok.pending⟩
  · intro i index hindex
    change (table.indexes ++ [filling.index])[i]? = some index at hindex
    rw [List.getElem?_append] at hindex
    split at hindex
    · have hok := ok.indexes hindex
      exact ⟨hok.tree, hok.sound, hok.keyed, hok.complete⟩
    · rw [List.getElem?_singleton, ite_eq_iff] at hindex
      obtain ⟨_, hindex⟩ := hindex.resolve_right (by simp)
      cases hindex
      refine ⟨htree, hleads, fun {row v} hv => ?_, fun {row v key} hv hkey => ?_⟩
      · obtain ⟨key, hkeyed, _⟩ := hentered hv
        exact ⟨key, hkeyed⟩
      · obtain ⟨own, hkeyed, hget⟩ := hentered (mem_of_mem_reach hv)
        rw [KeySpec.Keyed.unique hkey hkeyed]
        exact Or.inl hget
  · intro id s i entry row hin
    obtain ⟨index, hindex, hcarriers⟩ := ok.bound hin
    refine ⟨index, ?_, hcarriers⟩
    show (table.indexes ++ [filling.index])[i]? = some index
    rw [List.getElem?_append_left (List.getElem?_eq_some_iff.mp hindex).1]
    exact hindex

end Table
end SnapshotStore
