import Mathlib
import SnapshotStore.Proofs.Table.Ending

/-!
# Reclamation keeps a table in order

Reclamation works on what nobody can reach: a row whose deletion everybody sees, the history below a
version that everybody sees, an entry that no version in reach carries. Each part is described by what
it leaves (`Purged`, `Truncated`, `Trimmed`), and what it leaves is in order. No link of a trie is lost
on the way, so a cursor that was opened before still stands.
-/

namespace SnapshotStore

/-- Entries were taken out of the index, none but those of `gone`. -/
structure Index.Trimmed (gone : Bytes → RowHandle → Prop) (index index' : Index) : Prop where
  spec : index'.spec = index.spec
  tree : index'.trie.pool.IsTree
  links : index.trie.Extends index'.trie
  of_get : ∀ {entry : Bytes} {row : RowHandle}, index'.trie.get? entry = some row →
    index.trie.get? entry = some row
  get : ∀ {entry : Bytes} {row : RowHandle}, index.trie.get? entry = some row →
    index'.trie.get? entry = some row ∨ gone entry row

namespace Index.Trimmed

variable {gone : Bytes → RowHandle → Prop} {a b c : Index}

theorem refl (tree : a.trie.pool.IsTree) : a.Trimmed gone a :=
  ⟨rfl, tree, .refl _, id, Or.inl⟩

theorem trans (hab : a.Trimmed gone b) (hbc : b.Trimmed gone c) : a.Trimmed gone c where
  spec := hbc.spec.trans hab.spec
  tree := hbc.tree
  links := hab.links.trans hbc.links
  of_get h := hab.of_get (hbc.of_get h)
  get h := (hab.get h).elim hbc.get Or.inr

theorem remove (tree : a.trie.pool.IsTree) {entry : Bytes} {row : RowHandle} (h : gone entry row) :
    a.Trimmed gone { a with trie := (a.trie.remove entry row).1 } := by
  obtain ⟨htree, hlinks, _, hget⟩ := Trie.remove_spec tree entry row
  refine ⟨rfl, htree, hlinks, fun {e r} h => ?_, fun {e r} hbound => ?_⟩
  · rw [hget] at h
    split at h
    · cases h
    · exact h
  · by_cases heq : e = entry ∧ a.trie.get? entry = some row
    · right
      rw [heq.1, heq.2] at hbound
      cases hbound
      rw [heq.1]
      exact h
    · left
      show (a.trie.remove entry row).1.get? e = some r
      rw [hget, if_neg heq]
      exact hbound

end Index.Trimmed

namespace Table

open Chain

variable {l : Ledger} {work : Work} {tid : TableId} {table a b c : Table} {row : RowHandle}

/-- Entries were taken out of the indexes, none but those of `gone`. -/
structure Trimmed (gone : Nat → Bytes → RowHandle → Prop) (a b : Table) : Prop where
  count : b.indexes.length = a.indexes.length
  indexes : ∀ {i : Nat} {index : Index}, a.indexes[i]? = some index →
    ∃ index', b.indexes[i]? = some index' ∧ index.Trimmed (gone i) index'

/-- What reclamation never touches. -/
structure SameRest (a b : Table) : Prop where
  name : b.name = a.name
  schema : b.schema = a.schema
  maxKeyLength : b.maxKeyLength = a.maxKeyLength
  maxVersionHistory : b.maxVersionHistory = a.maxVersionHistory
  nextHandle : b.nextHandle = a.nextHandle
  nextSerial : b.nextSerial = a.nextSerial

namespace SameRest

theorem refl (table : Table) : table.SameRest table := ⟨rfl, rfl, rfl, rfl, rfl, rfl⟩

theorem trans (hab : a.SameRest b) (hbc : b.SameRest c) : a.SameRest c :=
  ⟨hbc.name.trans hab.name, hbc.schema.trans hab.schema, hbc.maxKeyLength.trans hab.maxKeyLength,
    hbc.maxVersionHistory.trans hab.maxVersionHistory, hbc.nextHandle.trans hab.nextHandle,
    hbc.nextSerial.trans hab.nextSerial⟩

end SameRest

namespace Trimmed

variable {gone : Nat → Bytes → RowHandle → Prop}

theorem refl (trees : Trees a) : a.Trimmed gone a :=
  ⟨rfl, fun h => ⟨_, h, .refl (trees.indexes h)⟩⟩

theorem trans (hab : a.Trimmed gone b) (hbc : b.Trimmed gone c) : a.Trimmed gone c := by
  refine ⟨hbc.count.trans hab.count, fun h => ?_⟩
  obtain ⟨middle, hmiddle, hfirst⟩ := hab.indexes h
  obtain ⟨last, hlast, hsecond⟩ := hbc.indexes hmiddle
  exact ⟨last, hlast, hfirst.trans hsecond⟩

theorem index_back (h : a.Trimmed gone b) {i : Nat} {index' : Index}
    (hi : b.indexes[i]? = some index') :
    ∃ index, a.indexes[i]? = some index ∧ index.Trimmed (gone i) index' := by
  have hlt := (List.getElem?_eq_some_iff.mp hi).1
  rw [h.count] at hlt
  have hold : a.indexes[i]? = some a.indexes[i] := List.getElem?_eq_getElem hlt
  obtain ⟨found, hfound, htrimmed⟩ := h.indexes hold
  rw [hi] at hfound
  cases hfound
  exact ⟨_, hold, htrimmed⟩

end Trimmed

/-! ## 1. What is left of a table -/

/-- What is in the table was there: its rows, its versions, some of them as copies, and its entries.
None but those of `gone` were taken out, and no version in reach carries one of them. -/
structure Remains (l : Ledger) (gone : Nat → Bytes → RowHandle → Prop) (a b : Table) : Prop where
  rows : ∀ {r : RowHandle} {chain : Chain}, b.rows[r]? = some chain →
    ∃ chain, a.rows[r]? = some chain
  versions : ∀ {r : RowHandle} {v : Version}, v ∈ b.chainOf r → ∃ w ∈ a.chainOf r,
    v.record = w.record ∧ v.created = w.created ∧ v.id.serial = w.id.serial
  reached : ∀ {r : RowHandle} {v : Version}, v ∈ reach l l.horizon (b.chainOf r) →
    ∃ w ∈ reach l l.horizon (a.chainOf r), v.record = w.record
  trimmed : a.Trimmed gone b
  uncarried : ∀ {i : Nat} {index : Index} {r : RowHandle} {v : Version} {key : Bytes},
    a.indexes[i]? = some index → v ∈ reach l l.horizon (b.chainOf r) →
      index.spec.Keyed a.maxKeyLength v.record key → ¬ gone i (Key.entry key r) r
  rest : a.SameRest b

section Remains

variable {gone : Nat → Bytes → RowHandle → Prop} (remains : Remains l gone a b)
  (ok : Ok l work tid [] a)
include remains ok

theorem Ok.serials_left {r : RowHandle} {v : Version} (hv : v ∈ b.chainOf r) :
    v.id.serial < b.nextSerial := by
  obtain ⟨w, hw, _, _, hserial⟩ := remains.versions hv
  rw [hserial, remains.rest.nextSerial]
  exact ok.serials hw

theorem Ok.handles_left {r : RowHandle} {chain : Chain} (hr : b.rows[r]? = some chain) :
    r.val < b.nextHandle := by
  obtain ⟨_, hold⟩ := remains.rows hr
  rw [remains.rest.nextHandle]
  exact ok.handles hold

theorem Ok.indexOk_left {i : Nat} {index' : Index} (hindex' : b.indexes[i]? = some index') :
    IndexOk l b tid [] index' := by
  obtain ⟨index, hindex, htrimmed⟩ := remains.trimmed.index_back hindex'
  have hok := ok.indexes hindex
  refine ⟨htrimmed.tree, fun hget => hok.sound (htrimmed.of_get hget), fun hv => ?_,
    fun hv hkey => ?_⟩
  · obtain ⟨w, hw, hrecord, _⟩ := remains.versions hv
    rw [remains.rest.maxKeyLength, htrimmed.spec, hrecord]
    exact hok.keyed hw
  · rw [remains.rest.maxKeyLength, htrimmed.spec] at hkey
    have hstays := remains.uncarried hindex hv hkey
    obtain ⟨w, hw, hrecord⟩ := remains.reached hv
    rw [hrecord] at hkey
    have hbound := (hok.complete hw hkey).resolve_right (by simp)
    exact Or.inl ((htrimmed.get hbound).resolve_right hstays)

/-- Who carries an entry that is noted as bound was there before, if what is in reach was. -/
theorem Ok.bound_left {id : Int} {s i : Nat} {entry : Bytes} {r : RowHandle}
    (hin : ⟨s, tid, .bound i entry r⟩ ∈ work.log id)
    (within : ∀ v ∈ reach l l.horizon (b.chainOf r), v ∈ reach l l.horizon (a.chainOf r)) :
    ∃ index, b.indexes[i]? = some index ∧ ∀ v ∈ reach l l.horizon (b.chainOf r), ∀ key,
      index.spec.Keyed b.maxKeyLength v.record key → entry = Key.entry key r →
        ∃ s' isNewRow, s ≤ s' ∧ ⟨s', tid, .created r v.id isNewRow⟩ ∈ work.log id := by
  obtain ⟨index, hindex, hcarriers⟩ := ok.bound hin
  obtain ⟨index', hindex', htrimmed⟩ := remains.trimmed.indexes hindex
  refine ⟨index', hindex', fun v hv key hkey hentry => ?_⟩
  rw [remains.rest.maxKeyLength, htrimmed.spec] at hkey
  exact hcarriers v (within v hv) key hkey hentry

end Remains

/-! ## 2. Purging a row -/

/-- A row and its entries are gone. -/
structure Purged (row : RowHandle) (a b : Table) : Prop where
  rows : ∀ r : RowHandle, b.rows[r]? = if r = row then none else a.rows[r]?
  primaryTree : b.primary.pool.IsTree
  primaryLinks : a.primary.Extends b.primary
  primary : ∀ key, b.primary.get? key = if key = row.toBytes then none else a.primary.get? key
  trimmed : a.Trimmed (fun _ _ r => r = row) b
  pendingDeletes : b.pendingDeletes = a.pendingDeletes
  outdated : b.outdated = a.outdated
  rest : a.SameRest b

/-- Taking the entries of a version out changes the indexes alone. -/
theorem unbindVersion_spec (trees : Trees table) (row : RowHandle) (v : Version) :
    table.Trimmed (fun _ _ r => r = row) (unbindVersion row table v) ∧
      unbindVersion row table v = table.withIndexes (unbindVersion row table v).indexes := by
  refine ⟨⟨List.length_map _, fun {i index} hindex => ?_⟩, rfl⟩
  show ∃ index', (table.indexes.map _)[i]? = some index' ∧ _
  rw [List.getElem?_map, hindex]
  refine ⟨_, rfl, ?_⟩
  dsimp only
  split
  · exact .remove (trees.indexes hindex) rfl
  · exact .refl (trees.indexes hindex)

theorem unbindVersions_spec (trees : Trees table) (row : RowHandle) (chain : Chain) :
    table.Trimmed (fun _ _ r => r = row) (List.foldl (unbindVersion row) table chain) ∧
      ∃ indexes, List.foldl (unbindVersion row) table chain = table.withIndexes indexes := by
  induction chain generalizing table with
  | nil => exact ⟨.refl trees, table.indexes, rfl⟩
  | cons v older ih =>
    obtain ⟨hfirst, hsame⟩ := unbindVersion_spec trees row v
    have htrees : Trees (unbindVersion row table v) := by
      refine ⟨trees.primary, fun hindex => ?_⟩
      obtain ⟨_, _, htrimmed⟩ := hfirst.index_back hindex
      exact htrimmed.tree
    obtain ⟨hrest, indexes, hindexes⟩ := ih htrees
    refine ⟨hfirst.trans hrest, indexes, ?_⟩
    rw [List.foldl_cons, hindexes, hsame]
    rfl

theorem Ok.purgeRow_spec (ok : Ok l work tid [] table) (row : RowHandle) :
    Purged row table (table.purgeRow row).1 ∧
      (table.purgeRow row).2 = (table.rows[row]?).isSome := by
  cases hrow : table.rows[row]? with
  | none =>
    have hpurge : table.purgeRow row = (table, false) := by rw [purgeRow, hrow]
    rw [hpurge]
    refine ⟨⟨fun r => ?_, ok.primaryTree, .refl _, fun key => ?_, .refl ok.trees, rfl, rfl, .refl _⟩,
      rfl⟩
    · split
      · rename_i heq
        rw [heq, hrow]
      · rfl
    · split
      · rename_i heq
        cases hget : table.primary.get? key with
        | none => rfl
        | some r =>
          obtain ⟨hkey, hthere⟩ := ok.primary.mp hget
          rw [← RowHandle.toBytes_injective (heq.symm.trans hkey), hrow] at hthere
          cases hthere
      · rfl
  | some chain =>
    obtain ⟨htrimmed, indexes, hindexes⟩ := unbindVersions_spec ok.trees row chain
    have hpurge : table.purgeRow row = ((table.withIndexes indexes).forgetRow row, true) := by
      rw [purgeRow, hrow]
      simp only [hindexes]
    rw [hindexes] at htrimmed
    obtain ⟨htree, hlinks, _, hget⟩ := Trie.remove_spec ok.primaryTree row.toBytes row
    have hthere : table.primary.get? row.toBytes = some row :=
      ok.primary.mpr ⟨rfl, by rw [hrow]; rfl⟩
    rw [hpurge]
    refine ⟨⟨fun r => Maps.get_erase _ _ _, htree, hlinks, fun key => ?_,
      ⟨htrimmed.count, htrimmed.indexes⟩, rfl, rfl,
      ⟨rfl, rfl, rfl, rfl, rfl, rfl⟩⟩, rfl⟩
    show (table.primary.remove row.toBytes row).1.get? key = _
    rw [hget]
    simp only [hthere, and_true]

theorem Purged.chainOf (h : Purged row a b) (r : RowHandle) :
    b.chainOf r = if r = row then [] else a.chainOf r := by
  rw [Table.chainOf, h.rows]
  split <;> rfl

theorem Purged.of_mem (h : Purged row a b) {r : RowHandle} {v : Version} (hv : v ∈ b.chainOf r) :
    r ≠ row ∧ b.chainOf r = a.chainOf r := by
  have hchain := h.chainOf r
  split at hchain
  · rw [hchain] at hv
    cases hv
  · rename_i hne
    exact ⟨hne, hchain⟩

theorem Purged.remains (h : Purged row a b) : Remains l (fun _ _ r => r = row) a b where
  rows {r chain} hr := by
    rw [h.rows] at hr
    split at hr
    · cases hr
    · exact ⟨chain, hr⟩
  versions hv := ⟨_, (h.of_mem hv).2 ▸ hv, rfl, rfl, rfl⟩
  reached hv := ⟨_, (h.of_mem (mem_of_mem_reach hv)).2 ▸ hv, rfl⟩
  trimmed := h.trimmed
  uncarried _ hv _ := (h.of_mem (mem_of_mem_reach hv)).1
  rest := h.rest

/-- Purging a row that nobody is writing keeps a table in order. -/
theorem Ok.purged (ok : Ok l work tid [] a) (h : Purged row a b)
    (hfree : ∀ id, rowLog tid row (work.log id) = []) : Ok l work tid [] b := by
  have hremains : Remains l (fun _ _ r => r = row) a b := h.remains
  refine ⟨?_, ?_, ok.serials_left hremains, ok.handles_left hremains, ?_, h.primaryTree, ?_,
    ok.indexOk_left hremains, ?_, ?_⟩
  · intro r chain hr
    rw [h.rows] at hr
    split at hr
    · cases hr
    · exact ok.occupied hr
  · intro r
    rw [h.chainOf]
    split
    · exact ⟨fun v hv => (by cases hv), List.nodup_nil⟩
    · exact ok.tidy r
  · intro r
    by_cases heq : r = row
    · refine ⟨0, ?_, fun other _ => by rw [heq]; exact hfree other⟩
      rw [heq, hfree, h.chainOf, if_pos rfl]
      intro v hv
      cases hv
    · rw [h.chainOf, if_neg heq]
      exact ok.held r
  · intro key r
    rw [h.primary, h.rows]
    by_cases hkey : key = row.toBytes
    · rw [if_pos hkey]
      refine iff_of_false (by simp) ?_
      rintro ⟨heq, hthere⟩
      rw [if_pos (RowHandle.toBytes_injective (heq.symm.trans hkey))] at hthere
      cases hthere
    · rw [if_neg hkey, ok.primary]
      refine and_congr_right fun heq => ?_
      rw [if_neg]
      rintro rfl
      exact hkey heq
  · intro id s i entry r hin
    exact ok.bound_left hremains hin fun v hv => (h.of_mem (mem_of_mem_reach hv)).2 ▸ hv
  · intro r sequence hin
    rw [h.pendingDeletes] at hin
    obtain ⟨hlt, hmarked, hnone⟩ := ok.pending hin
    refine ⟨by rw [h.rest.nextHandle]; exact hlt, fun v older hv => ?_, hnone⟩
    rw [h.chainOf] at hv
    split at hv
    · cases hv
    · exact hmarked v older hv

/-- The rows of the list are gone, with their entries. -/
structure PurgedAll (gone : List RowHandle) (a b : Table) : Prop where
  rows : ∀ r : RowHandle, b.rows[r]? = if r ∈ gone then none else a.rows[r]?
  primaryLinks : a.primary.Extends b.primary
  trimmed : a.Trimmed (fun _ _ r => r ∈ gone) b
  pendingDeletes : b.pendingDeletes = a.pendingDeletes
  outdated : b.outdated = a.outdated
  rest : a.SameRest b

theorem Index.Trimmed.weaken {gone gone' : Bytes → RowHandle → Prop} {a b : Index}
    (h : a.Trimmed gone b) (hgone : ∀ {entry row}, gone entry row → gone' entry row) :
    a.Trimmed gone' b :=
  ⟨h.spec, h.tree, h.links, h.of_get, fun hget => (h.get hget).imp_right hgone⟩

theorem Trimmed.weaken {gone gone' : Nat → Bytes → RowHandle → Prop} (h : a.Trimmed gone b)
    (hgone : ∀ {i entry row}, gone i entry row → gone' i entry row) : a.Trimmed gone' b := by
  refine ⟨h.count, fun hindex => ?_⟩
  obtain ⟨index', hindex', htrimmed⟩ := h.indexes hindex
  exact ⟨index', hindex', Index.Trimmed.weaken htrimmed hgone⟩

/-- Purging rows that nobody is writing. -/
theorem Ok.purgeRows_spec {rows : List RowHandle} (ok : Ok l work tid [] table)
    (hfree : ∀ row ∈ rows, ∀ id, rowLog tid row (work.log id) = []) :
    PurgedAll rows table (table.purgeRows rows).1 ∧
      Ok l work tid [] (table.purgeRows rows).1 := by
  induction rows generalizing table with
  | nil =>
    exact ⟨⟨fun _ => by rw [if_neg (List.not_mem_nil)]; rfl, .refl _, .refl ok.trees, rfl, rfl,
      .refl _⟩, ok⟩
  | cons row rows ih =>
    have hpurged := (ok.purgeRow_spec row).1
    have hok := ok.purged hpurged (hfree row List.mem_cons_self)
    obtain ⟨hrest, hlast⟩ := ih hok fun r hr => hfree r (List.mem_cons_of_mem _ hr)
    have hrows : (table.purgeRows (row :: rows)).1 = ((table.purgeRow row).1.purgeRows rows).1 := rfl
    rw [hrows]
    refine ⟨⟨fun r => ?_, hpurged.primaryLinks.trans hrest.primaryLinks, ?_,
      hrest.pendingDeletes.trans hpurged.pendingDeletes, hrest.outdated.trans hpurged.outdated,
      hpurged.rest.trans hrest.rest⟩, hlast⟩
    · rw [hrest.rows, hpurged.rows]
      by_cases hr : r ∈ rows
      · rw [if_pos hr, if_pos (List.mem_cons_of_mem _ hr)]
      · rw [if_neg hr]
        refine if_congr ?_ rfl rfl
        rw [List.mem_cons, or_iff_left hr]
    · exact (hpurged.trimmed.weaken fun h => by rw [h]; exact List.mem_cons_self).trans
        (hrest.trimmed.weaken fun h => List.mem_cons_of_mem _ h)

/-- The rows that reclamation purges: those whose deletion is at or below the horizon. -/
def purging (table : Table) (horizon : Int) : List RowHandle :=
  (table.pendingDeletes.filter fun (_, sequence) => sequence ≤ horizon).map Prod.fst

theorem mem_purging {horizon : Int} : row ∈ table.purging horizon ↔
    ∃ sequence, (row, sequence) ∈ table.pendingDeletes ∧ sequence ≤ horizon := by
  simp [purging]

/-- The deletions that are not yet at or below the horizon. -/
def waitingDeletes (table : Table) (horizon : Int) : List (RowHandle × Int) :=
  table.pendingDeletes.filter fun note => !decide (note.2 ≤ horizon)

theorem purgeDeleted_eq (table : Table) (horizon : Int) : table.purgeDeleted horizon =
    { table with pendingDeletes := table.waitingDeletes horizon }.purgeRows
      (table.purging horizon) := by
  rw [purgeDeleted, List.partition_eq_filter_filter]
  rfl

theorem Ok.waiting (ok : Ok l work tid [] table) (horizon : Int) :
    Ok l work tid [] { table with pendingDeletes := table.waitingDeletes horizon } :=
  { ok with
    indexes := fun h =>
      ⟨(ok.indexes h).tree, (ok.indexes h).sound, (ok.indexes h).keyed, (ok.indexes h).complete⟩
    pending := fun h => ok.pending (List.mem_filter.mp h).1 }

/-- Nobody is writing the rows that are purged. -/
theorem Ok.purging_free (ok : Ok l work tid [] table) {horizon : Int} :
    ∀ row ∈ table.purging horizon, ∀ id, rowLog tid row (work.log id) = [] := by
  intro row hrow
  obtain ⟨sequence, hnote, _⟩ := mem_purging.mp hrow
  exact (ok.pending hnote).2.2

/-- The rows whose deletion everybody sees are gone, and the other deletions wait. -/
theorem Ok.purgeDeleted_spec (ok : Ok l work tid [] table) :
    PurgedAll (table.purging l.horizon)
        { table with pendingDeletes := table.waitingDeletes l.horizon }
        (table.purgeDeleted l.horizon).1 ∧
      Ok l work tid [] (table.purgeDeleted l.horizon).1 := by
  rw [purgeDeleted_eq]
  exact (ok.waiting l.horizon).purgeRows_spec ok.purging_free

/-! ## 3. Truncating chains -/

theorem exists_of_isSettled {chain : Chain} {horizon : Int}
    (h : chain.isSettled l horizon = true) : ∃ newest older, chain = newest :: older ∧
      newest.isMarked = false ∧ l.committedBy newest.created.transaction horizon = true := by
  cases chain with
  | nil => cases h
  | cons newest older =>
    cases older with
    | nil => cases h
    | cons second older =>
      rw [isSettled, Bool.and_eq_true, Bool.not_eq_true'] at h
      exact ⟨newest, second :: older, rfl, h.1, h.2⟩

/-- A chain that was truncated had a newest version that everybody sees, of which a copy is left. -/
theorem truncated_cases (table : Table) (l : Ledger) (horizon : Int) (chain : Chain) :
    table.truncated l horizon chain = chain ∨
      ∃ newest older, chain = newest :: older ∧ newest.isMarked = false ∧
        l.committedBy newest.created.transaction horizon = true ∧
        table.truncated l horizon chain = [newest.copy] := by
  rw [truncated]
  split
  · rw [Chain.truncate]
    split
    · rename_i hsettled
      obtain ⟨newest, older, rfl, hunmarked, hcommitted⟩ := exists_of_isSettled hsettled
      exact Or.inr ⟨newest, older, rfl, hunmarked, hcommitted, rfl⟩
    · exact Or.inl rfl
  · exact Or.inl rfl

theorem truncated_nil (table : Table) (l : Ledger) (horizon : Int) :
    table.truncated l horizon [] = [] := by
  rcases truncated_cases table l horizon [] with h | ⟨newest, older, h, _⟩
  · exact h
  · cases h

/-- The chains of the table were truncated. -/
structure Truncated (l : Ledger) (a b : Table) : Prop where
  rows : ∀ r : RowHandle, b.rows[r]? = (a.rows[r]?).map (a.truncated l l.horizon)
  primary : b.primary = a.primary
  indexes : b.indexes = a.indexes
  pendingDeletes : b.pendingDeletes = a.pendingDeletes
  outdated : b.outdated = a.outdated
  rest : a.SameRest b

theorem truncateChains_spec (table : Table) (l : Ledger) :
    Truncated l table (table.truncateChains l l.horizon).1 :=
  ⟨fun _ => Std.ExtTreeMap.getElem?_map .., rfl, rfl, rfl, rfl, rfl, rfl, rfl, rfl, rfl, rfl⟩

theorem Truncated.chainOf (h : Truncated l a b) (r : RowHandle) :
    b.chainOf r = a.truncated l l.horizon (a.chainOf r) := by
  rw [Table.chainOf, h.rows, Table.chainOf]
  cases a.rows[r]? with
  | some chain => rfl
  | none => simp [truncated]

/-- What is in reach of a truncated chain is in reach of the chain, but for being a copy. -/
theorem exists_mem_reach_of_truncated {chain : Chain} {v : Version}
    (h : v ∈ reach l l.horizon (table.truncated l l.horizon chain)) :
    ∃ w ∈ reach l l.horizon chain, v.record = w.record := by
  rcases truncated_cases table l l.horizon chain with heq | ⟨newest, older, rfl, _, _, heq⟩
  · rw [heq] at h
    exact ⟨v, h, rfl⟩
  · rw [heq] at h
    have hv := List.mem_singleton.mp (mem_of_mem_reach h)
    exact ⟨newest, newest_mem_reach _ _ _ _, by rw [hv]; rfl⟩

theorem exists_of_mem_truncated {chain : Chain} {v : Version} {horizon : Int}
    (h : v ∈ table.truncated l horizon chain) :
    ∃ w ∈ chain, v.record = w.record ∧ v.created = w.created ∧ v.id.serial = w.id.serial ∧
      v.deletion = w.deletion := by
  rcases truncated_cases table l horizon chain with heq | ⟨newest, older, rfl, _, _, heq⟩
  · rw [heq] at h
    exact ⟨v, h, rfl, rfl, rfl, rfl⟩
  · rw [heq] at h
    rw [List.mem_singleton.mp h]
    exact ⟨newest, List.mem_cons_self, rfl, rfl, rfl, rfl⟩

theorem Truncated.remains (h : Truncated l a b) (trees : Trees a) :
    Remains l (fun _ _ _ => False) a b where
  rows hr := by
    rw [h.rows] at hr
    obtain ⟨old, hold, _⟩ := Option.map_eq_some_iff.mp hr
    exact ⟨old, hold⟩
  versions hv := by
    rw [h.chainOf] at hv
    obtain ⟨w, hw, hrecord, hcreated, hserial, _⟩ := exists_of_mem_truncated hv
    exact ⟨w, hw, hrecord, hcreated, hserial⟩
  reached hv := by
    rw [h.chainOf] at hv
    exact exists_mem_reach_of_truncated hv
  trimmed := ⟨by rw [h.indexes], fun hindex =>
    ⟨_, h.indexes.symm ▸ hindex, .refl (trees.indexes hindex)⟩⟩
  uncarried _ _ _ := id
  rest := h.rest

/-- A chain that is being written stays as it is. -/
theorem Truncated.chainOf_written (h : Truncated l a b) (ok : Ok l work tid [] a) (lok : l.Ok)
    (wok : Work.Ok l work) {id : Int} {r : RowHandle} (hlog : rowLog tid r (work.log id) ≠ []) :
    b.chainOf r = a.chainOf r := by
  rw [h.chainOf]
  rcases truncated_cases a l l.horizon (a.chainOf r) with
    heq | ⟨newest, older, hchain, hunmarked, hsettled, _⟩
  · exact heq
  · obtain ⟨hlayered, _⟩ := ok.layered hlog
    rw [hchain] at hlayered
    exact absurd (Layered.log_eq_nil hlayered lok wok.running_of_rowLog hunmarked hsettled) hlog

/-- Truncating chains keeps a table in order. -/
theorem Ok.truncated (ok : Ok l work tid [] a) (lok : l.Ok) (wok : Work.Ok l work)
    (h : Truncated l a b) : Ok l work tid [] b := by
  have hremains := h.remains ok.trees
  refine ⟨?_, ?_, ok.serials_left hremains, ok.handles_left hremains, ?_, ?_, ?_,
    ok.indexOk_left hremains, ?_, ?_⟩
  · intro r chain hr
    rw [h.rows] at hr
    obtain ⟨old, hold, rfl⟩ := Option.map_eq_some_iff.mp hr
    rcases truncated_cases a l l.horizon old with heq | ⟨newest, older, _, _, _, heq⟩
    · rw [heq]
      exact ok.occupied hold
    · rw [heq]
      exact List.cons_ne_nil _ _
  · intro r
    rw [h.chainOf]
    rcases truncated_cases a l l.horizon (a.chainOf r) with heq | ⟨newest, older, _, _, _, heq⟩
    · rw [heq]
      exact ok.tidy r
    · rw [heq]
      exact ⟨fun v hv => (by cases hv), List.nodup_singleton _⟩
  · intro r
    obtain ⟨holder, hlayered, hothers⟩ := ok.held r
    refine ⟨holder, ?_, hothers⟩
    by_cases hlog : rowLog tid r (work.log holder) = []
    · rw [hlog] at hlayered ⊢
      intro v hv
      obtain ⟨w, hw, _, hcreated, _⟩ := hremains.versions hv
      rw [hcreated]
      exact hlayered w hw
    · rw [h.chainOf_written ok lok wok hlog]
      exact hlayered
  · rw [h.primary]
    exact ok.primaryTree
  · intro key r
    rw [h.primary, h.rows, Option.isSome_map]
    exact ok.primary
  · intro id s i entry r hin
    -- A copy has another identity than the version it replaces, but the row that the entry was bound
    -- for is being written, so nothing of it was replaced.
    refine ok.bound_left hremains hin fun v hv => ?_
    rw [h.chainOf_written ok lok wok ((wok.backed id).rowLog_ne_nil hin)] at hv
    exact hv
  · intro r sequence hin
    rw [h.pendingDeletes] at hin
    obtain ⟨hlt, hmarked, hfree⟩ := ok.pending hin
    refine ⟨by rw [h.rest.nextHandle]; exact hlt, fun v older hv => ?_, hfree⟩
    rw [h.chainOf] at hv
    rcases truncated_cases a l l.horizon (a.chainOf r) with
      heq | ⟨newest, below, hchain, hunmarked, _, _⟩
    · rw [heq] at hv
      exact hmarked v older hv
    · rw [hmarked newest below hchain] at hunmarked
      cases hunmarked

/-! ## 4. Taking out entries -/

/-- Entries are gone that no version in reach carries. -/
structure Unbound (l : Ledger) (a b : Table) : Prop where
  rows : b.rows = a.rows
  primary : b.primary = a.primary
  trimmed : a.Trimmed (fun i entry row => ∃ index, a.indexes[i]? = some index ∧
    ∀ v ∈ reach l l.horizon (a.chainOf row), index.spec.carries v.record entry ≠ .ok true) b
  pendingDeletes : b.pendingDeletes = a.pendingDeletes
  outdated : b.outdated = a.outdated
  rest : a.SameRest b

theorem Unbound.chainOf (h : Unbound l a b) (r : RowHandle) : b.chainOf r = a.chainOf r := by
  rw [Table.chainOf, h.rows]
  rfl

theorem Unbound.trans (hab : Unbound l a b) (hbc : Unbound l b c) : Unbound l a c := by
  refine ⟨hbc.rows.trans hab.rows, hbc.primary.trans hab.primary, hab.trimmed.trans ?_,
    hbc.pendingDeletes.trans hab.pendingDeletes, hbc.outdated.trans hab.outdated,
    hab.rest.trans hbc.rest⟩
  refine hbc.trimmed.weaken ?_
  rintro i entry row ⟨index, hindex, hnot⟩
  obtain ⟨old, hold, htrimmed⟩ := hab.trimmed.index_back hindex
  refine ⟨old, hold, fun v hv => ?_⟩
  rw [← htrimmed.spec]
  exact hnot v (by rw [hab.chainOf]; exact hv)

theorem dropOutdated_spec (trees : Trees table) (outdated : OutdatedEntry) :
    Unbound l table (table.dropOutdated l l.horizon outdated).1 := by
  have hrefl : Unbound l table table := ⟨rfl, rfl, .refl trees, rfl, rfl, .refl _⟩
  rw [dropOutdated]
  cases hindex : table.indexes[outdated.index]? with
  | none => exact hrefl
  | some index =>
    dsimp only
    by_cases hkeep : table.mustKeep l l.horizon index outdated = true
    · rw [if_pos hkeep]
      exact hrefl
    · rw [if_neg hkeep]
      refine ⟨rfl, rfl, ⟨List.length_modify _ _ _, fun {i other} hother => ?_⟩, rfl, rfl,
        ⟨rfl, rfl, rfl, rfl, rfl, rfl⟩⟩
      rw [indexes_modifyIndex]
      by_cases heq : i = outdated.index
      · rw [if_pos heq]
        subst heq
        rw [hindex] at hother
        cases hother
        rw [hindex]
        refine ⟨_, rfl, .remove (trees.indexes hindex) ⟨index, rfl, fun v hv hcarries => ?_⟩⟩
        refine hkeep ?_
        rw [mustKeep, rows_eq (List.ne_nil_of_mem (mem_of_mem_reach hv))]
        exact mayCarry_iff.mpr ⟨v, hv, hcarries⟩
      · rw [if_neg heq]
        exact ⟨other, hother, .refl (trees.indexes hother)⟩

theorem Unbound.trees (h : Unbound l a b) (trees : Trees a) : Trees b := by
  refine ⟨by rw [h.primary]; exact trees.primary, fun hindex => ?_⟩
  obtain ⟨_, _, htrimmed⟩ := h.trimmed.index_back hindex
  exact htrimmed.tree

theorem dropAllOutdated_spec (trees : Trees table) (outdated : List OutdatedEntry) :
    Unbound l table (dropAllOutdated l l.horizon table outdated).1 := by
  induction outdated generalizing table with
  | nil => exact ⟨rfl, rfl, .refl trees, rfl, rfl, .refl _⟩
  | cons entry rest ih =>
    have hfirst := dropOutdated_spec (l := l) trees entry
    exact hfirst.trans (ih (hfirst.trees trees))

theorem Unbound.remains (h : Unbound l a b) : Remains l (fun i entry row =>
    ∃ index, a.indexes[i]? = some index ∧ ∀ v ∈ reach l l.horizon (a.chainOf row),
      index.spec.carries v.record entry ≠ .ok true) a b where
  rows {r chain} hr := ⟨chain, by rw [← h.rows]; exact hr⟩
  versions hv := ⟨_, h.chainOf _ ▸ hv, rfl, rfl, rfl⟩
  reached hv := ⟨_, h.chainOf _ ▸ hv, rfl⟩
  trimmed := h.trimmed
  uncarried hindex hv hkey := by
    rintro ⟨found, hfound, hnot⟩
    rw [hindex] at hfound
    cases hfound
    rw [h.chainOf] at hv
    refine hnot _ hv ?_
    rw [hkey.carries_entry]
    simp
  rest := h.rest

/-- Taking out entries that no version in reach carries keeps a table in order. -/
theorem Ok.unbound (ok : Ok l work tid [] a) (h : Unbound l a b) : Ok l work tid [] b := by
  have hremains := h.remains
  refine ⟨?_, ?_, ok.serials_left hremains, ok.handles_left hremains, ?_, ?_, ?_,
    ok.indexOk_left hremains, ?_, ?_⟩
  · rw [h.rows]
    exact ok.occupied
  · intro r
    rw [h.chainOf]
    exact ok.tidy r
  · intro r
    rw [h.chainOf]
    exact ok.held r
  · rw [h.primary]
    exact ok.primaryTree
  · rw [h.primary, h.rows]
    exact ok.primary
  · intro id s i entry r hin
    exact ok.bound_left hremains hin fun v hv => h.chainOf r ▸ hv
  · intro r sequence hin
    rw [h.pendingDeletes] at hin
    obtain ⟨hlt, hmarked, hfree⟩ := ok.pending hin
    refine ⟨by rw [h.rest.nextHandle]; exact hlt, ?_, hfree⟩
    rw [h.chainOf]
    exact hmarked

/-- The outdated entries that are not yet at or below the horizon. -/
def waitingEntries (table : Table) (horizon : Int) : List OutdatedEntry :=
  table.outdated.filter fun note => !decide (note.sequence ≤ horizon)

theorem unbindOutdated_eq (table : Table) (l : Ledger) (horizon : Int) :
    table.unbindOutdated l horizon = dropAllOutdated l horizon
      { table with outdated := table.waitingEntries horizon }
      (table.outdated.filter fun note => note.sequence ≤ horizon) := by
  rw [unbindOutdated, List.partition_eq_filter_filter]
  rfl

/-- The outdated entries that nobody can want are gone, and those outdated later wait. -/
theorem Ok.unbindOutdated_spec (ok : Ok l work tid [] table) :
    Unbound l { table with outdated := table.waitingEntries l.horizon }
        (table.unbindOutdated l l.horizon).1 ∧
      Ok l work tid [] (table.unbindOutdated l l.horizon).1 := by
  have hwaiting : Ok l work tid [] { table with outdated := table.waitingEntries l.horizon } :=
    { ok with
      indexes := fun h => ⟨(ok.indexes h).tree, (ok.indexes h).sound, (ok.indexes h).keyed,
        (ok.indexes h).complete⟩ }
  rw [unbindOutdated_eq]
  have hunbound := dropAllOutdated_spec (l := l) hwaiting.trees
    (table.outdated.filter fun note => note.sequence ≤ l.horizon)
  exact ⟨hunbound, hwaiting.unbound hunbound⟩

/-! ## 5. All together -/

/-- What reclamation makes of a table. -/
structure Reclaimed (l : Ledger) (a b : Table) : Prop where
  rows : ∀ r : RowHandle, b.rows[r]? =
    if r ∈ a.purging l.horizon then none else (a.rows[r]?).map (a.truncated l l.horizon)
  primaryLinks : a.primary.Extends b.primary
  trimmed : a.Trimmed (fun _ _ _ => True) b
  pendingDeletes : ∀ note : RowHandle × Int, note ∈ b.pendingDeletes → note ∈ a.pendingDeletes
  rest : a.SameRest b

theorem Reclaimed.chainOf (h : Reclaimed l a b) (r : RowHandle) : b.chainOf r =
    if r ∈ a.purging l.horizon then [] else a.truncated l l.horizon (a.chainOf r) := by
  rw [Table.chainOf, h.rows, Table.chainOf]
  split
  · rfl
  · cases a.rows[r]? with
    | some chain => rfl
    | none => simp [truncated]

theorem transactions_reclaim (table : Table) (l : Ledger) :
    (table.reclaim l).2.2.transactions = l.prune.2 := rfl

/-- What reclamation does not come to is left for later. -/
theorem Ok.reclaim_waiting (ok : Ok l work tid [] table) (lok : l.Ok) (wok : Work.Ok l work) :
    (table.reclaim l).1.pendingDeletes = table.waitingDeletes l.horizon ∧
      (table.reclaim l).1.outdated = table.waitingEntries l.horizon := by
  obtain ⟨hpurged, hfirst⟩ := ok.purgeDeleted_spec
  have htruncated := truncateChains_spec (table.purgeDeleted l.horizon).1 l
  obtain ⟨hunbound, _⟩ := (hfirst.truncated lok wok htruncated).unbindOutdated_spec
  refine ⟨hunbound.pendingDeletes.trans (htruncated.pendingDeletes.trans hpurged.pendingDeletes),
    hunbound.outdated.trans ?_⟩
  exact congrArg (List.filter _) (htruncated.outdated.trans hpurged.outdated)

/-- Reclamation keeps a table in order. -/
theorem Ok.reclaim (ok : Ok l work tid [] table) (lok : l.Ok) (wok : Work.Ok l work) :
    Reclaimed l table (table.reclaim l).1 ∧ (table.reclaim l).2.1 = l.prune.1 ∧
      Ok l.prune.1 work tid [] (table.reclaim l).1 := by
  obtain ⟨hpurged, hfirst⟩ := ok.purgeDeleted_spec
  have htruncated := truncateChains_spec (table.purgeDeleted l.horizon).1 l
  obtain ⟨hunbound, hlast⟩ := (hfirst.truncated lok wok htruncated).unbindOutdated_spec
  refine ⟨⟨fun r => ?_, ?_, ?_, fun note h => ?_, ?_⟩, rfl,
    hlast.grows (Ledger.grows_prune lok) lok fun _ => rfl⟩
  · have hlimit : (table.purgeDeleted l.horizon).1.truncated l l.horizon =
        table.truncated l l.horizon := by
      funext chain
      show Table.truncated _ _ _ _ = Table.truncated _ _ _ _
      rw [Table.truncated, Table.truncated, hpurged.rest.maxVersionHistory]
    have hrows : (table.reclaim l).1.rows[r]? = _ :=
      (congrArg (·[r]?) hunbound.rows).trans (htruncated.rows r)
    rw [hrows, hpurged.rows, hlimit]
    split <;> rfl
  · have hprimary : (table.reclaim l).1.primary = _ := hunbound.primary.trans htruncated.primary
    rw [hprimary]
    exact hpurged.primaryLinks
  · have hmiddle : table.Trimmed (fun _ _ _ => True)
        ((table.purgeDeleted l.horizon).1.truncateChains l l.horizon).1 := by
      refine ⟨?_, ?_⟩
      · rw [htruncated.indexes]
        exact hpurged.trimmed.count
      · rw [htruncated.indexes]
        exact (hpurged.trimmed.weaken fun _ => trivial).indexes
    exact hmiddle.trans
      ⟨hunbound.trimmed.count, (hunbound.trimmed.weaken fun _ => trivial).indexes⟩
  · rw [(ok.reclaim_waiting lok wok).1] at h
    exact (List.mem_filter.mp h).1
  · have hrest := hpurged.rest.trans htruncated.rest
    exact ⟨hunbound.rest.name.trans hrest.name, hunbound.rest.schema.trans hrest.schema,
      hunbound.rest.maxKeyLength.trans hrest.maxKeyLength,
      hunbound.rest.maxVersionHistory.trans hrest.maxVersionHistory,
      hunbound.rest.nextHandle.trans hrest.nextHandle,
      hunbound.rest.nextSerial.trans hrest.nextSerial⟩

end Table
end SnapshotStore
