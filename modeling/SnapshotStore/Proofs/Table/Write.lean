import Mathlib
import SnapshotStore.Proofs.Table.Binding

/-!
# What a write does to a table

An insert or an update either puts one version on one row and its entry into every index (`Wrote`), or
it leaves the table unchanged; a deletion marks one version. `insertRow_spec`, `updateRow_spec` and
`deleteRow_spec` say which of these happens and when, and are all that is used of the three functions.
-/

namespace SnapshotStore
namespace Table

open Fallible Chain

variable {l : Ledger} {work : Work} {tid : TableId} {table : Table} {txn : Transaction}
  {row : RowHandle} {record : Record}

/-! ## 1. Completing a write -/

/-- What the indexes make of a write: the first refusal, if there is one. -/
def verdict (table : Table) (step : Table → Nat → Except Refusal (Table × List Write)) :
    Option Refusal :=
  (List.range table.indexes.length).findSome? fun id => refusal? (step table id)

/-- A write is completed or taken back. -/
theorem complete_spec {transaction : Int} {old? : Option Record}
    {step : Table → Nat → Except Refusal (Table × List Write)}
    (hstep : ∀ id, id < table.indexes.length →
      StepAt l transaction old? record row step table id)
    (trees : Trees table) (created : Write) (ref : RowRef) :
    (∃ refusal, table.verdict step = some refusal ∧
      (table.complete transaction created ref step).outcome = refusal.outcome ∧
      (table.complete transaction created ref step).writes = [] ∧
      (table.undo transaction created).Unchanged
        (table.complete transaction created ref step).table) ∨
    (table.verdict step = none ∧
      (table.complete transaction created ref step).outcome = .ok (.written ref) ∧
      ∃ indexes' more, (table.complete transaction created ref step).table =
          table.withIndexes indexes' ∧
        (table.complete transaction created ref step).writes = created :: more ∧
        (table.undo transaction created).Unchanged
          ((table.complete transaction created ref step).table.undoAll transaction
            (created :: more)) ∧
        Filled l transaction old? record row table (List.range table.indexes.length) table.indexes
          indexes' more) := by
  have hself : table.withIndexes table.indexes = table := rfl
  have htrees : Trees (table.withIndexes table.indexes) := trees
  have hspec := forEachIndex_spec (fun id hid => hstep id (List.mem_range.mp hid)) List.nodup_range
    (fun _ _ => rfl) htrees
  rw [hself] at hspec
  obtain ⟨hfind, hundo, hdone⟩ := hspec
  rw [complete, verdict]
  cases hresult : forEachIndex step (List.range table.indexes.length) table with
  | mk after rest =>
    obtain ⟨writes, refusal?⟩ := rest
    rw [hresult] at hfind hundo hdone
    rw [← hfind]
    cases refusal? with
    | some refusal =>
      refine Or.inl ⟨refusal, rfl, rfl, rfl, ?_⟩
      exact hundo.undo trees transaction created
    | none =>
      obtain ⟨indexes', hafter, hfilled⟩ := hdone rfl
      exact Or.inr ⟨rfl, rfl, indexes', writes, hafter, rfl, hundo.undo trees transaction created,
        hfilled⟩

/-! ## 2. Versions -/

/-- A version was put on a row, and every index has its entry. -/
structure Wrote (l : Ledger) (txn : Transaction) (table : Table) (row : RowHandle)
    (record : Record) (old? : Option Record) (after : Table) (writes : List Write) : Prop where
  old : old? = (table.chainOf row).head?.map (·.record)
  rows : ∀ other : RowHandle, after.rows[other]? =
    if other = row then some (table.newVersion txn record :: table.chainOf row)
    else table.rows[other]?
  handle : table.chainOf row = [] → row.val = table.nextHandle
  nextHandle : after.nextHandle =
    if table.chainOf row = [] then table.nextHandle + 1 else table.nextHandle
  nextSerial : after.nextSerial = table.nextSerial + 1
  primaryTree : after.primary.pool.IsTree
  primaryLinks : table.primary.Extends after.primary
  primary : ∀ key, after.primary.get? key =
    if key = row.toBytes then some row else table.primary.get? key
  indexCount : after.indexes.length = table.indexes.length
  indexes : ∀ {i : Nat} {index : Index}, table.indexes[i]? = some index → ∃ key trie,
    after.indexes[i]? = some { index with trie } ∧
      index.spec.Keyed table.maxKeyLength record key ∧ Binds index key row trie ∧
      (index.trie.get? (Key.entry key row) = none → .bound i (Key.entry key row) row ∈ writes) ∧
      (index.spec.unique = true →
        (∃ old, old? = some old ∧ index.spec.Keyed table.maxKeyLength old key) ∨
          Free l txn.id index.spec key row table) ∧
      NotesOld old? table.maxKeyLength index i key row writes
  made : ∃ more, writes =
      .created row (table.newVersion txn record).id (table.chainOf row).isEmpty :: more ∧
    ∀ write ∈ more, ∃ i index key, table.indexes[i]? = some index ∧
      index.spec.Keyed table.maxKeyLength record key ∧ IsStepWrite i index key row write
  pendingDeletes : after.pendingDeletes = table.pendingDeletes
  outdated : after.outdated = table.outdated
  maxKeyLength : after.maxKeyLength = table.maxKeyLength
  maxVersionHistory : after.maxVersionHistory = table.maxVersionHistory
  schema : after.schema = table.schema
  name : after.name = table.name
  undone : table.Unchanged (after.undoAll txn.id writes)

/-- The table with a new row, before the indexes know it. -/
def begunInsert (table : Table) (txn : Transaction) (record : Record) (row : RowHandle) : Table :=
  { table with
    nextHandle := table.nextHandle + 1
    nextSerial := table.nextSerial + 1
    rows := table.rows.insert row [table.newVersion txn record]
    primary := (table.primary.put row.toBytes row).1 }

/-- The table with a new version of a row, before the indexes know it. -/
def begunUpdate (table : Table) (txn : Transaction) (record : Record) (row : RowHandle) : Table :=
  { table with
    nextSerial := table.nextSerial + 1
    rows := table.rows.insert row (table.newVersion txn record :: table.chainOf row) }

theorem rows_begunUpdate (other : RowHandle) : (table.begunUpdate txn record row).rows[other]? =
    if other = row then some (table.newVersion txn record :: table.chainOf row)
    else table.rows[other]? :=
  Maps.get_insert _ _ _ _

theorem rows_begunInsert (other : RowHandle) : (table.begunInsert txn record row).rows[other]? =
    if other = row then some [table.newVersion txn record] else table.rows[other]? :=
  Maps.get_insert _ _ _ _

theorem unchanged_begunUpdate {newest : Version} {older : Chain}
    (hchain : table.chainOf row = newest :: older) :
    table.Unchanged ((table.begunUpdate txn record row).undo txn.id
      (.created row (table.newVersion txn record).id false)) := by
  have hrow := rows_eq (by rw [hchain]; simp : table.chainOf row ≠ [])
  obtain ⟨hhandle, hserial, hpending, houtdated, hlimit⟩ :=
    undo_rest (table.begunUpdate txn record row) txn.id
      (.created row (table.newVersion txn record).id false)
  obtain ⟨hhistory, hschema, hname⟩ :=
    undo_constants (table.begunUpdate txn record row) txn.id
      (.created row (table.newVersion txn record).id false)
  have hprimary := primary_undo (table.begunUpdate txn record row) txn.id
    (.created row (table.newVersion txn record).id false)
  refine ⟨?_, ?_, ?_, ?_, ?_, length_indexes_undo _ _ _, ?_, hpending, houtdated, ?_, ?_, hlimit,
    hhistory, hschema, hname⟩
  · intro other
    rw [rows_undo, rows_begunUpdate]
    by_cases heq : other = row
    · rw [heq, hrow]
      simp [Write.row?, Write.begins, Chain.undo, Chain.unlink]
    · rw [if_neg (by simpa [Write.row?] using fun h => heq h.symm), if_neg heq]
  · rw [hprimary]
    exact id
  · rw [hprimary]
    exact .refl _
  · intro key
    rw [hprimary]
    rfl
  · rw [hprimary]
    rfl
  · intro i index hindex
    refine ⟨index, ?_, .refl _⟩
    rw [indexes_undo]
    exact hindex
  · rw [hhandle]
    exact Nat.le_refl _
  · rw [hserial]
    exact Nat.le_succ _

section Answers

variable (ok : Ok l work tid [] table)
include ok

/-- While a row is written, the indexes answer for all other rows. -/
theorem Ok.answers {begun : Table} (hindexes : begun.indexes = table.indexes)
    (hlimit : begun.maxKeyLength = table.maxKeyLength)
    (hrows : ∀ other : RowHandle, other ≠ row → begun.rows[other]? = table.rows[other]?)
    {indexes : List Index} {id : Nat} {index : Index} (hsame : indexes[id]? = begun.indexes[id]?)
    (hindex : indexes[id]? = some index) : Answers l (begun.withIndexes indexes) row index := by
  have hold : table.indexes[id]? = some index := by
    rw [← hindexes, ← hsame]
    exact hindex
  have hok := ok.indexes hold
  have hchain : ∀ {other : RowHandle}, other ≠ row →
      (begun.withIndexes indexes).chainOf other = table.chainOf other := by
    intro other hne
    show begun.rows[other]?.getD [] = table.rows[other]?.getD []
    rw [hrows other hne]
  have hlimit' : (begun.withIndexes indexes).maxKeyLength = table.maxKeyLength := hlimit
  refine ⟨hok.tree, hok.sound, fun hne hv => ?_, fun hne hv hkey => ?_⟩
  · rw [hchain hne] at hv
    rw [hlimit']
    exact hok.keyed hv
  · rw [hchain hne] at hv
    rw [hlimit'] at hkey
    exact (hok.complete hv hkey).resolve_right (by simp)

/-- A row that begins has its steps for the indexes. -/
theorem Ok.stepAt_insert (begun : Table) (hindexes : begun.indexes = table.indexes)
    (hlimit : begun.maxKeyLength = table.maxKeyLength)
    (hrows : ∀ other : RowHandle, other ≠ row → begun.rows[other]? = table.rows[other]?)
    {id : Nat} (hid : id < begun.indexes.length) :
    StepAt l txn.id none record row (bindRecord l txn.id record row) begun id := by
  refine ⟨fun indexes h => refusal_bindRecord begun h, fun indexes h table' writes hstep => ?_⟩
  have hindex : indexes[id]? = some begun.indexes[id] := by
    rw [h, List.getElem?_eq_getElem hid]
  have hanswers := ok.answers hindexes hlimit hrows h hindex
  obtain ⟨key, trie, htable, hstepped⟩ := bindRecord_stepped hindex
    ⟨hanswers, fun _ h => by cases h⟩ hstep
  exact ⟨_, key, trie, htable, hstepped⟩

/-- A version on top of another one has its steps for the indexes. -/
theorem Ok.stepAt_update (begun : Table) (hindexes : begun.indexes = table.indexes)
    (hlimit : begun.maxKeyLength = table.maxKeyLength)
    (hrows : ∀ other : RowHandle, other ≠ row → begun.rows[other]? = table.rows[other]?)
    {newest : Version} {older : Chain} (hchain : table.chainOf row = newest :: older)
    {id : Nat} (hid : id < begun.indexes.length) :
    StepAt l txn.id (some newest.record) record row
      (rebindRecord l txn.id newest.record record row) begun id := by
  refine ⟨fun indexes h => refusal_rebindRecord begun h, fun indexes h table' writes hstep => ?_⟩
  have hindex : indexes[id]? = some begun.indexes[id] := by
    rw [h, List.getElem?_eq_getElem hid]
  have hanswers := ok.answers hindexes hlimit hrows h hindex
  have hold : table.indexes[id]? = some begun.indexes[id] := by
    rw [← hindexes, ← h]
    exact hindex
  have hok := ok.indexes hold
  have hnewest : newest ∈ reach l l.horizon (table.chainOf row) := by
    rw [hchain]
    exact newest_mem_reach _ _ _ _
  obtain ⟨oldKey, hkeyed⟩ := hok.keyed (mem_of_mem_reach hnewest)
  have hbound := (hok.complete hnewest hkeyed).resolve_right (by simp)
  have hlimit' : (begun.withIndexes indexes).maxKeyLength = table.maxKeyLength := hlimit
  obtain ⟨key, trie, htable, hstepped⟩ := rebindRecord_stepped hindex
    ⟨hanswers, fun old hsome => by
      cases hsome
      exact ⟨oldKey, by rw [hlimit']; exact hkeyed, hbound⟩⟩ hstep
  exact ⟨_, key, trie, htable, hstepped⟩

end Answers

/-- Every index has its entry, and has kept the others: what owns a key among the other rows is the same
in the table that the write began with. -/
theorem Filled.index (table : Table) {begun : Table} {old? : Option Record}
    {indexes' : List Index} {more : List Write} (hfilled : Filled l txn.id old? record row begun
      (List.range begun.indexes.length) begun.indexes indexes' more)
    (hindexes : begun.indexes = table.indexes) (hlimit : begun.maxKeyLength = table.maxKeyLength)
    (hrows : ∀ other : RowHandle, other ≠ row → begun.rows[other]? = table.rows[other]?)
    {i : Nat} {index : Index} (hindex : table.indexes[i]? = some index) : ∃ key trie,
      indexes'[i]? = some { index with trie } ∧
      index.spec.Keyed table.maxKeyLength record key ∧ Binds index key row trie ∧
      (index.trie.get? (Key.entry key row) = none → .bound i (Key.entry key row) row ∈ more) ∧
      (index.spec.unique = true →
        (∃ old, old? = some old ∧ index.spec.Keyed table.maxKeyLength old key) ∨
          Free l txn.id index.spec key row table) ∧
      NotesOld old? table.maxKeyLength index i key row more := by
  rw [← hindexes] at hindex
  have hi := List.mem_range.mpr (List.getElem?_eq_some_iff.mp hindex).1
  obtain ⟨found, key, trie, hthere, hafter, hkeyed, hbinds, hbound, hfree, hnoted⟩ :=
    hfilled.filled i hi
  rw [hindex] at hthere
  cases hthere
  rw [hlimit] at hkeyed hfree hnoted
  refine ⟨key, trie, hafter, hkeyed, hbinds, hbound, fun hunique => ?_, hnoted⟩
  refine (hfree hunique).imp id fun hfree owner hne howns => hfree owner hne ?_
  rw [chainOf, hrows owner hne]
  exact howns

/-! ## 3. Insert -/

theorem val_of_ofNat? {n : Nat} (h : RowHandle.ofNat? n = some row) : row.val = n := by
  rw [RowHandle.ofNat?] at h
  split at h
  · cases h
    rfl
  · cases h

section Operations

variable (ok : Ok l work tid [] table)
include ok

/-- The next row is not there yet. -/
theorem Ok.next_absent (h : RowHandle.ofNat? table.nextHandle = some row) :
    table.rows[row]? = none := by
  cases hrow : table.rows[row]? with
  | none => rfl
  | some chain =>
    have hlt := ok.handles hrow
    rw [val_of_ofNat? h] at hlt
    exact absurd hlt (Nat.lt_irrefl _)

theorem Ok.unchanged_begunInsert (h : RowHandle.ofNat? table.nextHandle = some row) :
    table.Unchanged ((table.begunInsert txn record row).undo txn.id
      (.created row (table.newVersion txn record).id true)) := by
  have habsent := ok.next_absent h
  have hprimary : table.primary.get? row.toBytes = none := by
    cases hget : table.primary.get? row.toBytes with
    | none => rfl
    | some found =>
      obtain ⟨hkey, hthere⟩ := ok.primary.mp hget
      rw [← RowHandle.toBytes_injective hkey, habsent] at hthere
      cases hthere
  obtain ⟨hput, hputLinks, _, hputGet⟩ := Trie.put_spec ok.primaryTree row.toBytes row
  obtain ⟨hgone, hgoneLinks, _, hgoneGet⟩ := Trie.remove_spec hput row.toBytes row
  obtain ⟨hhandle, hserial, hpending, houtdated, hlimit⟩ :=
    undo_rest (table.begunInsert txn record row) txn.id
      (.created row (table.newVersion txn record).id true)
  obtain ⟨hhistory, hschema, hname⟩ :=
    undo_constants (table.begunInsert txn record row) txn.id
      (.created row (table.newVersion txn record).id true)
  have hprimary' := primary_undo (table.begunInsert txn record row) txn.id
    (.created row (table.newVersion txn record).id true)
  refine ⟨?_, ?_, ?_, ?_, ?_, length_indexes_undo _ _ _, ?_, hpending,
    houtdated, ?_, ?_, hlimit, hhistory, hschema, hname⟩
  · intro other
    rw [rows_undo, rows_begunInsert]
    by_cases heq : other = row
    · simp [heq, habsent, Write.row?, Write.begins]
    · rw [if_neg (by simpa [Write.row?] using fun h => heq h.symm), if_neg heq]
  · intro _
    rw [hprimary']
    exact hgone
  · rw [hprimary']
    exact hputLinks.trans hgoneLinks
  · intro key
    rw [hprimary']
    refine (hgoneGet key).trans ?_
    rw [hputGet, hputGet, if_pos rfl]
    by_cases heq : key = row.toBytes
    · rw [if_pos ⟨heq, rfl⟩, heq, hprimary]
    · rw [if_neg (fun h => heq h.1), if_neg heq]
  · rw [hprimary']
    refine (Trie.size_remove _ _ _).trans ?_
    show (if (table.primary.put row.toBytes row).1.get? row.toBytes = some row then _ else _) = _
    rw [hputGet, if_pos rfl, if_pos rfl]
    show (table.primary.put row.toBytes row).1.size - 1 = _
    rw [Trie.size_put ok.primaryTree, if_pos hprimary, Nat.add_sub_cancel]
  · intro i index hindex
    refine ⟨index, ?_, .refl _⟩
    rw [indexes_undo]
    exact hindex
  · rw [hhandle]
    exact Nat.le_succ _
  · rw [hserial]
    exact Nat.le_succ _

/-- A row that has begun and has its entries is written. -/
theorem Ok.wrote_insert (hrow : RowHandle.ofNat? table.nextHandle = some row)
    {indexes' : List Index} {more : List Write}
    (hfilled : Filled l txn.id none record row (table.begunInsert txn record row)
      (List.range (table.begunInsert txn record row).indexes.length)
      (table.begunInsert txn record row).indexes indexes' more)
    (hundone : ((table.begunInsert txn record row).undo txn.id
        (.created row (table.newVersion txn record).id true)).Unchanged
      (((table.begunInsert txn record row).withIndexes indexes').undoAll txn.id
        (.created row (table.newVersion txn record).id true :: more))) :
    Wrote l txn table row record none ((table.begunInsert txn record row).withIndexes indexes')
      (.created row (table.newVersion txn record).id true :: more) := by
  have hchain : table.chainOf row = [] := chainOf_of_absent (ok.next_absent hrow)
  obtain ⟨hput, hputLinks, _, hputGet⟩ := Trie.put_spec ok.primaryTree row.toBytes row
  refine ⟨by rw [hchain]; rfl, fun other => ?_, fun _ => val_of_ofNat? hrow, ?_, rfl, hput, hputLinks,
    hputGet, hfilled.length, fun {i index} hindex => ?_, ?_, rfl, rfl, rfl, rfl, rfl, rfl,
    (ok.unchanged_begunInsert hrow).trans hundone⟩
  · show (table.begunInsert txn record row).rows[other]? = _
    rw [hchain, rows_begunInsert]
  · rw [if_pos hchain]
    rfl
  · obtain ⟨key, trie, hafter, hkeyed, hbinds, hbound, hfree, hnoted⟩ := hfilled.index table rfl rfl
      (fun other hne => (rows_begunInsert other).trans (if_neg hne)) hindex
    exact ⟨key, trie, hafter, hkeyed, hbinds, fun hnone => List.mem_cons_of_mem _ (hbound hnone),
      hfree, fun _ _ h hkeyed => (hnoted _ _ h hkeyed).imp_right (List.mem_cons_of_mem _)⟩
  · refine ⟨more, by rw [hchain]; rfl, fun write hwrite => ?_⟩
    obtain ⟨i, _, made⟩ := hfilled.made write hwrite
    exact ⟨i, made⟩

/-- Whether an insert goes through is up to the indexes. -/
theorem Ok.insertRow_spec (txn : Transaction) (record : Record) :
    (RowHandle.ofNat? table.nextHandle = none ∧ table.insertRow l txn record =
      { table, outcome := .error (.internal "row handle space exhausted") }) ∨
    ∃ row, RowHandle.ofNat? table.nextHandle = some row ∧
      ((∃ refusal, (table.begunInsert txn record row).verdict (bindRecord l txn.id record row) =
            some refusal ∧
          (table.insertRow l txn record).outcome = refusal.outcome ∧
          (table.insertRow l txn record).writes = [] ∧
          table.Unchanged (table.insertRow l txn record).table) ∨
        ((table.begunInsert txn record row).verdict (bindRecord l txn.id record row) = none ∧
          (table.insertRow l txn record).outcome =
            .ok (.written ⟨row, table.newVersion txn record, []⟩) ∧
          table.chainOf row = [] ∧
          Wrote l txn table row record none (table.insertRow l txn record).table
            (table.insertRow l txn record).writes)) := by
  cases hrow : RowHandle.ofNat? table.nextHandle with
  | none =>
    left
    refine ⟨rfl, ?_⟩
    rw [insertRow, hrow]
  | some row =>
    right
    refine ⟨row, rfl, ?_⟩
    have hinsert : table.insertRow l txn record =
        (table.begunInsert txn record row).complete txn.id
          (.created row (table.newVersion txn record).id true)
          ⟨row, table.newVersion txn record, []⟩ (bindRecord l txn.id record row) := by
      rw [insertRow, hrow]
      rfl
    rw [hinsert]
    have hothers : ∀ other : RowHandle, other ≠ row →
        (table.begunInsert txn record row).rows[other]? = table.rows[other]? :=
      fun other hne => (rows_begunInsert other).trans (if_neg hne)
    have hput := (Trie.put_spec ok.primaryTree row.toBytes row).1
    have hsteps : ∀ id, id < (table.begunInsert txn record row).indexes.length →
        StepAt l txn.id none record row (bindRecord l txn.id record row)
          (table.begunInsert txn record row) id :=
      fun id hid => ok.stepAt_insert (table.begunInsert txn record row) rfl rfl hothers hid
    rcases complete_spec hsteps ⟨hput, ok.trees.indexes⟩
        (.created row (table.newVersion txn record).id true)
        ⟨row, table.newVersion txn record, []⟩ with
      ⟨refusal, hverdict, houtcome, hwrites, hundone⟩ |
      ⟨hverdict, houtcome, indexes', more, htable, hwrites, hundone, hfilled⟩
    · exact Or.inl ⟨refusal, hverdict, houtcome, hwrites,
        (ok.unchanged_begunInsert hrow).trans hundone⟩
    · rw [htable] at hundone
      rw [htable, hwrites]
      exact Or.inr ⟨hverdict, houtcome, chainOf_of_absent (ok.next_absent hrow),
        ok.wrote_insert hrow hfilled hundone⟩

/-! ## 4. Update and delete -/

/-- A row that has a new version and its entries is written. -/
theorem Ok.wrote_update {newest : Version} {older : Chain}
    (hchain : table.chainOf row = newest :: older) {indexes' : List Index} {more : List Write}
    (hfilled : Filled l txn.id (some newest.record) record row (table.begunUpdate txn record row)
      (List.range (table.begunUpdate txn record row).indexes.length)
      (table.begunUpdate txn record row).indexes indexes' more)
    (hundone : ((table.begunUpdate txn record row).undo txn.id
        (.created row (table.newVersion txn record).id false)).Unchanged
      (((table.begunUpdate txn record row).withIndexes indexes').undoAll txn.id
        (.created row (table.newVersion txn record).id false :: more))) :
    Wrote l txn table row record (some newest.record)
      ((table.begunUpdate txn record row).withIndexes indexes')
      (.created row (table.newVersion txn record).id false :: more) := by
  have hthere : table.chainOf row ≠ [] := by
    rw [hchain]
    exact List.cons_ne_nil _ _
  refine ⟨by rw [hchain]; rfl, rows_begunUpdate, fun h => absurd h hthere, ?_, rfl, ok.primaryTree, .refl _,
    fun key => ?_, hfilled.length, fun {i index} hindex => ?_, ?_, rfl, rfl, rfl, rfl, rfl, rfl,
    (unchanged_begunUpdate hchain).trans hundone⟩
  · rw [if_neg hthere]
    rfl
  · show table.primary.get? key = _
    split
    · rename_i heq
      rw [heq]
      refine ok.primary.mpr ⟨rfl, ?_⟩
      rw [rows_eq hthere]
      rfl
    · rfl
  · obtain ⟨key, trie, hafter, hkeyed, hbinds, hbound, hfree, hnoted⟩ := hfilled.index table rfl rfl
      (fun other hne => (rows_begunUpdate other).trans (if_neg hne)) hindex
    exact ⟨key, trie, hafter, hkeyed, hbinds, fun hnone => List.mem_cons_of_mem _ (hbound hnone),
      hfree, fun _ _ h hkeyed => (hnoted _ _ h hkeyed).imp_right (List.mem_cons_of_mem _)⟩
  · refine ⟨more, by rw [hchain]; rfl, fun write hwrite => ?_⟩
    obtain ⟨i, _, made⟩ := hfilled.made write hwrite
    exact ⟨i, made⟩

/-- An update conflicts unless the newest version of the row is there to be written over; then it is
up to the indexes. -/
theorem Ok.updateRow_spec (txn : Transaction) (row : RowHandle) (record : Record) :
    ((∀ newest older, table.chainOf row = newest :: older →
        newest.isWritable l txn.id txn.snapshot = false) ∧
      table.updateRow l txn row record = { table, outcome := .ok .conflict }) ∨
    ∃ newest older, table.chainOf row = newest :: older ∧
      newest.isWritable l txn.id txn.snapshot = true ∧
      ((∃ refusal, (table.begunUpdate txn record row).verdict
            (rebindRecord l txn.id newest.record record row) = some refusal ∧
          (table.updateRow l txn row record).outcome = refusal.outcome ∧
          (table.updateRow l txn row record).writes = [] ∧
          table.Unchanged (table.updateRow l txn row record).table) ∨
        ((table.begunUpdate txn record row).verdict
            (rebindRecord l txn.id newest.record record row) = none ∧
          (table.updateRow l txn row record).outcome =
            .ok (.written ⟨row, table.newVersion txn record, newest :: older⟩) ∧
          Wrote l txn table row record (some newest.record)
            (table.updateRow l txn row record).table
            (table.updateRow l txn row record).writes)) := by
  cases hrow : table.rows[row]? with
  | none =>
    refine Or.inl ⟨?_, by rw [updateRow, hrow]⟩
    rw [chainOf_of_absent hrow]
    intro newest older h
    cases h
  | some chain =>
    cases chain with
    | nil => exact absurd rfl (ok.occupied hrow)
    | cons newest older =>
      have hchain := chainOf_eq hrow
      cases hwritable : newest.isWritable l txn.id txn.snapshot with
      | false =>
        refine Or.inl ⟨?_, by simp [updateRow, hrow, hwritable]⟩
        rw [hchain]
        intro newest' older' heq
        rw [← (List.cons.inj heq).1]
        exact hwritable
      | true =>
        refine Or.inr ⟨newest, older, hchain, hwritable, ?_⟩
        have hupdate : table.updateRow l txn row record =
            (table.begunUpdate txn record row).complete txn.id
              (.created row (table.newVersion txn record).id false)
              ⟨row, table.newVersion txn record, newest :: older⟩
              (rebindRecord l txn.id newest.record record row) := by
          simp only [updateRow, hrow, hwritable, if_true]
          rw [begunUpdate, hchain]
        rw [hupdate]
        have hothers : ∀ other : RowHandle, other ≠ row →
            (table.begunUpdate txn record row).rows[other]? = table.rows[other]? :=
          fun other hne => (rows_begunUpdate other).trans (if_neg hne)
        have hsteps : ∀ id, id < (table.begunUpdate txn record row).indexes.length →
            StepAt l txn.id (some newest.record) record row
              (rebindRecord l txn.id newest.record record row)
              (table.begunUpdate txn record row) id :=
          fun id hid => ok.stepAt_update (table.begunUpdate txn record row) rfl rfl hothers hchain hid
        rcases complete_spec hsteps ⟨ok.primaryTree, ok.trees.indexes⟩
            (.created row (table.newVersion txn record).id false)
            ⟨row, table.newVersion txn record, newest :: older⟩ with
          ⟨refusal, hverdict, houtcome, hwrites, hundone⟩ |
          ⟨hverdict, houtcome, indexes', more, htable, hwrites, hundone, hfilled⟩
        · exact Or.inl ⟨refusal, hverdict, houtcome, hwrites,
            (unchanged_begunUpdate hchain).trans hundone⟩
        · rw [htable] at hundone
          rw [htable, hwrites]
          exact Or.inr ⟨hverdict, houtcome, ok.wrote_update hchain hfilled hundone⟩

/-- A delete marks the newest version of the row if it is there to be written over. -/
theorem Ok.deleteRow_spec (txn : Transaction) (row : RowHandle) :
    ((∀ newest older, table.chainOf row = newest :: older →
        newest.isWritable l txn.id txn.snapshot = false) ∧
      table.deleteRow l txn row = { table, outcome := .ok .conflict }) ∨
    ∃ newest older, table.chainOf row = newest :: older ∧
      newest.isWritable l txn.id txn.snapshot = true ∧
      table.deleteRow l txn row =
        { table := { table with rows := table.rows.insert row (newest.mark txn.stamp :: older) }
          writes := [.marked row newest.id]
          outcome := .ok .deleted } := by
  cases hrow : table.rows[row]? with
  | none =>
    refine Or.inl ⟨?_, by rw [deleteRow, hrow]⟩
    rw [chainOf_of_absent hrow]
    intro newest older h
    cases h
  | some chain =>
    cases chain with
    | nil => exact absurd rfl (ok.occupied hrow)
    | cons newest older =>
      have hchain := chainOf_eq hrow
      cases hwritable : newest.isWritable l txn.id txn.snapshot with
      | false =>
        refine Or.inl ⟨?_, by simp only [deleteRow, hrow, hwritable, Bool.false_eq_true, if_false]⟩
        rw [hchain]
        intro newest' older' heq
        rw [← (List.cons.inj heq).1]
        exact hwritable
      | true =>
        refine Or.inr ⟨newest, older, hchain, hwritable, ?_⟩
        simp only [deleteRow, hrow, hwritable, if_true]

end Operations

end Table
end SnapshotStore
