import Mathlib
import SnapshotStore.Proofs.Table.Ownership
import SnapshotStore.Proofs.Table.Unchanged

/-!
# Giving a version its entries

Once a version stands on its row, the indexes are gone through one by one. A step looks only at the
rows and at its own index, which no other step changes; so what a step answers is known before the
first of them is taken (`Step`), and going through the indexes is refused by the first index that
would refuse by itself. Each step can be taken back, and so can all of them (`forEachIndex_spec`).
-/

namespace SnapshotStore
namespace Table

open Fallible Chain

/-! ## 1. One entry -/

/-- The refusal in the answer of a step. -/
def refusal? {α : Type} : Except Refusal α → Option Refusal
  | .ok _ => none
  | .error refusal => some refusal

/-- A table whose indexes were replaced. -/
def withIndexes (table : Table) (indexes : List Index) : Table := { table with indexes }

@[simp] theorem indexes_withIndexes (table : Table) (indexes : List Index) :
    (table.withIndexes indexes).indexes = indexes := rfl

theorem modifyIndex_eq (table : Table) (id : Nat) (change : Trie → Trie) :
    table.modifyIndex id change = table.withIndexes
      (table.indexes.modify id fun index => { index with trie := change index.trie }) := rfl

/-- Putting in the trie that is there changes nothing. -/
theorem modifyIndex_self {table : Table} {id : Nat} {index : Index}
    (hindex : table.indexes[id]? = some index) :
    table.modifyIndex id (fun _ => index.trie) = table := by
  rw [modifyIndex_eq]
  have hmodify : table.indexes.modify id (fun other => { other with trie := index.trie }) =
      table.indexes := by
    refine List.ext_getElem? fun i => ?_
    rw [List.getElem?_modify]
    by_cases heq : id = i
    · rw [← heq, hindex]
      simp
    · simp [heq]
  rw [hmodify]
  rfl

/-- Replacing the trie of an index by one that finds the same leaves the table unchanged. -/
theorem unchanged_modifyIndex {table : Table} {id : Nat} {index : Index} {trie : Trie}
    (h : table.indexes[id]? = some index) (same : index.Same { index with trie }) :
    table.Unchanged (table.modifyIndex id fun _ => trie) := by
  refine ⟨fun _ => rfl, fun h => h, .refl _, fun _ => rfl, rfl, List.length_modify _ _ _, ?_, rfl,
    rfl, Nat.le_refl _, Nat.le_refl _, rfl, rfl, rfl, rfl⟩
  intro i old hold
  rw [indexes_modifyIndex]
  split
  · rename_i heq
    rw [heq] at hold
    rw [h] at hold
    cases hold
    rw [heq, h]
    exact ⟨_, rfl, same⟩
  · exact ⟨old, hold, .refl _⟩

/-- The trie of an index once the entry of a key is bound for a row. -/
structure Binds (index : Index) (key : Bytes) (row : RowHandle) (trie : Trie) : Prop where
  tree : trie.pool.IsTree
  links : index.trie.Extends trie
  get : ∀ entry, trie.get? entry =
    if entry = Key.entry key row then some ((index.trie.get? entry).getD row)
    else index.trie.get? entry
  size : trie.size =
    if index.trie.get? (Key.entry key row) = none then index.trie.size + 1 else index.trie.size

/-- A write that a step for an index may make. -/
def IsStepWrite (id : Nat) (index : Index) (key : Bytes) (row : RowHandle) (write : Write) : Prop :=
  write = .bound id (Key.entry key row) row ∧ index.trie.get? (Key.entry key row) = none ∨
    ∃ entry, write = .outdated id entry row

/-- No other row owns the key, as the transaction has to see it. -/
def Free (l : Ledger) (transaction : Int) (spec : KeySpec) (key : Bytes) (row : RowHandle)
    (table : Table) : Prop :=
  ∀ owner, owner ≠ row → ¬ Owns spec l transaction key (table.chainOf owner)

/-- The entry of the record that was replaced is that of the new record, or its going out of use is
among the writes. -/
def NotesOld (old? : Option Record) (limit : Nat) (index : Index) (id : Nat) (key : Bytes)
    (row : RowHandle) (writes : List Write) : Prop :=
  ∀ old oldKey, old? = some old → index.spec.Keyed limit old oldKey →
    oldKey = key ∨ .outdated id (Key.entry oldKey row) row ∈ writes

/-- What a step for an index did to it. -/
structure Stepped (l : Ledger) (transaction : Int) (old? : Option Record) (record : Record)
    (row : RowHandle) (table : Table) (id : Nat) (index : Index) (key : Bytes) (trie : Trie)
    (writes : List Write) : Prop where
  here : table.indexes[id]? = some index
  keyed : index.spec.Keyed table.maxKeyLength record key
  binds : Binds index key row trie
  made : ∀ write ∈ writes, IsStepWrite id index key row write
  bound : index.trie.get? (Key.entry key row) = none →
    .bound id (Key.entry key row) row ∈ writes
  undone : table.Unchanged ((table.modifyIndex id fun _ => trie).undoAll transaction writes)
  free : index.spec.unique = true →
    (∃ old, old? = some old ∧ index.spec.Keyed table.maxKeyLength old key) ∨
      Free l transaction index.spec key row table
  noted : NotesOld old? table.maxKeyLength index id key row writes

section Entry

variable {l : Ledger} {table : Table} {row : RowHandle} {index : Index} {id : Nat}

theorem binds_putIfAbsent (tree : index.trie.pool.IsTree) (key : Bytes) (row : RowHandle) :
    Binds index key row (index.trie.putIfAbsent (Key.entry key row) row).1 := by
  obtain ⟨htree, hlinks, _, hget⟩ := Trie.putIfAbsent_spec tree (Key.entry key row) row
  refine ⟨htree, hlinks, fun entry => ?_, Trie.size_putIfAbsent tree _ _⟩
  rw [hget]
  split
  · rename_i heq
    rw [heq]
  · rfl

/-- Taking back the entry that a step bound, if it bound one. -/
theorem unchanged_of_binds (hindex : table.indexes[id]? = some index) {key : Bytes} {trie : Trie}
    (binds : Binds index key row trie) (transaction : Int) :
    table.Unchanged ((table.modifyIndex id fun _ => trie).undoAll transaction
      (if (index.trie.get? (Key.entry key row)).isNone then [.bound id (Key.entry key row) row]
        else [])) := by
  cases hget : index.trie.get? (Key.entry key row) with
  | some owner =>
    refine unchanged_modifyIndex hindex
      ⟨rfl, fun _ => binds.tree, binds.links, fun entry => ?_, ?_⟩
    · rw [binds.get]
      split
      · rename_i heq
        rw [heq, hget]
        rfl
      · rfl
    · rw [binds.size, hget, if_neg (Option.some_ne_none _)]
  | none =>
    obtain ⟨htree, hlinks, _, hgone⟩ := Trie.remove_spec binds.tree (Key.entry key row) row
    have hundo : (table.modifyIndex id fun _ => trie).undoAll transaction
        [.bound id (Key.entry key row) row] =
          table.modifyIndex id fun _ => (trie.remove (Key.entry key row) row).1 := by
      show (table.modifyIndex id fun _ => trie).modifyIndex id
        (fun trie => (trie.remove (Key.entry key row) row).1) = _
      rw [modifyIndex_eq, modifyIndex_eq, indexes_withIndexes, List.modify_modify_eq]
      rfl
    rw [Option.isNone_none, if_pos rfl, hundo]
    have hown : trie.get? (Key.entry key row) = some row := by
      rw [binds.get, if_pos rfl, hget]
      rfl
    refine unchanged_modifyIndex hindex
      ⟨rfl, fun _ => htree, binds.links.trans hlinks, fun entry => ?_, ?_⟩
    · show (trie.remove (Key.entry key row) row).1.get? entry = _
      rw [hgone]
      by_cases heq : entry = Key.entry key row
      · rw [if_pos ⟨heq, hown⟩, heq, hget]
      · rw [if_neg (fun h => heq h.1), binds.get, if_neg heq]
    · show (trie.remove (Key.entry key row) row).1.size = _
      rw [Trie.size_remove, if_pos hown, binds.size, if_pos hget, Nat.add_sub_cancel]

/-- What binding an entry comes to with nothing in its way. -/
theorem bound_eq (table : Table) (index : Index) (id : Nat) (entry : Bytes) (row : RowHandle) :
    (match index.trie.putIfAbsent entry row with
      | (trie, none) => (.ok (table.modifyIndex id fun _ => trie, [.bound id entry row]) :
          Except Refusal (Table × List Write))
      | (trie, some _) => .ok (table.modifyIndex id fun _ => trie, [])) =
      .ok (table.modifyIndex id fun _ => (index.trie.putIfAbsent entry row).1,
        if (index.trie.putIfAbsent entry row).2.isNone then [.bound id entry row] else []) := by
  obtain ⟨trie, found⟩ := index.trie.putIfAbsent entry row
  cases found <;> rfl

/-- Binding an entry touches the trie of that index alone. -/
theorem bindEntry_eq_ok {table table' : Table} {index : Index} {l : Ledger} {transaction : Int}
    {id : Nat} {entry : Bytes} {row : RowHandle} {writes : List Write}
    (h : table.bindEntry l transaction id index entry row = .ok (table', writes)) :
    (∃ trie, table' = table.modifyIndex id fun _ => trie) ∧
      (writes = [.bound id entry row] ∨ writes = []) := by
  have hput := bound_eq table index id entry row
  have hbound : ∀ {result : Except Refusal (Table × List Write)},
      result = .ok (table.modifyIndex id fun _ => (index.trie.putIfAbsent entry row).1,
        if (index.trie.putIfAbsent entry row).2.isNone then [.bound id entry row] else []) →
      result = .ok (table', writes) →
      (∃ trie, table' = table.modifyIndex id fun _ => trie) ∧
        (writes = [.bound id entry row] ∨ writes = []) := by
    rintro _ rfl hresult
    cases hresult
    refine ⟨⟨_, rfl⟩, ?_⟩
    split
    · exact Or.inl rfl
    · exact Or.inr rfl
  unfold bindEntry at h
  cases hunique : index.spec.unique with
  | false =>
    rw [hunique, if_neg Bool.false_ne_true] at h
    exact hbound hput h
  | true =>
    rw [hunique, if_pos rfl] at h
    obtain ⟨owned, _, hrest⟩ := Fallible.bind_eq_ok.mp h
    cases owned with
    | true => cases hrest
    | false => exact hbound hput hrest

/-- Binding an entry is refused if the index is unique and the key is owned, and done otherwise. -/
theorem bindEntry_spec (id : Nat) (answers : Answers l table row index) (transaction : Int) (key : Bytes) :
    (index.spec.unique = true ∧ ¬ Free l transaction index.spec key row table ∧
      table.bindEntry l transaction id index (Key.entry key row) row = .error (.taken id)) ∨
    ((index.spec.unique = true → Free l transaction index.spec key row table) ∧
      table.bindEntry l transaction id index (Key.entry key row) row =
        .ok (table.modifyIndex id fun _ => (index.trie.putIfAbsent (Key.entry key row) row).1,
          if (index.trie.get? (Key.entry key row)).isNone then [.bound id (Key.entry key row) row]
          else [])) := by
  have hput := bound_eq table index id (Key.entry key row) row
  rw [(Trie.putIfAbsent_spec answers.tree (Key.entry key row) row).2.2.1] at hput
  obtain ⟨b, hb, hiff⟩ := isOwned_spec answers transaction key
  have hfree : ¬ Free l transaction index.spec key row table ↔ b = true := by
    rw [hiff, Free]
    simp only [not_forall, not_not, exists_prop]
  unfold bindEntry
  cases hunique : index.spec.unique with
  | false =>
    refine Or.inr ⟨fun h => absurd h Bool.false_ne_true, ?_⟩
    rw [if_neg Bool.false_ne_true]
    exact hput
  | true =>
    rw [if_pos rfl, hb]
    cases b with
    | true => exact Or.inl ⟨rfl, hfree.mpr rfl, rfl⟩
    | false =>
      refine Or.inr ⟨fun _ => ?_, hput⟩
      by_contra hnot
      exact Bool.false_ne_true (hfree.mp hnot)

end Entry

/-! ## 2. One step -/

/-- What is known before a step for an index, in a table where the steps before it were taken. -/
structure Ready (l : Ledger) (table : Table) (row : RowHandle) (index : Index)
    (old? : Option Record) : Prop where
  answers : Answers l table row index
  old : ∀ old, old? = some old → ∃ key, index.spec.Keyed table.maxKeyLength old key ∧
    index.trie.get? (Key.entry key row) = some row

section Step

variable {l : Ledger} {table : Table} {row : RowHandle} {index : Index} {id : Nat}
  {old record : Record}

theorem index_eq_ok (h : table.indexes[id]? = some index) : table.index id = .ok index := by
  rw [Table.index, h]

theorem undoAll_append (table : Table) (transaction : Int) (a b : List Write) :
    table.undoAll transaction (a ++ b) = (table.undoAll transaction b).undoAll transaction a := by
  simp [undoAll]

/-- A note binds nothing that would have to be undone. -/
theorem undoAll_notes (table : Table) (transaction : Int) {notes : List Write}
    (hnotes : ∀ write ∈ notes, ∃ entry, write = .outdated id entry row) :
    table.undoAll transaction notes = table := by
  induction notes with
  | nil => rfl
  | cons write notes ih =>
    obtain ⟨entry, rfl⟩ := hnotes write List.mem_cons_self
    exact ih fun write h => hnotes write (List.mem_cons_of_mem _ h)

/-- A step that bound the entry of a key, with the entry it replaced noted or not. -/
theorem stepped_of_bindEntry {transaction : Int} (old? : Option Record) {key : Bytes}
    (hindex : table.indexes[id]? = some index) (tree : index.trie.pool.IsTree)
    (hkeyed : index.spec.Keyed table.maxKeyLength record key)
    (hfree : index.spec.unique = true → Free l transaction index.spec key row table)
    (noted : List Write) (hnoted : ∀ write ∈ noted, ∃ entry, write = .outdated id entry row)
    (hold : NotesOld old? table.maxKeyLength index id key row noted) :
    Stepped l transaction old? record row table id index key
      (index.trie.putIfAbsent (Key.entry key row) row).1
      ((if (index.trie.get? (Key.entry key row)).isNone then [.bound id (Key.entry key row) row]
        else []) ++ noted) := by
  have hbinds := binds_putIfAbsent tree key row
  refine ⟨hindex, hkeyed, hbinds, ?_, ?_, ?_, fun h => Or.inr (hfree h), fun old oldKey h hkeyed =>
    (hold old oldKey h hkeyed).imp_right (List.mem_append_right _)⟩
  · intro write hwrite
    rcases List.mem_append.mp hwrite with hbound | hwrite
    · split at hbound
      · rename_i hnone
        exact Or.inl ⟨List.mem_singleton.mp hbound, Option.isNone_iff_eq_none.mp hnone⟩
      · cases hbound
    · exact Or.inr (hnoted write hwrite)
  · intro hnone
    rw [hnone]
    exact List.mem_append_left _ List.mem_cons_self
  · rw [undoAll_append, undoAll_notes _ _ hnoted]
    exact unchanged_of_binds hindex hbinds transaction

theorem bindRecord_stepped {transaction : Int} {table' : Table} {writes : List Write}
    (hindex : table.indexes[id]? = some index) (ready : Ready l table row index none)
    (h : bindRecord l transaction record row table id = .ok (table', writes)) :
    ∃ key trie, table' = table.modifyIndex id (fun _ => trie) ∧
      Stepped l transaction none record row table id index key trie writes := by
  rw [bindRecord, index_eq_ok hindex, mapError_ok, ok_bind] at h
  cases hentry : index.spec.entry table.maxKeyLength record row with
  | error e =>
    rw [hentry] at h
    cases h
  | ok entry =>
    obtain ⟨key, hkeyed, rfl⟩ := KeySpec.entry_eq_ok.mp hentry
    rw [hentry, mapError_ok, ok_bind] at h
    rcases bindEntry_spec id ready.answers transaction key with
      ⟨_, _, herror⟩ | ⟨hfree, hok⟩
    · rw [herror] at h
      cases h
    · rw [hok] at h
      cases h
      refine ⟨key, _, rfl, ?_⟩
      have hstepped := stepped_of_bindEntry none hindex ready.answers.tree hkeyed hfree []
        (by simp) (fun _ _ h => by cases h)
      rwa [List.append_nil] at hstepped

/-- A step that left the entry of a key that has not changed where it is. -/
theorem stepped_of_unmoved {transaction : Int} {key : Bytes}
    (hindex : table.indexes[id]? = some index) (tree : index.trie.pool.IsTree)
    (hold : index.spec.Keyed table.maxKeyLength old key)
    (hkeyed : index.spec.Keyed table.maxKeyLength record key)
    (hbound : index.trie.get? (Key.entry key row) = some row) :
    Stepped l transaction (some old) record row table id index key index.trie [] := by
  refine ⟨hindex, hkeyed, ⟨tree, .refl _, fun entry => ?_, ?_⟩, fun _ hwrite => (by cases hwrite),
    fun hnone => ?_, ?_, fun _ => Or.inl ⟨old, rfl, hold⟩, ?_⟩
  · split
    · rename_i heq
      rw [heq, hbound]
      rfl
    · rfl
  · rw [hbound, if_neg (Option.some_ne_none _)]
  · rw [hbound] at hnone
    cases hnone
  · rw [modifyIndex_self hindex]
    exact .refl _
  · intro _ _ h hkeyed'
    cases h
    exact Or.inl (hkeyed'.unique hold)

theorem rebindRecord_stepped {transaction : Int} {table' : Table} {writes : List Write}
    (hindex : table.indexes[id]? = some index) (ready : Ready l table row index (some old))
    (h : rebindRecord l transaction old record row table id = .ok (table', writes)) :
    ∃ key trie, table' = table.modifyIndex id (fun _ => trie) ∧
      Stepped l transaction (some old) record row table id index key trie writes := by
  obtain ⟨oldKey, holdKeyed, holdBound⟩ := ready.old old rfl
  rw [rebindRecord, index_eq_ok hindex, mapError_ok, ok_bind] at h
  cases hsame : index.spec.sameKey old record with
  | error e =>
    rw [hsame] at h
    cases h
  | ok same =>
    rw [hsame, mapError_ok, ok_bind] at h
    cases same with
    | true =>
      rw [if_pos rfl] at h
      cases h
      exact ⟨oldKey, index.trie, (modifyIndex_self hindex).symm,
        stepped_of_unmoved hindex ready.answers.tree holdKeyed (holdKeyed.of_sameKey hsame) holdBound⟩
    | false =>
      rw [if_neg Bool.false_ne_true, holdKeyed.entry_eq row, mapError_ok, ok_bind] at h
      cases hentry : index.spec.entry table.maxKeyLength record row with
      | error e =>
        rw [hentry] at h
        cases h
      | ok entry =>
        obtain ⟨key, hkeyed, rfl⟩ := KeySpec.entry_eq_ok.mp hentry
        rw [hentry, mapError_ok, ok_bind] at h
        rcases bindEntry_spec id ready.answers transaction key with
          ⟨_, _, herror⟩ | ⟨hfree, hok⟩
        · rw [herror] at h
          cases h
        · rw [hok] at h
          cases h
          refine ⟨key, _, rfl, stepped_of_bindEntry _ hindex ready.answers.tree hkeyed hfree
            [.outdated id (Key.entry oldKey row) row] (by simp) ?_⟩
          intro _ _ h hkeyed'
          cases h
          rw [hkeyed'.unique holdKeyed]
          exact Or.inr List.mem_cons_self

end Step

/-! ## 3. All steps -/

section Steps

variable {l : Ledger} {transaction : Int} {old? : Option Record} {old record : Record}
  {row : RowHandle} {table : Table} {id : Nat}

theorem refusal_bindEntry (l : Ledger) (transaction : Int) (id : Nat) (row : RowHandle)
    (table : Table) (indexes : List Index) (index : Index) (entry : Bytes) :
    refusal? ((table.withIndexes indexes).bindEntry l transaction id index entry row) =
      refusal? (table.bindEntry l transaction id index entry row) := by
  have howned : (table.withIndexes indexes).isOwned l transaction index entry row =
      table.isOwned l transaction index entry row := rfl
  unfold bindEntry
  rw [howned]
  cases index.spec.unique with
  | false =>
    rw [if_neg Bool.false_ne_true]
    cases index.trie.putIfAbsent entry row with
    | mk trie found => cases found <;> rfl
  | true =>
    rw [if_pos rfl]
    cases table.isOwned l transaction index entry row with
    | error e => rfl
    | ok b =>
      cases b with
      | true => rfl
      | false =>
        cases index.trie.putIfAbsent entry row with
        | mk trie found => cases found <;> rfl

theorem refusal_bindRecord (table : Table) {indexes : List Index}
    (h : indexes[id]? = table.indexes[id]?) :
    refusal? (bindRecord l transaction record row (table.withIndexes indexes) id) =
      refusal? (bindRecord l transaction record row table id) := by
  have hindex : (table.withIndexes indexes).index id = table.index id := by
    rw [Table.index, indexes_withIndexes, h]
    rfl
  rw [bindRecord, bindRecord, hindex]
  cases table.index id with
  | error e => rfl
  | ok index =>
    simp only [mapError_ok, ok_bind]
    show refusal? ((index.spec.entry table.maxKeyLength record row).mapError .failed >>= _) = _
    cases index.spec.entry table.maxKeyLength record row with
    | error e => rfl
    | ok entry => exact refusal_bindEntry _ _ _ _ table indexes index entry

theorem refusal_rebindRecord (table : Table) {indexes : List Index}
    (h : indexes[id]? = table.indexes[id]?) :
    refusal? (rebindRecord l transaction old record row (table.withIndexes indexes) id) =
      refusal? (rebindRecord l transaction old record row table id) := by
  have hindex : (table.withIndexes indexes).index id = table.index id := by
    rw [Table.index, indexes_withIndexes, h]
    rfl
  rw [rebindRecord, rebindRecord, hindex]
  cases table.index id with
  | error e => rfl
  | ok index =>
    simp only [mapError_ok, ok_bind]
    cases index.spec.sameKey old record with
    | error e => rfl
    | ok same =>
      cases same with
      | true => rfl
      | false =>
        simp only [mapError_ok, ok_bind, Bool.false_eq_true, if_false]
        show refusal? ((index.spec.entry table.maxKeyLength old row).mapError .failed >>= _) = _
        cases index.spec.entry table.maxKeyLength old row with
        | error e => rfl
        | ok oldEntry =>
          simp only [mapError_ok, ok_bind]
          show refusal? ((index.spec.entry table.maxKeyLength record row).mapError .failed >>= _) = _
          cases index.spec.entry table.maxKeyLength record row with
          | error e => rfl
          | ok entry =>
            simp only [mapError_ok, ok_bind]
            have hrefusal := refusal_bindEntry l transaction id row table indexes
              index entry
            cases hwith : (table.withIndexes indexes).bindEntry l transaction id index entry row with
            | error e =>
              rw [hwith] at hrefusal
              cases hold : table.bindEntry l transaction id index entry row with
              | error e' => rw [hold] at hrefusal; exact hrefusal
              | ok done => rw [hold] at hrefusal; cases hrefusal
            | ok done =>
              rw [hwith] at hrefusal
              cases hold : table.bindEntry l transaction id index entry row with
              | error e' => rw [hold] at hrefusal; cases hrefusal
              | ok done' => rfl

/-- A step for an index looks at nothing that the steps for other indexes change. -/
structure StepAt (l : Ledger) (transaction : Int) (old? : Option Record) (record : Record)
    (row : RowHandle) (step : Table → Nat → Except Refusal (Table × List Write)) (table : Table)
    (id : Nat) : Prop where
  refusal : ∀ indexes : List Index, indexes[id]? = table.indexes[id]? →
    refusal? (step (table.withIndexes indexes) id) = refusal? (step table id)
  done : ∀ indexes : List Index, indexes[id]? = table.indexes[id]? → ∀ {table' writes},
    step (table.withIndexes indexes) id = .ok (table', writes) → ∃ index key trie,
      table' = (table.withIndexes indexes).modifyIndex id (fun _ => trie) ∧
        Stepped l transaction old? record row (table.withIndexes indexes) id index key trie writes

/-- The indexes of a table once the version has its entries in those of the given numbers. -/
structure Filled (l : Ledger) (transaction : Int) (old? : Option Record) (record : Record)
    (row : RowHandle) (table : Table) (ids : List Nat) (indexes indexes' : List Index)
    (writes : List Write) : Prop where
  length : indexes'.length = indexes.length
  others : ∀ i, i ∉ ids → indexes'[i]? = indexes[i]?
  filled : ∀ i ∈ ids, ∃ index key trie, table.indexes[i]? = some index ∧
    indexes'[i]? = some { index with trie } ∧ index.spec.Keyed table.maxKeyLength record key ∧
    Binds index key row trie ∧
    (index.trie.get? (Key.entry key row) = none → .bound i (Key.entry key row) row ∈ writes) ∧
    (index.spec.unique = true →
      (∃ old, old? = some old ∧ index.spec.Keyed table.maxKeyLength old key) ∨
        Free l transaction index.spec key row table) ∧
    NotesOld old? table.maxKeyLength index i key row writes
  made : ∀ write ∈ writes, ∃ i ∈ ids, ∃ index key, table.indexes[i]? = some index ∧
    index.spec.Keyed table.maxKeyLength record key ∧ IsStepWrite i index key row write

/-- The entry in one index, and then those in the others. -/
theorem Filled.cons {id : Nat} {ids : List Nat} {indexes indexes₁ indexes' : List Index}
    {index : Index} {key : Bytes} {trie : Trie} {writes more : List Write}
    (hfilled : Filled l transaction old? record row table ids indexes₁ indexes' more)
    (hnot : id ∉ ids) (hold : table.indexes[id]? = some index)
    (hlength : indexes₁.length = indexes.length)
    (hget : ∀ i : Nat, indexes₁[i]? = if i = id then some { index with trie } else indexes[i]?)
    (hstepped : Stepped l transaction old? record row (table.withIndexes indexes) id index key trie
      writes) :
    Filled l transaction old? record row table (id :: ids) indexes indexes' (writes ++ more) where
  length := hfilled.length.trans hlength
  others i hi := by
    rw [List.mem_cons, not_or] at hi
    rw [hfilled.others i hi.2, hget, if_neg hi.1]
  filled i hi := by
    rcases List.mem_cons.mp hi with rfl | hi
    · refine ⟨index, key, trie, hold, ?_, hstepped.keyed, hstepped.binds, fun hnone => ?_,
        hstepped.free, fun _ _ h hkeyed =>
          (hstepped.noted _ _ h hkeyed).imp_right (List.mem_append_left _)⟩
      · rw [hfilled.others i hnot, hget, if_pos rfl]
      · exact List.mem_append_left _ (hstepped.bound hnone)
    · obtain ⟨index', key', trie', hthere, hafter, hkeyed, hbinds, hbound, hfree, hnoted⟩ :=
        hfilled.filled i hi
      exact ⟨index', key', trie', hthere, hafter, hkeyed, hbinds,
        fun hnone => List.mem_append_right _ (hbound hnone), hfree,
        fun _ _ h hkeyed => (hnoted _ _ h hkeyed).imp_right (List.mem_append_right _)⟩
  made write hwrite := by
    rcases List.mem_append.mp hwrite with hwrite | hwrite
    · exact ⟨id, List.mem_cons_self, index, key, hold, hstepped.keyed,
        hstepped.made write hwrite⟩
    · obtain ⟨i, hi, hmade⟩ := hfilled.made write hwrite
      exact ⟨i, List.mem_cons_of_mem _ hi, hmade⟩

/-- Going through the indexes is refused by the first that refuses by itself. What was done until
then can be taken back, and if none refuses, every index has its entry. -/
theorem forEachIndex_spec {step : Table → Nat → Except Refusal (Table × List Write)}
    {ids : List Nat} (hstep : ∀ id ∈ ids, StepAt l transaction old? record row step table id)
    (nodup : ids.Nodup) {indexes : List Index}
    (same : ∀ id ∈ ids, indexes[id]? = table.indexes[id]?) (trees : Trees (table.withIndexes indexes)) :
    (forEachIndex step ids (table.withIndexes indexes)).2.2 =
        ids.findSome? (fun id => refusal? (step table id)) ∧
      (table.withIndexes indexes).Unchanged
        ((forEachIndex step ids (table.withIndexes indexes)).1.undoAll transaction
          (forEachIndex step ids (table.withIndexes indexes)).2.1) ∧
      ((forEachIndex step ids (table.withIndexes indexes)).2.2 = none → ∃ indexes',
        (forEachIndex step ids (table.withIndexes indexes)).1 = table.withIndexes indexes' ∧
          Filled l transaction old? record row table ids indexes indexes'
            (forEachIndex step ids (table.withIndexes indexes)).2.1) := by
  -- The steps so far have changed other indexes, so each finds its own as it was in the table.
  induction ids generalizing indexes with
  | nil =>
    refine ⟨rfl, .refl _, fun _ => ⟨indexes, rfl, rfl, fun _ _ => rfl, ?_, ?_⟩⟩
    · intro i hi
      cases hi
    · intro write hwrite
      cases hwrite
  | cons id ids ih =>
    obtain ⟨hnot, hnodup⟩ := List.nodup_cons.mp nodup
    have hhere := same id List.mem_cons_self
    have hat := hstep id List.mem_cons_self
    have hrefusal := hat.refusal indexes hhere
    rw [forEachIndex, List.findSome?_cons, ← hrefusal]
    cases hresult : step (table.withIndexes indexes) id with
    | error refusal =>
      refine ⟨rfl, .refl _, fun h => ?_⟩
      cases h
    | ok done =>
      obtain ⟨table', writes⟩ := done
      obtain ⟨index, key, trie, rfl, hstepped⟩ := hat.done indexes hhere hresult
      have hold : table.indexes[id]? = some index := by
        rw [← hhere]
        exact hstepped.here
      let indexes₁ := indexes.modify id fun index => { index with trie }
      have hnext : (table.withIndexes indexes).modifyIndex id (fun _ => trie) =
          table.withIndexes indexes₁ := rfl
      have hget : ∀ i : Nat, indexes₁[i]? =
          if i = id then some { index with trie } else indexes[i]? := by
        intro i
        have hmodify := indexes_modifyIndex (table.withIndexes indexes) id i (fun _ => trie)
        rw [hnext, indexes_withIndexes, indexes_withIndexes] at hmodify
        rw [hmodify]
        split
        · rename_i heq
          rw [heq, hhere, hold]
          rfl
        · rfl
      have hsame : ∀ i ∈ ids, indexes₁[i]? = table.indexes[i]? := by
        intro i hi
        rw [hget, if_neg (fun heq : i = id => hnot (heq ▸ hi))]
        exact same i (List.mem_cons_of_mem _ hi)
      have htrees : Trees (table.withIndexes indexes₁) := by
        refine ⟨trees.primary, fun {i other} hi => ?_⟩
        rw [indexes_withIndexes, hget] at hi
        split at hi
        · cases hi
          exact hstepped.binds.tree
        · exact trees.indexes hi
      obtain ⟨hfind, hundo, hdone⟩ := ih (fun i hi => hstep i (List.mem_cons_of_mem _ hi)) hnodup
        hsame htrees
      have hundone := hstepped.undone
      rw [hnext] at hundone
      simp only [refusal?]
      rw [hnext]
      refine ⟨hfind, ?_, fun hnone => ?_⟩
      · rw [undoAll_append]
        exact hundone.trans (hundo.undoAll htrees transaction writes).1
      · obtain ⟨indexes', htable, hfilled⟩ := hdone hnone
        exact ⟨indexes', htable, hfilled.cons hnot hold (List.length_modify _ _ _) hget hstepped⟩

end Steps

end Table
end SnapshotStore
