import Mathlib
import SnapshotStore.Table.Ownership
import SnapshotStore.Proofs.Table.Ok
import SnapshotStore.Proofs.Trie.Scan

/-!
# Who owns a key, without the index

Whether a key is taken is asked through the index: the rows stored under the key, and of each its
chain. In a table that is in order the index hides nothing, because the versions that ownership looks
at, the newest and the one below a newest that is not committed, are in reach. So the answer is a fact
about chains alone (`isOwned_spec`), and nothing that reads the entries can fail.
-/

namespace SnapshotStore

open Fallible

/-! ## 1. Asking one by one -/

theorem anyM_spec {α ε : Type} {f : α → Except ε Bool} {P : α → Prop} {xs : List α}
    (h : ∀ x ∈ xs, ∃ b, f x = .ok b ∧ (b = true ↔ P x)) :
    ∃ b, xs.anyM f = .ok b ∧ (b = true ↔ ∃ x ∈ xs, P x) := by
  induction xs with
  | nil => exact ⟨false, rfl, by simp⟩
  | cons x xs ih =>
    obtain ⟨b, hx, hb⟩ := h x List.mem_cons_self
    obtain ⟨c, hxs, hc⟩ := ih fun y hy => h y (List.mem_cons_of_mem _ hy)
    rw [List.anyM, hx, ok_bind]
    cases b with
    | true => exact ⟨true, rfl, by simp [hb.mp rfl]⟩
    | false =>
      have hnot : ¬ P x := fun hP => Bool.false_ne_true (hb.mpr hP)
      exact ⟨c, hxs, by simp [hc, hnot]⟩

/-! ## 2. Owning -/

namespace Chain

/-- The row with this chain owns the key, as `transaction` has to see it. -/
def Owns (spec : KeySpec) (l : Ledger) (transaction : Int) (key : Bytes) : Chain → Prop
  | [] => False
  | newest :: older =>
    newest.deleted.any (fun stamp =>
      stamp.transaction == transaction || l.isCommitted stamp.transaction) = false ∧
    (spec.keyOf newest.record = .ok key ∨
      newest.created.transaction ≠ transaction ∧ l.isCommitted newest.created.transaction = false ∧
        ∃ previous rest, older = previous :: rest ∧ spec.keyOf previous.record = .ok key)

/-- A record whose key can be built carries the entries of that key. -/
theorem carries_entry {spec : KeySpec} {limit : Nat} {record : Record}
    (h : ∃ key, spec.Keyed limit record key) (key : Bytes) (row : RowHandle) :
    ∃ b, spec.carries record (Key.entry key row) = .ok b ∧
      (b = true ↔ spec.keyOf record = .ok key) := by
  obtain ⟨own, hown⟩ := h
  refine ⟨_, hown.carries_entry key row, ?_⟩
  rw [decide_eq_true_iff, hown.1, Except.ok.injEq]

theorem owns_spec {spec : KeySpec} {limit : Nat} {chain : Chain}
    (keyed : ∀ v ∈ chain, ∃ key, spec.Keyed limit v.record key) (l : Ledger) (transaction : Int)
    (key : Bytes) (row : RowHandle) :
    ∃ b, chain.owns spec l transaction (Key.entry key row) = .ok b ∧
      (b = true ↔ Owns spec l transaction key chain) := by
  cases chain with
  | nil => exact ⟨false, rfl, by simp [Owns]⟩
  | cons newest older =>
    obtain ⟨b, hb, hbiff⟩ := carries_entry (keyed newest List.mem_cons_self) key row
    rw [Owns]
    unfold Chain.owns
    dsimp only
    cases hgone : newest.deleted.any fun stamp =>
        stamp.transaction == transaction || l.isCommitted stamp.transaction with
    | true => exact ⟨false, by rw [if_pos rfl], by simp⟩
    | false =>
      rw [if_neg Bool.false_ne_true, hb, ok_bind]
      cases b with
      | true => exact ⟨true, rfl, by simp [hbiff.mp rfl]⟩
      | false =>
        have hnot : ¬ spec.keyOf newest.record = .ok key := fun h =>
          Bool.false_ne_true (hbiff.mpr h)
        simp only [Bool.false_eq_true, if_false, hnot, false_or, true_and, pure_eq]
        by_cases hown : newest.created.transaction = transaction
        · exact ⟨false, by simp [hown], by simp [hown]⟩
        · cases hcommitted : l.isCommitted newest.created.transaction with
          | true => exact ⟨false, by simp, by simp⟩
          | false =>
            have hopen : (newest.created.transaction == transaction ||
                l.isCommitted newest.created.transaction) = false := by
              simp [hown, hcommitted]
            rw [hcommitted] at hopen
            simp only [hopen, Bool.false_eq_true, if_false]
            cases older with
            | nil => exact ⟨false, rfl, by simp⟩
            | cons previous rest =>
              obtain ⟨c, hc, hciff⟩ := carries_entry
                (keyed previous (List.mem_cons_of_mem _ List.mem_cons_self)) key row
              refine ⟨c, hc, ?_⟩
              rw [hciff]
              constructor
              · intro h
                exact ⟨hown, trivial, previous, rest, rfl, h⟩
              · rintro ⟨_, _, _, _, heq, h⟩
                cases heq
                exact h

/-- What makes a row own a key is in reach. -/
theorem Owns.exists_mem_reach {spec : KeySpec} {l : Ledger} {transaction : Int} {key : Bytes}
    {chain : Chain} (h : Owns spec l transaction key chain) :
    ∃ v ∈ reach l l.horizon chain, spec.keyOf v.record = .ok key := by
  cases chain with
  | nil => exact h.elim
  | cons newest older =>
    obtain ⟨_, hkey | ⟨_, hopen, previous, rest, rfl, hkey⟩⟩ := h
    · exact ⟨newest, newest_mem_reach _ _ _ _, hkey⟩
    · refine ⟨previous, mem_reach_cons.mpr (Or.inr ⟨?_, newest_mem_reach _ _ _ _⟩), hkey⟩
      by_contra hne
      rw [Ledger.isCommitted_of_committedBy (Bool.not_eq_false _ ▸ hne)] at hopen
      cases hopen

theorem Owns.exists_keyed {spec : KeySpec} {limit : Nat} {l : Ledger} {transaction : Int}
    {key : Bytes} {chain : Chain} (h : Owns spec l transaction key chain)
    (keyed : ∀ v ∈ chain, ∃ key, spec.Keyed limit v.record key) :
    ∃ v ∈ reach l l.horizon chain, spec.Keyed limit v.record key := by
  obtain ⟨v, hv, hkey⟩ := h.exists_mem_reach
  obtain ⟨own, hown⟩ := keyed v (mem_of_mem_reach hv)
  have heq : own = key := Except.ok.inj (hown.1.symm.trans hkey)
  exact ⟨v, hv, heq ▸ hown⟩

end Chain

namespace Table

open Chain

/-! ## 3. Asking through an index -/

/-- The rows stored under a key are those that its entries lead to. -/
theorem mem_owners {index : Index} (tree : index.trie.pool.IsTree)
    (sound : ∀ {entry row}, index.trie.get? entry = some row → ∃ key, entry = Key.entry key row)
    {key : Bytes} {row owner : RowHandle} :
    owner ∈ index.owners (Key.entry key row) ↔
      index.trie.get? (Key.entry key owner) = some owner := by
  rw [Index.owners, Key.dropLast_entry, List.mem_map]
  obtain ⟨hmem, _⟩ := Trie.entriesBeginning_spec tree (Key.encode key)
  constructor
  · rintro ⟨⟨entry, found⟩, hentry, hfound⟩
    obtain ⟨hbegins, hget⟩ := (hmem _).mp hentry
    obtain ⟨own, hown⟩ := sound hget
    change found = owner at hfound
    subst hfound
    simp only at hown hbegins hget
    rw [hown, Key.encode_isPrefix_entry] at hbegins
    rw [hbegins, ← hown]
    exact hget
  · intro hget
    exact ⟨(Key.entry key owner, owner),
      (hmem _).mpr ⟨Key.encode_isPrefix_entry.mpr rfl, hget⟩, rfl⟩

/-- An index that serves the question who owns a key, but for the row that asks. -/
structure Answers (l : Ledger) (table : Table) (row : RowHandle) (index : Index) : Prop where
  tree : index.trie.pool.IsTree
  sound : ∀ {entry : Bytes} {row : RowHandle}, index.trie.get? entry = some row →
    ∃ key, entry = Key.entry key row
  keyed : ∀ {other : RowHandle} {v : Version}, other ≠ row → v ∈ table.chainOf other →
    ∃ key, index.spec.Keyed table.maxKeyLength v.record key
  complete : ∀ {other : RowHandle} {v : Version} {key : Bytes}, other ≠ row →
    v ∈ reach l l.horizon (table.chainOf other) → index.spec.Keyed table.maxKeyLength v.record key →
      index.trie.get? (Key.entry key other) = some other

/-- A row tells whether it owns the key. -/
theorem ask_owner {table : Table} {spec : KeySpec} {owner : RowHandle}
    (keyed : ∀ v ∈ table.chainOf owner, ∃ key, spec.Keyed table.maxKeyLength v.record key)
    (l : Ledger) (transaction : Int) (key : Bytes) (row : RowHandle) : ∃ b,
      (match table.rows[owner]? with
        | none => .ok false
        | some chain => chain.owns spec l transaction (Key.entry key row) : Except Error Bool) =
          .ok b ∧
        (b = true ↔ Owns spec l transaction key (table.chainOf owner)) := by
  cases hrow : table.rows[owner]? with
  | none =>
    rw [chainOf_of_absent hrow]
    exact ⟨false, rfl, by simp [Owns]⟩
  | some chain =>
    rw [chainOf_eq hrow] at keyed ⊢
    exact owns_spec keyed l transaction key row

/-- Asking through the index comes to the same as asking all rows. -/
theorem isOwned_spec {l : Ledger} {table : Table} {row : RowHandle} {index : Index}
    (h : Answers l table row index) (transaction : Int) (key : Bytes) :
    ∃ b, table.isOwned l transaction index (Key.entry key row) row = .ok b ∧
      (b = true ↔ ∃ owner, owner ≠ row ∧
        Owns index.spec l transaction key (table.chainOf owner)) := by
  obtain ⟨b, hb, hiff⟩ := anyM_spec
    fun owner (howner : owner ∈ (index.owners (Key.entry key row)).filter (· ≠ row)) =>
      have hne : owner ≠ row := by simpa using (List.mem_filter.mp howner).2
      ask_owner (fun _ hv => h.keyed hne hv) l transaction key row
  refine ⟨b, hb, hiff.trans ?_⟩
  constructor
  · rintro ⟨owner, howner, howns⟩
    have hcond := (List.mem_filter.mp howner).2
    exact ⟨owner, by simpa using hcond, howns⟩
  · rintro ⟨owner, hne, howns⟩
    obtain ⟨v, hv, hkeyed⟩ := howns.exists_keyed fun _ hv => h.keyed hne hv
    refine ⟨owner, List.mem_filter.mpr ⟨?_, by simpa using hne⟩, howns⟩
    rw [mem_owners h.tree h.sound]
    exact h.complete hne hv hkeyed

end Table
end SnapshotStore
