import Mathlib
import SnapshotStore.Proofs.Table.Reclaim
import SnapshotStore.Proofs.Table.Written

/-!
# Reclaiming what was reclaimed

The first table that is reclaimed has the ledger forget transactions that the next one asks about, and
a table that is reclaimed twice is asked about its own leavings. Both times the question is what the
parts of reclamation make of a ledger that has been pruned.

Of a ledger they ask one thing only, whether the creator of a version committed at or below the horizon,
so ledgers that *judge* the creators *alike* lead to the same table (`reclaim_of_judgedAlike`). In a table
that is in order every creator runs or has committed, and of those a ledger forgets nothing that counts
when it is pruned (`Ok.judgedAlike_prune`).

With that, what is left by reclamation is left by each part of it (`Exhausted`). No part puts anything
back that an earlier one would take: what waits goes on waiting as the horizon stays, and a chain that
was cut is too short to be cut again.
-/

namespace List

/-- A list none of whose members is taken is split into nothing and itself. -/
theorem partition_of_forall {α : Type} {p : α → Bool} {xs : List α} (h : ∀ x ∈ xs, p x = false) :
    xs.partition p = ([], xs) := by
  rw [partition_eq_filter_filter, filter_eq_nil_iff.mpr fun x hx => by simp [h x hx],
    filter_eq_self.mpr fun x hx => by simp [h x hx]]

end List

namespace SnapshotStore

/-! ## 1. Ledgers that judge alike -/

namespace Chain

/-- The ledgers agree on which versions everybody sees. -/
def JudgedAlike (l l' : Ledger) (horizon : Int) (chain : Chain) : Prop :=
  ∀ v ∈ chain, l'.committedBy v.created.transaction horizon =
    l.committedBy v.created.transaction horizon

variable {l l' : Ledger} {horizon : Int} {chain : Chain}

theorem JudgedAlike.isSettled (alike : chain.JudgedAlike l l' horizon) :
    chain.isSettled l' horizon = chain.isSettled l horizon := by
  match chain, alike with
  | [], _ | [_], _ => rfl
  | newest :: second :: older, alike =>
    rw [Chain.isSettled, Chain.isSettled, alike newest List.mem_cons_self]

theorem JudgedAlike.mayCarry (alike : chain.JudgedAlike l l' horizon) (spec : KeySpec)
    (entry : Bytes) : chain.mayCarry l' horizon spec entry = chain.mayCarry l horizon spec entry := by
  induction chain with
  | nil => rfl
  | cons v older ih =>
    rw [Chain.mayCarry, Chain.mayCarry, alike v List.mem_cons_self,
      ih fun w hw => alike w (List.mem_cons_of_mem _ hw)]

end Chain

namespace Table

open Chain

variable {l l' : Ledger} {work : Work} {tid : TableId} {table : Table} {horizon : Int}

/-- The ledgers agree on which versions of the table everybody sees. -/
def JudgedAlike (l l' : Ledger) (horizon : Int) (table : Table) : Prop :=
  ∀ (row : RowHandle) (chain : Chain), table.rows[row]? = some chain →
    chain.JudgedAlike l l' horizon

theorem truncated_of_judgedAlike {chain : Chain} (alike : chain.JudgedAlike l l' horizon)
    (table : Table) : table.truncated l' horizon chain = table.truncated l horizon chain := by
  rw [truncated, truncated, truncate, truncate, alike.isSettled]

/-- Truncation goes by what becomes of each chain of the table. -/
theorem truncateChains_eq {f : Chain → Chain}
    (h : ∀ (row : RowHandle) (chain : Chain), table.rows[row]? = some chain →
      table.truncated l horizon chain = f chain) :
    table.truncateChains l horizon =
      ({ table with rows := table.rows.map fun _ chain => f chain },
        (table.rows.toList.map fun entry => entry.2.length - (f entry.2).length).sum) := by
  rw [truncateChains]
  refine Prod.ext ?_ (congrArg List.sum (List.map_congr_left fun entry hmem => ?_))
  · have hrows : (table.rows.map fun _ chain => table.truncated l horizon chain) =
        table.rows.map fun _ chain => f chain := by
      refine Std.ExtTreeMap.ext_getElem? fun row => ?_
      rw [Std.ExtTreeMap.getElem?_map, Std.ExtTreeMap.getElem?_map]
      cases hrow : table.rows[row]? with
      | none => rfl
      | some chain => exact congrArg some (h row chain hrow)
    rw [hrows]
  · obtain ⟨row, chain⟩ := entry
    have hrow := Std.ExtTreeMap.mem_toList_iff_getElem?_eq_some.mp hmem
    dsimp only
    rw [h row chain hrow]

theorem JudgedAlike.truncateChains (alike : table.JudgedAlike l l' horizon) :
    table.truncateChains l' horizon = table.truncateChains l horizon :=
  (truncateChains_eq fun row chain hrow =>
    truncated_of_judgedAlike (alike row chain hrow) table).trans
      (truncateChains_eq fun _ _ _ => rfl).symm

/-- Chains that were cut are judged alike if they were before. -/
theorem JudgedAlike.truncated (alike : table.JudgedAlike l l' horizon) :
    (table.truncateChains l horizon).1.JudgedAlike l l' horizon := by
  intro row chain hrow v hv
  have hcut : (table.rows[row]?).map (table.truncated l horizon) = some chain :=
    Std.ExtTreeMap.getElem?_map.symm.trans hrow
  obtain ⟨old, hold, rfl⟩ := Option.map_eq_some_iff.mp hcut
  obtain ⟨w, hw, _, hcreated, _⟩ := exists_of_mem_truncated hv
  rw [hcreated]
  exact alike row old hold w hw

theorem rows_dropOutdated (table : Table) (l : Ledger) (horizon : Int) (outdated : OutdatedEntry) :
    (table.dropOutdated l horizon outdated).1.rows = table.rows := by
  rw [dropOutdated]
  split
  · rfl
  · split <;> rfl

theorem JudgedAlike.dropOutdated (alike : table.JudgedAlike l l' horizon)
    (outdated : OutdatedEntry) :
    table.dropOutdated l' horizon outdated = table.dropOutdated l horizon outdated := by
  have hkeep : ∀ index : Index, table.mustKeep l' horizon index outdated =
      table.mustKeep l horizon index outdated := by
    intro index
    rw [mustKeep, mustKeep]
    cases hrow : table.rows[outdated.row]? with
    | none => rfl
    | some chain => exact (alike _ chain hrow).mayCarry index.spec outdated.entry
  rw [Table.dropOutdated, Table.dropOutdated]
  simp only [hkeep]

theorem JudgedAlike.dropAllOutdated (alike : table.JudgedAlike l l' horizon)
    (outdated : List OutdatedEntry) :
    dropAllOutdated l' horizon table outdated = dropAllOutdated l horizon table outdated := by
  induction outdated generalizing table with
  | nil => rfl
  | cons entry rest ih =>
    have hnext : (table.dropOutdated l horizon entry).1.JudgedAlike l l' horizon := by
      intro row chain hrow
      rw [rows_dropOutdated] at hrow
      exact alike row chain hrow
    rw [Table.dropAllOutdated, Table.dropAllOutdated, alike.dropOutdated]
    dsimp only
    rw [ih hnext]

theorem JudgedAlike.unbindOutdated (alike : table.JudgedAlike l l' horizon) :
    table.unbindOutdated l' horizon = table.unbindOutdated l horizon := by
  have hwaiting : { table with outdated := table.waitingEntries horizon }.JudgedAlike l l' horizon :=
    alike
  rw [unbindOutdated_eq, unbindOutdated_eq, hwaiting.dropAllOutdated]

/-- Reclamation does the same from ledgers that judge alike, but for what the ledger forgets. -/
theorem reclaim_of_judgedAlike (hhorizon : l'.horizon = l.horizon)
    (alike : (table.purgeDeleted l.horizon).1.JudgedAlike l l' l.horizon) :
    table.reclaim l' = ((table.reclaim l).1, l'.prune.1,
      { (table.reclaim l).2.2 with transactions := l'.prune.2 }) := by
  -- Purging asks nothing but the horizon, so that both go on from the same table.
  rw [Table.reclaim, Table.reclaim, hhorizon]
  dsimp only
  rw [alike.truncateChains, alike.truncated.unbindOutdated]

/-! ## 2. A ledger that has forgotten -/

/-- Of the creators of versions nothing is forgotten that would make a difference. -/
theorem Ok.judgedAlike_prune (ok : Ok l work tid [] table) (lok : l.Ok) (wok : Work.Ok l work) :
    table.JudgedAlike l l.prune.1 l.horizon := by
  intro row chain hrow v hv
  obtain ⟨holder, hlayered, _⟩ := ok.held row
  rw [chainOf_eq hrow] at hlayered
  -- The creator holds the row and runs, or has committed. An aborted one could be forgotten.
  refine Ledger.committedBy_prune lok (Int.le_refl _) ?_
  rcases hlayered.creator v hv with ⟨hlog, heq⟩ | hcommitted
  · rw [heq]
    exact Or.inl (wok.running_of_rowLog hlog)
  · exact Or.inr hcommitted

/-- Reclaiming another table before makes no difference, but that the ledger has forgotten already. -/
theorem Ok.reclaim_prune (ok : Ok l work tid [] table) (lok : l.Ok) (wok : Work.Ok l work) :
    table.reclaim l.prune.1 = ((table.reclaim l).1, l.prune.1,
      { (table.reclaim l).2.2 with transactions := 0 }) := by
  have alike := ok.purgeDeleted_spec.2.judgedAlike_prune lok wok
  rw [reclaim_of_judgedAlike Ledger.horizon_prune alike, Ledger.prune_prune]

/-! ## 3. Nothing left -/

/-- There is nothing for reclamation to do. -/
structure Exhausted (l : Ledger) (table : Table) : Prop where
  deletes : ∀ note ∈ table.pendingDeletes, l.horizon < note.2
  chains : ∀ {row : RowHandle} {chain : Chain}, table.rows[row]? = some chain →
    table.truncated l l.horizon chain = chain
  entries : ∀ note ∈ table.outdated, l.horizon < note.sequence
  ledger : l.prune = (l, 0)

theorem Exhausted.purgeDeleted (done : Exhausted l table) :
    table.purgeDeleted l.horizon = (table, 0) := by
  have hnone : ∀ note ∈ table.pendingDeletes, decide (note.2 ≤ l.horizon) = false :=
    fun note hnote => decide_eq_false (Int.not_le.mpr (done.deletes note hnote))
  rw [Table.purgeDeleted, List.partition_of_forall hnone]
  rfl

theorem Exhausted.truncateChains (done : Exhausted l table) :
    table.truncateChains l l.horizon = (table, 0) := by
  rw [truncateChains_eq fun _ _ hrow => done.chains hrow]
  have hrows : (table.rows.map fun _ chain => chain) = table.rows := by
    refine Std.ExtTreeMap.ext_getElem? fun row => ?_
    rw [Std.ExtTreeMap.getElem?_map, Option.map_id']
  have hdropped : (table.rows.toList.map fun entry => entry.2.length - entry.2.length).sum = 0 := by
    simp only [Nat.sub_self, List.map_const', List.sum_replicate, smul_zero]
  rw [hrows, hdropped]

theorem Exhausted.unbindOutdated (done : Exhausted l table) :
    table.unbindOutdated l l.horizon = (table, 0) := by
  have hnone : ∀ note ∈ table.outdated, decide (note.sequence ≤ l.horizon) = false :=
    fun note hnote => decide_eq_false (Int.not_le.mpr (done.entries note hnote))
  rw [Table.unbindOutdated, List.partition_of_forall hnone]
  rfl

/-- Where there is nothing to do, nothing is done. -/
theorem Exhausted.reclaim (done : Exhausted l table) : table.reclaim l = (table, l, {}) := by
  rw [Table.reclaim, done.purgeDeleted]
  dsimp only
  rw [done.truncateChains]
  dsimp only
  rw [done.unbindOutdated, done.ledger]

/-- A chain that was cut is too short to be cut again. -/
theorem truncated_truncated (table : Table) (l : Ledger) (horizon : Int) (chain : Chain) :
    table.truncated l horizon (table.truncated l horizon chain) =
      table.truncated l horizon chain := by
  rcases truncated_cases table l horizon chain with heq | ⟨newest, _, _, _, _, heq⟩
  · rw [heq, heq]
  · rw [heq, truncated, truncate]
    split <;> rfl

/-- Reclamation leaves nothing to do. -/
theorem Ok.exhausted (ok : Ok l work tid [] table) (lok : l.Ok) (wok : Work.Ok l work) :
    Exhausted l.prune.1 (table.reclaim l).1 := by
  obtain ⟨hreclaimed, _, _⟩ := ok.reclaim lok wok
  obtain ⟨hdeletes, hentries⟩ := ok.reclaim_waiting lok wok
  refine ⟨fun note hnote => ?_, fun {row chain} hrow => ?_, fun note hnote => ?_,
    Ledger.prune_prune l⟩
  · rw [hdeletes] at hnote
    rw [Ledger.horizon_prune]
    simpa using (List.mem_filter.mp hnote).2
  · rw [hreclaimed.rows] at hrow
    split at hrow
    · cases hrow
    · obtain ⟨old, hold, rfl⟩ := Option.map_eq_some_iff.mp hrow
      have hlimit : (table.reclaim l).1.truncated = table.truncated := by
        funext l' horizon chain
        rw [Table.truncated, Table.truncated, hreclaimed.rest.maxVersionHistory]
      have halike : Chain.JudgedAlike l l.prune.1 l.horizon (table.truncated l l.horizon old) := by
        intro v hv
        obtain ⟨w, hw, _, hcreated, _⟩ := exists_of_mem_truncated hv
        rw [hcreated]
        exact ok.judgedAlike_prune lok wok row old hold w hw
      rw [hlimit, Ledger.horizon_prune, truncated_of_judgedAlike halike, truncated_truncated]
  · rw [hentries] at hnote
    rw [Ledger.horizon_prune]
    simpa using (List.mem_filter.mp hnote).2

/-- Reclaiming twice in a row is reclaiming once. -/
theorem Ok.reclaim_again (ok : Ok l work tid [] table) (lok : l.Ok) (wok : Work.Ok l work) :
    (table.reclaim l).1.reclaim l.prune.1 = ((table.reclaim l).1, l.prune.1, {}) :=
  (ok.exhausted lok wok).reclaim

end Table
end SnapshotStore
