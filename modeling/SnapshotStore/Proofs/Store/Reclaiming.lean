import Mathlib
import SnapshotStore.Proofs.Store.Move
import SnapshotStore.Proofs.Table.Exhausted

/-!
# Reclaiming several tables

The tables of a store share a ledger, and reclaiming one of them prunes it: the table that comes first
decides by the commits on record, all others by what is left of them, and the first one alone counts
what was forgotten. None of this can be told from the outcome. Two tables commute, counts included
(`Ok.reclaimTable_comm`), because a pruned ledger does for a table what the whole one would have done,
and so every order of any number of tables has the same outcome (`Ok.reclaimTables_perm`).

A table that was reclaimed has nothing left to give. It commutes with the others as well, so it has
nothing left when they were reclaimed in between, and a list of tables may be gone through again for
nothing (`Ok.reclaimTables_again`).
-/

namespace SnapshotStore

/-! ## 1. Counts -/

namespace ReclaimStats

theorem add_assoc (a b c : ReclaimStats) : (a.add b).add c = a.add (b.add c) := by
  simp only [add, Nat.add_assoc]

theorem add_comm (a b : ReclaimStats) : a.add b = b.add a := by
  simp only [add, Nat.add_comm]

theorem zero_add (a : ReclaimStats) : add {} a = a := by
  simp only [add, Nat.zero_add]

/-- What adds nothing is nothing. -/
theorem eq_zero_of_add {a b : ReclaimStats} (h : a.add b = a) : b = {} := by
  have hrows : b.rows = 0 := Nat.add_eq_left.mp (congrArg rows h)
  have hversions : b.versions = 0 := Nat.add_eq_left.mp (congrArg versions h)
  have hbindings : b.bindings = 0 := Nat.add_eq_left.mp (congrArg bindings h)
  have htransactions : b.transactions = 0 := Nat.add_eq_left.mp (congrArg transactions h)
  cases b
  simp_all only

end ReclaimStats

namespace Store

variable {store : Store} {work : Work} {a b tid : TableId} {ta tb table : Table}

/-! ## 2. Two tables -/

/-- Reclaiming a table leaves the others. -/
theorem tables_reclaimTable (hne : b ≠ a) (store : Store) :
    (store.reclaimTable a).1.tables[b]? = store.tables[b]? := by
  cases here : store.tables[a]? with
  | none => rw [reclaimTable_of_absent here]
  | some table =>
    rw [reclaimTable_eq here, tables_setTable, if_neg hne]
    rfl

/-- What comes of a table when another one was reclaimed before. -/
theorem Ok.reclaimTable_after (ok : store.Ok work) (hne : b ≠ a)
    (ha : store.tables[a]? = some ta) (hb : store.tables[b]? = some tb) :
    (store.reclaimTable a).1.reclaimTable b =
      ({ ledger := store.ledger.prune.1
         tables := (store.tables.insert a (ta.reclaim store.ledger).1).insert b
          (tb.reclaim store.ledger).1 },
        { (tb.reclaim store.ledger).2.2 with transactions := 0 }) := by
  have hlater := tables_reclaimTable hne store
  rw [hb] at hlater
  have hledger : (store.reclaimTable a).1.ledger = store.ledger.prune.1 := by
    rw [reclaimTable_eq ha]
    rfl
  have hreclaim := (ok.tables hb).reclaim_prune ok.ledger ok.runs
  rw [reclaimTable_eq hlater, hledger, hreclaim, Ledger.prune_prune, reclaimTable_eq ha]
  rfl

/-- Two tables may be reclaimed in either order. -/
theorem Ok.reclaimTable_comm (ok : store.Ok work) (a b : TableId) :
    ((store.reclaimTable a).1.reclaimTable b).1 = ((store.reclaimTable b).1.reclaimTable a).1 ∧
      (store.reclaimTable a).2.add ((store.reclaimTable a).1.reclaimTable b).2 =
        (store.reclaimTable b).2.add ((store.reclaimTable b).1.reclaimTable a).2 := by
  by_cases heq : a = b
  · rw [heq]
    exact ⟨rfl, rfl⟩
  cases ha : store.tables[a]? with
  | none =>
    rw [reclaimTable_of_absent ha,
      reclaimTable_of_absent ((tables_reclaimTable heq store).trans ha)]
    exact ⟨rfl, ReclaimStats.add_comm _ _⟩
  | some ta =>
    cases hb : store.tables[b]? with
    | none =>
      rw [reclaimTable_of_absent hb,
        reclaimTable_of_absent ((tables_reclaimTable (Ne.symm heq) store).trans hb)]
      exact ⟨rfl, ReclaimStats.add_comm _ _⟩
    | some tb =>
      rw [ok.reclaimTable_after (Ne.symm heq) ha hb, ok.reclaimTable_after heq hb ha,
        Maps.insert_comm heq, reclaimTable_eq ha, reclaimTable_eq hb]
      refine ⟨rfl, ?_⟩
      -- Whichever comes first counts the transactions, and they are the same.
      simp only [ReclaimStats.add, Table.transactions_reclaim, Nat.add_comm]

/-! ## 3. Any number of tables -/

theorem reclaimTables_cons (store : Store) (tid : TableId) (tids : List TableId) :
    store.reclaimTables (tid :: tids) =
      (((store.reclaimTable tid).1.reclaimTables tids).1,
        (store.reclaimTable tid).2.add ((store.reclaimTable tid).1.reclaimTables tids).2) := rfl

theorem Ok.reclaimTables (ok : store.Ok work) (tids : List TableId) :
    (store.reclaimTables tids).1.Ok work := by
  induction tids generalizing store with
  | nil => exact ok
  | cons tid tids ih => exact ih (ok.reclaimTable tid)

/-- The order in which tables are reclaimed makes no difference. -/
theorem Ok.reclaimTables_perm {tids tids' : List TableId} (perm : tids.Perm tids')
    (ok : store.Ok work) : store.reclaimTables tids = store.reclaimTables tids' := by
  induction perm generalizing store with
  | nil => rfl
  | cons tid _ ih => rw [reclaimTables_cons, reclaimTables_cons, ih (ok.reclaimTable tid)]
  | swap a b rest =>
    obtain ⟨hstore, hstats⟩ := ok.reclaimTable_comm b a
    rw [reclaimTables_cons, reclaimTables_cons, reclaimTables_cons, reclaimTables_cons,
      ← ReclaimStats.add_assoc, ← ReclaimStats.add_assoc, hstore, hstats]
  | trans _ _ ih ih' => exact (ih ok).trans (ih' ok)

/-! ## 4. Once more -/

/-- There is nothing to reclaim in the table. -/
def Exhausted (store : Store) (tid : TableId) : Prop := store.reclaimTable tid = (store, {})

/-- There is nothing left in a table that was reclaimed. -/
theorem Ok.exhausted (ok : store.Ok work) (tid : TableId) :
    (store.reclaimTable tid).1.Exhausted tid := by
  cases here : store.tables[tid]? with
  | none =>
    rw [reclaimTable_of_absent here]
    exact reclaimTable_of_absent here
  | some table =>
    have hagain := (ok.tables here).reclaim_again ok.ledger ok.runs
    have hthere : ((store.withLedger store.ledger.prune.1).setTable tid
        (table.reclaim store.ledger).1).tables[tid]? = some (table.reclaim store.ledger).1 := by
      rw [tables_setTable, if_pos rfl]
    rw [reclaimTable_eq here, Exhausted, reclaimTable_eq hthere]
    have hledger : ((store.withLedger store.ledger.prune.1).setTable tid
        (table.reclaim store.ledger).1).ledger = store.ledger.prune.1 := rfl
    rw [hledger, hagain, Ledger.prune_prune]
    exact Prod.ext (congrArg (Store.mk _) (Maps.insert_self hthere)) rfl

/-- Nor is there when another table was reclaimed since. -/
theorem Exhausted.after (done : store.Exhausted a) (ok : store.Ok work) (b : TableId) :
    (store.reclaimTable b).1.Exhausted a := by
  -- Both orders lead to one store and one sum, and where `a` comes first it adds nothing.
  obtain ⟨hstore, hstats⟩ := ok.reclaimTable_comm b a
  rw [done] at hstore hstats
  rw [ReclaimStats.zero_add] at hstats
  exact Prod.ext hstore (ReclaimStats.eq_zero_of_add hstats)

theorem Exhausted.afterAll (done : store.Exhausted a) (ok : store.Ok work) (tids : List TableId) :
    (store.reclaimTables tids).1.Exhausted a := by
  induction tids generalizing store with
  | nil => exact done
  | cons tid tids ih => exact ih (done.after ok tid) (ok.reclaimTable tid)

theorem reclaimTables_of_exhausted {tids : List TableId}
    (done : ∀ tid ∈ tids, store.Exhausted tid) : store.reclaimTables tids = (store, {}) := by
  induction tids with
  | nil => rfl
  | cons tid tids ih =>
    rw [reclaimTables_cons, done tid List.mem_cons_self,
      ih fun t ht => done t (List.mem_cons_of_mem _ ht)]
    rfl

/-- Reclaiming the same tables once more does nothing. -/
theorem Ok.reclaimTables_again (ok : store.Ok work) (tids : List TableId) :
    (store.reclaimTables tids).1.reclaimTables tids = ((store.reclaimTables tids).1, {}) := by
  refine reclaimTables_of_exhausted fun tid htid => ?_
  -- Wherever it stands in the list, the table was reclaimed and then some others.
  obtain ⟨before, after, rfl⟩ := List.append_of_mem htid
  induction before generalizing store with
  | nil => exact (ok.exhausted tid).afterAll (ok.reclaimTable tid) after
  | cons first before ih =>
    exact ih (ok.reclaimTable first) (List.mem_append_right _ List.mem_cons_self)

end Store
end SnapshotStore
