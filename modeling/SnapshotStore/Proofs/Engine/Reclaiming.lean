import Mathlib
import SnapshotStore.Engine
import SnapshotStore.Proofs.Fallible
import SnapshotStore.Proofs.Service.Mirrored
import SnapshotStore.Proofs.Store.Reclaiming

/-!
# Reclaiming an engine

An engine reclaims its tables database by database, in the order in which its catalogs list them. That
order says nothing about the tables, so nothing should hang on it, and nothing does. Nor does anything
hang on how often the tables are gone through, as long as nobody works on them in between.

Both are facts about stores. Whatever becomes of an engine, its service is one that a service can become
(`Reachable.becomes`), so the store of every engine there can be is in order, and in a store in order the
tables commute (`Store.Ok.reclaimTables_perm`) and have nothing left the second time
(`Store.Ok.reclaimTables_again`).
-/

namespace SnapshotStore
namespace Engine

/-! ## 1. The engines there can be -/

/-- The engines there can be. Whoever has hold of the ledger of an engine can prune it, and can put
tables on it that no database names. -/
inductive Reachable : Engine → Prop
  | created (config : Config) : Reachable (create config)
  | turnedOn {engine : Engine} (before : Reachable engine) : Reachable engine.turnOn
  | turnedOff {engine : Engine} (before : Reachable engine) : Reachable engine.turnOff
  | databaseCreated {engine after : Engine} {name : String} {id : DatabaseId}
    (before : Reachable engine) (h : engine.createDatabase name = .ok (after, id)) : Reachable after
  | databaseDropped {engine after : Engine} {name : String} (before : Reachable engine)
    (h : engine.dropDatabase name = .ok after) : Reachable after
  | tableCreated {engine after : Engine} {id : DatabaseId} {name : String} {schema : Schema}
    {table : TableId} (before : Reachable engine)
    (h : engine.createTable id name schema = .ok (after, table)) : Reachable after
  | tableDropped {engine after : Engine} {id : DatabaseId} {name : String}
    (before : Reachable engine) (h : engine.dropTable id name = .ok after) : Reachable after
  | asked {engine : Engine} (before : Reachable engine) (request : Request) :
    Reachable (engine.handle request).1
  | tableAdded {engine : Engine} (before : Reachable engine) (name : String) (schema : Schema)
    (config : Config) :
    Reachable { engine with service := engine.service.withTable name schema config }
  | pruned {engine : Engine} (before : Reachable engine) :
    Reachable { engine with service := engine.service.pruned }

variable {engine after : Engine}

theorem service_createDatabase {name : String} {id : DatabaseId}
    (h : engine.createDatabase name = .ok (after, id)) : after.service = engine.service := by
  obtain ⟨_, _, h⟩ := Fallible.bind_eq_ok.mp h
  dsimp only at h
  split at h
  · cases h
  · cases h
    rfl

theorem service_dropDatabase {name : String} (h : engine.dropDatabase name = .ok after) :
    after.service = engine.service := by
  obtain ⟨_, _, h⟩ := Fallible.bind_eq_ok.mp h
  cases h
  rfl

theorem service_createTable {id : DatabaseId} {name : String} {schema : Schema} {table : TableId}
    (h : engine.createTable id name schema = .ok (after, table)) :
    after.service = engine.service.withTable name schema engine.config := by
  rw [createTable] at h
  dsimp only at h
  split at h
  · cases h
  · cases h
    rfl

theorem service_dropTable {id : DatabaseId} {name : String} (h : engine.dropTable id name = .ok after) :
    after.service = engine.service := by
  obtain ⟨_, _, h⟩ := Fallible.bind_eq_ok.mp h
  cases h
  rfl

/-- What an engine does with its service is what can be done with a service. -/
theorem Reachable.becomes (reachable : Reachable engine) : Service.Becomes {} engine.service := by
  induction reachable with
  | created => exact .refl
  | @turnedOn engine _ ih =>
    rw [turnOn]
    split
    · exact ih
    · exact ih.asked (.setAccepting true)
  | @turnedOff engine _ ih =>
    rw [turnOff]
    split
    · exact ih.asked (.setAccepting false)
    · exact ih
  | databaseCreated _ h ih => exact service_createDatabase h ▸ ih
  | databaseDropped _ h ih => exact service_dropDatabase h ▸ ih
  | @tableCreated engine _ _ name schema _ _ h ih =>
    rw [service_createTable h]
    exact ih.added name schema engine.config
  | tableDropped _ h ih => exact service_dropTable h ▸ ih
  | asked _ request ih => exact ih.asked request
  | tableAdded _ name schema config ih => exact ih.added name schema config
  | pruned _ ih => exact ih.pruned

/-! ## 2. The order of the catalog -/

theorem Reachable.handle_reclaim_perm (reachable : Reachable engine) {order order' : List TableId}
    (h : order.Perm order') : engine.handle (.reclaim order) = engine.handle (.reclaim order') := by
  obtain ⟨⟨_, ok⟩, _⟩ := reachable.becomes.goes_on Service.ok_start
  have hstore := ok.store.reclaimTables_perm h
  rw [handle, handle, Service.handle, Service.handle]
  dsimp only
  rw [hstore]

/-- Reclaiming the tables of an engine in any two orders leads to the same engine and to the same
counts. -/
theorem Reachable.reclaim_orders (reachable : Reachable engine) {order order' : List TableId}
    (h : order.Perm engine.catalogedTables) (h' : order'.Perm engine.catalogedTables) :
    engine.handle (.reclaim order) = engine.handle (.reclaim order') :=
  reachable.handle_reclaim_perm (h.trans h'.symm)

/-- So whatever the order, reclaiming the tables of an engine is reclaiming the engine. -/
theorem Reachable.reclaim_eq (reachable : Reachable engine) {order : List TableId}
    (h : order.Perm engine.catalogedTables) :
    engine.reclaim = engine.handle (.reclaim order) :=
  reachable.handle_reclaim_perm h.symm

theorem Reachable.askedAll (reachable : Reachable engine) (requests : List Request) :
    Reachable (requests.foldl (fun engine request => (engine.handle request).1) engine) := by
  induction requests generalizing engine with
  | nil => exact reachable
  | cons request requests ih => exact ih (reachable.asked request)

open Service in
/-- Three tables have rows that were written over, moved to another key and deleted. One of the
deletions waits for the reader that the second session is, and one chain for the writer that the third
is. -/
def atWork : List Request :=
  [.openSession .snapshot, .openSession .snapshot, .openSession .snapshot, .buildIndex 0 byteIndex,
    .insert 1 0 (byteRecord 1), .insert 1 0 (byteRecord 2), .insert 1 1 (byteRecord 3),
    .insert 1 2 (byteRecord 4), .commit 1 .session, .update 1 0 firstRow (byteRecord 5),
    .delete 1 1 firstRow, .update 1 2 firstRow (byteRecord 6), .commit 1 .session, .begin 2 2,
    .delete 1 0 secondRow, .commit 1 .session, .update 3 2 firstRow (byteRecord 7)]

/-- An engine with two databases at work; the tables of the first were created last. -/
def stocked : Except Error Engine := do
  let (engine, first) ← inMemory.createDatabase "a"
  let (engine, second) ← engine.createDatabase "b"
  let (engine, _) ← engine.createTable second "t" Service.byteSchema
  let (engine, _) ← engine.createTable first "t" Service.byteSchema
  let (engine, _) ← engine.createTable first "u" Service.byteSchema
  return atWork.foldl (fun engine request => (engine.handle request).1) engine

theorem reachable_stocked (h : stocked = .ok engine) : Reachable engine := by
  obtain ⟨⟨_, _⟩, hfirst, h⟩ := Fallible.bind_eq_ok.mp h
  obtain ⟨⟨_, _⟩, hsecond, h⟩ := Fallible.bind_eq_ok.mp h
  obtain ⟨⟨_, _⟩, ht, h⟩ := Fallible.bind_eq_ok.mp h
  obtain ⟨⟨_, _⟩, ht', h⟩ := Fallible.bind_eq_ok.mp h
  obtain ⟨⟨_, _⟩, hu, h⟩ := Fallible.bind_eq_ok.mp h
  have reachable := (Reachable.created {}).turnedOn
  rw [← Except.ok.inj h]
  exact (((((reachable.databaseCreated hfirst).databaseCreated hsecond).tableCreated
    ht).tableCreated ht').tableCreated hu).askedAll atWork

theorem stocked_reclaim_orders : ∃ engine, stocked = .ok engine ∧
    engine.catalogedTables = [1, 2, 0] ∧
    (engine.handle (.reclaim [2, 1, 0])).2 = .reclaimed ⟨1, 1, 1, 2⟩ ∧
    engine.handle (.reclaim [2, 1, 0]) = engine.handle (.reclaim [0, 2, 1]) := by
  have hfacts : stocked.map (fun engine =>
      (engine.catalogedTables, (engine.handle (.reclaim [2, 1, 0])).2)) =
        .ok ([1, 2, 0], .reclaimed ⟨1, 1, 1, 2⟩) := by
    decide +kernel
  cases h : stocked with
  | error => rw [h] at hfacts; cases hfacts
  | ok engine =>
    rw [h] at hfacts
    have hpair := Except.ok.inj hfacts
    have htables : engine.catalogedTables = [1, 2, 0] := congrArg Prod.fst hpair
    have hreply := congrArg Prod.snd hpair
    have horder : [2, 1, 0].Perm engine.catalogedTables := by
      rw [htables]
      decide
    have horder' : [0, 2, 1].Perm engine.catalogedTables := by
      rw [htables]
      decide
    exact ⟨engine, rfl, htables, hreply, (reachable_stocked h).reclaim_orders horder horder'⟩

/-! ## 3. Once more -/

/-- Reclaiming any tables twice in a row, one table or several, leaves everything as it was after the
first time, and frees nothing. -/
theorem Reachable.reclaim_twice (reachable : Reachable engine) (tables : List TableId) :
    (engine.handle (.reclaim tables)).1.handle (.reclaim tables) =
      ((engine.handle (.reclaim tables)).1, .reclaimed {}) := by
  obtain ⟨⟨_, ok⟩, _⟩ := reachable.becomes.goes_on Service.ok_start
  have hagain := ok.store.reclaimTables_again tables
  rw [handle, handle, Service.handle, Service.handle]
  dsimp only
  rw [hagain]

/-- Something is freed the first time, and a deletion is still waiting the second time. -/
theorem stocked_reclaim_twice : ∃ engine, stocked = .ok engine ∧
    (engine.handle (.reclaim [0, 1, 2])).2 = .reclaimed ⟨1, 1, 1, 2⟩ ∧
    ((engine.handle (.reclaim [0, 1, 2])).1.service.store.tables[0]?).map (·.pendingDeletes) =
      some [(Service.secondRow, 7)] ∧
    (engine.handle (.reclaim [0, 1, 2])).1.handle (.reclaim [0, 1, 2]) =
      ((engine.handle (.reclaim [0, 1, 2])).1, .reclaimed {}) := by
  have hfacts : stocked.map (fun engine => ((engine.handle (.reclaim [0, 1, 2])).2,
      ((engine.handle (.reclaim [0, 1, 2])).1.service.store.tables[0]?).map (·.pendingDeletes))) =
        .ok (.reclaimed ⟨1, 1, 1, 2⟩, some [(Service.secondRow, 7)]) := by
    decide +kernel
  cases h : stocked with
  | error => rw [h] at hfacts; cases hfacts
  | ok engine =>
    rw [h] at hfacts
    have hpair := Except.ok.inj hfacts
    exact ⟨engine, rfl, congrArg Prod.fst hpair, congrArg Prod.snd hpair,
      (reachable_stocked h).reclaim_twice [0, 1, 2]⟩

end Engine
end SnapshotStore
