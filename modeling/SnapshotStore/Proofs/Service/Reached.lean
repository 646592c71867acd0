import Mathlib
import SnapshotStore.Proofs.Service.Moves

/-!
# The services there can be

A service starts without tables and without sessions, is given tables, and answers requests. What the
requests made happen, one event after another, is its history (`Reached`). Histories are what claims
about visibility are measured against: they speak of transactions and records, and know nothing of
versions, entries and logs.
-/

namespace SnapshotStore
namespace Service

/-- What answering a request makes happen, the first event first. -/
def happening (service : Service) (request : Request) : List Event :=
  request.events (service.handle request).2 (service.severalFor request)
    (service.runningFor request) ((service.handle request).1.runningFor request)

/-- The service with a further table, which is empty. -/
def withTable (service : Service) (name : String) (schema : Schema) (config : Config) : Service :=
  { service with store := (service.store.addTable (.create name schema config)).1 }

/-- The services there can be, and their histories. -/
inductive Reached : List Event → Service → Prop
  | start : Reached [] {}
  | added {history : List Event} {service : Service} (before : Reached history service)
    (name : String) (schema : Schema) (config : Config) :
    Reached history (service.withTable name schema config)
  | asked {history : List Event} {service : Service} (before : Reached history service)
    (request : Request) :
    Reached (history ++ service.happening request) (service.handle request).1

theorem ok_start : Service.Ok {} fun _ => none where
  store :=
    { ledger := Ledger.ok_new
      runs := ⟨fun _ => by simp, (fun h => by cases h), (fun h => by cases h)⟩
      tables := fun h => by simp at h
      numbered := fun _ => by simp
      logged := fun h => by cases h }
  linked :=
    { held := fun h => by simp at h
      distinct := fun h => by simp at h
      running := fun h => by cases h
      numbered := fun h => by simp at h }

variable {service : Service} {work : Work}

theorem Ok.withTable (ok : service.Ok work) (name : String) (schema : Schema) (config : Config) :
    (service.withTable name schema config).Ok work :=
  ⟨(Store.Move.added name schema config).ok ok.store, ok.linked⟩

/-- A service that can be is in order. -/
theorem Reached.ok {history : List Event} (reached : Reached history service) :
    ∃ work, service.Ok work := by
  induction reached with
  | start => exact ⟨_, ok_start⟩
  | added _ name schema config ih =>
    obtain ⟨work, ok⟩ := ih
    exact ⟨work, ok.withTable name schema config⟩
  | asked _ request ih =>
    obtain ⟨work, ok⟩ := ih
    obtain ⟨_, work', answered⟩ := handle_moves ok request
    exact ⟨work', answered.ok⟩

/-! ## Runs -/

/-- What answering requests one after another makes happen. -/
def happenings (service : Service) : List Request → List Event
  | [] => []
  | request :: requests =>
    service.happening request ++ (service.handle request).1.happenings requests

/-- A run is a run of moves. -/
theorem run_moves (ok : service.Ok work) (requests : List Request) : ∃ work' events,
    Store.Moves service.store work events (service.run requests).1.store work' := by
  induction requests generalizing service work with
  | nil => exact ⟨work, [], .refl⟩
  | cons request requests ih =>
    obtain ⟨events, work', answered⟩ := handle_moves ok request
    obtain ⟨work'', events', moves⟩ := ih answered.ok
    exact ⟨work'', events ++ events', answered.moves.trans moves⟩

/-- A run leads from a service that can be to one that can be. -/
theorem Reached.run {history : List Event} (reached : Reached history service)
    (requests : List Request) :
    Reached (history ++ service.happenings requests) (service.run requests).1 := by
  induction requests generalizing history service with
  | nil =>
    rw [happenings, List.append_nil]
    exact reached
  | cons request requests ih =>
    rw [happenings, ← List.append_assoc]
    exact ih (reached.asked request)

/-- A session with a running transaction of some kind. -/
theorem exists_running {s : SessionId} {p : Transaction → Bool}
    (h : (service.sessions[s]?.bind fun session => session.transaction.filter p).isSome = true) :
    ∃ session txn, service.sessions[s]? = some session ∧ session.transaction = some txn ∧
      p txn = true := by
  obtain ⟨txn, h⟩ := Option.isSome_iff_exists.mp h
  obtain ⟨session, asks, h⟩ := Option.bind_eq_some_iff.mp h
  obtain ⟨runs, hp⟩ := Option.filter_eq_some_iff.mp h
  exact ⟨session, txn, asks, runs, hp⟩

/-! ## A store with one table

Closed instances of what is proved of all services are about this one. Its rows are single bytes. -/

/-- A layout of rows that are a single byte. -/
def byteSchema : Schema := ⟨0, [⟨"key", 0, .fixed 1⟩], 1⟩

/-- The row that is that byte. -/
def byteRecord (b : UInt8) : Record := ⟨byteSchema, [b], rfl⟩

/-- The first row of a table. -/
def firstRow : RowHandle := ⟨1, by decide, by decide⟩

/-- The second row of a table. -/
def secondRow : RowHandle := ⟨2, by decide, by decide⟩

/-- An index on the only field of these rows. -/
def byteIndex : KeySpec := { name := "by key", parts := [0], unique := false }

/-- Opens two sessions; the transactions of the first have several statements. -/
def twoSessions : List Request :=
  [.openSession .snapshot, .openSession .snapshot, .setMultiStatement 1 true]

/-- A service with one table and two sessions. -/
def small : Service := ((({} : Service).withTable "t" byteSchema {}).run twoSessions).1

theorem reached_small : Reached [] small := by
  have reached := (Reached.start.added "t" byteSchema {}).run twoSessions
  have hquiet : (({} : Service).withTable "t" byteSchema {}).happenings twoSessions = [] := by
    rfl
  rwa [hquiet] at reached

end Service
end SnapshotStore
