import Mathlib
import SnapshotStore.Proofs.History.Concealed
import SnapshotStore.Proofs.Service.Reached

/-!
# The snapshots that reclamation goes by

Every snapshot is written down twice. The session has it in the transaction that it runs, and reads go
by that copy; the ledger has it under the id of the transaction, and the horizon, below which
reclamation frees what it finds, goes by the other one. Nothing in the store ever compares the two. A
transaction that ended in its session and not in the ledger would hold the horizon down for good, and
one whose fresh snapshot reached one copy only would have versions freed that it still reads.

That they agree is what `Service.Ok` says of sessions and ledger taken together (`Ok.mirrored`). That
the horizon never goes down is a fact about the moves of a store (`Store.Moves.grows`), and it bounds
the snapshots to come through the agreement at the later moment. All of it holds whatever happens to a
service (`Becomes`), and a ledger that is pruned between requests, where no table asks for it, is part
of that.
-/

namespace SnapshotStore

namespace Service

/-! ## 1. What can happen to a service -/

/-- The service with the transactions forgotten that nobody can tell apart from older ones. -/
def pruned (service : Service) : Service :=
  { service with store := service.store.withLedger service.store.ledger.prune.1 }

/-- What a service can become. -/
inductive Becomes (service : Service) : Service → Prop
  | refl : Becomes service service
  | added {later : Service} (before : Becomes service later) (name : String) (schema : Schema)
    (config : Config) : Becomes service (later.withTable name schema config)
  | asked {later : Service} (before : Becomes service later) (request : Request) :
    Becomes service (later.handle request).1
  | pruned {later : Service} (before : Becomes service later) : Becomes service later.pruned

theorem Becomes.run {service later : Service} (becomes : Becomes service later)
    (requests : List Request) : Becomes service (later.run requests).1 := by
  induction requests generalizing later with
  | nil => exact becomes
  | cons request requests ih => exact ih (becomes.asked request)

variable {service later : Service} {work : Work}

/-- Whatever becomes of a service is in order, and its ledger has gone on. -/
theorem Becomes.goes_on (becomes : Becomes service later) (ok : service.Ok work) :
    (∃ work', later.Ok work') ∧ Ledger.Grows service.store.ledger later.store.ledger := by
  induction becomes with
  | refl => exact ⟨⟨work, ok⟩, .refl _⟩
  | added _ name schema config ih =>
    obtain ⟨⟨work', ok'⟩, grows⟩ := ih
    exact ⟨⟨work', ok'.withTable name schema config⟩,
      grows.trans ((Store.Move.added name schema config).grows ok'.store)⟩
  | asked _ request ih =>
    obtain ⟨⟨work', ok'⟩, grows⟩ := ih
    obtain ⟨_, work'', answered⟩ := handle_moves ok' request
    exact ⟨⟨work'', answered.ok⟩, grows.trans (answered.moves.grows ok'.store)⟩
  | pruned _ ih =>
    obtain ⟨⟨work', ok'⟩, grows⟩ := ih
    exact ⟨⟨work', ok'.store.prune, ok'.linked⟩,
      grows.trans (Ledger.grows_prune ok'.store.ledger)⟩

/-! ## 2. The two copies -/

/-- The session runs the transaction. -/
def Holds (service : Service) (s : SessionId) (txn : Transaction) : Prop :=
  ∃ session, service.sessions[s]? = some session ∧ session.transaction = some txn

/-- The ledger knows of just the transactions that sessions run, each under its own id and with the
snapshot that it reads under. -/
structure Mirrored (service : Service) : Prop where
  active : ∀ id snapshot : Int, service.store.ledger.active[id]? = some snapshot ↔
    ∃ s txn, service.Holds s txn ∧ txn.id = id ∧ txn.snapshot = snapshot
  distinct : ∀ {s s' : SessionId} {txn txn' : Transaction}, service.Holds s txn →
    service.Holds s' txn' → txn.id = txn'.id → s = s' ∧ txn = txn'

theorem Ok.mirrored (ok : service.Ok work) : service.Mirrored where
  active id snapshot := by
    rw [ok.store.runs.active]
    constructor
    · intro h
      obtain ⟨txn, running, hsnapshot⟩ := Option.map_eq_some_iff.mp h
      obtain ⟨s, session, here, runs⟩ := ok.linked.running running
      exact ⟨s, txn, ⟨session, here, runs⟩, ok.store.runs.id running, hsnapshot⟩
    · rintro ⟨s, txn, ⟨session, here, runs⟩, rfl, rfl⟩
      rw [ok.linked.held here runs]
      rfl
  distinct := by
    rintro s s' txn txn' ⟨session, here, runs⟩ ⟨session', here', runs'⟩ hid
    refine ⟨ok.linked.distinct here runs here' runs' hid, ?_⟩
    have held := ok.linked.held here runs
    rw [hid, ok.linked.held here' runs'] at held
    exact (Option.some.inj held).symm

/-- No transaction reads under a snapshot below the horizon. -/
theorem Mirrored.horizon_le (mirrored : service.Mirrored) {s : SessionId} {txn : Transaction}
    (holds : service.Holds s txn) : service.store.ledger.horizon ≤ txn.snapshot :=
  Ledger.horizon_le_snapshot ((mirrored.active _ _).mpr ⟨s, txn, holds, rfl, rfl⟩)

/-! ## 3. The horizon, now and later -/

/-- In whatever a service becomes, the ledger and the sessions agree on who runs under which snapshot,
and from there on the horizon does not go down: what any session reads under, now or later, is at or
above what the horizon is now. -/
theorem Becomes.snapshots_mirrored (becomes : Becomes {} service) :
    service.Mirrored ∧ ∀ {later : Service}, Becomes service later →
      service.store.ledger.horizon ≤ later.store.ledger.horizon ∧
        ∀ {s : SessionId} {txn : Transaction}, later.Holds s txn →
          service.store.ledger.horizon ≤ txn.snapshot := by
  obtain ⟨⟨_, ok⟩, _⟩ := becomes.goes_on ok_start
  -- Sessions and ledger agree again later on, and the horizon of then bounds the snapshots of then.
  refine ⟨ok.mirrored, fun onward => ?_⟩
  obtain ⟨⟨_, ok'⟩, grows⟩ := onward.goes_on ok
  exact ⟨grows.horizon_le, fun holds => Int.le_trans grows.horizon_le (ok'.mirrored.horizon_le holds)⟩

/-- The first session is overtaken and its commit refused, and it begins again. The second one reads
committed, begins with a write and goes on to its next statement. -/
def overtakenOnce : List Request :=
  [.begin 1 1, .setIsolation 2 .readCommitted, .insert 2 0 (byteRecord 7), .commit 2 .session,
    .update 1 0 firstRow (byteRecord 8), .commit 1 .session, .insert 2 0 (byteRecord 9), .begin 1 1,
    .beginStatement 2]

/-- The second session is dropped, nobody may begin for a while, and the first begins with a write. -/
def droppedAfter : List Request :=
  [.closeSession 2, .setAccepting false, .commit 1 .session, .begin 1 1, .setAccepting true,
    .delete 1 0 firstRow]

theorem overtakenOnce_mirrored : ∃ service later : Service, ∃ first second last : Transaction,
    Becomes {} service ∧ Becomes service later ∧
    service.Holds 1 first ∧ service.Holds 2 second ∧ later.Holds 1 last ∧
    (first.id, first.snapshot) = (4, 5) ∧ (second.id, second.snapshot) = (3, 5) ∧
    (last.id, last.snapshot) = (5, 7) ∧
    service.store.ledger.active.toList = [(3, 5), (4, 5)] ∧
    later.store.ledger.active.toList = [(5, 7)] ∧ service.Mirrored ∧
    service.store.ledger.horizon ≤ later.store.ledger.horizon ∧
    service.store.ledger.horizon ≤ last.snapshot := by
  have reached : Becomes {} (small.run overtakenOnce).1.pruned :=
    (((Becomes.refl.added "t" byteSchema {}).run twoSessions).run overtakenOnce).pruned
  have onward : Becomes (small.run overtakenOnce).1.pruned
      ((small.run overtakenOnce).1.pruned.run droppedAfter).1 := Becomes.refl.run droppedAfter
  have hfacts : ((small.run overtakenOnce).1.pruned.sessions[1]?.bind fun session =>
        session.transaction.filter fun txn => (txn.id, txn.snapshot) == (4, 5)).isSome = true ∧
      ((small.run overtakenOnce).1.pruned.sessions[2]?.bind fun session =>
        session.transaction.filter fun txn => (txn.id, txn.snapshot) == (3, 5)).isSome = true ∧
      (((small.run overtakenOnce).1.pruned.run droppedAfter).1.sessions[1]?.bind fun session =>
        session.transaction.filter fun txn => (txn.id, txn.snapshot) == (5, 7)).isSome = true := by
    decide +kernel
  obtain ⟨session, first, asks, runs, hfirst⟩ := exists_running hfacts.1
  obtain ⟨session', second, asks', runs', hsecond⟩ := exists_running hfacts.2.1
  obtain ⟨session'', last, asks'', runs'', hlast⟩ := exists_running hfacts.2.2
  have hafter : Holds _ 1 last := ⟨session'', asks'', runs''⟩
  obtain ⟨mirrored, hlater⟩ := reached.snapshots_mirrored
  obtain ⟨hhorizon, hsnapshot⟩ := hlater onward
  exact ⟨_, _, first, second, last, reached, onward, ⟨session, asks, runs⟩, ⟨session', asks', runs'⟩,
    hafter, beq_iff_eq.mp hfirst, beq_iff_eq.mp hsecond, beq_iff_eq.mp hlast, by decide +kernel,
    by decide +kernel, mirrored, hhorizon, hsnapshot hafter⟩

end Service
end SnapshotStore
