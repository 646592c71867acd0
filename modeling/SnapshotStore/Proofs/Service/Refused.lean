import Mathlib
import SnapshotStore.Proofs.Service.Rollback
import SnapshotStore.Proofs.Table.Retired

/-!
# A write that fails leaves no trace

A write goes through index by index, and any of them may refuse: because another row owns the key, because
the record was laid out by a schema in which the key cannot be found, because the key is too long. A row
may be gone, a newer version in the way, the transaction doomed. Whatever it is, and however many indexes
had their entry by then, the tables find afterwards what they found before, and the transaction has
nothing to take back that it had not before (`Reached.refused_write_traceless`). What may be left is the
transaction, if the request began it, and its doom, if there was a conflict.
-/

namespace SnapshotStore

/-! ## 1. What is left -/

namespace Reply

/-- The write that was asked for has not come about. -/
def refusesWrite : Reply → Bool
  | .failed _ | .wrote (.keyExists _) | .wrote .conflict => true
  | _ => false

end Reply

namespace Session

/-- What the running transaction has written, the last write first. -/
def written (session : Session) : List LogEntry := (session.transaction.map (·.log)).getD []

theorem written_doom (session : Session) : session.doom.written = session.written := by
  rw [written, written, doom]
  cases session.transaction with
  | none => rfl
  | some txn => rfl

end Session

namespace Store

/-- The tables find the same, and references to versions that have left them show the same. -/
structure Traceless (a b : Store) : Prop where
  tables : ∀ {tid : TableId} {table : Table}, a.tables[tid]? = some table →
    ∃ table', b.tables[tid]? = some table' ∧ table.Unchanged table' ∧
      table'.retired = table.retired
  absent : ∀ {tid : TableId}, a.tables[tid]? = none → b.tables[tid]? = none

theorem Traceless.of_tables {a b : Store} (h : b.tables = a.tables) : a.Traceless b := by
  refine ⟨fun {tid table} here => ⟨table, ?_, .refl table, rfl⟩, fun {tid} here => ?_⟩
  · rw [h]
    exact here
  · rw [h]
    exact here

/-- One table was replaced by one that finds the same. -/
theorem Traceless.set {a b : Store} (same : b.tables = a.tables) {tid : TableId}
    {table table' : Table} (here : a.tables[tid]? = some table)
    (unchanged : table.Unchanged table') (retired : table'.retired = table.retired) :
    a.Traceless (b.setTable tid table') := by
  refine ⟨fun {other found} hfound => ?_, fun {other} hnone => ?_⟩
  · rw [tables_setTable, same]
    by_cases heq : other = tid
    · rw [heq, here] at hfound
      cases hfound
      exact ⟨table', if_pos heq, unchanged, retired⟩
    · exact ⟨found, (if_neg heq).trans hfound, .refl found, rfl⟩
  · have hne : other ≠ tid := by
      rintro rfl
      rw [here] at hnone
      cases hnone
    rw [tables_setTable, if_neg hne, same]
    exact hnone

variable {store store' : Store} {work : Work} {session session' : Session}

/-- A transaction that was just begun has written nothing. -/
theorem Enters.written (enters : Enters store session store' session') :
    session'.written = session.written := by
  rcases enters with ⟨_, rfl⟩ | ⟨txn, henter⟩
  · rfl
  · cases hsession : session.transaction with
    | some running =>
      rw [enter_of_running hsession] at henter
      cases henter
      rfl
    | none =>
      rw [enter, Session.enter, hsession] at henter
      rw [Session.written, Session.written, hsession]
      cases hbegin : store.ledger.begin? with
      | none =>
        simp only [Transaction.begin, hbegin] at henter
        cases henter
      | some begun =>
        simp only [Transaction.begin, hbegin] at henter
        cases henter
        rfl

theorem Enters.tables (enters : Enters store session store' session') :
    store'.tables = store.tables := by
  rcases enters with ⟨rfl, _⟩ | ⟨txn, henter⟩
  · rfl
  · exact (enter_eq_ok henter).1

/-! ## 2. A write of the store -/

/-- A refused attempt has left the table alone. -/
theorem Tried.refused_unchanged {l : Ledger} {txn : Transaction} {table : Table}
    {change : Change} {tried : Table.Attempt} (h : Tried l txn table change tried)
    (refused : (Reply.of .wrote tried.outcome).refusesWrite = true) :
    table.Unchanged tried.table ∧ tried.writes = [] := by
  cases h with
  | conflict => exact ⟨.refl table, rfl⟩
  | refused unchanged _ => exact ⟨unchanged, rfl⟩
  | wrote => cases refused
  | marked => cases refused

/-- A write that fails leaves what entering the transaction leaves, and perhaps its doom. -/
theorem write_refused (ok : store.Ok work)
    (held : ∀ txn, session.transaction = some txn → work txn.id = some txn) (tid : TableId)
    (change : Change) (check : Table → Except Error Unit)
    {attempt : Table → Ledger → Transaction → Table.Attempt}
    (htried : ∀ {l : Ledger} {work : Work} {table : Table}, Table.Ok l work tid [] table →
      ∀ txn, Tried l txn table change (attempt table l txn))
    (hretired : ∀ table l txn, (attempt table l txn).table.retired = table.retired)
    (refused : (Reply.of .wrote (store.write session tid check attempt).2.2).refusesWrite = true) :
    ∃ store' session', Enters store session store' session' ∧
      (store.write session tid check attempt).1.ledger = store'.ledger ∧
      store.Traceless (store.write session tid check attempt).1 ∧
      ((store.write session tid check attempt).2.1 = session' ∨
        (store.write session tid check attempt).2.2 = .ok .conflict ∧
          (store.write session tid check attempt).2.1 = session'.doom) := by
  rcases store.write_cases session tid check attempt with ⟨error, heq⟩ |
    ⟨table, store', session', txn, here, henter, hcases⟩
  · rw [heq]
    exact ⟨store, session, Or.inl ⟨rfl, rfl⟩, rfl, .of_tables rfl, Or.inl rfl⟩
  obtain ⟨_, work', hserves, hsession, _, htables⟩ := enter_serves ok held henter
  have here' : store'.tables[tid]? = some table := by rw [htables]; exact here
  refine ⟨store', session', Or.inr ⟨txn, henter⟩, ?_⟩
  rcases hcases with ⟨_, heq⟩ | ⟨_, tried, htried', heq⟩
  · rw [heq]
    exact ⟨rfl, .of_tables htables, Or.inl rfl⟩
  · rw [heq] at refused ⊢
    have htry := htried ((hserves.moves.ok ok).tables here') txn
    have hsame := hretired table store'.ledger txn
    rw [← htried'] at htry hsame
    obtain ⟨hunchanged, hwrites⟩ := htry.refused_unchanged refused
    refine ⟨rfl, .set htables here hunchanged hsame, ?_⟩
    rw [Session.settled, hwrites, Session.remember_nil hsession]
    split
    · rename_i hconflict
      exact Or.inr ⟨hconflict, rfl⟩
    · exact Or.inl rfl

end Store

/-! ## 3. A request to write -/

namespace Service

variable {history : List Event} {service : Service} {s : SessionId}

/-- The request has left nothing behind but what a request may that fails: the transaction of its session,
if it began it, and the doom of that transaction, if it was refused for a conflict. -/
structure Traceless (service : Service) (s : SessionId) (reply : Reply) (after : Service) : Prop where
  tables : service.store.Traceless after.store
  sessions : ∃ session session' last store', service.sessions[s]? = some session ∧
    Store.Enters service.store session store' session' ∧ after.store.ledger = store'.ledger ∧
    (last = session' ∨ reply = .wrote .conflict ∧ last = session'.doom) ∧
    last.written = session.written ∧ after.sessions = service.sessions.insert s last
  lastSession : after.lastSession = service.lastSession
  indexScans : after.indexScans = service.indexScans
  tableScans : after.tableScans = service.tableScans

/-- A write of the store on behalf of a session. -/
theorem attempt_traceless (reached : Reached history service) {tid : TableId} {change : Store.Change}
    {check : Table → Except Error Unit} {attempt : Table → Ledger → Transaction → Table.Attempt}
    (htried : ∀ {l : Ledger} {work : Work} {table : Table}, Table.Ok l work tid [] table →
      ∀ txn, Store.Tried l txn table change (attempt table l txn))
    (hretired : ∀ table l txn, (attempt table l txn).table.retired = table.retired)
    (refused : (service.attempt s (Store.write · · tid check attempt) .wrote).2.refusesWrite = true) :
    service.Traceless s (service.attempt s (Store.write · · tid check attempt) .wrote).2
      (service.attempt s (Store.write · · tid check attempt) .wrote).1 := by
  obtain ⟨work, ok⟩ := reached.ok
  rw [Service.attempt, forSession] at refused ⊢
  cases asks : service.sessions[s]? with
  | none =>
    rw [asks] at refused
    cases refused
  | some session =>
    rw [asks] at refused
    obtain ⟨store', session', henters, hledger, htables, hlast⟩ := Store.write_refused ok.store
      (ok.linked.heldBy asks) tid change check htried hretired refused
    refine ⟨htables, ⟨session, session', _, store', asks, henters, hledger, ?_, ?_, rfl⟩, rfl, rfl, rfl⟩
    · refine hlast.imp id (And.imp_left fun hconflict => ?_)
      exact congrArg (Reply.of .wrote) hconflict
    · rcases hlast with hlast | ⟨_, hlast⟩
      · rw [hlast, henters.written]
      · rw [hlast, Session.written_doom, henters.written]

/-- An insert, an update or a deletion that is refused or fails leaves no trace. -/
theorem Reached.refused_write_traceless (reached : Reached history service) {request : Request}
    (writes : request.isWriteOf s = true)
    (refused : (service.handle request).2.refusesWrite = true) :
    service.Traceless s (service.handle request).2 (service.handle request).1 := by
  cases request with
  | insert t tid record =>
    cases eq_of_beq writes
    have hinsert : service.handle (.insert s tid record) = service.attempt s
        (Store.write · · tid (·.checkRecord record) fun table l txn => table.insertRow l txn record)
        .wrote := rfl
    rw [hinsert] at refused ⊢
    exact attempt_traceless reached (fun ok txn => Store.tried_insert ok txn record)
      (fun table l txn => table.retired_insertRow l txn record) refused
  | update t tid row record =>
    cases eq_of_beq writes
    have hupdate : service.handle (.update s tid row record) = service.attempt s
        (Store.write · · tid (·.checkRecord record) fun table l txn =>
          table.updateRow l txn row record) .wrote := rfl
    rw [hupdate] at refused ⊢
    exact attempt_traceless reached (fun ok txn => Store.tried_update ok txn row record)
      (fun table l txn => table.retired_updateRow l txn row record) refused
  | delete t tid row =>
    cases eq_of_beq writes
    have hdelete : service.handle (.delete s tid row) = service.attempt s
        (Store.write · · tid (fun _ => .ok ()) fun table l txn => table.deleteRow l txn row)
        .wrote := rfl
    rw [hdelete] at refused ⊢
    exact attempt_traceless reached (fun ok txn => Store.tried_delete ok txn row)
      (fun table l txn => table.retired_deleteRow l txn row) refused
  | _ => cases writes

/-- An index on the only field of single bytes in which each byte belongs to one row. -/
def uniqueIndex : KeySpec := { name := "alone", parts := [0], unique := true }

/-- A row of one byte in which no key can be found. -/
def blankRecord : Record := ⟨⟨1, [], 1⟩, [0], rfl⟩

/-- A table with two indexes, of which the second is unique, with a committed row and one that the first
session has written and not committed. -/
def guarded : Service :=
  (small.run [.buildIndex 0 byteIndex, .buildIndex 0 uniqueIndex, .insert 1 0 (byteRecord 1),
    .commit 1 .session, .insert 1 0 (byteRecord 2)]).1

/-- The second index refuses a row that the first has taken, a record has no key, and a second session meets
the uncommitted row. -/
theorem refusals_traceless :
    ((guarded.handle (.insert 1 0 (byteRecord 1))).2 = .wrote (.keyExists 1) ∧
      guarded.Traceless 1 (guarded.handle (.insert 1 0 (byteRecord 1))).2
        (guarded.handle (.insert 1 0 (byteRecord 1))).1) ∧
    ((guarded.handle (.update 1 0 secondRow blankRecord)).2 = .failed (.fieldIndexOutOfBounds 0) ∧
      guarded.Traceless 1 (guarded.handle (.update 1 0 secondRow blankRecord)).2
        (guarded.handle (.update 1 0 secondRow blankRecord)).1) ∧
    ((guarded.handle (.delete 2 0 secondRow)).2 = .wrote .conflict ∧
      guarded.Traceless 2 (guarded.handle (.delete 2 0 secondRow)).2
        (guarded.handle (.delete 2 0 secondRow)).1) := by
  have reached := reached_small.run [.buildIndex 0 byteIndex, .buildIndex 0 uniqueIndex,
    .insert 1 0 (byteRecord 1), .commit 1 .session, .insert 1 0 (byteRecord 2)]
  have htaken : (guarded.handle (.insert 1 0 (byteRecord 1))).2 = .wrote (.keyExists 1) := by
    decide +kernel
  have hblank : (guarded.handle (.update 1 0 secondRow blankRecord)).2 =
      .failed (.fieldIndexOutOfBounds 0) := by
    decide +kernel
  have hconflict : (guarded.handle (.delete 2 0 secondRow)).2 = .wrote .conflict := by
    decide +kernel
  exact ⟨⟨htaken, reached.refused_write_traceless (by decide) (congrArg Reply.refusesWrite htaken)⟩,
    ⟨hblank, reached.refused_write_traceless (by decide) (congrArg Reply.refusesWrite hblank)⟩,
    ⟨hconflict, reached.refused_write_traceless (by decide) (congrArg Reply.refusesWrite hconflict)⟩⟩

end Service
end SnapshotStore
