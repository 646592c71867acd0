import Mathlib
import SnapshotStore.Proofs.Store.Undoing
import SnapshotStore.Proofs.Service.Reached

/-!
# A rollback leaves no trace

While a session writes and nobody else does anything, what it has written can be taken back at any
moment: a rollback of the statement leads back to where the statement began, and an abort, a rollback
of the session or a commit that is refused leads back to where the transaction began
(`Reached.rollback_restores`). For a statement the induction carries the writes that the log has on top
of what it had when the statement began; for a transaction it carries what an abort would leave.
-/

namespace SnapshotStore

/-! ## 1. What a session asks for before the end -/

namespace Request

/-- The session asks for a write. -/
def isWriteOf (s : SessionId) : Request → Bool
  | .insert t _ _ | .update t _ _ _ | .delete t _ _ => t == s
  | _ => false

/-- The session begins its transaction, goes on to a statement or writes. -/
def isWorkOf (s : SessionId) : Request → Bool
  | .begin t _ | .beginStatement t => t == s
  | request => request.isWriteOf s

end Request

namespace Session

/-- The transaction that the session runs, if any, has a number that a mark can hold. -/
def Markable (session : Session) : Prop :=
  ∀ txn, session.transaction = some txn → txn.id < 2 ^ 40

end Session

namespace Store

variable {store store' : Store} {work : Work} {session session' : Session} {txn : Transaction}

/-- What is left when the session's transaction is undone. -/
theorem tables_abort (store : Store) (session : Session) : (store.abort session).1.tables =
    match session.transaction with
    | none => store.tables
    | some txn => (store.undo txn.id txn.log).tables := by
  rw [abort]
  split <;> simp [*]

/-- Undoing looks at the tables alone. -/
theorem tables_undo_congr (h : store'.tables = store.tables) (id : Int) (log : List LogEntry) :
    (store'.undo id log).tables = (store.undo id log).tables := by
  refine Std.ExtTreeMap.ext_getElem? fun tid => ?_
  rw [(store'.undo_spec id log).2.2, (store.undo_spec id log).2.2, h]

/-- A transaction that was just entered has nothing more to undo than the session had. -/
theorem tables_abort_of_enter (h : store.enter session = .ok (store', session', txn)) :
    (store.abort session).1.tables = (store.undo txn.id txn.log).tables := by
  rw [tables_abort]
  cases hsession : session.transaction with
  | some running =>
    rw [enter_of_running hsession] at h
    cases h
    rfl
  | none =>
    rw [enter, Session.enter, hsession] at h
    cases hbegin : store.ledger.begin? with
    | none =>
      simp only [Transaction.begin, hbegin] at h
      cases h
    | some begun =>
      simp only [Transaction.begin, hbegin] at h
      cases h
      rfl

/-- The session runs what it ran, or has just begun it. -/
theorem markable_of_enter (h : store.enter session = .ok (store', session', txn))
    (few : txn.id < 2 ^ 40) : session.Markable := by
  intro running hrunning
  rw [enter_of_running hrunning] at h
  cases h
  exact few

theorem tables_abort_begin (store : Store) (session : Session) (owner : Nat) :
    ((store.begin session owner).1.abort (store.begin session owner).2.1).1.tables =
      (store.abort session).1.tables := by
  rw [begin, Session.begin]
  cases hsession : session.transaction with
  | some running => rfl
  | none =>
    rw [tables_abort store, hsession]
    cases hbegin : store.ledger.begin? with
    | none =>
      simp only [Transaction.begin, hbegin]
      show (store.abort session).1.tables = _
      rw [tables_abort, hsession]
    | some begun =>
      simp only [Transaction.begin, hbegin]
      exact tables_abort ..

theorem markable_begin {owner : Nat} (h : (store.begin session owner).2.1.Markable) :
    session.Markable := by
  intro running hrunning
  rw [begin, Session.begin, hrunning] at h
  exact h running hrunning

/-- The next statement has a further number and perhaps a new snapshot, and nothing else changes. -/
theorem beginStatement_of_running (store : Store) (h : session.transaction = some txn) :
    ∃ ledger snapshot, store.beginStatement session = (store.withLedger ledger,
      { session with transaction := some { txn.nextStatement with snapshot } }) := by
  rw [beginStatement, Session.beginStatement, h]
  cases hisolation : session.isolation with
  | snapshot => exact ⟨store.ledger, txn.snapshot, rfl⟩
  | readCommitted => exact ⟨_, _, rfl⟩

theorem tables_abort_beginStatement (store : Store) (session : Session) :
    ((store.beginStatement session).1.abort (store.beginStatement session).2).1.tables =
      (store.abort session).1.tables := by
  cases hsession : session.transaction with
  | none => rw [beginStatement, Session.beginStatement, hsession]
  | some running =>
    obtain ⟨ledger, snapshot, heq⟩ := beginStatement_of_running store hsession
    rw [heq, tables_abort, tables_abort, hsession]
    have htables : (store.withLedger ledger).tables = store.tables := rfl
    exact tables_undo_congr htables running.id running.log

theorem markable_beginStatement (h : (store.beginStatement session).2.Markable) :
    session.Markable := by
  intro running hrunning
  obtain ⟨ledger, snapshot, heq⟩ := beginStatement_of_running store hrunning
  rw [heq] at h
  exact h { running.nextStatement with snapshot } rfl

end Store

namespace Service

variable {history : List Event} {service : Service} {s : SessionId} {session : Session}

/-! ## 2. One write -/

/-- A request to write is a write of the store for the session. -/
theorem handle_write {request : Request} (writes : request.isWriteOf s = true)
    (asks : service.sessions[s]? = some session) :
    ∃ tid change check attempt,
      (∀ {l : Ledger} {work : Work} {table : Table}, Table.Ok l work tid [] table →
        ∀ txn, Store.Tried l txn table change (attempt table l txn)) ∧
      (service.handle request).1 = { service with
        store := (service.store.write session tid check attempt).1
        sessions := service.sessions.insert s
          (service.store.write session tid check attempt).2.1 } := by
  cases request with
  | insert t tid record =>
    cases eq_of_beq writes
    refine ⟨tid, .insert record, (·.checkRecord record), _,
      fun ok txn => Store.tried_insert ok txn record, ?_⟩
    rw [handle, attempt, forSession, asks]
    rfl
  | update t tid row record =>
    cases eq_of_beq writes
    refine ⟨tid, .update row record, (·.checkRecord record), _,
      fun ok txn => Store.tried_update ok txn row record, ?_⟩
    rw [handle, attempt, forSession, asks]
    rfl
  | delete t tid row =>
    cases eq_of_beq writes
    refine ⟨tid, .delete row, fun _ => .ok (), _, fun ok txn => Store.tried_delete ok txn row, ?_⟩
    rw [handle, attempt, forSession, asks]
    rfl
  | _ => cases writes

/-! ## 3. A statement -/

/-- Since the transaction was `base`, its session has only written, and undoing what the log has on top
leads back to the store `start`. -/
structure WritesSince (start : Store) (base : Transaction) (s : SessionId) (session : Session)
    (service : Service) (txn : Transaction) (newer : List LogEntry) : Prop where
  asks : service.sessions[s]? = some { session with transaction := some txn }
  remembers : Store.Remembers base newer txn
  undone : start.Alike (service.store.undo base.id newer)

/-- One more write is taken back first. -/
theorem WritesSince.write {start : Store} {base txn : Transaction} {newer : List LogEntry}
    (since : WritesSince start base s session service txn newer) (reached : Reached history service)
    (few : base.id < 2 ^ 40) {request : Request} (writes : request.isWriteOf s = true) :
    ∃ txn' newer', WritesSince start base s session (service.handle request).1 txn' newer' := by
  obtain ⟨work, ok⟩ := reached.ok
  obtain ⟨tid, change, check, attempt, htried, hhandle⟩ := handle_write writes since.asks
  have hbase := since.remembers
  rw [hhandle]
  rcases Store.write_undone ok.store (ok.linked.heldBy since.asks) tid change check htried with
    ⟨error, herror⟩ | ⟨_, _, _, txn', more, henter, hsession, hremembers, hundone⟩
  · rw [herror]
    refine ⟨txn, newer, ?_, hbase, since.undone⟩
    exact (Maps.get_insert _ _ _ _).trans (if_pos rfl)
  · rw [Store.enter_of_running rfl] at henter
    cases henter
    refine ⟨txn', more ++ newer, ?_, ⟨hremembers.id.trans hbase.id,
      hremembers.statement.trans hbase.statement, ?_, fun entry hentry => ?_⟩, ?_⟩
    · rw [hsession]
      exact (Maps.get_insert _ _ _ _).trans (if_pos rfl)
    · rw [hremembers.log, hbase.log, List.append_assoc]
    · rcases List.mem_append.mp hentry with hentry | hentry
      · exact (hremembers.current entry hentry).trans hbase.statement
      · exact hbase.current entry hentry
    · rw [hbase.id] at hundone
      exact Store.Alike.withdrawn ok.store since.undone (hundone few)

theorem WritesSince.run {start : Store} {base txn : Transaction} {newer : List LogEntry}
    (since : WritesSince start base s session service txn newer) (reached : Reached history service)
    (few : base.id < 2 ^ 40) {requests : List Request}
    (writes : ∀ request ∈ requests, request.isWriteOf s = true) :
    ∃ txn' newer', WritesSince start base s session (service.run requests).1 txn' newer' := by
  induction requests generalizing history service txn newer with
  | nil => exact ⟨txn, newer, since⟩
  | cons request requests ih =>
    obtain ⟨_, _, hnext⟩ := since.write reached few (writes request List.mem_cons_self)
    exact ih hnext (reached.asked request) fun r hr => writes r (List.mem_cons_of_mem _ hr)

/-- The writes on top of older ones are those of the current statement. -/
theorem currentWrites_of_remembers {base txn : Transaction} {newer : List LogEntry}
    (remembers : Store.Remembers base newer txn)
    (older : ∀ entry ∈ base.log, entry.statement < base.statement) :
    txn.currentWrites = newer ∧ txn.forgetStatement.log = base.log := by
  have hnewer : ∀ entry ∈ newer, (entry.statement == txn.statement) = true := by
    intro entry hentry
    rw [remembers.statement, beq_iff_eq]
    exact remembers.current entry hentry
  have holder : ∀ entry ∈ base.log, ¬ (entry.statement == txn.statement) = true := by
    intro entry hentry
    rw [remembers.statement, beq_iff_eq]
    exact Nat.ne_of_lt (older entry hentry)
  rw [Transaction.currentWrites, Transaction.forgetStatement, remembers.log]
  constructor
  · rw [List.takeWhile_append_of_pos hnewer]
    cases hbase : base.log with
    | nil => exact List.append_nil _
    | cons entry log =>
      have hfirst := holder entry (by rw [hbase]; exact List.mem_cons_self)
      rw [List.takeWhile_cons, if_neg hfirst, List.append_nil]
  · show List.dropWhile _ _ = _
    rw [List.dropWhile_append_of_pos hnewer]
    cases hbase : base.log with
    | nil => rfl
    | cons entry log =>
      have hfirst := holder entry (by rw [hbase]; exact List.mem_cons_self)
      rw [List.dropWhile_cons, if_neg hfirst]

/-! ## 4. A transaction -/

/-- An abort of what the session runs leads back to the store `start`. -/
def Undoable (start : Store) (s : SessionId) (service : Service) : Prop :=
  ∃ session, service.sessions[s]? = some session ∧
    (session.Markable → start.Alike (service.store.abort session).1)

theorem Undoable.work {start : Store} (undoable : Undoable start s service)
    (reached : Reached history service) {request : Request} (works : request.isWorkOf s = true) :
    Undoable start s (service.handle request).1 := by
  obtain ⟨work, ok⟩ := reached.ok
  obtain ⟨session, asks, halike⟩ := undoable
  have hwrite : ∀ {request : Request}, request.isWriteOf s = true →
      Undoable start s (service.handle request).1 := by
    intro request writes
    obtain ⟨tid, change, check, attempt, htried, hhandle⟩ := handle_write writes asks
    rw [hhandle]
    refine ⟨_, (Maps.get_insert _ _ _ _).trans (if_pos rfl), ?_⟩
    dsimp only
    rcases Store.write_undone ok.store (ok.linked.heldBy asks) tid change check htried with
      ⟨error, herror⟩ | ⟨_, _, txn, txn', newer, henter, hsession, hremembers, hundone⟩
    · rw [herror]
      exact halike
    · rw [hsession]
      intro markable
      have few : txn.id < 2 ^ 40 := hremembers.id ▸ markable txn' rfl
      have hbefore : start.Alike (service.store.undo txn.id txn.log) :=
        (halike (Store.markable_of_enter henter few)).trans
          (.of_tables (Store.tables_abort_of_enter henter).symm)
      have hafter := Store.Alike.withdrawn ok.store hbefore (hundone few)
      refine hafter.trans (.of_tables ?_)
      rw [Store.tables_abort]
      dsimp only
      rw [hremembers.id, hremembers.log]
  cases request with
  | begin t owner =>
    cases eq_of_beq works
    rw [handle, attempt, forSession, asks]
    refine ⟨_, (Maps.get_insert _ _ _ _).trans (if_pos rfl), fun markable => ?_⟩
    exact (halike (Store.markable_begin markable)).trans
      (.of_tables (Store.tables_abort_begin service.store session owner))
  | beginStatement t =>
    cases eq_of_beq works
    rw [handle, perform, forSession, asks]
    refine ⟨_, (Maps.get_insert _ _ _ _).trans (if_pos rfl), fun markable => ?_⟩
    exact (halike (Store.markable_beginStatement markable)).trans
      (.of_tables (Store.tables_abort_beginStatement service.store session))
  | insert => exact hwrite works
  | update => exact hwrite works
  | delete => exact hwrite works
  | _ => cases works

theorem Undoable.run {start : Store} (undoable : Undoable start s service)
    (reached : Reached history service) {requests : List Request}
    (works : ∀ request ∈ requests, request.isWorkOf s = true) :
    Undoable start s (service.run requests).1 := by
  induction requests generalizing history service with
  | nil => exact undoable
  | cons request requests ih =>
    exact ih (undoable.work reached (works request List.mem_cons_self)) (reached.asked request)
      fun r hr => works r (List.mem_cons_of_mem _ hr)

/-- The request makes an end of the transaction that the session runs, and none of its writes is
kept. -/
def Withdraws (service : Service) (s : SessionId) (txn : Transaction) (request : Request) : Prop :=
  request = .abort s ∨ request = .rollback s .session ∨
    ∃ scope, request = .commit s scope ∧
      (service.handle request).2 = .failed (.writeConflict txn.id)

/-- An end without a commit is an abort. -/
theorem Ok.withdraws {work : Work} (ok : service.Ok work) (asks : service.sessions[s]? = some session)
    {txn : Transaction} (runs : session.transaction = some txn) {request : Request}
    (withdraws : service.Withdraws s txn request) :
    (service.handle request).1.store = (service.store.abort session).1 := by
  rcases withdraws with rfl | rfl | ⟨scope, rfl, hrefused⟩
  · rw [handle, perform, forSession, asks]
  · rw [handle, perform, forSession, asks]
    dsimp only
    rw [Store.rollback, runs]
    exact congrArg Prod.fst (if_pos (Or.inl rfl))
  · rw [handle, attempt, forSession, asks] at hrefused ⊢
    dsimp only at hrefused ⊢
    rcases Store.commit_serves (ok.linked.heldBy asks) runs scope with
      ⟨_, heq⟩ | ⟨_, heq⟩ | ⟨_, heq, _⟩
    · rw [heq]
    · rw [heq] at hrefused
      cases hrefused
    · generalize service.store.commit session scope = done at heq hrefused
      obtain ⟨_, _, _⟩ := done
      cases heq
      cases hrefused

/-! ## 5. Rollback -/

/-- Nobody but one session acts. A rollback of a statement in which the session has only written leads
back to the tables and the log that there were before the statement, and an end of its transaction
without a commit leads back to the tables that there were before the transaction. -/
theorem Reached.rollback_restores (reached : Reached history service)
    (asks : service.sessions[s]? = some session) (requests : List Request) :
    (∀ txn, session.multiStatement = true → session.transaction = some txn → txn.id < 2 ^ 40 →
      txn.statement < Transaction.lastStatement →
      (∀ request ∈ requests, request.isWriteOf s = true) →
      ∃ session' txn',
        (service.run (.beginStatement s :: requests ++ [.rollback s .statement])).1.sessions[s]? =
          some session' ∧ session'.transaction = some txn' ∧ txn'.id = txn.id ∧
        txn'.log = txn.log ∧
        service.store.Alike
          (service.run (.beginStatement s :: requests ++ [.rollback s .statement])).1.store) ∧
    (∀ session' txn ending, session.transaction = none →
      (∀ request ∈ requests, request.isWorkOf s = true) →
      (service.run requests).1.sessions[s]? = some session' → session'.transaction = some txn →
      txn.id < 2 ^ 40 → (service.run requests).1.Withdraws s txn ending →
      service.store.Alike ((service.run requests).1.handle ending).1.store) := by
  obtain ⟨work, ok⟩ := reached.ok
  constructor
  · intro txn several runs few short writes
    have htxn := ok.store.runs.txn (ok.linked.heldBy asks txn runs)
    -- What the statement finds: a further number and the log that there was.
    obtain ⟨base, hbegun, hid, hstatement, hlog, htables⟩ : ∃ base,
        (service.handle (.beginStatement s)).1.sessions[s]? =
          some { session with transaction := some base } ∧ base.id = txn.id ∧
        base.statement = txn.statement + 1 ∧ base.log = txn.log ∧
        (service.handle (.beginStatement s)).1.store.tables = service.store.tables := by
      obtain ⟨ledger, snapshot, heq⟩ := Store.beginStatement_of_running service.store runs
      rw [handle, perform, forSession, asks]
      dsimp only
      rw [heq]
      exact ⟨_, (Maps.get_insert _ _ _ _).trans (if_pos rfl), rfl, Nat.min_eq_left short, rfl, rfl⟩
    have hsince : WritesSince service.store base s session (service.handle (.beginStatement s)).1
        base [] :=
      ⟨hbegun, ⟨rfl, rfl, rfl, fun _ h => by cases h⟩, .of_tables htables⟩
    obtain ⟨last, newer, hlast⟩ := hsince.run (reached.asked _) (hid ▸ few) writes
    obtain ⟨hcurrent, hforget⟩ := currentWrites_of_remembers hlast.remembers fun entry hentry => by
      rw [hlog] at hentry
      rw [hstatement]
      exact Nat.lt_succ_of_le (htxn.upTo entry hentry)
    have hrun : (service.run (.beginStatement s :: requests ++ [.rollback s .statement])).1 =
        (((service.handle (.beginStatement s)).1.run requests).1.handle
          (.rollback s .statement)).1 := by
      rw [run_append]
      rfl
    generalize ((service.handle (.beginStatement s)).1.run requests).1 = after at hlast hrun
    have hundo : after.store.rollback { session with transaction := some last } .statement =
        (after.store.undo base.id newer,
          { session with transaction := some last.forgetStatement }) := by
      rw [Store.rollback]
      dsimp only
      rw [if_neg (by simp [several]), hcurrent, hlast.remembers.id]
    rw [hrun, handle, perform, forSession, hlast.asks]
    dsimp only
    rw [hundo]
    exact ⟨_, last.forgetStatement, (Maps.get_insert _ _ _ _).trans (if_pos rfl), rfl,
      hlast.remembers.id.trans hid, hforget.trans hlog, hlast.undone⟩
  · intro session' txn ending idle works asks' runs few withdraws
    have hbefore : Undoable service.store s service := by
      refine ⟨session, asks, fun _ => .of_tables ?_⟩
      rw [Store.tables_abort, idle]
    obtain ⟨last, hlast, halike⟩ := hbefore.run reached works
    cases hlast.symm.trans asks'
    obtain ⟨work', ok'⟩ := (reached.run requests).ok
    rw [ok'.withdraws asks' runs withdraws]
    refine halike fun t ht => ?_
    cases runs.symm.trans ht
    exact few

/-- Moves a row to another key and back, adds a row, deletes the first, and fails to write over it. -/
def rewriting : List Request :=
  [.update 1 0 firstRow (byteRecord 2),
    .update 1 0 firstRow (byteRecord 1), .insert 1 0 (byteRecord 3),
    .delete 1 0 firstRow,
    .update 1 0 firstRow (byteRecord 4)]

/-- The first session has added a row to an indexed table. -/
def oneRow : Service :=
  (small.run [.buildIndex 0 byteIndex, .begin 1 1, .insert 1 0 (byteRecord 1)]).1

/-- The first session rewrites the row in a statement that it takes back, and in a transaction that it
can no longer commit. -/
theorem rewriting_restored :
    (∃ (session session' : Session) (txn txn' : Transaction),
      oneRow.sessions[1]? = some session ∧ session.transaction = some txn ∧ txn.log.length = 2 ∧
      (oneRow.run (.beginStatement 1 :: rewriting ++ [.rollback 1 .statement])).1.sessions[1]? =
        some session' ∧ session'.transaction = some txn' ∧ txn'.log = txn.log ∧
      oneRow.store.Alike
        (oneRow.run (.beginStatement 1 :: rewriting ++ [.rollback 1 .statement])).1.store) ∧
    small.store.Alike ((small.run (.begin 1 1 :: .insert 1 0 (byteRecord 1) :: .beginStatement 1 ::
      rewriting)).1.handle (.commit 1 .session)).1.store := by
  constructor
  · have hsession : (oneRow.sessions[1]?.bind fun session => session.transaction.map fun txn =>
        (session.multiStatement, txn.id, txn.statement, txn.log.length)) = some (true, 1, 1, 2) := by
      decide +kernel
    obtain ⟨session, asks, hrunning⟩ := Option.bind_eq_some_iff.mp hsession
    obtain ⟨txn, runs, htxn⟩ := Option.map_eq_some_iff.mp hrunning
    obtain ⟨several, hrest⟩ := Prod.mk.inj htxn
    obtain ⟨hid, hrest⟩ := Prod.mk.inj hrest
    obtain ⟨hstatement, hlog⟩ := Prod.mk.inj hrest
    obtain ⟨session', txn', asks', runs', _, hsame, halike⟩ :=
      ((reached_small.run _).rollback_restores asks rewriting).1 txn several runs
        (by rw [hid]; decide) (by rw [hstatement]; decide) (by decide)
    exact ⟨session, session', txn, txn', asks, runs, hlog, asks', runs', hsame, halike⟩
  · have hbefore : (small.sessions[1]?.map (·.transaction)) = some none := by
      decide +kernel
    have hafter : ((small.run (.begin 1 1 :: .insert 1 0 (byteRecord 1) :: .beginStatement 1 ::
        rewriting)).1.sessions[1]?.bind (·.transaction)).map (·.id) = some 1 := by
      decide +kernel
    obtain ⟨session, asks, idle⟩ := Option.map_eq_some_iff.mp hbefore
    obtain ⟨txn, hrunning, hid⟩ := Option.map_eq_some_iff.mp hafter
    obtain ⟨session', asks', runs⟩ := Option.bind_eq_some_iff.mp hrunning
    have hrefused : ((small.run (.begin 1 1 :: .insert 1 0 (byteRecord 1) :: .beginStatement 1 ::
        rewriting)).1.handle (.commit 1 .session)).2 = .failed (.writeConflict txn.id) := by
      rw [hid]
      rfl
    exact (reached_small.rollback_restores asks _).2 session' txn _ idle (by decide) asks' runs
      (by rw [hid]; decide) (Or.inr (Or.inr ⟨.session, rfl, hrefused⟩))

end Service
end SnapshotStore
