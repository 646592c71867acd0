import Mathlib
import SnapshotStore.Proofs.Store.Session
import SnapshotStore.Proofs.Table.Outline

/-!
# Stores that look the same from outside

Two stores may differ in the versions, entries and logs they hold and in whom their ledgers have
forgotten, and still hand out the same numbers and snapshots and have tables of one outline
(`Store.Peers`). Sessions that differ in their logs alone have one face (`Session.face`). What neither
writes nor reads rows comes out the same for peers, and leaves them peers: beginning, entering, going
on, ending, and reclaiming, be it in one of them only.
-/

namespace SnapshotStore

/-! ## 1. Ledgers -/

/-- Two ledgers hand out the same ids, sequences and snapshots. -/
structure Ledger.Level (l l' : Ledger) : Prop where
  lastId : l.lastId = l'.lastId
  sequence : l.sequence = l'.sequence
  active : l.active = l'.active
  accepting : l.accepting = l'.accepting

namespace Ledger.Level

variable {l l' : Ledger}

theorem refl (l : Ledger) : l.Level l := ⟨rfl, rfl, rfl, rfl⟩

theorem trans {l'' : Ledger} (first : l.Level l') (second : l'.Level l'') : l.Level l'' :=
  ⟨first.lastId.trans second.lastId, first.sequence.trans second.sequence,
    first.active.trans second.active, first.accepting.trans second.accepting⟩

theorem symm (level : l.Level l') : l'.Level l :=
  ⟨level.lastId.symm, level.sequence.symm, level.active.symm, level.accepting.symm⟩

/-- A transaction begins with both or with neither, under one id and one snapshot. -/
theorem begin? (level : l.Level l') :
    (l.begin? = none ∧ l'.begin? = none) ∨
    ∃ after after' id snapshot, l.begin? = some (after, id, snapshot) ∧
      l'.begin? = some (after', id, snapshot) ∧ after.Level after' := by
  rw [Ledger.begin?, Ledger.begin?, level.accepting, level.lastId, level.sequence]
  cases l'.accepting with
  | false => exact Or.inl ⟨rfl, rfl⟩
  | true =>
    refine Or.inr ⟨_, _, _, _, rfl, rfl, ⟨rfl, rfl, ?_, rfl⟩⟩
    dsimp only
    rw [level.active]

theorem refresh (level : l.Level l') {id id' : Int} (same : id = id') :
    (l.refresh id).1.Level (l'.refresh id').1 ∧ (l.refresh id).2 = (l'.refresh id').2 := by
  subst same
  refine ⟨⟨level.lastId, level.sequence, ?_, level.accepting⟩, level.sequence⟩
  rw [Ledger.refresh, Ledger.refresh, level.active, level.sequence]

theorem commit (level : l.Level l') {id id' : Int} (same : id = id') :
    (l.commit id).1.Level (l'.commit id').1 := by
  subst same
  refine ⟨level.lastId, ?_, ?_, level.accepting⟩
  · rw [Ledger.commit, Ledger.commit, level.sequence]
  · rw [Ledger.commit, Ledger.commit, level.active]

theorem abort (level : l.Level l') {id id' : Int} (same : id = id') :
    (l.abort id).Level (l'.abort id') := by
  subst same
  refine ⟨level.lastId, level.sequence, ?_, level.accepting⟩
  rw [Ledger.abort, Ledger.abort, level.active]

/-- Nothing that a ledger forgets is handed out. -/
theorem prune (l : Ledger) : l.prune.1.Level l := ⟨rfl, rfl, rfl, rfl⟩

theorem accept (level : l.Level l') (on : Bool) :
    ({ l with accepting := on } : Ledger).Level { l' with accepting := on } :=
  ⟨level.lastId, level.sequence, level.active, rfl⟩

end Ledger.Level

/-! ## 2. Sessions -/

/-- The transaction without its log. -/
def Transaction.face (txn : Transaction) : Transaction := { txn with log := [] }

/-- The session without the log of its transaction. -/
def Session.face (session : Session) : Session :=
  { session with transaction := session.transaction.map Transaction.face }

namespace Transaction

variable {txn txn' : Transaction}

theorem face_eq_iff : txn.face = txn'.face ↔ txn.id = txn'.id ∧ txn.snapshot = txn'.snapshot ∧
    txn.statement = txn'.statement ∧ txn.doomed = txn'.doomed := by
  rw [face, face, Transaction.mk.injEq]
  simp only [and_true]

theorem face_remember (txn : Transaction) (tid : TableId) (writes : List Write) :
    (txn.remember tid writes).face = txn.face := rfl

end Transaction

namespace Session

variable {session session' : Session}

/-- Sessions of one face run no transaction, or transactions of one face. -/
theorem face_eq_iff : session.face = session'.face ↔
    session.worker = session'.worker ∧ session.owner = session'.owner ∧
      session.isolation = session'.isolation ∧ session.multiStatement = session'.multiStatement ∧
        session.transaction.map Transaction.face = session'.transaction.map Transaction.face := by
  rw [face, face, Session.mk.injEq]

theorem transaction_of_face (same : session.face = session'.face) :
    (session.transaction = none ∧ session'.transaction = none) ∨
    ∃ txn txn', session.transaction = some txn ∧ session'.transaction = some txn' ∧
      txn.face = txn'.face :=
  Maps.cases_of_map_eq (face_eq_iff.mp same).2.2.2.2

/-- Sessions of one face that are given transactions of one face. -/
theorem face_run (same : session.face = session'.face) {txn txn' : Transaction}
    (h : txn.face = txn'.face) : ({ session with transaction := some txn } : Session).face =
      ({ session' with transaction := some txn' } : Session).face := by
  obtain ⟨hworker, howner, hisolation, hmulti, _⟩ := face_eq_iff.mp same
  exact face_eq_iff.mpr ⟨hworker, howner, hisolation, hmulti, congrArg some h⟩

theorem face_reset (same : session.face = session'.face) :
    session.reset.face = session'.reset.face := by
  obtain ⟨hworker, howner, hisolation, hmulti, _⟩ := face_eq_iff.mp same
  exact face_eq_iff.mpr ⟨hworker, howner, hisolation, hmulti, rfl⟩

theorem face_doom (same : session.face = session'.face) : session.doom.face = session'.doom.face := by
  obtain ⟨hworker, howner, hisolation, hmulti, _⟩ := face_eq_iff.mp same
  refine face_eq_iff.mpr ⟨hworker, howner, hisolation, hmulti, ?_⟩
  rcases transaction_of_face same with ⟨hleft, hright⟩ | ⟨txn, txn', hleft, hright, hface⟩
  · rw [doom, doom, hleft, hright]
  · obtain ⟨hid, hsnapshot, hstatement, _⟩ := Transaction.face_eq_iff.mp hface
    rw [doom, doom, hleft, hright]
    exact congrArg some (Transaction.face_eq_iff.mpr ⟨hid, hsnapshot, hstatement, rfl⟩)

/-- Remembering writes does not show. -/
theorem face_remember (session : Session) (tid : TableId) (writes : List Write) :
    (session.remember tid writes).face = session.face := by
  rw [face, face, remember]
  cases session.transaction <;> rfl

end Session

/-! ## 3. Stores -/

namespace Store

/-- Two stores hand out the same and have tables of one outline. -/
structure Peers (a b : Store) : Prop where
  ledger : a.ledger.Level b.ledger
  outlines : ∀ tid : TableId, (a.tables[tid]?).map Table.outline = (b.tables[tid]?).map Table.outline

/-- What came of an operation is the same, as far as it is to be. -/
inductive Agree {α : Type} (alike : α → α → Prop) : Except Error α → Except Error α → Prop
  | failed (error : Error) : Agree alike (.error error) (.error error)
  | done {x y : α} (h : alike x y) : Agree alike (.ok x) (.ok y)

theorem Agree.of_eq {α : Type} {x y : Except Error α} (h : x = y) : Agree (· = ·) x y := by
  subst h
  cases x with
  | error error => exact .failed error
  | ok result => exact .done rfl

variable {a b : Store} {session session' : Session}

/-- The isolation of both is changed, or of neither. -/
theorem agree_setIsolation (same : session.face = session'.face) (level : Isolation) :
    Agree (fun changed changed' => changed.face = changed'.face) (session.setIsolation level)
      (session'.setIsolation level) := by
  obtain ⟨hworker, howner, _, hmulti, _⟩ := Session.face_eq_iff.mp same
  rw [Session.setIsolation, Session.setIsolation, Session.isActive, Session.isActive]
  rcases Session.transaction_of_face same with ⟨hleft, hright⟩ | ⟨_, _, hleft, hright, _⟩
  · rw [hleft, hright]
    exact .done (Session.face_eq_iff.mpr ⟨hworker, howner, rfl, hmulti, rfl⟩)
  · rw [hleft, hright]
    exact .failed _

namespace Peers

theorem refl (store : Store) : store.Peers store := ⟨.refl _, fun _ => rfl⟩

theorem trans {c : Store} (first : a.Peers b) (second : b.Peers c) : a.Peers c :=
  ⟨first.ledger.trans second.ledger, fun tid => (first.outlines tid).trans (second.outlines tid)⟩

theorem symm (peers : a.Peers b) : b.Peers a :=
  ⟨peers.ledger.symm, fun tid => (peers.outlines tid).symm⟩

theorem withLedger (peers : a.Peers b) {l l' : Ledger} (level : l.Level l') :
    (a.withLedger l).Peers (b.withLedger l') :=
  ⟨level, peers.outlines⟩

/-- A table is there in both, with one outline, or in neither. -/
theorem table (peers : a.Peers b) (tid : TableId) :
    (a.tables[tid]? = none ∧ b.tables[tid]? = none) ∨
    ∃ table table', a.tables[tid]? = some table ∧ b.tables[tid]? = some table' ∧
      table.outline = table'.outline :=
  Maps.cases_of_map_eq (peers.outlines tid)

theorem setTable (peers : a.Peers b) (tid : TableId) {table table' : Table}
    (same : table.outline = table'.outline) : (a.setTable tid table).Peers (b.setTable tid table') := by
  refine ⟨peers.ledger, fun other => ?_⟩
  rw [tables_setTable, tables_setTable]
  split
  · exact congrArg some same
  · exact peers.outlines other

/-- Taking writes back leaves the outlines. -/
theorem undo (peers : a.Peers b) (id id' : Int) (log log' : List LogEntry) :
    (a.undo id log).Peers (b.undo id' log') := by
  have hself : ∀ (store : Store) (id : Int) (log : List LogEntry), (store.undo id log).Peers store := by
    intro store id log
    obtain ⟨hledger, _, htables⟩ := store.undo_spec id log
    refine ⟨hledger ▸ .refl _, fun tid => ?_⟩
    rw [htables tid, Option.map_map]
    exact congrArg (Option.map · _) (funext fun table => Table.outline_undoLog tid id log table)
  exact ((hself a id log).trans peers).trans (hself b id' log').symm

/-- So does publishing them. -/
theorem publish (peers : a.Peers b) (sequence sequence' : Int) (log log' : List LogEntry) :
    (a.publish sequence log).Peers (b.publish sequence' log') := by
  have hself : ∀ (store : Store) (sequence : Int) (log : List LogEntry),
      (store.publish sequence log).Peers store := by
    intro store sequence log
    obtain ⟨hledger, _, htables⟩ := store.publish_spec sequence log
    refine ⟨hledger ▸ .refl _, fun tid => ?_⟩
    rw [htables tid, Option.map_map]
    exact congrArg (Option.map · _)
      (funext fun table => Table.outline_publishLog tid sequence log table)
  exact ((hself a sequence log).trans peers).trans (hself b sequence' log').symm

end Peers

/-! ## 4. Operations that leave the rows alone -/

variable (peers : a.Peers b) (same : session.face = session'.face)
include peers same

/-- A transaction is entered in both or in neither. -/
theorem Peers.enter :
    (∃ error, a.enter session = .error error ∧ b.enter session' = .error error) ∨
    ∃ after after' entered entered' txn txn',
      a.enter session = .ok (after, entered, txn) ∧ b.enter session' = .ok (after', entered', txn') ∧
        after.Peers after' ∧ entered.face = entered'.face ∧ txn.face = txn'.face := by
  rw [Store.enter, Store.enter, Session.enter, Session.enter]
  rcases Session.transaction_of_face same with ⟨hleft, hright⟩ | ⟨txn, txn', hleft, hright, hface⟩
  · rw [hleft, hright]
    dsimp only
    rw [Transaction.begin, Transaction.begin]
    rcases peers.ledger.begin? with ⟨hleft, hright⟩ | ⟨l, l', id, snapshot, hleft, hright, level⟩
    · rw [hleft, hright]
      exact Or.inl ⟨_, rfl, rfl⟩
    · rw [hleft, hright]
      exact Or.inr ⟨_, _, _, _, _, _, rfl, rfl, peers.withLedger level, Session.face_run same rfl, rfl⟩
  · rw [hleft, hright]
    exact Or.inr ⟨_, _, _, _, _, _, rfl, rfl, peers, same, hface⟩

theorem Peers.begin (owner : Nat) :
    (a.begin session owner).1.Peers (b.begin session' owner).1 ∧
      (a.begin session owner).2.1.face = (b.begin session' owner).2.1.face ∧
      (a.begin session owner).2.2 = (b.begin session' owner).2.2 := by
  rw [Store.begin, Store.begin, Session.begin, Session.begin]
  rcases Session.transaction_of_face same with ⟨hleft, hright⟩ | ⟨txn, txn', hleft, hright, hface⟩
  · rw [hleft, hright]
    dsimp only
    rw [Transaction.begin, Transaction.begin]
    rcases peers.ledger.begin? with ⟨hleft, hright⟩ | ⟨l, l', id, snapshot, hleft, hright, level⟩
    · rw [hleft, hright]
      exact ⟨peers, same, rfl⟩
    · rw [hleft, hright]
      obtain ⟨hworker, _, hisolation, hmulti, _⟩ := Session.face_eq_iff.mp same
      exact ⟨peers.withLedger level,
        Session.face_eq_iff.mpr ⟨hworker, rfl, hisolation, hmulti, rfl⟩, rfl⟩
  · rw [hleft, hright]
    exact ⟨peers, same, rfl⟩

theorem Peers.beginStatement :
    (a.beginStatement session).1.Peers (b.beginStatement session').1 ∧
      (a.beginStatement session).2.face = (b.beginStatement session').2.face := by
  rw [Store.beginStatement, Store.beginStatement, Session.beginStatement, Session.beginStatement]
  rcases Session.transaction_of_face same with ⟨hleft, hright⟩ | ⟨txn, txn', hleft, hright, hface⟩
  · rw [hleft, hright]
    exact ⟨peers, same⟩
  · obtain ⟨hid, hsnapshot, hstatement, hdoomed⟩ := Transaction.face_eq_iff.mp hface
    obtain ⟨hworker, howner, hisolation, hmulti, _⟩ := Session.face_eq_iff.mp same
    rw [hleft, hright, hisolation]
    dsimp only
    have hid' : txn.nextStatement.id = txn'.nextStatement.id := hid
    have hnumber : txn.nextStatement.statement = txn'.nextStatement.statement := by
      rw [Transaction.nextStatement, Transaction.nextStatement, hstatement]
    cases session'.isolation with
    | snapshot =>
      have hnext : txn.nextStatement.face = txn'.nextStatement.face :=
        Transaction.face_eq_iff.mpr ⟨hid', hsnapshot, hnumber, hdoomed⟩
      exact ⟨peers, Session.face_eq_iff.mpr ⟨hworker, howner, rfl, hmulti, congrArg some hnext⟩⟩
    | readCommitted =>
      obtain ⟨level, hfresh⟩ := peers.ledger.refresh hid'
      have hnext : ({ txn.nextStatement with
            snapshot := (a.ledger.refresh txn.nextStatement.id).2 } : Transaction).face =
          ({ txn'.nextStatement with
            snapshot := (b.ledger.refresh txn'.nextStatement.id).2 } : Transaction).face :=
        Transaction.face_eq_iff.mpr ⟨hid', hfresh, hnumber, hdoomed⟩
      exact ⟨peers.withLedger level,
        Session.face_eq_iff.mpr ⟨hworker, howner, rfl, hmulti, congrArg some hnext⟩⟩

theorem Peers.abort : (a.abort session).1.Peers (b.abort session').1 ∧
    (a.abort session).2.face = (b.abort session').2.face := by
  rw [Store.abort, Store.abort]
  rcases Session.transaction_of_face same with ⟨hleft, hright⟩ | ⟨txn, txn', hleft, hright, hface⟩
  · rw [hleft, hright]
    exact ⟨peers, same⟩
  · rw [hleft, hright]
    have hundone := peers.undo txn.id txn'.id txn.log txn'.log
    have hlevel := hundone.ledger.abort (Transaction.face_eq_iff.mp hface).1
    exact ⟨hundone.withLedger hlevel, Session.face_reset same⟩

theorem Peers.commit (scope : Scope) :
    (a.commit session scope).1.Peers (b.commit session' scope).1 ∧
      (a.commit session scope).2.1.face = (b.commit session' scope).2.1.face ∧
      (a.commit session scope).2.2 = (b.commit session' scope).2.2 := by
  obtain ⟨haborted, hreset⟩ := peers.abort same
  rw [Store.commit, Store.commit]
  rcases Session.transaction_of_face same with ⟨hleft, hright⟩ | ⟨txn, txn', hleft, hright, hface⟩
  · rw [hleft, hright]
    exact ⟨peers, same, rfl⟩
  · obtain ⟨hid, _, _, hdoomed⟩ := Transaction.face_eq_iff.mp hface
    rw [hleft, hright]
    dsimp only
    rw [hdoomed, (Session.face_eq_iff.mp same).2.2.2.1]
    split
    · exact ⟨haborted, hreset, by rw [hid]⟩
    · split
      · exact ⟨peers, same, rfl⟩
      · exact ⟨(peers.withLedger (peers.ledger.commit hid)).publish _ _ _ _,
          Session.face_reset same, rfl⟩

theorem Peers.rollback (scope : Scope) :
    (a.rollback session scope).1.Peers (b.rollback session' scope).1 ∧
      (a.rollback session scope).2.face = (b.rollback session' scope).2.face := by
  have haborted := peers.abort same
  rw [Store.rollback, Store.rollback]
  rcases Session.transaction_of_face same with ⟨hleft, hright⟩ | ⟨txn, txn', hleft, hright, hface⟩
  · rw [hleft, hright]
    exact ⟨peers, same⟩
  · obtain ⟨hworker, howner, hisolation, hmulti, _⟩ := Session.face_eq_iff.mp same
    rw [hleft, hright]
    dsimp only
    rw [hmulti]
    split
    · exact haborted
    · exact ⟨peers.undo _ _ _ _, Session.face_eq_iff.mpr
        ⟨hworker, howner, hisolation, rfl, congrArg some hface⟩⟩

omit peers same

/-! ## 5. Reclamation -/

/-- Reclamation does not show. -/
theorem peers_reclaimTable {work : Work} (ok : a.Ok work) (tid : TableId) :
    (a.reclaimTable tid).1.Peers a := by
  cases here : a.tables[tid]? with
  | none =>
    rw [reclaimTable_of_absent here]
    exact .refl a
  | some table =>
    rw [reclaimTable_eq here]
    refine ⟨.prune _, fun other => ?_⟩
    rw [tables_setTable]
    split
    · rename_i heq
      rw [heq, here]
      exact congrArg some
        (Table.outline_of_reclaimed ((ok.tables here).reclaim ok.ledger ok.runs).1)
    · rfl

theorem peers_reclaimTables {work : Work} (ok : a.Ok work) (tids : List TableId) :
    (a.reclaimTables tids).1.Peers a := by
  induction tids generalizing a with
  | nil => exact .refl a
  | cons tid tids ih => exact (ih (ok.reclaimTable tid)).trans (peers_reclaimTable ok tid)

end Store
end SnapshotStore
