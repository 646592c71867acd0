import Mathlib
import SnapshotStore.Proofs.Store.Extends

/-!
# What a store does for a session

Every operation of a store on behalf of a session is a few moves on the transaction of that session
(`Serves`). No other transaction is touched, and a transaction that begins is a new one.
-/

namespace SnapshotStore

namespace Session

variable {session : Session} {txn : Transaction} (runs : session.transaction = some txn)

/-- The session once a write has been tried. -/
def settled (session : Session) (tid : TableId) (tried : Table.Attempt) : Session :=
  match tried.outcome with
  | .ok .conflict => session.doom
  | _ => session.remember tid tried.writes

include runs

theorem doom_eq :
    session.doom = { session with transaction := some { txn with doomed := true } } := by
  rw [doom, runs]
  rfl

theorem remember_eq (tid : TableId) (writes : List Write) :
    session.remember tid writes =
      { session with transaction := some (txn.remember tid writes) } := by
  rw [remember, runs]
  rfl

theorem remember_nil (tid : TableId) : session.remember tid [] = session := by
  have hsame : txn.remember tid [] = txn := rfl
  rw [remember_eq runs, hsame, ← runs]

end Session

namespace Store

/-- Several moves in a row. -/
inductive Moves : Store → Work → List Event → Store → Work → Prop
  | refl {store : Store} {work : Work} : Moves store work [] store work
  | step {store store' store'' : Store} {work work' work'' : Work} {event : Event}
    {events : List Event} (move : Move store work event store' work')
    (rest : Moves store' work' events store'' work'') :
    Moves store work (event :: events) store'' work''

namespace Moves

variable {store store' store'' : Store} {work work' work'' : Work} {event : Event}
  {events events' : List Event}

theorem one (move : Move store work event store' work') :
    Moves store work [event] store' work' :=
  .step move .refl

theorem trans (first : Moves store work events store' work')
    (second : Moves store' work' events' store'' work'') :
    Moves store work (events ++ events') store'' work'' := by
  induction first with
  | refl => exact second
  | step move _ ih => exact .step move (ih second)

theorem ok (moves : Moves store work events store' work') (ok : store.Ok work) :
    store'.Ok work' := by
  induction moves with
  | refl => exact ok
  | step move _ ih => exact ih (move.ok ok)

end Moves

variable {store store' : Store} {work work' : Work} {events : List Event}

theorem Moves.grows (moves : Moves store work events store' work') (ok : store.Ok work) :
    Ledger.Grows store.ledger store'.ledger := by
  induction moves with
  | refl => exact .refl _
  | step move _ ih => exact (move.grows ok).trans (ih (move.ok ok))

theorem Moves.extends (moves : Moves store work events store' work') (ok : store.Ok work) :
    store.Extends store' := by
  induction moves with
  | refl => exact .of_tables rfl
  | step move _ ih => exact (move.extends ok).trans (ih (move.ok ok))

/-- What was done for a session: moves that touch no transaction but its own. -/
structure Serves (store : Store) (work : Work) (session : Session) (events : List Event)
    (store' : Store) (work' : Work) (session' : Session) : Prop where
  moves : Moves store work events store' work'
  held : ∀ txn, session'.transaction = some txn → work' txn.id = some txn
  others : ∀ id, (∀ txn, session.transaction = some txn → txn.id ≠ id) →
    (∀ txn, session'.transaction = some txn → txn.id ≠ id) → work' id = work id
  ended : ∀ txn, session.transaction = some txn → session'.transaction = none →
    work' txn.id = none
  origin : ∀ txn, session'.transaction = some txn →
    (∃ old, session.transaction = some old ∧ old.id = txn.id) ∨
      session.transaction = none ∧ work txn.id = none

namespace Serves

variable {store store' store'' : Store} {work work' work'' : Work}
  {session session' session'' : Session} {events events' : List Event}

/-- Nothing was done to any transaction. -/
theorem untouched (held : ∀ txn, session.transaction = some txn → work txn.id = some txn)
    (same : session'.transaction = session.transaction)
    (moves : Moves store work events store' work) :
    Serves store work session events store' work session' where
  moves := moves
  held txn h := held txn (same ▸ h)
  others _ _ _ := rfl
  ended txn h hnone := by
    rw [same, h] at hnone
    cases hnone
  origin txn h := Or.inl ⟨txn, same ▸ h, rfl⟩

/-- What was done for a session that runs a transaction by then. -/
theorem trans {middle : Transaction}
    (first : Serves store work session events store' work' session')
    (hmiddle : session'.transaction = some middle)
    (second : Serves store' work' session' events' store'' work'' session'') :
    Serves store work session (events ++ events') store'' work'' session'' := by
  have heq : ∀ {txn}, session'.transaction = some txn → txn = middle := by
    intro txn h
    rw [hmiddle] at h
    cases h
    rfl
  refine ⟨first.moves.trans second.moves, second.held, fun id hbefore hafter => ?_,
    fun txn h hnone => ?_, fun txn h => ?_⟩
  · by_cases hid : middle.id = id
    · -- A transaction that began and ended in between.
      subst hid
      rcases first.origin middle hmiddle with ⟨old, hold, hid⟩ | ⟨_, hfresh⟩
      · exact absurd hid (hbefore old hold)
      · cases hlast : session''.transaction with
        | none => rw [second.ended middle hmiddle hlast, hfresh]
        | some last =>
          rcases second.origin last hlast with ⟨old, hold, hid⟩ | ⟨hnone, _⟩
          · rw [heq hold] at hid
            exact absurd hid.symm (hafter last hlast)
          · rw [hmiddle] at hnone
            cases hnone
    · have hmiddle' : ∀ txn, session'.transaction = some txn → txn.id ≠ id := by
        intro txn h
        rw [heq h]
        exact hid
      rw [second.others id hmiddle' hafter, first.others id hbefore hmiddle']
  · rcases first.origin middle hmiddle with ⟨old, hold, hid⟩ | ⟨hidle, _⟩
    · rw [h] at hold
      cases hold
      rw [hid]
      exact second.ended middle hmiddle hnone
    · rw [h] at hidle
      cases hidle
  · rcases second.origin txn h with ⟨old, hold, hid⟩ | ⟨hnone, _⟩
    · rw [← hid, heq hold]
      exact first.origin middle hmiddle
    · rw [hmiddle] at hnone
      cases hnone

/-- A move of the session's transaction that leaves it running. -/
theorem of_move {event : Event} {txn txn' : Transaction} (hbefore : session.transaction = some txn)
    (hafter : session'.transaction = some txn') (hid : txn'.id = txn.id)
    (move : Move store work event store' (Function.update work txn.id (some txn'))) :
    Serves store work session [event] store' (Function.update work txn.id (some txn'))
      session' := by
  refine ⟨.one move, fun t ht => ?_, fun id hb _ => ?_, fun t _ hnone => ?_, fun t ht => ?_⟩
  · rw [hafter] at ht
    cases ht
    rw [hid, Function.update_self]
  · exact Function.update_of_ne (Ne.symm (hb txn hbefore)) _ _
  · rw [hafter] at hnone
    cases hnone
  · rw [hafter] at ht
    cases ht
    exact Or.inl ⟨txn, hbefore, hid.symm⟩

/-- A move that ends the session's transaction, after others that leave it running. -/
theorem of_end {txn : Transaction} (hbefore : session.transaction = some txn)
    (hafter : session'.transaction = none)
    (moves : Moves store work events store' work')
    (hwork : work' = Function.update work txn.id none) :
    Serves store work session events store' work' session' := by
  refine ⟨moves, fun t ht => ?_, fun id hb _ => ?_, fun t ht _ => ?_, fun t ht => ?_⟩
  · rw [hafter] at ht
    cases ht
  · rw [hwork]
    exact Function.update_of_ne (Ne.symm (hb txn hbefore)) _ _
  · rw [hbefore] at ht
    cases ht
    rw [hwork, Function.update_self]
  · rw [hafter] at ht
    cases ht

/-- A transaction that begins for a session. -/
theorem of_begin {l : Ledger} {id snapshot : Int} (ok : store.Ok work)
    (hbefore : session.transaction = none)
    (hafter : session'.transaction = some { id, snapshot })
    (begin : store.ledger.begin? = some (l, id, snapshot)) :
    Serves store work session [.began id] (store.withLedger l)
      (Function.update work id (some { id, snapshot })) session' := by
  have hfresh : work id = none := by
    obtain ⟨_, rfl, _, _⟩ := Ledger.begin?_eq_some.mp begin
    exact ok.idle_next
  refine ⟨.one (.began begin), fun t ht => ?_, fun other _ ha => ?_, fun t ht => ?_, fun t ht => ?_⟩
  · rw [hafter] at ht
    cases ht
    exact Function.update_self _ _ _
  · exact Function.update_of_ne (Ne.symm (ha _ hafter)) _ _
  · rw [hbefore] at ht
    cases ht
  · rw [hafter] at ht
    cases ht
    exact Or.inr ⟨hbefore, hfresh⟩

end Serves

section Operations

variable {session : Session}

/-! ## 1. Beginnings -/

/-- The events of entering a transaction: it runs already, or begins. -/
def Entered (session : Session) (txn : Transaction) (events : List Event) : Prop :=
  session.transaction = some txn ∧ events = [] ∨
    session.transaction = none ∧ events = [.began txn.id] ∧ txn.doomed = false ∧ txn.log = []

/-- A running transaction is entered as it is. -/
theorem enter_of_running {txn : Transaction} (h : session.transaction = some txn) :
    store.enter session = .ok (store, session, txn) := by
  rw [Store.enter, Session.enter, h]
  rfl

/-- Entering a transaction leaves the tables alone. -/
theorem enter_eq_ok {session' : Session} {txn : Transaction}
    (h : store.enter session = .ok (store', session', txn)) :
    store'.tables = store.tables ∧ session'.transaction = some txn := by
  obtain ⟨⟨ledger, _, _⟩, henter, heq⟩ := Fallible.bind_eq_ok.mp h
  cases heq
  refine ⟨rfl, ?_⟩
  rw [Session.enter] at henter
  split at henter
  · rename_i txn' hrunning
    cases henter
    exact hrunning
  · obtain ⟨_, _, heq⟩ := Fallible.bind_eq_ok.mp henter
    cases heq
    rfl

theorem enter_serves (ok : store.Ok work)
    (held : ∀ txn, session.transaction = some txn → work txn.id = some txn)
    {store' : Store} {session' : Session} {txn : Transaction}
    (h : store.enter session = .ok (store', session', txn)) :
    ∃ events work', Serves store work session events store' work' session' ∧
      session'.transaction = some txn ∧ Entered session txn events ∧
      store'.tables = store.tables := by
  rw [enter, Session.enter] at h
  cases hsession : session.transaction with
  | some running =>
    rw [hsession] at h
    cases h
    exact ⟨[], work, .untouched held rfl .refl, hsession, Or.inl ⟨hsession, rfl⟩, rfl⟩
  | none =>
    rw [hsession] at h
    cases hbegin : store.ledger.begin? with
    | none =>
      simp only [Transaction.begin, hbegin] at h
      cases h
    | some begun =>
      obtain ⟨l, id, snapshot⟩ := begun
      simp only [Transaction.begin, hbegin] at h
      cases h
      exact ⟨_, _, .of_begin ok hsession rfl hbegin, rfl, Or.inr ⟨hsession, rfl, rfl, rfl⟩, rfl⟩

theorem begin_serves (ok : store.Ok work) (session : Session) (owner : Nat) :
    (∃ error, store.begin session owner = (store, session, .error error)) ∨
    ∃ store' session' txn work', store.begin session owner = (store', session', .ok ()) ∧
      session.transaction = none ∧ session'.transaction = some txn ∧
      Serves store work session [.began txn.id] store' work' session' := by
  rw [begin, Session.begin]
  cases hsession : session.transaction with
  | some running => exact Or.inl ⟨_, rfl⟩
  | none =>
    cases hbegin : store.ledger.begin? with
    | none =>
      left
      simp only [Transaction.begin, hbegin]
      exact ⟨_, rfl⟩
    | some begun =>
      obtain ⟨l, id, snapshot⟩ := begun
      right
      simp only [Transaction.begin, hbegin]
      exact ⟨_, _, { id, snapshot }, _, rfl, trivial, rfl, .of_begin ok hsession rfl hbegin⟩

section Running

variable (held : ∀ txn, session.transaction = some txn → work txn.id = some txn)
include held

theorem beginStatement_serves {txn : Transaction} (hsession : session.transaction = some txn) :
    ∃ txn' work' events, (store.beginStatement session).2.transaction = some txn' ∧
      txn'.id = txn.id ∧ (events = [.statement txn.id] ∨ events = [.statement txn.id, .quiet]) ∧
      Serves store work session events (store.beginStatement session).1 work'
        (store.beginStatement session).2 := by
  have running := held txn hsession
  have hfirst : Serves store work session [.statement txn.id] store
      (Function.update work txn.id (some txn.nextStatement))
      { session with transaction := some txn.nextStatement } :=
    .of_move hsession rfl rfl (.statement running)
  cases hisolation : session.isolation with
  | snapshot =>
    have hbegin : store.beginStatement session =
        (store, { session with transaction := some txn.nextStatement }) := by
      rw [beginStatement, Session.beginStatement, hsession]
      simp only [hisolation]
    rw [hbegin]
    exact ⟨txn.nextStatement, _, _, rfl, rfl, Or.inl rfl, hfirst⟩
  | readCommitted =>
    have hbegin : store.beginStatement session =
        (store.withLedger (store.ledger.refresh txn.id).1, { session with
          transaction := some { txn.nextStatement with snapshot := store.ledger.sequence } }) := by
      rw [beginStatement, Session.beginStatement, hsession]
      simp only [hisolation]
      rfl
    rw [hbegin]
    have hnext : Function.update work txn.id (some txn.nextStatement) txn.nextStatement.id =
        some txn.nextStatement := Function.update_self _ _ _
    exact ⟨{ txn.nextStatement with snapshot := store.ledger.sequence }, _, _, rfl, rfl, Or.inr rfl,
      hfirst.trans rfl (.of_move rfl rfl rfl (.refreshed hnext))⟩

/-! ## 2. Endings -/

theorem abort_serves {txn : Transaction} (hsession : session.transaction = some txn) :
    (store.abort session).2 = session.reset ∧ ∃ work', Serves store work session
      [.undone txn.id true, .aborted txn.id] (store.abort session).1 work' session.reset := by
  have running := held txn hsession
  have hundone : Move store work (.undone txn.id true) _ _ := .undone running true
  have habort : store.abort session =
      ((store.undo txn.id txn.log).withLedger ((store.undo txn.id txn.log).ledger.abort txn.id),
        session.reset) := by
    rw [abort, hsession]
    rfl
  rw [habort]
  have hblank : Function.update work txn.id (some { txn with log := [] }) txn.id =
      some { txn with log := [] } := Function.update_self _ _ _
  refine ⟨rfl, _, .of_end hsession rfl (.step hundone (.one (.aborted hblank rfl))) ?_⟩
  exact Function.update_idem _ _ _

theorem commit_serves {txn : Transaction} (hsession : session.transaction = some txn)
    (scope : Scope) :
    (txn.doomed = true ∧ (store.commit session scope) =
        ((store.abort session).1, session.reset, .error (.writeConflict txn.id))) ∨
    (txn.doomed = false ∧
      store.commit session scope = (store, session, .ok .statementEnded)) ∨
    (txn.doomed = false ∧ (store.commit session scope).2 = (session.reset, .ok .committed) ∧
      ∃ work', Serves store work session [.committed txn.id] (store.commit session scope).1 work'
        session.reset) := by
  have running := held txn hsession
  cases hdoomed : txn.doomed with
  | true =>
    refine Or.inl ⟨rfl, ?_⟩
    have habort : (store.abort session).2 = session.reset := (abort_serves held hsession).1
    rw [commit, hsession]
    simp only [hdoomed, if_true]
    rw [← habort]
  | false =>
    right
    by_cases hscope : scope = .statement ∧ session.multiStatement = true
    · refine Or.inl ⟨rfl, ?_⟩
      rw [commit, hsession]
      simp only [hdoomed, Bool.false_eq_true, if_false, hscope, and_self, if_true]
    · refine Or.inr ⟨rfl, ?_⟩
      have hcommit : store.commit session scope =
          ((store.withLedger (store.ledger.commit txn.id).1).publish (store.ledger.sequence + 1)
            txn.log, session.reset, .ok .committed) := by
        rw [commit, hsession]
        simp only [hdoomed, Bool.false_eq_true, if_false, hscope]
        rfl
      rw [hcommit]
      exact ⟨rfl, _, .of_end hsession rfl (.one (.committed running hdoomed)) rfl⟩

theorem rollback_serves {txn : Transaction} (hsession : session.transaction = some txn)
    (scope : Scope) :
    (scope = .session ∨ ¬ session.multiStatement) ∧
        store.rollback session scope = store.abort session ∨
    ¬ (scope = .session ∨ ¬ session.multiStatement) ∧
      (store.rollback session scope).2.transaction = some txn.forgetStatement ∧
      ∃ work', Serves store work session [.undone txn.id false] (store.rollback session scope).1
        work' (store.rollback session scope).2 := by
  have running := held txn hsession
  rw [rollback, hsession]
  dsimp only
  split
  · rename_i hwhole
    exact Or.inl ⟨hwhole, rfl⟩
  · rename_i hstatement
    exact Or.inr ⟨hstatement, rfl, _, .of_move hsession rfl rfl (.undone running false)⟩

end Running

/-! ## 3. Writes -/

/-- A write as it is asked for. -/
inductive Change where
  | insert (record : Record)
  | update (row : RowHandle) (record : Record)
  | delete (row : RowHandle)

namespace Change

/-- The row that is to get a version, and the record to put there. Only for the handle of a new row
do we look at what was replied. -/
def put? (ref : Table.RowRef) : Change → Option (RowHandle × Record)
  | insert record => some (ref.handle, record)
  | update row record => some (row, record)
  | delete _ => none

end Change

/-- What may come of a write that was tried. If anything is written, it is what was asked for. -/
inductive Tried (l : Ledger) (txn : Transaction) (table : Table) (change : Change) :
    Table.Attempt → Prop
  | conflict : Tried l txn table change { table, outcome := .ok .conflict }
  | refused {after : Table} {outcome : Except Error WriteOutcome} (unchanged : table.Unchanged after)
    (refusal : (∃ error, outcome = .error error) ∨ ∃ index, outcome = .ok (.keyExists index)) :
    Tried l txn table change { table := after, outcome }
  | wrote {after : Table} {writes : List Write} {ref : Table.RowRef} {row : RowHandle}
    {record : Record} {old? : Option Record} (asked : change.put? ref = some (row, record))
    (wrote : Table.Wrote l txn table row record old? after writes)
    (writable : ∀ newest older, table.chainOf row = newest :: older →
      newest.isWritable l txn.id txn.snapshot = true) :
    Tried l txn table change { table := after, writes, outcome := .ok (.written ref) }
  | marked {row : RowHandle} {newest : Version} {older : Chain} (asked : change = .delete row)
    (chain : table.chainOf row = newest :: older)
    (writable : newest.isWritable l txn.id txn.snapshot = true) :
    Tried l txn table change
      { table := table.withChain row (newest.mark txn.stamp :: older)
        writes := [.marked row newest.id]
        outcome := .ok .deleted }

/-- The event of a write that was asked for, if it has gone through. -/
def writeEvents (id : Int) (table : TableId) (change : Change)
    (outcome : Except Error WriteOutcome) : List Event :=
  match change, outcome with
  | .insert record, .ok (.written ref) => [.wrote id table ref.handle (some record)]
  | .update row record, .ok (.written _) => [.wrote id table row (some record)]
  | .delete row, .ok .deleted => [.wrote id table row none]
  | _, _ => []

theorem writeEvents_written {change : Change} {ref : Table.RowRef} {row : RowHandle}
    {record : Record} (asked : change.put? ref = some (row, record)) (id : Int) (table : TableId) :
    writeEvents id table change (.ok (.written ref)) = [.wrote id table row (some record)] := by
  cases change with
  | insert | update =>
    cases asked
    rfl
  | delete => cases asked

/-- A write that was refused bears no event. -/
theorem writeEvents_refused {outcome : Except Error WriteOutcome}
    (refusal : (∃ error, outcome = .error error) ∨ (∃ index, outcome = .ok (.keyExists index)) ∨
      outcome = .ok .conflict) (id : Int) (table : TableId) (change : Change) :
    writeEvents id table change outcome = [] := by
  rcases refusal with ⟨error, rfl⟩ | ⟨index, rfl⟩ | rfl <;> cases change <;> rfl

theorem writeEvents_loud {id : Int} {table : TableId} {change : Change}
    {outcome : Except Error WriteOutcome} {event : Event}
    (h : event ∈ writeEvents id table change outcome) : event.isQuiet = false := by
  unfold writeEvents at h
  split at h
  case h_4 => cases h
  all_goals
    rw [List.mem_singleton.mp h]
    rfl

theorem refusal_outcome (refusal : Table.Refusal) :
    (∃ error, refusal.outcome = .error error) ∨ ∃ index, refusal.outcome = .ok (.keyExists index) := by
  cases refusal with
  | taken index => exact Or.inr ⟨index, rfl⟩
  | failed error => exact Or.inl ⟨error, rfl⟩

section Tried

variable {l : Ledger} {tid : TableId} {table : Table} {txn : Transaction}

theorem Tried.of_refusal {change : Change} {tried : Table.Attempt} (refusal : Table.Refusal)
    (outcome : tried.outcome = refusal.outcome) (writes : tried.writes = [])
    (unchanged : table.Unchanged tried.table) : Tried l txn table change tried := by
  cases tried
  cases outcome
  cases writes
  exact .refused unchanged (refusal_outcome refusal)

theorem Tried.of_written {change : Change} {tried : Table.Attempt} {ref : Table.RowRef}
    {row : RowHandle} {record : Record} {old? : Option Record}
    (asked : change.put? ref = some (row, record)) (outcome : tried.outcome = .ok (.written ref))
    (wrote : Table.Wrote l txn table row record old? tried.table tried.writes)
    (writable : ∀ newest older, table.chainOf row = newest :: older →
      newest.isWritable l txn.id txn.snapshot = true) : Tried l txn table change tried := by
  cases tried
  cases outcome
  exact .wrote asked wrote writable

theorem tried_insert (ok : Table.Ok l work tid [] table) (txn : Transaction) (record : Record) :
    Tried l txn table (.insert record) (table.insertRow l txn record) := by
  rcases ok.insertRow_spec txn record with ⟨_, heq⟩ | ⟨new, _, hrefused | hdone⟩
  · rw [heq]
    exact .refused (.refl table) (Or.inl ⟨_, rfl⟩)
  · obtain ⟨refusal, _, houtcome, hwrites, hunchanged⟩ := hrefused
    exact .of_refusal refusal houtcome hwrites hunchanged
  · obtain ⟨_, houtcome, hchain, hwrote⟩ := hdone
    apply Tried.of_written rfl houtcome hwrote
    intro newest older h
    rw [hchain] at h
    cases h

theorem tried_update (ok : Table.Ok l work tid [] table) (txn : Transaction) (row : RowHandle)
    (record : Record) : Tried l txn table (.update row record) (table.updateRow l txn row record) := by
  rcases ok.updateRow_spec txn row record with
    ⟨_, heq⟩ | ⟨newest, older, hchain, hwritable, hrefused | hdone⟩
  · rw [heq]
    exact .conflict
  · obtain ⟨refusal, _, houtcome, hwrites, hunchanged⟩ := hrefused
    exact .of_refusal refusal houtcome hwrites hunchanged
  · obtain ⟨_, houtcome, hwrote⟩ := hdone
    apply Tried.of_written rfl houtcome hwrote
    intro v below h
    rw [hchain] at h
    rw [← (List.cons.inj h).1]
    exact hwritable

theorem tried_delete (ok : Table.Ok l work tid [] table) (txn : Transaction) (row : RowHandle) :
    Tried l txn table (.delete row) (table.deleteRow l txn row) := by
  rcases ok.deleteRow_spec txn row with ⟨_, heq⟩ | ⟨newest, older, hchain, hwritable, heq⟩
  · rw [heq]
    exact .conflict
  · rw [heq]
    exact .marked rfl hchain hwritable

end Tried

theorem setTable_self {tid : TableId} {table : Table} (here : store.tables[tid]? = some table) :
    store.setTable tid table = store := by
  rw [setTable, Maps.insert_self here]

/-- A write does nothing if there is no such table, the record does not fit or no transaction can be
entered. A doomed transaction meets a conflict; for any other the write is tried. -/
theorem write_cases (store : Store) (session : Session) (tid : TableId)
    (check : Table → Except Error Unit) (attempt : Table → Ledger → Transaction → Table.Attempt) :
    (∃ error, store.write session tid check attempt = (store, session, .error error)) ∨
    ∃ table entered asking txn, store.tables[tid]? = some table ∧
      store.enter session = .ok (entered, asking, txn) ∧
      (txn.doomed = true ∧
          store.write session tid check attempt = (entered, asking, .ok .conflict) ∨
        txn.doomed = false ∧ ∃ tried, tried = attempt table entered.ledger txn ∧
          store.write session tid check attempt =
            (entered.setTable tid tried.table, asking.settled tid tried, tried.outcome)) := by
  rw [write]
  cases htable : store.table tid with
  | error error => exact Or.inl ⟨_, rfl⟩
  | ok table =>
    dsimp only
    cases check table with
    | error error => exact Or.inl ⟨_, rfl⟩
    | ok _ =>
      dsimp only
      cases henter : store.enter session with
      | error error => exact Or.inl ⟨_, rfl⟩
      | ok result =>
        obtain ⟨entered, asking, txn⟩ := result
        refine Or.inr ⟨table, entered, asking, txn, table_eq_ok.mp htable, rfl, ?_⟩
        by_cases hdoomed : txn.doomed = true
        · exact Or.inl ⟨hdoomed, if_pos hdoomed⟩
        · exact Or.inr ⟨Bool.eq_false_of_not_eq_true hdoomed, _, rfl, if_neg hdoomed⟩

/-- What comes of a write by a running transaction that is not doomed. -/
theorem write_outcome {txn : Transaction} (runs : session.transaction = some txn)
    (alive : txn.doomed = false) {tid : TableId} {table : Table}
    (here : store.tables[tid]? = some table) (check : Table → Except Error Unit)
    (attempt : Table → Ledger → Transaction → Table.Attempt) :
    (store.write session tid check attempt).2.2 =
      match check table with
      | .error error => .error error
      | .ok () => (attempt table store.ledger txn).outcome := by
  rw [write, table_eq_ok.mpr here]
  dsimp only
  cases check table with
  | error error => rfl
  | ok =>
    dsimp only
    rw [enter_of_running runs]
    dsimp only
    rw [if_neg (by rw [alive]; exact Bool.false_ne_true)]

/-- What was done for a session whose write was tried, and what is told of it. -/
theorem Tried.serves {tid : TableId} {table : Table} {txn : Transaction} {change : Change}
    {tried : Table.Attempt} (htried : Tried store.ledger txn table change tried)
    (held : ∀ txn, session.transaction = some txn → work txn.id = some txn)
    (runs : session.transaction = some txn) (alive : txn.doomed = false)
    (here : store.tables[tid]? = some table) :
    ∃ events work' txn',
      Serves store work session events (store.setTable tid tried.table) work'
        (session.settled tid tried) ∧
      (session.settled tid tried).transaction = some txn' ∧ txn'.id = txn.id ∧
      (events = writeEvents txn.id tid change tried.outcome ∨
        writeEvents txn.id tid change tried.outcome = [] ∧ events = [.quiet]) := by
  have running := held txn runs
  cases htried with
  | conflict =>
    have hdoom : session.doom.transaction = some { txn with doomed := true } := by
      rw [Session.doom_eq runs]
    have hstep : Serves store work session [.quiet] store
        (Function.update work txn.id (some { txn with doomed := true })) session.doom :=
      .of_move runs hdoom rfl (.doomed running)
    rw [setTable_self here]
    exact ⟨[.quiet], _, _, hstep, hdoom, rfl,
      Or.inr ⟨writeEvents_refused (Or.inr (Or.inr rfl)) _ _ _, rfl⟩⟩
  | @refused after outcome unchanged refusal =>
    have hstep : Serves store work session [.quiet] (store.setTable tid after) work session :=
      .untouched held rfl (.one (.refused here unchanged))
    have hnone : writeEvents txn.id tid change outcome = [] :=
      writeEvents_refused (refusal.imp_right Or.inl) _ _ _
    rcases refusal with ⟨error, rfl⟩ | ⟨index, rfl⟩
    all_goals
      rw [Session.settled]
      dsimp only
      rw [Session.remember_nil runs]
      exact ⟨[.quiet], _, txn, hstep, runs, rfl, Or.inr ⟨hnone, rfl⟩⟩
  | @wrote after writes ref row record old? asked wrote writable =>
    have hafter : (session.remember tid writes).transaction = some (txn.remember tid writes) := by
      rw [Session.remember_eq runs]
    exact ⟨_, _, _, .of_move runs hafter rfl (.wrote running alive here wrote writable), hafter,
      rfl, Or.inl (writeEvents_written asked _ _).symm⟩
  | @marked row newest older asked hchain writable =>
    subst asked
    have hafter : (session.remember tid [.marked row newest.id]).transaction =
        some (txn.remember tid [.marked row newest.id]) := by
      rw [Session.remember_eq runs]
    exact ⟨_, _, _, .of_move runs hafter rfl (.marked running alive here hchain writable), hafter,
      rfl, Or.inl rfl⟩

/-- What was done for a session that tried to write. -/
theorem write_serves (ok : store.Ok work)
    (held : ∀ txn, session.transaction = some txn → work txn.id = some txn) (tid : TableId)
    (change : Change) (check : Table → Except Error Unit)
    {attempt : Table → Ledger → Transaction → Table.Attempt}
    (htried : ∀ {l : Ledger} {work : Work} {table : Table}, Table.Ok l work tid [] table →
      ∀ txn, Tried l txn table change (attempt table l txn)) :
    (∃ error, store.write session tid check attempt = (store, session, .error error)) ∨
    ∃ events work' txn txn' lead,
      Serves store work session events (store.write session tid check attempt).1 work'
        (store.write session tid check attempt).2.1 ∧
      Entered session txn lead ∧
      (store.write session tid check attempt).2.1.transaction = some txn' ∧ txn'.id = txn.id ∧
      (events = lead ++ writeEvents txn.id tid change (store.write session tid check attempt).2.2 ∨
        writeEvents txn.id tid change (store.write session tid check attempt).2.2 = [] ∧
          events = lead ++ [.quiet]) := by
  rcases store.write_cases session tid check attempt with ⟨error, heq⟩ |
    ⟨table, store', session', txn, hold, henter, hcases⟩
  · exact Or.inl ⟨error, heq⟩
  right
  obtain ⟨lead, work', hserves, hsession, hentered, htables⟩ := enter_serves ok held henter
  rcases hcases with ⟨_, heq⟩ | ⟨alive, _, rfl, heq⟩
  · rw [heq]
    refine ⟨lead, work', txn, txn, lead, hserves, hentered, hsession, rfl, Or.inl ?_⟩
    rw [writeEvents_refused (Or.inr (Or.inr rfl)), List.append_nil]
  · have here : store'.tables[tid]? = some table := by rw [htables]; exact hold
    have htry := htried ((hserves.moves.ok ok).tables here) txn
    obtain ⟨events, work'', txn', hstep, hafter, hid, htold⟩ :=
      htry.serves hserves.held hsession alive here
    rw [heq]
    exact ⟨lead ++ events, work'', txn, txn', lead, hserves.trans hsession hstep, hentered, hafter,
      hid, htold.imp (congrArg (lead ++ ·)) (.imp_right (congrArg (lead ++ ·)))⟩

/-! ## 4. Reads -/

/-- The store and the session after an operation that only entered a transaction, if anything. -/
def Enters (store : Store) (session : Session) (store' : Store) (session' : Session) : Prop :=
  (store' = store ∧ session' = session) ∨
    ∃ txn, store.enter session = .ok (store', session', txn)

theorem lookup_enters (store : Store) (session : Session) (tid : TableId) (index : Nat)
    (key : Bytes) (own : Bool) : Enters store session (store.lookup session tid index key own).1
      (store.lookup session tid index key own).2.1 := by
  rw [lookup]
  split
  · exact Or.inl ⟨rfl, rfl⟩
  · split
    · exact Or.inl ⟨rfl, rfl⟩
    · rename_i henter
      split <;> exact Or.inr ⟨_, henter⟩

theorem openScan_enters (store : Store) (session : Session) (tid : TableId) (kind : ScanKind)
    (index : Nat) (key : Bytes) (inclusive own : Bool) :
    Enters store session (store.openScan session tid kind index key inclusive own).1
      (store.openScan session tid kind index key inclusive own).2.1 := by
  rw [openScan]
  split
  · exact Or.inl ⟨rfl, rfl⟩
  · split
    · exact Or.inl ⟨rfl, rfl⟩
    · rename_i henter
      split <;> exact Or.inr ⟨_, henter⟩

theorem nextInScan_enters (store : Store) (session : Session) (tid : TableId) (kind : ScanKind)
    (scan : IndexScan) (own : Bool) :
    Enters store session (store.nextInScan session tid kind scan own).2.1
      (store.nextInScan session tid kind scan own).2.2.1 := by
  rw [nextInScan]
  split
  · exact Or.inl ⟨rfl, rfl⟩
  · split
    · exact Or.inl ⟨rfl, rfl⟩
    · rename_i henter
      split <;> exact Or.inr ⟨_, henter⟩

theorem nextInTable_enters (store : Store) (session : Session) (tid : TableId) (scan : TableScan)
    (own : Bool) : Enters store session (store.nextInTable session tid scan own).2.1
      (store.nextInTable session tid scan own).2.2.1 := by
  rw [nextInTable]
  split
  · exact Or.inl ⟨rfl, rfl⟩
  · split
    · exact Or.inl ⟨rfl, rfl⟩
    · rename_i henter
      split <;> exact Or.inr ⟨_, henter⟩

end Operations

end Store
end SnapshotStore
