import Mathlib
import SnapshotStore.Service
import SnapshotStore.Proofs.Store.Session

/-!
# What is always true of a service

The transactions that run on the store of a service are those that its sessions hold, each held by one
session (`Linked`). With that, whatever is asked of a service is a run of moves of its store, and the
request and the reply tell the events of these moves (`handle_moves`). So what a claim about replies
says about the store is settled move by move.
-/

namespace SnapshotStore

/-- The sessions hold the running transactions, each by one. -/
structure Linked (sessions : Std.ExtTreeMap SessionId Session) (last : SessionId) (work : Work) :
    Prop where
  held : ∀ {s : SessionId} {session : Session} {txn : Transaction}, sessions[s]? = some session →
    session.transaction = some txn → work txn.id = some txn
  distinct : ∀ {s s' : SessionId} {session session' : Session} {txn txn' : Transaction},
    sessions[s]? = some session → session.transaction = some txn →
    sessions[s']? = some session' → session'.transaction = some txn' → txn.id = txn'.id → s = s'
  running : ∀ {id : Int} {txn : Transaction}, work id = some txn →
    ∃ (s : SessionId) (session : Session), sessions[s]? = some session ∧
      session.transaction = some txn
  numbered : ∀ {s : SessionId} {session : Session}, sessions[s]? = some session → s ≤ last

namespace Linked

variable {sessions : Std.ExtTreeMap SessionId Session} {last : SessionId} {work work' : Work}
  {store store' : Store} {events : List Event} {s : SessionId} {session session' : Session}

theorem heldBy (linked : Linked sessions last work) (here : sessions[s]? = some session) :
    ∀ txn, session.transaction = some txn → work txn.id = some txn :=
  fun _ h => linked.held here h

/-- The transactions of other sessions are none of this one's, before and after it is served. -/
theorem apart (linked : Linked sessions last work) (here : sessions[s]? = some session)
    (serves : Store.Serves store work session events store' work' session') {t : SessionId}
    {other : Session} {txn : Transaction} (hne : t ≠ s) (ht : sessions[t]? = some other)
    (htxn : other.transaction = some txn) :
    (∀ mine, session.transaction = some mine → mine.id ≠ txn.id) ∧
      ∀ mine, session'.transaction = some mine → mine.id ≠ txn.id := by
  have hbefore : ∀ mine, session.transaction = some mine → mine.id ≠ txn.id := by
    intro mine hmine heq
    exact hne (linked.distinct here hmine ht htxn heq).symm
  refine ⟨hbefore, fun mine hmine heq => ?_⟩
  rcases serves.origin mine hmine with ⟨old, hold, hid⟩ | ⟨_, hfresh⟩
  · exact hbefore old hold (hid.trans heq)
  · rw [heq, linked.held ht htxn] at hfresh
    cases hfresh

/-- What runs after a session was served, and is not the session's, was not the session's before: it
would have ended, or be held still. -/
theorem not_held (serves : Store.Serves store work session events store' work' session') {id : Int}
    {txn : Transaction} (hwork : work' id = some txn)
    (hafter : ∀ mine, session'.transaction = some mine → mine.id ≠ id) :
    ∀ mine, session.transaction = some mine → mine.id ≠ id := by
  intro mine hmine heq
  cases hlast : session'.transaction with
  | none =>
    rw [← heq, serves.ended mine hmine hlast] at hwork
    cases hwork
  | some now =>
    rcases serves.origin now hlast with ⟨old, hold, hid⟩ | ⟨hnone, _⟩
    · cases hmine.symm.trans hold
      exact hafter now hlast (hid.symm.trans heq)
    · cases hmine.symm.trans hnone

/-- What is done for a session keeps the link. -/
theorem serve (linked : Linked sessions last work) (runs : Work.Ok store.ledger work)
    (here : sessions[s]? = some session)
    (serves : Store.Serves store work session events store' work' session') :
    Linked (sessions.insert s session') last work' := by
  refine ⟨fun {t other txn} ht htxn => ?held, fun {t t' other other' txn txn'} ht htxn ht' htxn' hid =>
    ?distinct, fun {id txn} hwork => ?running, fun {t other} ht => ?numbered⟩
  case held =>
    rw [Maps.get_insert] at ht
    split at ht
    · cases ht
      exact serves.held txn htxn
    · rename_i hne
      obtain ⟨hbefore, hafter⟩ := linked.apart here serves hne ht htxn
      rw [serves.others txn.id hbefore hafter]
      exact linked.held ht htxn
  case distinct =>
    rw [Maps.get_insert] at ht ht'
    by_cases heq : t = s
    · by_cases heq' : t' = s
      · rw [heq, heq']
      · rw [if_pos heq] at ht
        rw [if_neg heq'] at ht'
        cases ht
        exact absurd hid ((linked.apart here serves heq' ht' htxn').2 txn htxn)
    · by_cases heq' : t' = s
      · rw [if_neg heq] at ht
        rw [if_pos heq'] at ht'
        cases ht'
        exact absurd hid.symm ((linked.apart here serves heq ht htxn).2 txn' htxn')
      · rw [if_neg heq] at ht
        rw [if_neg heq'] at ht'
        exact linked.distinct ht htxn ht' htxn' hid
  case running =>
    by_cases hmine : ∃ mine, session'.transaction = some mine ∧ mine.id = id
    · obtain ⟨mine, hmine, rfl⟩ := hmine
      refine ⟨s, session', by rw [Maps.get_insert, if_pos rfl], ?_⟩
      rw [serves.held mine hmine] at hwork
      rw [hmine, hwork]
    · have hafter : ∀ mine, session'.transaction = some mine → mine.id ≠ id :=
        fun mine hm heq => hmine ⟨mine, hm, heq⟩
      have hbefore := not_held serves hwork hafter
      rw [serves.others id hbefore hafter] at hwork
      obtain ⟨t, other, ht, htxn⟩ := linked.running hwork
      refine ⟨t, other, ?_, htxn⟩
      rw [Maps.get_insert, if_neg]
      · exact ht
      · rintro rfl
        cases here.symm.trans ht
        exact hbefore txn htxn (runs.id hwork)
  case numbered =>
    rw [Maps.get_insert] at ht
    split at ht
    · rename_i heq
      rw [heq]
      exact linked.numbered here
    · exact linked.numbered ht

/-- A session that runs no transaction may come. -/
theorem openSession (linked : Linked sessions last work) {idle : Session}
    (hidle : idle.transaction = none) : Linked (sessions.insert (last + 1) idle) (last + 1) work := by
  have hget : ∀ {t : SessionId} {other : Session} {txn : Transaction},
      (sessions.insert (last + 1) idle)[t]? = some other → other.transaction = some txn →
        sessions[t]? = some other := by
    intro t other txn ht htxn
    rw [Maps.get_insert] at ht
    split at ht
    · cases ht
      rw [hidle] at htxn
      cases htxn
    · exact ht
  refine ⟨fun ht htxn => linked.held (hget ht htxn) htxn, fun ht htxn ht' htxn' hid =>
    linked.distinct (hget ht htxn) htxn (hget ht' htxn') htxn' hid, fun hwork => ?_,
    fun {t other} ht => ?_⟩
  · obtain ⟨t, other, ht, htxn⟩ := linked.running hwork
    refine ⟨t, other, ?_, htxn⟩
    have hle := linked.numbered ht
    rw [Maps.get_insert, if_neg]
    · exact ht
    · rintro rfl
      exact absurd hle (Nat.not_succ_le_self _)
  · rw [Maps.get_insert] at ht
    split at ht
    · rename_i heq
      exact Nat.le_of_eq heq
    · exact Nat.le_succ_of_le (linked.numbered ht)

/-- A session that runs no transaction may go. -/
theorem closeSession (linked : Linked sessions last work) (here : sessions[s]? = some session)
    (hidle : session.transaction = none) : Linked (sessions.erase s) last work := by
  have hget : ∀ {t : SessionId} {other : Session},
      (sessions.erase s)[t]? = some other → sessions[t]? = some other := by
    intro t other ht
    rw [Maps.get_erase] at ht
    split at ht
    · cases ht
    · exact ht
  refine ⟨fun ht => linked.held (hget ht), fun ht htxn ht' => linked.distinct (hget ht) htxn
    (hget ht'), fun hwork => ?_, fun ht => linked.numbered (hget ht)⟩
  obtain ⟨t, other, ht, htxn⟩ := linked.running hwork
  refine ⟨t, other, ?_, htxn⟩
  rw [Maps.get_erase, if_neg]
  · exact ht
  · rintro rfl
    rw [here] at ht
    cases ht
    rw [hidle] at htxn
    cases htxn

end Linked

/-! ## 2. What a request tells -/

namespace Request

/-- The session that makes the request. -/
def session? : Request → Option SessionId
  | begin session _ | beginStatement session | commit session _ | rollback session _
  | abort session | setIsolation session _ | setMultiStatement session _ | insert session _ _
  | update session _ _ _ | delete session _ _ | lookup session _ _ _ _
  | openScan session _ _ _ _ _ _ _ | nextInScan session _ _ _ _ | nextInTable session _ _ _
  | closeSession session => some session
  | openTableScan _ _ | buildIndex _ _ _ | reclaim _ | openSession _ | setAccepting _ => none

/-- The events of a request for the running transaction. What is written, and to which row, is what was
asked for, and only an insert has to be told which row is new; how far a rollback goes is up to its scope
and to whether the transactions of the session have several statements. The reply says whether a write
or a commit has gone through. -/
def eventsFor (request : Request) (reply : Reply) (several : Bool) (id : Int) : List Event :=
  match request, reply with
  | insert _ table record, .wrote (.written ref) => [.wrote id table ref.handle (some record)]
  | update _ table row record, .wrote (.written _) => [.wrote id table row (some record)]
  | delete _ table row, .wrote .deleted => [.wrote id table row none]
  | beginStatement _, _ => [.statement id]
  | commit _ _, .committed .committed => [.committed id]
  | commit _ _, .failed _ => [.undone id true, .aborted id]
  | rollback _ scope, _ =>
    if scope = .session ∨ ¬ several then [.undone id true, .aborted id] else [.undone id false]
  | abort _, _ | closeSession _, _ => [.undone id true, .aborted id]
  | _, _ => []

/-- The write that is asked for, and the table to write to. -/
def change? : Request → Option (TableId × Store.Change)
  | insert _ table record => some (table, .insert record)
  | update _ table row record => some (table, .update row record)
  | delete _ table row => some (table, .delete row)
  | _ => none

/-- A request to write tells of the write that it asks for. -/
theorem eventsFor_of_change? {request : Request} {table : TableId} {change : Store.Change}
    (asks : request.change? = some (table, change)) (outcome : Except Error WriteOutcome)
    (several : Bool) (id : Int) : request.eventsFor (.of .wrote outcome) several id =
      Store.writeEvents id table change outcome := by
  cases request with
  | insert | update | delete =>
    cases asks
    cases outcome with
    | error error => rfl
    | ok outcome => cases outcome <;> rfl
  | _ => cases asks

/-- The events of a request, given the reply and the transactions that the session runs before and
afterwards. -/
def events (request : Request) (reply : Reply) (several : Bool) (before after : Option Transaction) :
    List Event :=
  match before, after with
  | none, some txn => .began txn.id :: request.eventsFor reply several txn.id
  | some txn, _ => request.eventsFor reply several txn.id
  | none, none => []

end Request

end SnapshotStore
