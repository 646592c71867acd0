import Mathlib
import SnapshotStore.Proofs.Service.Ok

/-!
# A request is a run of moves

Each request is taken apart into moves of the store (`handle_moves`). The theorem is what all later
ones go through: it says which events the moves bear, as the request and the reply tell them, and that
the sessions still hold the running transactions.
-/

namespace SnapshotStore

/-- The tables that the request is to reclaim, or to build an index of. -/
def Request.tended : Request → List TableId
  | .buildIndex table _ _ => [table]
  | .reclaim tables => tables
  | _ => []

namespace Service

variable {service : Service} {work : Work}

/-- What is always true of a service and of the transactions that run on it. -/
structure Ok (service : Service) (work : Work) : Prop where
  store : service.store.Ok work
  linked : Linked service.sessions service.lastSession work

/-- The transaction that runs for whoever makes the request. -/
def runningFor (service : Service) (request : Request) : Option Transaction :=
  request.session?.bind fun id => service.sessions[id]?.bind (·.transaction)

/-- The transactions of whoever makes the request have several statements. -/
def severalFor (service : Service) (request : Request) : Bool :=
  (request.session?.bind fun id => service.sessions[id]?).any (·.multiStatement)

/-- The events of a request are those that it tells, and what is quiet. Nothing quiet happens next to
a write, and no table is tended that the request does not name. -/
structure Told (request : Request) (reply : Reply) (several : Bool)
    (before after : Option Transaction) (events : List Event) : Prop where
  loud : events.filter (!·.isQuiet) = request.events reply several before after
  written : ∀ {id : Int} {table : TableId} {row : RowHandle} {record? : Option Record},
    .wrote id table row record? ∈ events → events = request.events reply several before after
  tended : ∀ {table : TableId}, .quiet (some table) ∈ events → table ∈ request.tended

/-- A request made of a service in order, and what comes of it. -/
structure Answered (service : Service) (work : Work) (request : Request) (events : List Event)
    (work' : Work) : Prop where
  ok : (service.handle request).1.Ok work'
  moves : Store.Moves service.store work events (service.handle request).1.store work'
  told : Told request (service.handle request).2 (service.severalFor request)
    (service.runningFor request) ((service.handle request).1.runningFor request) events

/-- Events that are all quiet tell nothing. -/
theorem Told.of_quiet {request : Request} {reply : Reply} {several : Bool}
    {before after : Option Transaction} {events : List Event} (hquiet : ∀ e ∈ events, e.isQuiet = true)
    (htended : ∀ {table : TableId}, .quiet (some table) ∈ events → table ∈ request.tended)
    (hnone : request.events reply several before after = []) :
    Told request reply several before after events := by
  refine ⟨?_, fun hin => ?_, htended⟩
  · rw [hnone, List.filter_eq_nil_iff]
    intro e he
    rw [hquiet e he]
    exact Bool.false_ne_true
  · cases hquiet _ hin

/-- Where nothing happens nothing is told. -/
theorem Told.of_nil {request : Request} {reply : Reply} {several : Bool}
    {before after : Option Transaction} (hnone : request.events reply several before after = []) :
    Told request reply several before after [] :=
  .of_quiet (fun _ h => by cases h) (fun h => by cases h) hnone

/-- Events that are just those that the request tells. -/
theorem Told.of_eq {request : Request} {reply : Reply} {several : Bool}
    {before after : Option Transaction} {events : List Event}
    (heq : events = request.events reply several before after)
    (hloud : ∀ e ∈ events, e.isQuiet = false) : Told request reply several before after events := by
  refine ⟨?_, fun _ => heq, fun hin => ?_⟩
  · rw [← heq, List.filter_eq_self]
    intro e he
    rw [hloud e he]
    rfl
  · cases hloud _ hin

/-- Events that the request tells, and something quiet after them. -/
theorem Told.of_quiet_after {request : Request} {reply : Reply} {several : Bool}
    {before after : Option Transaction} {events : List Event}
    (heq : events = request.events reply several before after)
    (hloud : ∀ e ∈ events, e.isQuiet = false)
    (hunwritten : ∀ {id : Int} {table : TableId} {row : RowHandle} {record? : Option Record},
      .wrote id table row record? ∉ events) :
    Told request reply several before after (events ++ [.quiet]) := by
  refine ⟨?_, fun hin => ?_, fun hin => ?_⟩
  · rw [← heq, List.filter_append, List.filter_eq_self.mpr]
    · exact List.append_nil _
    · intro e he
      rw [hloud e he]
      rfl
  · rcases List.mem_append.mp hin with hin | hin
    · exact absurd hin hunwritten
    · cases List.mem_singleton.mp hin
  · rcases List.mem_append.mp hin with hin | hin
    · cases hloud _ hin
    · cases List.mem_singleton.mp hin

/-! ## 1. Requests for a session -/

/-- What an operation for a session does is told by the request. -/
def Tells (request : Request) (operation : Store → Session → Store × Session × Reply) : Prop :=
  ∀ (store : Store) (work : Work) (session : Session), store.Ok work →
    (∀ txn, session.transaction = some txn → work txn.id = some txn) →
    ∃ events work', Store.Serves store work session events (operation store session).1 work'
        (operation store session).2.1 ∧
      Told request (operation store session).2.2 session.multiStatement session.transaction
        (operation store session).2.1.transaction events

/-- An operation together with what is said of its result. -/
def replying {α : Type} (operation : Store → Session → Store.Step α) (reply : α → Reply)
    (store : Store) (session : Session) : Store × Session × Reply :=
  ((operation store session).1, (operation store session).2.1,
    .of reply (operation store session).2.2)

/-- A service after its store and a session have changed. -/
theorem Ok.serve (ok : service.Ok work) {s : SessionId} {session session' : Session}
    (here : service.sessions[s]? = some session) {events : List Event} {store' : Store}
    {work' : Work} (serves : Store.Serves service.store work session events store' work' session') :
    ({ service with store := store', sessions := service.sessions.insert s session' } :
      Service).Ok work' :=
  ⟨serves.moves.ok ok.store, ok.linked.serve ok.store.runs here serves⟩

section Asking

variable {request : Request} {s : SessionId} (hsession : request.session? = some s)
include hsession

theorem runningFor_absent (here : service.sessions[s]? = none) :
    service.runningFor request = none := by
  rw [runningFor, hsession, Option.bind_some, here]
  rfl

theorem runningFor_present {session : Session} (here : service.sessions[s]? = some session) :
    service.runningFor request = session.transaction := by
  rw [runningFor, hsession, Option.bind_some, here]
  rfl

theorem severalFor_present {session : Session} (here : service.sessions[s]? = some session) :
    service.severalFor request = session.multiStatement := by
  rw [severalFor, hsession, Option.bind_some, here]
  rfl

/-- A request without a session to make it. -/
theorem answered_unknown (ok : service.Ok work) (here : service.sessions[s]? = none)
    (hunknown : service.handle request = (service, .unknown)) :
    Answered service work request [] work := by
  refine ⟨by rw [hunknown]; exact ok, by rw [hunknown]; exact .refl, ?_⟩
  rw [hunknown, runningFor_absent hsession here]
  exact .of_nil rfl

end Asking

/-- A request that changes nothing, whoever makes it. -/
theorem answered_idly (ok : service.Ok work) {request : Request}
    (hunknown : service.handle request = (service, .unknown))
    (hnone : ∀ reply several id, request.eventsFor reply several id = []) :
    Answered service work request [] work := by
  refine ⟨by rw [hunknown]; exact ok, by rw [hunknown]; exact .refl, ?_⟩
  rw [hunknown]
  refine .of_nil ?_
  cases hrunning : service.runningFor request with
  | none => rfl
  | some txn => exact hnone _ _ _

/-- A request that is an operation for a session. -/
theorem answered_of_tells (ok : service.Ok work) {request : Request} {s : SessionId}
    (hsession : request.session? = some s) {session : Session}
    (here : service.sessions[s]? = some session)
    {operation : Store → Session → Store × Session × Reply} (tells : Tells request operation)
    (hstore : (service.handle request).1.store = (operation service.store session).1)
    (hsessions : (service.handle request).1.sessions =
      service.sessions.insert s (operation service.store session).2.1)
    (hlast : (service.handle request).1.lastSession = service.lastSession)
    (hreply : (service.handle request).2 = (operation service.store session).2.2) :
    ∃ events work', Answered service work request events work' := by
  obtain ⟨events, work', serves, told⟩ := tells _ _ _ ok.store (ok.linked.heldBy here)
  refine ⟨events, work', ⟨?_, ?_⟩, ?_, ?_⟩
  · rw [hstore]
    exact serves.moves.ok ok.store
  · rw [hsessions, hlast]
    exact ok.linked.serve ok.store.runs here serves
  · rw [hstore]
    exact serves.moves
  · have hafter : (service.handle request).1.sessions[s]? =
        some (operation service.store session).2.1 := by
      rw [hsessions, Maps.get_insert, if_pos rfl]
    rw [severalFor_present hsession here, runningFor_present hsession here,
      runningFor_present hsession hafter, hreply]
    exact told

/-- A request by `forSession`. -/
theorem answered_forSession (ok : service.Ok work) {request : Request} {s : SessionId}
    (hsession : request.session? = some s)
    {operation : Store → Session → Store × Session × Reply}
    (hhandle : service.handle request = service.forSession s operation)
    (tells : Tells request operation) :
    ∃ events work', Answered service work request events work' := by
  cases here : service.sessions[s]? with
  | none =>
    refine ⟨[], work, answered_unknown hsession ok here ?_⟩
    rw [hhandle, forSession, here]
  | some session =>
    have hfor : service.forSession s operation =
        ({ service with
          store := (operation service.store session).1
          sessions := service.sessions.insert s (operation service.store session).2.1 },
          (operation service.store session).2.2) := by
      rw [forSession, here]
    refine answered_of_tells ok hsession here tells ?_ ?_ ?_ ?_ <;> rw [hhandle, hfor]

/-- An operation that changes no transaction. -/
theorem tells_nothing {request : Request} {operation : Store → Session → Store × Session × Reply}
    (hsame : ∀ store session, (operation store session).1 = store ∧
      (operation store session).2.1.transaction = session.transaction)
    (hnone : ∀ store session several id,
      request.eventsFor (operation store session).2.2 several id = []) :
    Tells request operation := by
  intro store work session ok held
  obtain ⟨hstore, hsession⟩ := hsame store session
  refine ⟨[], work, ?_, ?_⟩
  · rw [hstore]
    exact .untouched held hsession .refl
  · rw [hsession]
    refine .of_nil ?_
    cases session.transaction with
    | none => rfl
    | some txn => exact hnone store session _ _

/-- An operation that enters a transaction and changes nothing. -/
theorem tells_entering {request : Request} {operation : Store → Session → Store × Session × Reply}
    (henters : ∀ store session, Store.Enters store session (operation store session).1
      (operation store session).2.1)
    (hnone : ∀ store session several id,
      request.eventsFor (operation store session).2.2 several id = []) :
    Tells request operation := by
  intro store work session ok held
  rcases henters store session with ⟨hstore, hsession⟩ | ⟨txn, henter⟩
  · refine ⟨[], work, ?_, ?_⟩
    · rw [hstore, hsession]
      exact .untouched held rfl .refl
    · rw [hsession]
      refine .of_nil ?_
      cases session.transaction with
      | none => rfl
      | some txn => exact hnone store session _ _
  · obtain ⟨events, work', serves, hafter, hentered, _⟩ := Store.enter_serves ok held henter
    refine ⟨events, work', serves, ?_⟩
    rw [hafter]
    rcases hentered with ⟨hbefore, rfl⟩ | ⟨hbefore, rfl, _⟩
    · rw [hbefore]
      exact .of_nil (hnone store session _ _)
    · rw [hbefore]
      refine .of_eq ?_ fun e he => by rw [List.mem_singleton.mp he]; rfl
      show _ = _ :: request.eventsFor _ _ _
      rw [hnone]

/-- A write. -/
theorem tells_write {request : Request} {tid : TableId} {change : Store.Change}
    {check : Table → Except Error Unit} {attempt : Table → Ledger → Transaction → Table.Attempt}
    (htried : ∀ {l : Ledger} {work : Work} {table : Table}, Table.Ok l work tid [] table →
      ∀ txn, Store.Tried l txn table change (attempt table l txn))
    (asks : request.change? = some (tid, change)) :
    Tells request fun store session =>
      let (store, session, result) := store.write session tid check attempt
      (store, session, .of .wrote result) := by
  intro store work session ok held
  dsimp only
  have hevents := Request.eventsFor_of_change? asks
  rcases Store.write_serves ok held tid change check htried with
    ⟨error, heq⟩ | ⟨events, work', txn, txn', lead, serves, hentered, hafter, hid, hcase⟩
  · rw [heq]
    refine ⟨[], work, .untouched held rfl .refl, .of_nil ?_⟩
    cases session.transaction with
    | none => rfl
    | some txn =>
      refine (hevents (.error error) _ _).trans ?_
      exact Store.writeEvents_refused (Or.inl ⟨error, rfl⟩) _ _ _
  · refine ⟨events, work', serves, ?_⟩
    rw [hafter]
    have htells : request.events (.of .wrote (store.write session tid check attempt).2.2)
        session.multiStatement session.transaction (some txn') =
          lead ++ Store.writeEvents txn.id tid change (store.write session tid check attempt).2.2 := by
      rcases hentered with ⟨hbefore, rfl⟩ | ⟨hbefore, rfl, _⟩
      · rw [hbefore]
        exact hevents _ _ _
      · rw [hbefore]
        show Event.began txn'.id :: request.eventsFor _ _ _ = _
        rw [hevents, hid]
        rfl
    have hlead : lead = [] ∨ lead = [.began txn.id] :=
      hentered.imp And.right fun hbegan => hbegan.2.1
    have hloud : ∀ e ∈ lead, e.isQuiet = false := by
      intro e he
      rcases hlead with rfl | rfl
      · cases he
      · rw [List.mem_singleton.mp he]
        rfl
    rcases hcase with rfl | ⟨hnone, rfl⟩
    · refine .of_eq htells.symm fun e he => ?_
      rcases List.mem_append.mp he with he | he
      · exact hloud e he
      · exact Store.writeEvents_loud he
    · rw [hnone, List.append_nil] at htells
      refine .of_quiet_after htells.symm hloud fun hin => ?_
      rcases hlead with rfl | rfl
      · cases hin
      · cases List.mem_singleton.mp hin

theorem tells_insert (s : SessionId) (tid : TableId) (record : Record) :
    Tells (.insert s tid record) (replying (·.insert · tid record) .wrote) :=
  tells_write (fun hok txn => Store.tried_insert hok txn record) rfl

theorem tells_update (s : SessionId) (tid : TableId) (row : RowHandle) (record : Record) :
    Tells (.update s tid row record) (replying (·.update · tid row record) .wrote) :=
  tells_write (fun hok txn => Store.tried_update hok txn row record) rfl

theorem tells_delete (s : SessionId) (tid : TableId) (row : RowHandle) :
    Tells (.delete s tid row) (replying (·.delete · tid row) .wrote) :=
  tells_write (fun hok txn => Store.tried_delete hok txn row) rfl

theorem tells_lookup (s : SessionId) (tid : TableId) (index : Nat) (key : Bytes) (own : Bool) :
    Tells (.lookup s tid index key own) (replying (·.lookup · tid index key own) .found) :=
  tells_entering (fun store session => Store.lookup_enters store session tid index key own)
    fun _ _ _ _ => rfl

theorem tells_setIsolation (s : SessionId) (level : Isolation) : Tells (.setIsolation s level)
    fun store session =>
      match session.setIsolation level with
      | .ok session => (store, session, .done)
      | .error error => (store, session, .failed error) := by
  refine tells_nothing (fun store session => ?_) fun _ _ _ _ => rfl
  cases hset : session.setIsolation level with
  | error error => exact ⟨rfl, rfl⟩
  | ok changed =>
    rw [Session.setIsolation] at hset
    split at hset
    · cases hset
    · cases hset
      exact ⟨rfl, rfl⟩

theorem tells_setMultiStatement (s : SessionId) (on : Bool) : Tells (.setMultiStatement s on)
    fun store session => (store, { session with multiStatement := on }, .done) :=
  tells_nothing (fun _ _ => ⟨rfl, rfl⟩) fun _ _ _ _ => rfl

theorem tells_begin (s : SessionId) (owner : Nat) : Tells (.begin s owner) fun store session =>
    let (store, session, result) := store.begin session owner
    (store, session, .of (fun () => .done) result) := by
  intro store work session ok held
  dsimp only
  rcases Store.begin_serves ok session owner with
    ⟨error, heq⟩ | ⟨store', session', txn, work', heq, hbefore, hafter, serves⟩
  · rw [heq]
    refine ⟨[], work, .untouched held rfl .refl, .of_nil ?_⟩
    cases session.transaction <;> rfl
  · rw [heq]
    refine ⟨_, work', serves, ?_⟩
    rw [hafter, hbefore]
    exact .of_eq rfl fun e he => by rw [List.mem_singleton.mp he]; rfl

theorem tells_beginStatement (s : SessionId) : Tells (.beginStatement s) fun store session =>
    let (store, session) := store.beginStatement session
    (store, session, .done) := by
  intro store work session ok held
  dsimp only
  cases hbefore : session.transaction with
  | none =>
    have heq : store.beginStatement session = (store, session) := by
      rw [Store.beginStatement, Session.beginStatement, hbefore]
    rw [heq, hbefore]
    exact ⟨[], work, .untouched held rfl .refl, .of_nil rfl⟩
  | some txn =>
    obtain ⟨txn', work', events, hafter, _, hevents, serves⟩ :=
      Store.beginStatement_serves held hbefore
    refine ⟨events, work', serves, ?_⟩
    rw [hafter]
    rcases hevents with rfl | rfl
    · exact .of_eq rfl fun e he => by rw [List.mem_singleton.mp he]; rfl
    · show Told _ _ _ _ _ ([.statement txn.id] ++ [.quiet])
      exact .of_quiet_after rfl (fun e he => by rw [List.mem_singleton.mp he]; rfl)
        fun hin => by cases List.mem_singleton.mp hin

theorem loud_aborted (id : Int) : ∀ e ∈ [Event.undone id true, .aborted id], e.isQuiet = false := by
  intro e he
  rcases List.mem_cons.mp he with rfl | he
  · rfl
  · rw [List.mem_singleton.mp he]
    rfl

theorem tells_abort {request : Request}
    (hevents : ∀ several id, request.eventsFor .done several id = [.undone id true, .aborted id]) :
    Tells request fun store session =>
      let (store, session) := store.abort session
      (store, session, .done) := by
  intro store work session ok held
  dsimp only
  cases hbefore : session.transaction with
  | none =>
    have heq : store.abort session = (store, session) := by rw [Store.abort, hbefore]
    rw [heq, hbefore]
    exact ⟨[], work, .untouched held rfl .refl, .of_nil rfl⟩
  | some txn =>
    obtain ⟨hsession, work', serves⟩ := Store.abort_serves held hbefore
    rw [hsession]
    exact ⟨_, work', serves, .of_eq (hevents _ txn.id).symm (loud_aborted txn.id)⟩

theorem tells_commit (s : SessionId) (scope : Scope) : Tells (.commit s scope)
    fun store session =>
      let (store, session, result) := store.commit session scope
      (store, session, .of .committed result) := by
  intro store work session ok held
  dsimp only
  cases hbefore : session.transaction with
  | none =>
    have heq : store.commit session scope = (store, session, .error .transactionNotStarted) := by
      rw [Store.commit, hbefore]
    rw [heq, hbefore]
    exact ⟨[], work, .untouched held rfl .refl, .of_nil rfl⟩
  | some txn =>
    rcases Store.commit_serves held hbefore scope with
      ⟨_, heq⟩ | ⟨_, heq⟩ | ⟨_, heq, work', serves⟩
    · obtain ⟨_, work', serves⟩ := Store.abort_serves held hbefore
      rw [heq]
      exact ⟨_, work', serves, .of_eq rfl (loud_aborted txn.id)⟩
    · rw [heq, hbefore]
      exact ⟨[], work, .untouched held rfl .refl, .of_nil rfl⟩
    · rw [(Prod.ext_iff.mp heq).1, (Prod.ext_iff.mp heq).2]
      exact ⟨_, work', serves, .of_eq rfl fun e he => by rw [List.mem_singleton.mp he]; rfl⟩

theorem tells_rollback (s : SessionId) (scope : Scope) : Tells (.rollback s scope)
    fun store session =>
      let (store, session) := store.rollback session scope
      (store, session, .done) := by
  intro store work session ok held
  dsimp only
  cases hbefore : session.transaction with
  | none =>
    have heq : store.rollback session scope = (store, session) := by rw [Store.rollback, hbefore]
    rw [heq, hbefore]
    exact ⟨[], work, .untouched held rfl .refl, .of_nil rfl⟩
  | some txn =>
    rcases Store.rollback_serves held hbefore scope with
      ⟨hwhole, heq⟩ | ⟨hstatement, hafter, work', serves⟩
    · obtain ⟨hsession, work', serves⟩ := Store.abort_serves held hbefore
      rw [heq, hsession]
      exact ⟨_, work', serves, .of_eq (if_pos hwhole).symm (loud_aborted txn.id)⟩
    · rw [hafter]
      exact ⟨_, work', serves, .of_eq (if_neg hstatement).symm fun e he => by
        rw [List.mem_singleton.mp he]
        rfl⟩

/-- Closing a session undoes what it has running, and drops it. -/
theorem answered_closeSession (ok : service.Ok work) (s : SessionId) :
    ∃ events work', Answered service work (.closeSession s) events work' := by
  have hhandle : service.handle (.closeSession s) =
      ({ (service.perform s Store.abort).1 with
        sessions := (service.perform s Store.abort).1.sessions.erase s },
        (service.perform s Store.abort).2) := rfl
  cases here : service.sessions[s]? with
  | none =>
    have hperform : service.perform s Store.abort = (service, .unknown) := by
      rw [perform, forSession, here]
    have hsame : service.sessions.erase s = service.sessions := by
      refine Std.ExtTreeMap.ext_getElem? fun other => ?_
      rw [Maps.get_erase]
      split
      · rename_i heq
        rw [heq, here]
      · rfl
    refine ⟨[], work, answered_unknown rfl ok here ?_⟩
    rw [hhandle, hperform]
    dsimp only
    rw [hsame]
  | some session =>
    have tells : Tells (.closeSession s) fun store session =>
        ((store.abort session).1, (store.abort session).2, .done) := tells_abort fun _ _ => rfl
    obtain ⟨events, work', serves, told⟩ :=
      tells service.store work session ok.store (ok.linked.heldBy here)
    have hperform : service.perform s Store.abort =
        ({ service with
          store := (service.store.abort session).1
          sessions := service.sessions.insert s (service.store.abort session).2 }, .done) := by
      rw [perform, forSession, here]
    have hidle : (service.store.abort session).2.transaction = none := by
      cases hrunning : session.transaction with
      | none => rw [Store.abort, hrunning]; exact hrunning
      | some txn => rw [(Store.abort_serves (ok.linked.heldBy here) hrunning).1]; rfl
    have hlinked := (ok.linked.serve ok.store.runs here serves).closeSession
      (by rw [Maps.get_insert, if_pos rfl]) hidle
    refine ⟨events, work', ?_, ?_, ?_⟩
    · rw [hhandle, hperform]
      exact ⟨serves.moves.ok ok.store, hlinked⟩
    · rw [hhandle, hperform]
      exact serves.moves
    · have hafter : (service.handle (.closeSession s)).1.sessions[s]? = none := by
        rw [hhandle, hperform]
        show ((service.sessions.insert s _).erase s)[s]? = none
        rw [Maps.get_erase, if_pos rfl]
      rw [severalFor_present rfl here, runningFor_present rfl here, runningFor_absent rfl hafter,
        hhandle, hperform]
      have htold := told
      dsimp only at htold
      rw [hidle] at htold
      exact htold

/-! ## 2. Requests for no session -/

/-- A request that changes the store quietly, and no session. -/
theorem answered_quietly (ok : service.Ok work) {request : Request}
    (hsession : request.session? = none) {events : List Event}
    (moves : Store.Moves service.store work events (service.handle request).1.store work)
    (hquiet : ∀ e ∈ events, e.isQuiet = true)
    (htended : ∀ {table : TableId}, .quiet (some table) ∈ events → table ∈ request.tended)
    (linked : Linked (service.handle request).1.sessions (service.handle request).1.lastSession
      work) : Answered service work request events work := by
  refine ⟨⟨moves.ok ok.store, linked⟩, moves, .of_quiet hquiet htended ?_⟩
  rw [runningFor, runningFor, hsession]
  rfl

theorem buildIndex_moves (store : Store) (work : Work) (tid : TableId) (spec : KeySpec)
    (visit : Table.Visit) :
    ∃ events, Store.Moves store work events (store.buildIndex tid spec visit).1 work ∧
      ∀ e ∈ events, e = .quiet (some tid) := by
  rw [Store.buildIndex]
  cases hresult : (do (← store.table tid).buildIndex store.ledger spec visit :
      Except Error (Table × Nat × Table.Filling)) with
  | error error => exact ⟨[], .refl, fun _ h => by cases h⟩
  | ok done =>
    obtain ⟨after, index, filling⟩ := done
    obtain ⟨table, htable, hbuild⟩ := Fallible.bind_eq_ok.mp hresult
    have here := Store.table_eq_ok.mp htable
    exact ⟨_, .one (.built here (Table.buildIndex_spec hbuild).2),
      fun e he => List.mem_singleton.mp he⟩

theorem reclaimTables_moves (store : Store) (work : Work) (ids : List TableId) :
    ∃ events, Store.Moves store work events (store.reclaimTables ids).1 work ∧
      ∀ e ∈ events, ∃ tid ∈ ids, e = .quiet (some tid) := by
  induction ids generalizing store with
  | nil => exact ⟨[], .refl, fun _ h => by cases h⟩
  | cons tid ids ih =>
    obtain ⟨events, moves, hquiet⟩ := ih (store.reclaimTable tid).1
    show ∃ events, Store.Moves store work events ((store.reclaimTable tid).1.reclaimTables ids).1
      work ∧ _
    cases here : store.tables[tid]? with
    | none =>
      rw [Store.reclaimTable_of_absent here] at moves ⊢
      refine ⟨events, moves, fun e he => ?_⟩
      obtain ⟨other, hin, rfl⟩ := hquiet e he
      exact ⟨other, List.mem_cons_of_mem _ hin, rfl⟩
    | some table =>
      rw [Store.reclaimTable_eq here] at moves ⊢
      refine ⟨_, .step (.reclaimed here) moves, fun e he => ?_⟩
      rcases List.mem_cons.mp he with rfl | he
      · exact ⟨tid, List.mem_cons_self, rfl⟩
      · obtain ⟨other, hin, rfl⟩ := hquiet e he
        exact ⟨other, List.mem_cons_of_mem _ hin, rfl⟩

theorem answered_buildIndex (ok : service.Ok work) (tid : TableId) (spec : KeySpec)
    (visit : Table.Visit) :
    ∃ events work', Answered service work (.buildIndex tid spec visit) events work' := by
  obtain ⟨events, moves, hquiet⟩ := buildIndex_moves service.store work tid spec visit
  refine ⟨events, work, answered_quietly ok rfl moves (fun e he => ?_) (fun he => ?_) ok.linked⟩
  · rw [hquiet e he]
    rfl
  · cases hquiet _ he
    exact List.mem_cons_self

theorem answered_reclaim (ok : service.Ok work) (tables : List TableId) :
    ∃ events work', Answered service work (.reclaim tables) events work' := by
  obtain ⟨events, moves, hquiet⟩ := reclaimTables_moves service.store work tables
  refine ⟨events, work, answered_quietly ok rfl moves (fun e he => ?_) (fun he => ?_) ok.linked⟩
  · obtain ⟨_, _, rfl⟩ := hquiet e he
    rfl
  · obtain ⟨tid, hin, heq⟩ := hquiet _ he
    cases heq
    exact hin

theorem answered_openSession (ok : service.Ok work) (level : Isolation) :
    ∃ events work', Answered service work (.openSession level) events work' :=
  ⟨[], work, answered_quietly ok rfl .refl (fun _ h => by cases h) (fun h => by cases h)
    (ok.linked.openSession rfl)⟩

theorem answered_setAccepting (ok : service.Ok work) (on : Bool) :
    ∃ events work', Answered service work (.setAccepting on) events work' := by
  refine ⟨[.quiet], work, answered_quietly ok rfl (.one ?_)
    (fun e he => by rw [List.mem_singleton.mp he]; rfl)
    (fun he => by cases List.mem_singleton.mp he) ok.linked⟩
  cases on with
  | true => exact .admitted true
  | false => exact .admitted false

/-! ## 3. Requests about scans -/

section Scans

variable {s : SessionId} {session : Session} (here : service.sessions[s]? = some session)
include here

theorem openScan_answer (id : ScanId)
    (operation : Store → Session → Store.Step (IndexScan × Store.Finding)) :
    (service.openScan s id operation).1.store = (operation service.store session).1 ∧
      (service.openScan s id operation).1.sessions =
        service.sessions.insert s (operation service.store session).2.1 ∧
      (service.openScan s id operation).1.lastSession = service.lastSession ∧
      (service.openScan s id operation).2 =
        .of (fun (_, finding) => .found finding) (operation service.store session).2.2 := by
  rw [openScan, here]
  dsimp only
  cases (operation service.store session).2.2 with
  | error error => exact ⟨rfl, rfl, rfl, rfl⟩
  | ok result => exact ⟨rfl, rfl, rfl, rfl⟩

theorem nextInScan_answer {id : ScanId} {scan : IndexScan}
    (hscan : service.indexScans[id]? = some scan)
    (operation : Store → Session → IndexScan → IndexScan × Store.Step Store.Finding) :
    (service.nextInScan s id operation).1.store = (operation service.store session scan).2.1 ∧
      (service.nextInScan s id operation).1.sessions =
        service.sessions.insert s (operation service.store session scan).2.2.1 ∧
      (service.nextInScan s id operation).1.lastSession = service.lastSession ∧
      (service.nextInScan s id operation).2 =
        .of .found (operation service.store session scan).2.2.2 := by
  rw [nextInScan, here, hscan]
  exact ⟨rfl, rfl, rfl, rfl⟩

theorem nextInTable_answer {id : ScanId} {scan : TableScan}
    (hscan : service.tableScans[id]? = some scan)
    (operation : Store → Session → TableScan → TableScan × Store.Step TableScanStep) :
    (service.nextInTable s id operation).1.store = (operation service.store session scan).2.1 ∧
      (service.nextInTable s id operation).1.sessions =
        service.sessions.insert s (operation service.store session scan).2.2.1 ∧
      (service.nextInTable s id operation).1.lastSession = service.lastSession ∧
      (service.nextInTable s id operation).2 =
        .of .scanned (operation service.store session scan).2.2.2 := by
  rw [nextInTable, here, hscan]
  exact ⟨rfl, rfl, rfl, rfl⟩

end Scans

theorem answered_openScan (ok : service.Ok work) (s : SessionId) (tid : TableId) (scan : ScanId)
    (kind : ScanKind) (index : Nat) (key : Bytes) (inclusive own : Bool) : ∃ events work',
    Answered service work (.openScan s tid scan kind index key inclusive own) events work' := by
  have hhandle : service.handle (.openScan s tid scan kind index key inclusive own) =
    service.openScan s scan (·.openScan · tid kind index key inclusive own) := rfl
  cases here : service.sessions[s]? with
  | none =>
    refine ⟨[], work, answered_unknown rfl ok here ?_⟩
    rw [hhandle, openScan, here]
  | some session =>
    have tells : Tells (.openScan s tid scan kind index key inclusive own)
        (replying (·.openScan · tid kind index key inclusive own) (.found ·.2)) :=
      tells_entering (fun store session => Store.openScan_enters store session tid kind index key
        inclusive own) fun _ _ _ _ => rfl
    obtain ⟨hstore, hsessions, hlast, hreply⟩ :=
      openScan_answer here scan (·.openScan · tid kind index key inclusive own)
    exact answered_of_tells ok rfl here tells hstore hsessions hlast hreply

theorem answered_nextInScan (ok : service.Ok work) (s : SessionId) (tid : TableId) (scan : ScanId)
    (kind : ScanKind) (own : Bool) :
    ∃ events work', Answered service work (.nextInScan s tid scan kind own) events work' := by
  have hhandle : service.handle (.nextInScan s tid scan kind own) =
    service.nextInScan s scan (·.nextInScan · tid kind · own) := rfl
  cases here : service.sessions[s]? with
  | none =>
    refine ⟨[], work, answered_unknown rfl ok here ?_⟩
    rw [hhandle, nextInScan, here]
  | some session =>
    cases hscan : service.indexScans[scan]? with
    | none =>
      refine ⟨[], work, answered_idly ok ?_ fun _ _ _ => rfl⟩
      rw [hhandle, nextInScan, here, hscan]
    | some found =>
      have tells : Tells (.nextInScan s tid scan kind own)
          (replying (fun store session => (store.nextInScan session tid kind found own).2)
            .found) :=
        tells_entering (fun store session => Store.nextInScan_enters store session tid kind found
          own) fun _ _ _ _ => rfl
      obtain ⟨hstore, hsessions, hlast, hreply⟩ :=
        nextInScan_answer here hscan (·.nextInScan · tid kind · own)
      exact answered_of_tells ok rfl here tells hstore hsessions hlast hreply

theorem answered_openTableScan (ok : service.Ok work) (tid : TableId) (scan : ScanId) :
    ∃ events work', Answered service work (.openTableScan tid scan) events work' := by
  refine ⟨[], work, answered_quietly ok rfl ?_ (fun _ h => by cases h) (fun h => by cases h) ?_⟩
  · rw [handle]
    split
    · exact .refl
    · exact .refl
  · rw [handle]
    split
    · exact ok.linked
    · exact ok.linked

theorem answered_nextInTable (ok : service.Ok work) (s : SessionId) (tid : TableId) (scan : ScanId)
    (own : Bool) :
    ∃ events work', Answered service work (.nextInTable s tid scan own) events work' := by
  have hhandle : service.handle (.nextInTable s tid scan own) =
    service.nextInTable s scan (·.nextInTable · tid · own) := rfl
  cases here : service.sessions[s]? with
  | none =>
    refine ⟨[], work, answered_unknown rfl ok here ?_⟩
    rw [hhandle, nextInTable, here]
  | some session =>
    cases hscan : service.tableScans[scan]? with
    | none =>
      refine ⟨[], work, answered_idly ok ?_ fun _ _ _ => rfl⟩
      rw [hhandle, nextInTable, here, hscan]
    | some found =>
      have tells : Tells (.nextInTable s tid scan own)
          (replying (fun store session => (store.nextInTable session tid found own).2)
            .scanned) :=
        tells_entering (fun store session => Store.nextInTable_enters store session tid found own)
          fun _ _ _ _ => rfl
      obtain ⟨hstore, hsessions, hlast, hreply⟩ :=
        nextInTable_answer here hscan (·.nextInTable · tid · own)
      exact answered_of_tells ok rfl here tells hstore hsessions hlast hreply

/-! ## 4. Every request -/

theorem handle_setIsolation (service : Service) (s : SessionId) (level : Isolation) :
    service.handle (.setIsolation s level) = service.forSession s fun store session =>
      match session.setIsolation level with
      | .ok session => (store, session, .done)
      | .error error => (store, session, .failed error) := rfl

/-- Every request is a run of moves. -/
theorem handle_moves (ok : service.Ok work) (request : Request) :
    ∃ events work', Answered service work request events work' := by
  cases request with
  | begin s owner => exact answered_forSession ok rfl rfl (tells_begin s owner)
  | beginStatement s => exact answered_forSession ok rfl rfl (tells_beginStatement s)
  | commit s scope => exact answered_forSession ok rfl rfl (tells_commit s scope)
  | rollback s scope => exact answered_forSession ok rfl rfl (tells_rollback s scope)
  | abort s => exact answered_forSession ok rfl rfl (tells_abort fun _ _ => rfl)
  | setIsolation s level =>
    exact answered_forSession ok rfl (handle_setIsolation service s level)
      (tells_setIsolation s level)
  | setMultiStatement s on => exact answered_forSession ok rfl rfl (tells_setMultiStatement s on)
  | insert s tid record => exact answered_forSession ok rfl rfl (tells_insert s tid record)
  | update s tid row record =>
    exact answered_forSession ok rfl rfl (tells_update s tid row record)
  | delete s tid row => exact answered_forSession ok rfl rfl (tells_delete s tid row)
  | lookup s tid index key own =>
    exact answered_forSession ok rfl rfl (tells_lookup s tid index key own)
  | openScan s tid scan kind index key inclusive own =>
    exact answered_openScan ok s tid scan kind index key inclusive own
  | nextInScan s tid scan kind own => exact answered_nextInScan ok s tid scan kind own
  | openTableScan tid scan => exact answered_openTableScan ok tid scan
  | nextInTable s tid scan own => exact answered_nextInTable ok s tid scan own
  | buildIndex tid spec visit => exact answered_buildIndex ok tid spec visit
  | reclaim tables => exact answered_reclaim ok tables
  | openSession level => exact answered_openSession ok level
  | closeSession s => exact answered_closeSession ok s
  | setAccepting on => exact answered_setAccepting ok on

/-! ## 5. Other sessions -/

section Elsewhere

variable {s : SessionId} {session : Session} {request : Request}

theorem forSession_elsewhere {t : SessionId} (hne : t ≠ s)
    (operation : Store → Session → Store × Session × Reply) :
    (service.forSession t operation).1.sessions[s]? = service.sessions[s]? := by
  rw [forSession]
  split
  · rfl
  · dsimp only
    rw [Maps.get_insert, if_neg (Ne.symm hne)]

/-- What is asked for by others leaves a session as it is. -/
theorem sessions_handle_elsewhere (ok : service.Ok work) (apart : request.session? ≠ some s)
    (asks : service.sessions[s]? = some session) :
    (service.handle request).1.sessions[s]? = service.sessions[s]? := by
  have hne : ∀ {t : SessionId}, request.session? = some t → t ≠ s := by
    rintro t ht rfl
    exact apart ht
  cases request with
  | openScan t tid scan kind index key inclusive own =>
    rw [handle]
    cases here : service.sessions[t]? with
    | none => rw [openScan, here]
    | some asking =>
      rw [(openScan_answer here scan _).2.1, Maps.get_insert, if_neg (Ne.symm (hne rfl))]
  | nextInScan t tid scan kind own =>
    rw [handle]
    cases here : service.sessions[t]? with
    | none => rw [nextInScan, here]
    | some asking =>
      cases hscan : service.indexScans[scan]? with
      | none => rw [nextInScan, here, hscan]
      | some resting =>
        rw [(nextInScan_answer here hscan _).2.1, Maps.get_insert, if_neg (Ne.symm (hne rfl))]
  | nextInTable t tid scan own =>
    rw [handle]
    cases here : service.sessions[t]? with
    | none => rw [nextInTable, here]
    | some asking =>
      cases hscan : service.tableScans[scan]? with
      | none => rw [nextInTable, here, hscan]
      | some resting =>
        rw [(nextInTable_answer here hscan _).2.1, Maps.get_insert, if_neg (Ne.symm (hne rfl))]
  | openTableScan tid scan =>
    rw [handle]
    split <;> rfl
  | openSession level =>
    rw [handle]
    dsimp only
    rw [Maps.get_insert, if_neg]
    rintro rfl
    exact absurd (ok.linked.numbered asks) (Nat.not_succ_le_self _)
  | closeSession t =>
    have hafter : (service.handle (.closeSession t)).1.sessions =
      (service.perform t Store.abort).1.sessions.erase t := rfl
    rw [hafter, Maps.get_erase, if_neg (Ne.symm (hne rfl))]
    exact forSession_elsewhere (hne rfl) _
  | buildIndex | reclaim | setAccepting => rfl
  | begin | beginStatement | commit | rollback | abort | setIsolation | setMultiStatement | insert
  | update | delete | lookup => exact forSession_elsewhere (hne rfl) _

end Elsewhere

end Service
end SnapshotStore
