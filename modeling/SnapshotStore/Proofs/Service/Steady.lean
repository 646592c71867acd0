import Mathlib
import SnapshotStore.Proofs.History.Reads

/-!
# What a statement sees stays

Within one statement a transaction keeps its snapshot, and what it sees without the writes of that
statement does not change, whatever others do and whatever it writes itself: a commit that comes later
has a later sequence, and what the statement writes or takes back is left out (`Reached.rows_stay`).
-/

namespace SnapshotStore

/-! ## 1. Sessions -/

/-- A transaction that still runs in the session is in the same statement, under the same snapshot. -/
def Session.Keeps (session session' : Session) : Prop :=
  ∀ txn txn', session.transaction = some txn → session'.transaction = some txn' →
    txn'.id = txn.id ∧ txn'.snapshot = txn.snapshot ∧ txn'.statement = txn.statement

namespace Session.Keeps

variable {session session' : Session}

theorem of_same (h : session'.transaction = session.transaction) : session.Keeps session' := by
  intro txn txn' hbefore hafter
  rw [h, hbefore] at hafter
  cases hafter
  exact ⟨rfl, rfl, rfl⟩

theorem of_ended (h : session'.transaction = none) : session.Keeps session' := by
  intro txn txn' _ hafter
  rw [h] at hafter
  cases hafter

theorem doom (session : Session) : session.Keeps session.doom := by
  intro txn txn' hbefore hafter
  rw [Session.doom, hbefore] at hafter
  cases hafter
  exact ⟨rfl, rfl, rfl⟩

theorem remember (session : Session) (table : TableId) (writes : List Write) :
    session.Keeps (session.remember table writes) := by
  intro txn txn' hbefore hafter
  rw [Session.remember, hbefore] at hafter
  cases hafter
  exact ⟨rfl, rfl, rfl⟩

theorem forgetStatement {txn : Transaction} (h : session.transaction = some txn) :
    session.Keeps { session with transaction := some txn.forgetStatement } := by
  intro t t' hbefore hafter
  rw [h] at hbefore
  cases hbefore
  cases hafter
  exact ⟨rfl, rfl, rfl⟩

/-- Nothing is kept of a session that runs none. -/
theorem of_idle (h : session.transaction = none) : session.Keeps session' := by
  intro txn txn' hbefore _
  rw [h] at hbefore
  cases hbefore

end Session.Keeps

namespace Store

variable (store : Store) (session : Session)

theorem keeps_begin (owner : Nat) : session.Keeps (store.begin session owner).2.1 := by
  cases hbefore : session.transaction with
  | none => exact .of_idle hbefore
  | some txn =>
    rw [begin, Session.begin, hbefore]
    exact .of_same rfl

theorem keeps_abort : session.Keeps (store.abort session).2 := by
  cases hbefore : session.transaction with
  | none => exact .of_idle hbefore
  | some txn =>
    rw [abort, hbefore]
    exact .of_ended rfl

theorem keeps_commit (scope : Scope) : session.Keeps (store.commit session scope).2.1 := by
  cases hbefore : session.transaction with
  | none => exact .of_idle hbefore
  | some txn =>
    rw [commit, hbefore]
    dsimp only
    split
    · exact keeps_abort store session
    · split
      · exact .of_same rfl
      · exact .of_ended rfl

theorem keeps_rollback (scope : Scope) : session.Keeps (store.rollback session scope).2 := by
  cases hbefore : session.transaction with
  | none => exact .of_idle hbefore
  | some txn =>
    rw [rollback, hbefore]
    dsimp only
    split
    · exact keeps_abort store session
    · exact .forgetStatement hbefore

theorem keeps_enters {store' : Store} {session' : Session}
    (h : Enters store session store' session') : session.Keeps session' := by
  cases hbefore : session.transaction with
  | none => exact .of_idle hbefore
  | some txn =>
    rcases h with ⟨_, rfl⟩ | ⟨_, henter⟩
    · exact .of_same rfl
    · rw [enter_of_running hbefore] at henter
      cases henter
      exact .of_same rfl

theorem keeps_write (tid : TableId) (check : Table → Except Error Unit)
    (attempt : Table → Ledger → Transaction → Table.Attempt) :
    session.Keeps (store.write session tid check attempt).2.1 := by
  cases hbefore : session.transaction with
  | none => exact .of_idle hbefore
  | some txn =>
    rw [write]
    split
    · exact .of_same rfl
    · split
      · exact .of_same rfl
      · rw [enter_of_running hbefore]
        dsimp only
        split
        · exact .of_same rfl
        · split
          · exact .doom session
          · exact .remember session _ _

end Store

namespace Service

variable {service : Service} {s : SessionId}

section Asked

variable {session session' : Session}

/-- A session that was served keeps its transaction if what was done for it does. -/
theorem keeps_served {served : Session} {sessions' : Std.ExtTreeMap SessionId Session}
    (hsessions : sessions' = service.sessions.insert s served) (keeps : session.Keeps served)
    (after : sessions'[s]? = some session') : session.Keeps session' := by
  rw [hsessions, Maps.get_insert, if_pos rfl] at after
  cases after
  exact keeps

theorem keeps_forSession {operation : Store → Session → Store × Session × Reply}
    (keeps : ∀ (store : Store) (session : Session), session.Keeps (operation store session).2.1)
    (before : service.sessions[s]? = some session)
    (after : (service.forSession s operation).1.sessions[s]? = some session') :
    session.Keeps session' := by
  rw [forSession, before] at after
  exact keeps_served rfl (keeps _ _) after

theorem keeps_setIsolation {level : Isolation} (before : service.sessions[s]? = some session)
    (after : (service.handle (.setIsolation s level)).1.sessions[s]? = some session') :
    session.Keeps session' := by
  rw [handle_setIsolation] at after
  refine keeps_forSession (fun store session => ?_) before after
  cases hset : session.setIsolation level with
  | error error => exact .of_same rfl
  | ok changed =>
    rw [Session.setIsolation] at hset
    split at hset
    · cases hset
    · cases hset
      exact .of_same rfl

theorem keeps_nextInScan {table : TableId} {scan : ScanId} {kind : ScanKind} {own : Bool}
    (before : service.sessions[s]? = some session)
    (after : (service.handle (.nextInScan s table scan kind own)).1.sessions[s]? = some session') :
    session.Keeps session' := by
  cases hscan : service.indexScans[scan]? with
  | none =>
    rw [handle, nextInScan, before, hscan, before] at after
    cases after
    exact .of_same rfl
  | some resting =>
    exact keeps_served (nextInScan_answer before hscan _).2.1
      (service.store.keeps_enters _ (service.store.nextInScan_enters _ _ _ _ _)) after

theorem keeps_nextInTable {table : TableId} {scan : ScanId} {own : Bool}
    (before : service.sessions[s]? = some session)
    (after : (service.handle (.nextInTable s table scan own)).1.sessions[s]? = some session') :
    session.Keeps session' := by
  cases hscan : service.tableScans[scan]? with
  | none =>
    rw [handle, nextInTable, before, hscan, before] at after
    cases after
    exact .of_same rfl
  | some resting =>
    exact keeps_served (nextInTable_answer before hscan _).2.1
      (service.store.keeps_enters _ (service.store.nextInTable_enters _ _ _ _)) after

theorem closeSession_forgets (service : Service) (s : SessionId) :
    (service.handle (.closeSession s)).1.sessions[s]? = none := by
  show ((service.perform s Store.abort).1.sessions.erase s)[s]? = none
  rw [Maps.get_erase, if_pos rfl]

/-- What is asked of a service leaves a transaction in its statement, unless it is to go on to the
next. -/
theorem keeps_handle {work : Work} (ok : service.Ok work) {request : Request}
    (stays : request ≠ .beginStatement s) (before : service.sessions[s]? = some session)
    (after : (service.handle request).1.sessions[s]? = some session') : session.Keeps session' := by
  by_cases apart : request.session? ≠ some s
  · rw [sessions_handle_elsewhere ok apart before, before] at after
    cases after
    exact .of_same rfl
  have own := not_not.mp apart
  cases request with
  | begin t owner =>
    cases own
    exact keeps_forSession (fun store session => store.keeps_begin session owner) before after
  | beginStatement t =>
    cases own
    exact absurd rfl stays
  | commit t scope =>
    cases own
    exact keeps_forSession (fun store session => store.keeps_commit session scope) before after
  | rollback t scope =>
    cases own
    exact keeps_forSession (fun store session => store.keeps_rollback session scope) before after
  | abort t =>
    cases own
    exact keeps_forSession Store.keeps_abort before after
  | setIsolation t level =>
    cases own
    exact keeps_setIsolation before after
  | setMultiStatement t on =>
    cases own
    exact keeps_forSession (fun _ _ => .of_same rfl) before after
  | insert t table record =>
    cases own
    exact keeps_forSession (fun store session => store.keeps_write session _ _ _) before after
  | update t table row record =>
    cases own
    exact keeps_forSession (fun store session => store.keeps_write session _ _ _) before after
  | delete t table row =>
    cases own
    exact keeps_forSession (fun store session => store.keeps_write session _ _ _) before after
  | lookup t table index key own' =>
    cases own
    exact keeps_forSession (fun store session =>
      store.keeps_enters session (store.lookup_enters session _ _ _ _)) before after
  | openScan t table scan kind index key inclusive own' =>
    cases own
    exact keeps_served (openScan_answer before scan _).2.1
      (service.store.keeps_enters _ (service.store.openScan_enters _ _ _ _ _ _ _)) after
  | nextInScan t table scan kind own' =>
    cases own
    exact keeps_nextInScan before after
  | nextInTable t table scan own' =>
    cases own
    exact keeps_nextInTable before after
  | closeSession t =>
    cases own
    rw [closeSession_forgets] at after
    cases after
  | openTableScan | buildIndex | reclaim | setAccepting | openSession => cases own

end Asked

end Service

/-! ## 2. History -/

namespace Chronicle

variable {c : Chronicle} {id snapshot : Int}

/-- Events that leave a running transaction in its statement. -/
def Spares (id : Int) : Event → Prop
  | .began other | .statement other | .committed other => other ≠ id
  | .undone other whole => other ≠ id ∨ whole = false
  | .wrote _ _ _ _ | .aborted _ | .quiet _ => True

/-- What a transaction sees without the writes of its statement stays. -/
theorem rows_tell {event : Event} (spares : Spares id event) (hsnapshot : snapshot ≤ c.sequence)
    (tid : TableId) : (c.tell event).rows tid id snapshot false = c.rows tid id snapshot false ∧
      (c.tell event).statement id = c.statement id := by
  have hrows : ∀ c' : Chronicle, c'.ownDeeds id false = c.ownDeeds id false →
      c'.deedsUnder snapshot = c.deedsUnder snapshot →
      c'.rows tid id snapshot false = c.rows tid id snapshot false := by
    intro c' hown hunder
    rw [rows, rows, hown, hunder]
  cases event with
  | began other =>
    have hstatement : (c.tell (.began other)).statement id = c.statement id :=
      Function.update_of_ne (Ne.symm spares) _ _
    refine ⟨hrows _ ?_ rfl, hstatement⟩
    rw [ownDeeds, ownDeeds, hstatement]
    rfl
  | statement other =>
    have hstatement : (c.tell (.statement other)).statement id = c.statement id :=
      Function.update_of_ne (Ne.symm spares) _ _
    refine ⟨hrows _ ?_ rfl, hstatement⟩
    rw [ownDeeds, ownDeeds, hstatement]
    rfl
  | wrote other table row record? =>
    refine ⟨hrows _ ?_ rfl, rfl⟩
    rw [ownDeeds, ownDeeds, pending_wrote]
    split
    · rename_i heq
      -- The deed is one of the current statement.
      rw [List.filter_cons, heq, if_neg (by simp [tell])]
      rfl
    · rfl
  | committed other =>
    refine ⟨hrows _ ?_ ?_, rfl⟩
    · rw [ownDeeds, ownDeeds, pending_committed, if_neg (Ne.symm spares)]
      rfl
    · have hlater : ¬ c.sequence + 1 ≤ snapshot := by omega
      rw [deedsUnder, deedsUnder, tell, List.filter_cons]
      simp [hlater]
  | undone other whole =>
    refine ⟨hrows _ ?_ rfl, rfl⟩
    rw [ownDeeds, ownDeeds, pending_undone]
    split
    · rename_i heq
      rcases spares with hne | rfl
      · exact absurd heq.symm hne
      · rw [heq, if_neg Bool.false_ne_true, List.filter_filter]
        exact List.filter_congr fun deed _ => by simp [tell]
    · rfl
  | aborted other => exact ⟨rfl, rfl⟩
  | quiet => exact ⟨rfl, rfl⟩

theorem sequence_le_tell (c : Chronicle) (event : Event) : c.sequence ≤ (c.tell event).sequence := by
  cases event with
  | began | committed => exact Int.le_of_lt (Int.lt_succ _)
  | statement | wrote | undone | aborted | quiet => exact Int.le_refl _

theorem rows_foldl_tell {events : List Event} (spares : ∀ event ∈ events, Spares id event)
    (hsnapshot : snapshot ≤ c.sequence) (tid : TableId) :
    (events.foldl tell c).rows tid id snapshot false = c.rows tid id snapshot false := by
  induction events generalizing c with
  | nil => rfl
  | cons event events ih =>
    rw [List.foldl_cons, ih (fun e he => spares e (List.mem_cons_of_mem _ he))
      (Int.le_trans hsnapshot (c.sequence_le_tell event))]
    exact (rows_tell (spares event List.mem_cons_self) hsnapshot tid).1

end Chronicle

/-! ## 3. Requests -/

namespace Request

/-- What the events of a request for a running transaction can be. -/
theorem mem_eventsFor {request : Request} {reply : Reply} {several : Bool} {id : Int}
    {event : Event} (h : event ∈ request.eventsFor reply several id) :
    (∃ table row record?, event = .wrote id table row record?) ∨
      (∃ s, request = .beginStatement s ∧ event = .statement id) ∨ event = .committed id ∨
      event = .undone id false ∨
      event = .undone id true ∧ Event.aborted id ∈ request.eventsFor reply several id ∨
      event = .aborted id := by
  unfold eventsFor at h ⊢
  split at h
  · simp only [List.mem_singleton] at h
    exact Or.inl ⟨_, _, _, h⟩
  · simp only [List.mem_singleton] at h
    exact Or.inl ⟨_, _, _, h⟩
  · simp only [List.mem_singleton] at h
    exact Or.inl ⟨_, _, _, h⟩
  · simp only [List.mem_singleton] at h
    exact Or.inr (Or.inl ⟨_, rfl, h⟩)
  · simp only [List.mem_singleton] at h
    exact Or.inr (Or.inr (Or.inl h))
  · rcases List.mem_cons.mp h with h | h
    · exact Or.inr (Or.inr (Or.inr (Or.inr (Or.inl ⟨h, by simp⟩))))
    · exact Or.inr (Or.inr (Or.inr (Or.inr (Or.inr (List.mem_singleton.mp h)))))
  · split at h
    · rename_i hwhole
      rcases List.mem_cons.mp h with h | h
      · exact Or.inr (Or.inr (Or.inr (Or.inr (Or.inl ⟨h, by rw [if_pos hwhole]; simp⟩))))
      · exact Or.inr (Or.inr (Or.inr (Or.inr (Or.inr (List.mem_singleton.mp h)))))
    · exact Or.inr (Or.inr (Or.inr (Or.inl (List.mem_singleton.mp h))))
  · rcases List.mem_cons.mp h with h | h
    · exact Or.inr (Or.inr (Or.inr (Or.inr (Or.inl ⟨h, by simp⟩))))
    · exact Or.inr (Or.inr (Or.inr (Or.inr (Or.inr (List.mem_singleton.mp h)))))
  · rcases List.mem_cons.mp h with h | h
    · exact Or.inr (Or.inr (Or.inr (Or.inr (Or.inl ⟨h, by simp⟩))))
    · exact Or.inr (Or.inr (Or.inr (Or.inr (Or.inr (List.mem_singleton.mp h)))))
  · cases h

/-- A request tells nothing of a transaction it is not made for. -/
theorem spares_of_ne {request : Request} {reply : Reply} {several : Bool} {id other : Int}
    {event : Event} (h : event ∈ request.eventsFor reply several other) (hne : other ≠ id) :
    Chronicle.Spares id event := by
  rcases mem_eventsFor h with ⟨_, _, _, rfl⟩ | ⟨_, _, rfl⟩ | rfl | rfl | ⟨rfl, _⟩ | rfl
  · trivial
  · exact hne
  · exact hne
  · exact Or.inr rfl
  · exact Or.inl hne
  · trivial

/-- A transaction that a request neither ends nor takes to its next statement stays in its
statement. -/
theorem spares_self {request : Request} {reply : Reply} {several : Bool} {id : Int} {event : Event}
    (h : event ∈ request.eventsFor reply several id)
    (stays : ∀ s, request ≠ .beginStatement s)
    (uncommitted : Event.committed id ∉ request.eventsFor reply several id)
    (unaborted : Event.aborted id ∉ request.eventsFor reply several id) :
    Chronicle.Spares id event := by
  rcases mem_eventsFor h with ⟨_, _, _, rfl⟩ | ⟨s, hs, _⟩ | rfl | rfl | ⟨rfl, hin⟩ | rfl
  · trivial
  · exact absurd hs (stays s)
  · exact absurd h uncommitted
  · exact Or.inr rfl
  · exact absurd hin unaborted
  · trivial

end Request

namespace Service

/-- A transaction that runs for a request runs in the session that makes it. -/
theorem Ok.asker {service : Service} {work : Work} (ok : service.Ok work) {request : Request}
    {s : SessionId} {session : Session} {txn other : Transaction}
    (asks : service.sessions[s]? = some session) (runs : session.transaction = some txn)
    (h : service.runningFor request = some other) (same : other.id = txn.id) :
    request.session? = some s := by
  obtain ⟨t, ht, hbind⟩ := Option.bind_eq_some_iff.mp h
  obtain ⟨asking, hasking, hother⟩ := Option.bind_eq_some_iff.mp hbind
  rw [ht, ok.linked.distinct hasking hother asks runs same]

variable {history : List Event} {service : Service} {request : Request} {s : SessionId}
  {session session' : Session} {txn txn' : Transaction}
  (reached : Reached history service)
  (few : (service.handle request).1.store.ledger.lastId < 2 ^ 40)
  (asks : service.sessions[s]? = some session) (runs : session.transaction = some txn)
  (asks' : (service.handle request).1.sessions[s]? = some session')
  (runs' : session'.transaction = some txn') (stays : request ≠ .beginStatement s)
include reached few asks runs asks' runs' stays

/-- What happens spares a transaction that runs before and afterwards. -/
theorem Reached.spares (same : txn'.id = txn.id) :
    ∀ event ∈ service.happening request, Chronicle.Spares txn.id event := by
  obtain ⟨work, ok⟩ := reached.ok
  obtain ⟨work', ok', shows'⟩ := (reached.asked request).shows few
  have hactive : (service.handle request).1.store.ledger.active[txn.id]? = some txn'.snapshot := by
    rw [← same]
    exact ok'.store.runs.running (ok'.linked.held asks' runs')
  have hcommitted : Event.committed txn.id ∉ service.happening request := by
    intro hin
    obtain ⟨_, hat⟩ := Chronicle.exists_committedAt (List.mem_append_right history hin)
    have hnone := (shows'.ledger.ended hat).2.2.2
    rw [hactive] at hnone
    cases hnone
  have haborted : Event.aborted txn.id ∉ service.happening request := by
    intro hin
    have hat := Chronicle.mem_aborted_of (List.mem_append_right history hin)
    have hnone := (shows'.ledger.aborted hat).2.1
    rw [hactive] at hnone
    cases hnone
  -- Whatever is done for the transaction is done in its own session.
  have hasker : ∀ other, service.runningFor request = some other ∨
      (service.handle request).1.runningFor request = some other → other.id = txn.id →
        request.session? = some s := by
    rintro other (h | h) heq
    · exact ok.asker asks runs h heq
    · exact ok'.asker asks' runs' h (heq.trans same.symm)
  have hfor : ∀ other, service.runningFor request = some other ∨
      (service.handle request).1.runningFor request = some other →
      request.eventsFor (service.handle request).2 (service.severalFor request) other.id ⊆
        service.happening request →
      ∀ event ∈ request.eventsFor (service.handle request).2 (service.severalFor request) other.id,
        Chronicle.Spares txn.id event := by
    intro other hother hin event hevent
    by_cases heq : other.id = txn.id
    · have hself := hasker other hother heq
      rw [heq] at hin hevent
      refine Request.spares_self hevent (fun t ht => ?_) (fun h => hcommitted (hin h))
        fun h => haborted (hin h)
      rw [ht] at hself stays
      cases hself
      exact stays rfl
    · exact Request.spares_of_ne hevent heq
  rw [happening] at hfor ⊢
  cases hbefore : service.runningFor request with
  | some other =>
    rw [hbefore] at hfor
    exact hfor other (Or.inl rfl) fun _ h => h
  | none =>
    rw [hbefore] at hasker hfor
    cases hafter : (service.handle request).1.runningFor request with
    | none => exact fun _ h => by cases h
    | some other =>
      rw [hafter] at hasker hfor
      intro event hevent
      rcases List.mem_cons.mp hevent with rfl | hevent
      · -- The session of a transaction that begins had none, but this one had.
        intro heq
        rw [runningFor_present (hasker other (Or.inr rfl) heq) asks, runs] at hbefore
        cases hbefore
      · exact hfor other (Or.inr rfl) (fun _ h => List.mem_cons_of_mem _ h) event hevent

/-- Within a statement a transaction keeps its snapshot, and what it sees without the writes of the
statement stays. -/
theorem Reached.rows_stay :
    txn'.id = txn.id ∧ txn'.snapshot = txn.snapshot ∧ txn'.statement = txn.statement ∧
      ∀ tid, (Chronicle.of (history ++ service.happening request)).rows tid txn.id txn.snapshot
        false = (Chronicle.of history).rows tid txn.id txn.snapshot false := by
  obtain ⟨work, ok⟩ := reached.ok
  obtain ⟨hid, hsnapshot, hstatement⟩ := keeps_handle ok stays asks asks' _ _ runs runs'
  refine ⟨hid, hsnapshot, hstatement, fun tid => ?_⟩
  have hspares := reached.spares few asks runs asks' runs' stays hid
  have hle : service.store.ledger.lastId ≤ (service.handle request).1.store.ledger.lastId := by
    obtain ⟨_, _, answered⟩ := handle_moves ok request
    exact (answered.moves.grows ok.store).lastId_le
  obtain ⟨work, ok, shows⟩ := reached.shows (Int.lt_of_le_of_lt hle few)
  have hactive := ok.store.runs.running (ok.linked.held asks runs)
  have hsequence : txn.snapshot ≤ (Chronicle.of history).sequence := by
    rw [← shows.ledger.sequence]
    exact (ok.store.ledger.active hactive).2.2.2
  rw [Chronicle.of_append]
  exact Chronicle.rows_foldl_tell hspares hsequence tid

end Service
end SnapshotStore
