import Mathlib
import SnapshotStore.Proofs.History.Diary
import SnapshotStore.Proofs.Service.Doomed
import SnapshotStore.Proofs.Service.Rollback

/-!
# Writers see what they write over

The check that lets a transaction write over a row and the read of that row ask the same question in
two ways: the one looks at the newest version alone, the other goes down the chain. They agree: a
transaction may write over a row exactly if it reads the newest version of it
(`Chain.isWritable_iff_read`).

So nobody writes over what it has not seen, and over whole runs no update is lost. What is said of runs
is said of their diaries, which note the snapshot under which each row was written (`Service.Kept`).
-/

namespace SnapshotStore

/-! ## 1. The check and the read -/

namespace Chain

variable {l : Ledger} {txn : Transaction} {newest : Version} {older : Chain}

/-- A transaction sees what it wrote itself and what was committed under its snapshot. -/
theorem sees_created : (txn.view true).sees l newest.created = true ↔
    newest.created.transaction = txn.id ∨
      l.committedBy newest.created.transaction txn.snapshot = true := by
  rw [View.sees, Transaction.view]
  by_cases hown : newest.created.transaction = txn.id
  · simp [hown]
  · simp [hown, Ledger.isVisible]

/-- A transaction may write over a version exactly if it is unmarked and what the transaction reads. -/
theorem isWritable_iff_read : newest.isWritable l txn.id txn.snapshot = true ↔
    newest.deleted = none ∧
      Chain.read l (txn.view true) (newest :: older) = .visible newest older := by
  rw [Table.isWritable_iff, ← sees_created, Version.isMarked, Option.isSome_eq_false_iff,
    Option.isNone_iff_eq_none]
  refine and_congr_right fun hunmarked => ?_
  rw [read, hunmarked]
  constructor
  · intro hsees
    rw [if_pos hsees]
    rfl
  · intro hread
    by_contra hsees
    rw [if_neg hsees] at hread
    -- The older versions would be as many as the chain.
    have hlength := (suffix_of_read hread).length_le
    rw [List.length_cons] at hlength
    exact absurd hlength (Nat.not_succ_le_self _)

end Chain

namespace Table

variable {l : Ledger} {txn : Transaction} {table : Table} {row : RowHandle}

/-- The row is there and its newest version, which bears no mark, is what the transaction reads. -/
def ReadsNewest (table : Table) (l : Ledger) (txn : Transaction) (row : RowHandle) : Prop :=
  ∃ newest older, table.rows[row]? = some (newest :: older) ∧ newest.deleted = none ∧
    Chain.read l (txn.view true) (newest :: older) = .visible newest older

/-- Whatever an index says of a version that was put on a row, it is no conflict. -/
theorem complete_ne_conflict (id : Int) (created : Write) (ref : RowRef)
    (step : Table → Nat → Except Refusal (Table × List Write)) :
    (table.complete id created ref step).outcome ≠ .ok .conflict := by
  rw [complete]
  split
  · simp
  · rename_i refusal _
    cases refusal <;> simp [Refusal.outcome]

/-- A row is there for the writer, or it is not. -/
theorem readsNewest_cases : (∃ newest older, table.rows[row]? = some (newest :: older) ∧
      newest.isWritable l txn.id txn.snapshot = true ∧ table.ReadsNewest l txn row) ∨
    ¬ table.ReadsNewest l txn row ∧ ∀ newest older, table.rows[row]? = some (newest :: older) →
      newest.isWritable l txn.id txn.snapshot = false := by
  by_cases hreads : table.ReadsNewest l txn row
  · left
    obtain ⟨newest, older, there, hread⟩ := hreads
    exact ⟨newest, older, there, Chain.isWritable_iff_read.mpr hread, newest, older, there, hread⟩
  · refine Or.inr ⟨hreads, fun newest older there => ?_⟩
    by_contra hwritable
    rw [Bool.not_eq_false] at hwritable
    exact hreads ⟨newest, older, there, Chain.isWritable_iff_read.mp hwritable⟩

/-- An update meets a conflict exactly if its transaction does not read the newest version. -/
theorem updateRow_conflict (record : Record) :
    (table.updateRow l txn row record).outcome = .ok .conflict ↔ ¬ table.ReadsNewest l txn row := by
  rcases readsNewest_cases with ⟨newest, older, there, hwritable, hreads⟩ | ⟨hreads, hnot⟩
  · refine iff_of_false ?_ (not_not_intro hreads)
    rw [updateRow, there]
    dsimp only
    rw [if_pos hwritable]
    exact complete_ne_conflict _ _ _ _
  · refine iff_of_true ?_ hreads
    rw [updateRow]
    split
    · rename_i newest older there
      rw [hnot newest older there]
      rfl
    · rfl

/-- A delete goes through exactly if its transaction reads the newest version. -/
theorem deleteRow_outcome :
    (table.ReadsNewest l txn row → (table.deleteRow l txn row).outcome = .ok .deleted) ∧
      (¬ table.ReadsNewest l txn row → (table.deleteRow l txn row).outcome = .ok .conflict) := by
  rcases readsNewest_cases with ⟨newest, older, there, hwritable, hreads⟩ | ⟨hreads, hnot⟩
  · refine ⟨fun _ => ?_, fun h => absurd hreads h⟩
    rw [deleteRow, there]
    dsimp only
    rw [if_pos hwritable]
  · refine ⟨fun h => absurd h hreads, fun _ => ?_⟩
    rw [deleteRow]
    split
    · rename_i newest older there
      rw [hnot newest older there]
      rfl
    · rfl

end Table

/-! ## 2. Replies -/

namespace Service

variable {service : Service} {s : SessionId} {session : Session} {txn : Transaction}
  {tid : TableId} {table : Table} {row : RowHandle}

section Replies

variable (asks : service.sessions[s]? = some session) (runs : session.transaction = some txn)
  (alive : txn.doomed = false) (here : service.store.tables[tid]? = some table)
include asks runs alive here

theorem reply_insert (record : Record) : (service.handle (.insert s tid record)).2 =
    .of .wrote (match table.checkRecord record with
      | .error error => .error error
      | .ok () => (table.insertRow service.store.ledger txn record).outcome) := by
  rw [handle, attempt, forSession, asks]
  dsimp only
  exact congrArg _ (Store.write_outcome runs alive here _ _)

theorem reply_update (record : Record) : (service.handle (.update s tid row record)).2 =
    .of .wrote (match table.checkRecord record with
      | .error error => .error error
      | .ok () => (table.updateRow service.store.ledger txn row record).outcome) := by
  rw [handle, attempt, forSession, asks]
  dsimp only
  exact congrArg _ (Store.write_outcome runs alive here _ _)

theorem reply_delete : (service.handle (.delete s tid row)).2 =
    .of .wrote (table.deleteRow service.store.ledger txn row).outcome := by
  rw [handle, attempt, forSession, asks]
  dsimp only
  rw [Store.delete, Store.write_outcome runs alive here]

/-- The reply to an update says whether its transaction reads the newest version. -/
theorem update_conflict (record : Record) :
    (service.handle (.update s tid row record)).2 = .wrote .conflict ↔
      table.checkRecord record = .ok () ∧ ¬ table.ReadsNewest service.store.ledger txn row := by
  rw [reply_update asks runs alive here, ← Table.updateRow_conflict record]
  cases table.checkRecord record with
  | error error => simp [Reply.of]
  | ok =>
    cases (table.updateRow service.store.ledger txn row record).outcome <;> simp [Reply.of]

/-- So does the reply to a delete. -/
theorem delete_conflict :
    (table.ReadsNewest service.store.ledger txn row →
      (service.handle (.delete s tid row)).2 = .wrote .deleted) ∧
    (¬ table.ReadsNewest service.store.ledger txn row →
      (service.handle (.delete s tid row)).2 = .wrote .conflict) := by
  rw [reply_delete asks runs alive here]
  exact ⟨fun h => congrArg _ (Table.deleteRow_outcome.1 h),
    fun h => congrArg _ (Table.deleteRow_outcome.2 h)⟩

end Replies

end Service

/-! ## 3. Diaries -/

namespace Request

variable {request : Request} {reply : Reply} {several : Bool} {before after : Option Transaction}
  {id : Int} {tid : TableId} {row : RowHandle} {record? : Option Record}

/-- A request that tells of a write is one to write, and tells nothing else for its transaction. -/
theorem eventsFor_wrote {other : Int}
    (h : .wrote id tid row record? ∈ request.eventsFor reply several other) :
    id = other ∧ (∃ s, request.isWriteOf s = true) ∧
      request.eventsFor reply several other = [.wrote id tid row record?] := by
  unfold eventsFor at h ⊢
  split at h
  case h_1 s _ _ _ | h_2 s _ _ _ _ | h_3 s _ _ =>
    cases List.mem_singleton.mp h
    exact ⟨rfl, ⟨s, beq_self_eq_true s⟩, rfl⟩
  all_goals first
    | (split at h <;> simp at h)
    | simp at h

/-- A write is told last, and before it at most that its transaction began. -/
theorem events_wrote (h : .wrote id tid row record? ∈ request.events reply several before after) :
    (∃ s, request.isWriteOf s = true) ∧
      ((∃ txn, before = some txn ∧ txn.id = id ∧
          request.events reply several before after = [.wrote id tid row record?]) ∨
        ∃ txn, before = none ∧ after = some txn ∧ txn.id = id ∧
          request.events reply several before after = [.began id, .wrote id tid row record?]) := by
  cases before with
  | some txn =>
    obtain ⟨hid, hwrites, heq⟩ := eventsFor_wrote h
    exact ⟨hwrites, Or.inl ⟨txn, rfl, hid.symm, heq⟩⟩
  | none =>
    cases after with
    | none => cases h
    | some txn =>
      rcases List.mem_cons.mp h with hbegan | h
      · cases hbegan
      · obtain ⟨hid, hwrites, heq⟩ := eventsFor_wrote h
        refine ⟨hwrites, Or.inr ⟨txn, rfl, rfl, hid.symm, ?_⟩⟩
        show Event.began txn.id :: request.eventsFor reply several txn.id = _
        rw [heq, hid]

theorem session?_of_isWriteOf {s : SessionId} (writes : request.isWriteOf s = true) :
    request.session? = some s := by
  cases request with
  | insert t | update t | delete t =>
    cases eq_of_beq writes
    rfl
  | _ => cases writes

end Request

namespace Service

variable {service : Service} {work work' : Work} {request : Request} {diary : Diary}

/-- The snapshot of the transaction that a request is made for, once the request is answered. -/
def snapshotAfter (service : Service) (request : Request) : Int :=
  ((service.handle request).1.runningFor request).elim 0 (·.snapshot)

/-- The diary once a request is answered. -/
def note (service : Service) (diary : Diary) (request : Request) : Diary :=
  (service.happening request).foldl (Diary.tell (service.snapshotAfter request)) diary

/-- The services there can be, and their diaries. -/
inductive Kept : Diary → Service → Prop
  | start : Kept {} {}
  | added {diary : Diary} {service : Service} (before : Kept diary service) (name : String)
    (schema : Schema) (config : Config) : Kept diary (service.withTable name schema config)
  | asked {diary : Diary} {service : Service} (before : Kept diary service) (request : Request) :
    Kept (service.note diary request) (service.handle request).1

theorem chronicle_note (service : Service) {history : List Event}
    (h : diary.chronicle = .of history) (request : Request) :
    (service.note diary request).chronicle = .of (history ++ service.happening request) := by
  rw [note, Diary.chronicle_foldl_tell, h, Chronicle.of_append]

/-- A diary can be kept of every service there can be. -/
theorem Reached.kept {history : List Event} (reached : Reached history service) :
    ∃ diary, Kept diary service ∧ diary.chronicle = .of history := by
  induction reached with
  | start => exact ⟨{}, .start, rfl⟩
  | added _ name schema config ih =>
    obtain ⟨diary, kept, hchronicle⟩ := ih
    exact ⟨diary, kept.added name schema config, hchronicle⟩
  | @asked _ service _ request ih =>
    obtain ⟨diary, kept, hchronicle⟩ := ih
    exact ⟨_, kept.asked request, service.chronicle_note hchronicle request⟩

/-- Who writes to a row runs afterwards in the session that made the request. -/
theorem Answered.running_after {events : List Event} (ok : service.Ok work)
    (answered : Answered service work request events work') {id : Int} {tid : TableId}
    {row : RowHandle} {record? : Option Record} (h : .wrote id tid row record? ∈ events)
    {txn : Transaction} (running : work' id = some txn) :
    (service.handle request).1.runningFor request = some txn := by
  rw [answered.told.written h] at h
  obtain ⟨⟨s, hwrites⟩, hwho⟩ := Request.events_wrote h
  have hsession := Request.session?_of_isWriteOf hwrites
  have hlinked := answered.ok.linked
  obtain ⟨t, session', there, hruns⟩ := hlinked.running running
  have hid := answered.ok.store.runs.id running
  suffices heq : t = s by
    rw [runningFor, hsession, Option.bind_some, ← heq, there]
    exact hruns
  rcases hwho with ⟨before, hbefore, hsame, _⟩ | ⟨after, _, hafter, hsame, _⟩
  · -- It ran in that session before, and the other sessions run what they ran.
    rw [Service.runningFor, hsession, Option.bind_some] at hbefore
    obtain ⟨session, asks, hbefore⟩ := Option.bind_eq_some_iff.mp hbefore
    by_contra hne
    have hforSession : ∃ operation, service.handle request = service.forSession s operation := by
      cases request with
      | insert | update | delete =>
        cases eq_of_beq hwrites
        exact ⟨_, by rw [handle, attempt]⟩
      | _ => cases hwrites
    obtain ⟨operation, hhandle⟩ := hforSession
    rw [hhandle, forSession_elsewhere (Ne.symm hne)] at there
    exact hne (ok.linked.distinct there hruns asks hbefore (hid.trans hsame.symm))
  · rw [Service.runningFor, hsession, Option.bind_some] at hafter
    obtain ⟨session, asks, hafter⟩ := Option.bind_eq_some_iff.mp hafter
    exact hlinked.distinct there hruns asks hafter (hid.trans hsame.symm)

/-- Answering a request loses nothing. -/
theorem Answered.informed {events : List Event} (ok : service.Ok work)
    (answered : Answered service work request events work')
    (reflects : service.store.Reflects work diary.chronicle) (informed : diary.Informed work) :
    (service.note diary request).Informed work' := by
  rw [note, happening, ← answered.told.loud, Diary.foldl_tell_loud]
  by_cases hwrote : ∃ id tid row record?, Event.wrote id tid row record? ∈ events
  · obtain ⟨id, tid, row, record?, h⟩ := hwrote
    have hsnapshot : ∀ {txn : Transaction}, work' id = some txn →
        txn.snapshot = service.snapshotAfter request := by
      intro txn running
      rw [snapshotAfter, answered.running_after ok h running]
      rfl
    have htold := answered.told.written h
    have hmoves := answered.moves
    rw [htold] at h
    obtain ⟨_, ⟨_, _, _, hevents⟩ | ⟨_, _, _, _, hevents⟩⟩ := Request.events_wrote h
    · rw [htold, hevents] at hmoves ⊢
      exact Store.Moves.informed_wrote [] hmoves ok.store reflects informed (by simp) hsnapshot
    · rw [htold, hevents] at hmoves ⊢
      exact Store.Moves.informed_wrote [.began id] hmoves ok.store reflects informed (by simp)
        hsnapshot
  · exact answered.moves.informed ok.store reflects informed _
      fun h => hwrote ⟨_, _, _, _, h⟩

/-- A diary shows that its service loses nothing. -/
theorem Kept.informed (kept : Kept diary service) : ∃ work, service.Ok work ∧
    service.store.Reflects work diary.chronicle ∧ diary.Informed work := by
  induction kept with
  | start => exact ⟨_, ok_start, Store.reflects_start, Diary.informed_start⟩
  | @added _ service _ name schema config ih =>
    obtain ⟨work, ok, reflects, informed⟩ := ih
    have move : Store.Move service.store work .quiet _ work := .added name schema config
    have hinformed : (Diary.tell 0 _ .quiet).Informed work :=
      move.informed ok.store reflects informed fun h => by cases h
    exact ⟨work, ok.withTable name schema config, move.reflects ok.store reflects, hinformed⟩
  | asked _ request ih =>
    obtain ⟨work, ok, reflects, informed⟩ := ih
    obtain ⟨events, work', answered⟩ := handle_moves ok request
    refine ⟨work', answered.ok, ?_, answered.informed ok reflects informed⟩
    rw [note, happening, ← answered.told.loud, Diary.foldl_tell_loud, Diary.chronicle_foldl_tell]
    exact answered.moves.reflects ok.store reflects

/-- Beside a diary there is a history, and both are of the same chronicle. -/
theorem Kept.exists_history (kept : Kept diary service) :
    ∃ history, Reached history service ∧ diary.chronicle = .of history := by
  induction kept with
  | start => exact ⟨[], .start, rfl⟩
  | added _ name schema config ih =>
    obtain ⟨history, reached, hchronicle⟩ := ih
    exact ⟨history, reached.added name schema config, hchronicle⟩
  | @asked _ service _ request ih =>
    obtain ⟨history, reached, hchronicle⟩ := ih
    exact ⟨_, reached.asked request, service.chronicle_note hchronicle request⟩

/-- Forgetting the snapshots leaves what history says. -/
theorem Kept.forgets (kept : Kept diary service) : ∃ history, Reached history service ∧
    diary.chronicle = .of history ∧
      diary.commits.map DatedCommit.plain = (Chronicle.of history).commits := by
  obtain ⟨history, reached, hchronicle⟩ := kept.exists_history
  obtain ⟨_, _, _, informed⟩ := kept.informed
  exact ⟨history, reached, hchronicle, by rw [← informed.commits, hchronicle]⟩

/-- The commits of a diary have the sequences that the ledger has on record. -/
theorem Kept.sequence_eq (kept : Kept diary service) {commit : DatedCommit}
    (h : commit ∈ diary.commits) {sequence : Int}
    (recorded : service.store.ledger.committed[commit.transaction]? = some sequence) :
    sequence = commit.sequence := by
  obtain ⟨_, _, reflects, informed⟩ := kept.informed
  obtain ⟨mark, _, _, hknows⟩ := reflects.ledger.knows
  have hknow := hknows ⟨_, informed.plain_mem h, rfl, rfl⟩
  rw [Ledger.Knows] at hknow
  split at hknow
  · have hnone := hknow.1.symm.trans recorded
    cases hnone
  · have hsome := hknow.symm.trans recorded
    cases hsome
    rfl

/-- A transaction that is not doomed may write over a row exactly if the row is there, its newest
version bears no mark and the transaction reads that version; otherwise the answer is a conflict. So no
update is lost: of two transactions that committed writes to one row, the one that committed later made
all of them, the first one too, under a snapshot that has the commit of the other. -/
theorem Kept.nothing_overwritten_unseen (kept : Kept diary service) :
    (∀ (s : SessionId) (session : Session) (txn : Transaction) (tid : TableId) (table : Table)
      (row : RowHandle), service.sessions[s]? = some session → session.transaction = some txn →
        txn.doomed = false → service.store.tables[tid]? = some table →
      (∀ record, (service.handle (.update s tid row record)).2 = .wrote .conflict ↔
        table.checkRecord record = .ok () ∧ ¬ table.ReadsNewest service.store.ledger txn row) ∧
      (table.ReadsNewest service.store.ledger txn row →
        (service.handle (.delete s tid row)).2 = .wrote .deleted) ∧
      (¬ table.ReadsNewest service.store.ledger txn row →
        (service.handle (.delete s tid row)).2 = .wrote .conflict)) ∧
    (∀ earlier ∈ diary.commits, ∀ later ∈ diary.commits, earlier.sequence < later.sequence →
      ∀ before ∈ earlier.writes, ∀ after ∈ later.writes,
        before.deed.table = after.deed.table → before.deed.row = after.deed.row →
          earlier.sequence ≤ after.snapshot) ∧
    ∀ commit ∈ diary.commits, ∀ sequence,
      service.store.ledger.committed[commit.transaction]? = some sequence →
        sequence = commit.sequence := by
  obtain ⟨_, _, _, informed⟩ := kept.informed
  refine ⟨fun s session txn tid table row asks runs alive here => ?_, informed.lossless,
    fun commit h sequence recorded => kept.sequence_eq h recorded⟩
  exact ⟨fun record => update_conflict asks runs alive here record,
    delete_conflict asks runs alive here⟩

/-- The diary after requests one after another. -/
def notes (service : Service) (diary : Diary) : List Request → Diary
  | [] => diary
  | request :: requests => (service.handle request).1.notes (service.note diary request) requests

theorem Kept.run (kept : Kept diary service) (requests : List Request) :
    Kept (service.notes diary requests) (service.run requests).1 := by
  induction requests generalizing diary service with
  | nil => exact kept
  | cons request requests ih => exact ih (kept.asked request)

theorem kept_small : Kept {} small := by
  have kept := (Kept.start.added "t" byteSchema {}).run twoSessions
  have hquiet : (({} : Service).withTable "t" byteSchema {}).notes {} twoSessions = {} := by rfl
  rwa [hquiet] at kept

/-- A row is inserted by the first session and updated by the second. Then both begin, and the first
one updates it once more and commits. -/
def overwriting : List Request :=
  [.begin 1 1, .insert 1 0 (byteRecord 1), .commit 1 .session, .begin 2 2,
    .update 2 0 firstRow (byteRecord 2), .commit 2 .session, .begin 1 1, .begin 2 2,
    .update 1 0 firstRow (byteRecord 3), .commit 1 .session]

/-- Each of the three commits knew those before it, and the second session has not seen the last one,
so it meets a conflict. -/
theorem overwriting_known : ∃ (diary : Diary) (service : Service) (session : Session)
    (txn : Transaction) (table : Table), Kept diary service ∧
    service.sessions[2]? = some session ∧ session.transaction = some txn ∧ txn.doomed = false ∧
    service.store.tables[0]? = some table ∧
    diary.commits.map (fun commit => (commit.sequence, commit.writes.map (·.snapshot))) =
      [(7, [5]), (4, [3]), (2, [1])] ∧ diary.NothingLost ∧
    (service.handle (.update 2 0 firstRow (byteRecord 4))).2 = .wrote .conflict ∧
    ¬ table.ReadsNewest service.store.ledger txn firstRow := by
  have kept := kept_small.run overwriting
  have hruns : ((small.run overwriting).1.sessions[2]?.bind fun session =>
      session.transaction.filter (!·.doomed)).isSome = true := by
    decide +kernel
  have hhere : ((small.run overwriting).1.store.tables[0]?).isSome = true := by
    decide +kernel
  obtain ⟨session, txn, asks, runs, alive⟩ := exists_running hruns
  obtain ⟨table, here⟩ := Option.isSome_iff_exists.mp hhere
  have halive : txn.doomed = false := by simpa using alive
  obtain ⟨hchecks, hlossless, _⟩ := kept.nothing_overwritten_unseen
  obtain ⟨hupdate, _⟩ := hchecks 2 session txn 0 table firstRow asks runs halive here
  have hconflict : ((small.run overwriting).1.handle
      (.update 2 0 firstRow (byteRecord 4))).2 = .wrote .conflict := by
    decide +kernel
  exact ⟨_, _, session, txn, table, kept, asks, runs, halive, here, by decide +kernel, hlossless,
    hconflict, ((hupdate (byteRecord 4)).mp hconflict).2⟩

end Service
end SnapshotStore
