import Mathlib
import SnapshotStore.Proofs.History.Moves
import SnapshotStore.Proofs.Service.Reached

/-!
# A service shows its history

Move by move, and so request by request, a store goes on showing what has happened to it
(`Reached.shows`). What is claimed of a store that can be reached is from here on read off its history.
-/

namespace SnapshotStore

/-! ## 1. The logs -/

namespace Work.Shows

variable {work : Work} {c c' : Chronicle} {id : Int} {txn txn' : Transaction}

/-- Deeds are pending for a running transaction alone. -/
theorem pending_eq_nil (shows : work.Shows c) (h : work.log id = []) : c.pending id = [] := by
  cases hpending : c.pending id with
  | nil => rfl
  | cons deed deeds =>
    have hlogged := shows.logged id deed.table deed.row
    rw [h] at hlogged
    have hnone : c.writes id deed.table deed.row = [] := hlogged.eq_nil.mp rfl
    rw [Chronicle.writes, hpending, List.filter_cons, if_pos (Deed.on_iff.mpr ⟨rfl, rfl⟩)] at hnone
    cases hnone

/-- A transaction changes, and history tells it. -/
theorem update (shows : work.Shows c) (txn? : Option Transaction)
    (hstatement : ∀ other, other ≠ id → c'.statement other = c.statement other)
    (hpending : ∀ other, other ≠ id → c'.pending other = c.pending other)
    (hnow : ∀ txn, txn? = some txn → c'.statement id = txn.statement)
    (hidle : txn? = none → c'.pending id = [])
    (hlogged : ∀ tid row, List.Forall₂ LogEntry.Matches (rowLog tid row (txn?.elim [] (·.log)))
      (c'.writes id tid row)) : Work.Shows (Function.update work id txn?) c' := by
  refine ⟨fun {other t} h => ?_, fun {other} h => ?_, fun other tid row => ?_⟩
  · rw [Function.update_apply] at h
    split at h
    · rename_i heq
      rw [heq]
      exact hnow t h
    · rename_i hne
      rw [hstatement other hne]
      exact shows.statement h
  · rw [Function.update_apply] at h
    split at h
    · rename_i heq
      rw [heq]
      exact hidle h
    · rename_i hne
      rw [hpending other hne]
      exact shows.idle h
  · rw [Work.log_update]
    split
    · rename_i heq
      rw [heq]
      exact hlogged tid row
    · rename_i hne
      rw [Chronicle.writes, hpending other hne]
      exact shows.logged other tid row

/-- A transaction goes on with the same log, and history has no deed to tell. -/
theorem keep (shows : work.Shows c) (running : work id = some txn) (hlog : txn'.log = txn.log)
    (hstatement : ∀ other, other ≠ id → c'.statement other = c.statement other)
    (hpending : ∀ other, c'.pending other = c.pending other)
    (hnow : c'.statement id = txn'.statement) :
    Work.Shows (Function.update work id (some txn')) c' := by
  refine shows.update (some txn') hstatement (fun other _ => hpending other)
    (fun t h => by cases h; exact hnow) (fun h => by cases h) fun tid row => ?_
  rw [Chronicle.writes, hpending]
  show List.Forall₂ _ (rowLog tid row txn'.log) _
  rw [hlog, ← Work.log_eq running]
  exact shows.logged id tid row

/-- A transaction makes a write to a row. -/
theorem wrote (shows : work.Shows c) (running : work id = some txn) {tid : TableId}
    {row : RowHandle} {writes : List Write} {write : Write}
    (hrow : ∀ r, rowLog tid r (txn.remember tid writes).log =
      if r = row then ⟨txn.statement, tid, write⟩ :: rowLog tid r txn.log
      else rowLog tid r txn.log) (record? : Option Record)
    (hcreates : write.creates = record?.isSome) :
    Work.Shows (Function.update work id (some (txn.remember tid writes)))
      (c.tell (.wrote id tid row record?)) := by
  have hlog : ∀ tid row, List.Forall₂ LogEntry.Matches (rowLog tid row txn.log)
      (c.writes id tid row) := by
    rw [← Work.log_eq running]
    exact shows.logged id
  have hstatement := shows.statement running
  refine shows.update _ (fun _ _ => rfl) (fun other hne => ?_)
    (fun t h => by cases h; exact hstatement) (fun h => by cases h) fun other r => ?_
  · rw [Chronicle.pending_wrote, if_neg hne]
  · rw [Chronicle.writes_wrote, Option.elim_some]
    by_cases htable : other = tid
    · rw [htable, hrow]
      by_cases heq : r = row
      · rw [if_pos heq, if_pos ⟨rfl, rfl, heq⟩]
        exact .cons ⟨(shows.statement running).symm, hcreates⟩ (hlog tid r)
      · rw [if_neg heq, if_neg (fun h => heq h.2.2)]
        exact hlog tid r
    · rw [Table.rowLog_remember_elsewhere htable, if_neg (fun h => htable h.2.1)]
      exact hlog other r

end Work.Shows

/-! ## 2. The store -/

namespace Store

variable {store store' : Store} {work work' : Work} {c c' : Chronicle} {event : Event}

/-- A store whose tables stay and whose ledger goes on. -/
theorem Shows.goes_on (shows : store.Shows work c) (ok : store.Ok work) {l : Ledger}
    (grows : Ledger.Grows store.ledger l) (sound : c'.Sound) (attests : l.Attests c')
    (worked : work'.Shows c') (hwrites : ∀ id tid row, c'.writes id tid row = c.writes id tid row)
    (hsettled : ∀ tid row, c'.settled tid row = c.settled tid row)
    (hcommitted : ∀ {id s : Int}, c.CommittedAt id s → c'.CommittedAt id s)
    (hactive : ∀ {id s' : Int}, l.active[id]? = some s' → c.pending id ≠ [] →
      ∃ s ≤ s', store.ledger.active[id]? = some s) : (store.withLedger l).Shows work' c' where
  sound := sound
  ledger := attests
  work := worked
  tables {tid table} h := by
    refine (shows.tables h).goes_on ok.ledger grows (fun id row => hwrites id tid row)
      (hsettled tid) hcommitted (fun {id s' row} hrunning hne => hactive hrunning fun hnil => ?_)
      (fun _ => rfl) (Nat.le_refl _) fun _ h => h
    rw [Chronicle.writes, hnil] at hne
    exact hne rfl
  known {id tid row} h := by
    rw [hwrites, hsettled] at h
    exact shows.known h

/-- A store one of whose tables changes. -/
theorem Shows.setTable (shows : store.Shows work c) {tid : TableId} {table after : Table}
    (here : store.tables[tid]? = some table) (sound : c'.Sound)
    (attests : store.ledger.Attests c') (worked : work'.Shows c')
    (hafter : after.Shows store.ledger c' tid)
    (hothers : ∀ {other : TableId} {t : Table}, other ≠ tid → store.tables[other]? = some t →
      t.Shows store.ledger c' other)
    (hwrites : ∀ id other row, other ≠ tid → c'.writes id other row = c.writes id other row)
    (hsettled : ∀ other row, c'.settled other row = c.settled other row) (ok : store.Ok work) :
    (store.setTable tid after).Shows work' c' := by
  have hsize : (store.setTable tid after).tables.size = store.tables.size :=
    size_setTable store after (by rw [here]; rfl)
  refine ⟨sound, attests, worked, fun {other t} h => ?_, fun {id other row} h => ?_⟩
  · rw [tables_setTable] at h
    split at h
    · rename_i heq
      cases h
      rw [heq]
      exact hafter
    · rename_i hne
      exact hothers hne h
  · rw [hsize]
    by_cases hother : other = tid
    · rw [hother, ← ok.numbered, here]
      rfl
    · rw [hwrites _ _ _ hother, hsettled] at h
      exact shows.known h

/-- The ledger goes on with history. -/
theorem Move.attests (move : Move store work event store' work') (ok : store.Ok work)
    (attests : store.ledger.Attests c) : store'.ledger.Attests (c.tell event) := by
  cases move with
  | began begin => exact attests.began ok.ledger begin
  | statement => exact attests.congr rfl rfl rfl
  | @refreshed id txn running => exact attests.refreshed id
  | doomed | refused | built | added => exact attests
  | wrote | marked => exact attests.congr rfl rfl rfl
  | @committed id txn running sound =>
    obtain ⟨hledger, _, _⟩ :=
      (store.withLedger (store.ledger.commit id).1).publish_spec (store.ledger.sequence + 1) txn.log
    rw [hledger]
    exact attests.committed ok.ledger (ok.runs.running running)
  | @undone id txn running whole =>
    rw [(store.undo_spec id (txn.undoing whole)).1]
    exact attests.congr rfl rfl rfl
  | aborted running blank => exact attests.abandoned ok.ledger (ok.runs.running running)
  | reclaimed => exact attests.pruned ok.ledger
  | admitted =>
    exact ⟨attests.sequence, attests.ended, attests.unique, attests.knows, attests.aborted⟩

/-- The logs go on with history. -/
theorem Move.shows_work (move : Move store work event store' work') (ok : store.Ok work)
    (shows : work.Shows c) : work'.Shows (c.tell event) := by
  cases move with
  | @began l id snapshot begin =>
    obtain ⟨_, rfl, rfl, rfl⟩ := Ledger.begin?_eq_some.mp begin
    have hpending := shows.idle ok.idle_next
    refine shows.update _ (fun other hne => ?_) (fun _ _ => rfl) (fun t h => ?_)
      (fun h => by cases h) fun tid row => ?_
    · exact Function.update_of_ne hne _ _
    · cases h
      exact Function.update_self _ _ _
    · show List.Forall₂ _ (rowLog tid row []) ((c.pending _).filter _)
      rw [hpending]
      exact .nil
  | @statement id txn running =>
    refine shows.keep running rfl (fun other hne => Function.update_of_ne hne _ _) (fun _ => rfl) ?_
    rw [Transaction.nextStatement, ← shows.statement running]
    exact Function.update_self _ _ _
  | refreshed running | doomed running =>
    have hstatement := shows.statement running
    exact shows.keep running rfl (fun _ _ => rfl) (fun _ => rfl) hstatement
  | refused | built | reclaimed | admitted | added => exact shows
  | @wrote id txn tid table after row record old? writes running sound here wrote writable =>
    exact shows.wrote running (wrote.rowLog tid) _ rfl
  | @marked id txn tid table row newest older running sound here hchain writable =>
    have hcreates : (Write.marked row newest.id).creates = (none : Option Record).isSome := rfl
    exact shows.wrote running Table.rowLog_remember_marked _ hcreates
  | @committed id txn running sound =>
    refine shows.update none (fun _ _ => rfl) (fun other hne => ?_) (fun _ h => by cases h)
      (fun _ => ?_) fun tid row => ?_
    · rw [Chronicle.pending_committed, if_neg hne]
    · rw [Chronicle.pending_committed, if_pos rfl]
    · rw [Chronicle.writes_committed, if_pos rfl]
      exact .nil
  | @undone id txn running whole =>
    have hstatement := shows.statement running
    refine shows.update _ (fun _ _ => rfl) (fun other hne => ?_)
      (fun t h => by cases h; exact hstatement) (fun h => by cases h) fun tid row => ?_
    · rw [Chronicle.pending_undone, if_neg hne]
    · obtain ⟨_, _, _, hleft⟩ := shows.undoing running (ok.runs.txn running) whole tid row
      exact hleft
  | @aborted id txn running blank =>
    have hlog : work.log id = [] := (Work.log_eq running).trans blank
    refine shows.update none (fun _ _ => rfl) (fun _ _ => rfl) (fun _ h => by cases h)
      (fun _ => shows.pending_eq_nil hlog) fun tid row => ?_
    have hnone := shows.logged id tid row
    rw [hlog] at hnone
    exact hnone

section Deeds

variable {id : Int} {txn : Transaction} {tid : TableId} {table after : Table} {row : RowHandle}
  (shows : store.Shows work c) (ok : store.Ok work) (here : store.tables[tid]? = some table)
include shows ok here

/-- A store one of whose tables shows a deed more. -/
theorem Shows.deed {record? : Option Record}
    (worked : work'.Shows (c.tell (.wrote id tid row record?)))
    (hafter : after.Shows store.ledger (c.tell (.wrote id tid row record?)) tid) :
    (store.setTable tid after).Shows work' (c.tell (.wrote id tid row record?)) :=
  shows.setTable here (shows.sound.tell _) (shows.ledger.congr rfl rfl rfl) worked hafter
    (fun hne h => (shows.tables h).deed_elsewhere ok.ledger hne _ _ _)
    (fun _ _ _ hne => by rw [Chronicle.writes_wrote, if_neg (fun h => hne h.2.1)])
    (fun _ _ => rfl) ok

variable (running : work txn.id = some txn)
include running

/-- A new version is the deed on top. -/
theorem Shows.table_wrote {record : Record} {old? : Option Record} {writes : List Write}
    (wrote : Table.Wrote store.ledger txn table row record old? after writes)
    (writable : ∀ newest older, table.chainOf row = newest :: older →
      newest.isWritable store.ledger txn.id txn.snapshot = true) :
    after.Shows store.ledger (c.tell (.wrote txn.id tid row (some record))) tid := by
  have hothers := Table.writes_eq_nil (ok.tables here) ok.ledger ok.runs shows.work writable
  have htable := shows.tables here
  have hunmarked := fun newest older h =>
    (Table.isWritable_iff.mp (writable newest older h)).1
  obtain ⟨hnew, _⟩ := htable.undeleted hothers hunmarked wrote.handle
  have hrow : after.rows[row]? = some (table.newVersion txn record :: table.chainOf row) := by
    rw [wrote.rows, if_pos rfl]
  refine htable.deed shows.ledger shows.sound (ok.runs.running running) hothers writable
    wrote.handle _ (wrote.handles (ok.tables here) hrow) wrote.nextHandle_le wrote.pendingDeletes
    (fun other hne => by rw [wrote.chainOf, if_neg hne]) ?_
  rw [wrote.chainOf, if_pos rfl]
  refine (htable.chains txn.id row hothers).record hnew rfl rfl ?_ ?_
  · rw [shows.work.statement running]
    rfl
  · exact Version.isMarked_eq_false.mpr rfl

/-- A mark is the deletion on top. -/
theorem Shows.table_marked {newest : Version} {older : Chain}
    (hchain : table.chainOf row = newest :: older)
    (writable : newest.isWritable store.ledger txn.id txn.snapshot = true) :
    (table.withChain row (newest.mark txn.stamp :: older)).Shows store.ledger
      (c.tell (.wrote txn.id tid row none)) tid := by
  have hunmarked := (Table.isWritable_iff.mp writable).1
  have hwritable := Table.writable_newest hchain writable
  have hthere : table.chainOf row ≠ [] := by
    rw [hchain]
    exact List.cons_ne_nil _ _
  have hothers := Table.writes_eq_nil (ok.tables here) ok.ledger ok.runs shows.work hwritable
  have htable := shows.tables here
  refine htable.deed shows.ledger shows.sound (ok.runs.running running) hothers hwritable
    (fun h => absurd h hthere) _ ((ok.tables here).handles (Table.rows_eq hthere)) (Nat.le_refl _)
    rfl (fun other hne => by rw [Table.chainOf_withChain, if_neg hne]) ?_
  rw [Table.chainOf_withChain, if_pos rfl]
  have hshows := htable.chains txn.id row hothers
  rw [hchain] at hshows
  have hrecord : (Deed.mk txn.id (c.statement txn.id) tid row none).record? = none := rfl
  have hbegun : 0 < c.statement txn.id := by
    rw [shows.work.statement running]
    exact (ok.runs.txn running).begun
  have hmark := hshows.deletion hrecord hunmarked hbegun
  rw [shows.work.statement running] at hmark ⊢
  exact hmark

end Deeds

section Ending

variable {id : Int} {txn : Transaction} (shows : store.Shows work c) (ok : store.Ok work)
  (running : work id = some txn)
include shows ok running

/-- The deeds of a transaction that has committed are settled. -/
theorem Shows.committed {ended : Store} (hended : ended =
      (store.withLedger (store.ledger.commit id).1).publish (store.ledger.sequence + 1) txn.log)
    (attests : ended.ledger.Attests (c.tell (.committed id)))
    (worked : work'.Shows (c.tell (.committed id))) :
    ended.Shows work' (c.tell (.committed id)) := by
  obtain ⟨hledger, hsize, htables⟩ :=
    (store.withLedger (store.ledger.commit id).1).publish_spec (store.ledger.sequence + 1) txn.log
  rw [← hended] at hledger hsize htables
  refine ⟨shows.sound.tell _, attests, worked, fun {tid table} h => ?_,
    fun {other tid row} h => ?_⟩
  · rw [htables] at h
    obtain ⟨old, hold, rfl⟩ := Option.map_eq_some_iff.mp h
    rw [hledger, ← Work.log_eq running]
    exact (shows.tables hold).committed (ok.tables hold) ok.ledger shows.ledger shows.sound
      shows.work (ok.runs.running running)
  · rw [hsize]
    rw [Chronicle.writes_committed, Chronicle.settled_committed] at h
    split at h
    · rw [List.nil_append] at h
      exact shows.known h
    · by_cases hother : c.writes other tid row = []
      · rw [hother, List.nil_append] at h
        exact shows.known h
      · have hbefore : c.writes other tid row ++ c.settled tid row ≠ [] :=
          fun hnil => hother (List.append_eq_nil_iff.mp hnil).1
        exact shows.known hbefore

/-- Undone deeds are gone from the tables as from history. -/
theorem Shows.undone (few : store.ledger.lastId < 2 ^ 40) (whole : Bool)
    (attests : (store.undo id (txn.undoing whole)).ledger.Attests (c.tell (.undone id whole)))
    (worked : work'.Shows (c.tell (.undone id whole))) :
    (store.undo id (txn.undoing whole)).Shows work' (c.tell (.undone id whole)) := by
  have hfits : id < 2 ^ 40 :=
    Int.lt_of_le_of_lt (ok.ledger.active (ok.runs.running running)).2.1 few
  obtain ⟨hledger, hsize, htables⟩ := store.undo_spec id (txn.undoing whole)
  refine ⟨shows.sound.tell _, attests, worked, fun {tid table} h => ?_,
    fun {other tid row} h => ?_⟩
  · rw [htables] at h
    obtain ⟨old, hold, rfl⟩ := Option.map_eq_some_iff.mp h
    rw [hledger]
    exact (shows.tables hold).undone (ok.tables hold) ok.ledger ok.runs shows.work running hfits
      whole
  · rw [hsize]
    have hbefore : c.writes other tid row ++ c.settled tid row ≠ [] := by
      intro hnil
      obtain ⟨hwrites, hsettled⟩ := List.append_eq_nil_iff.mp hnil
      refine h (List.append_eq_nil_iff.mpr ⟨?_, hsettled⟩)
      rw [Chronicle.writes_undone]
      split
      · rename_i heq
        rw [← heq, hwrites]
        split <;> rfl
      · exact hwrites
    exact shows.known hbefore

end Ending

/-- A new table shows that nothing was done to it. -/
theorem Shows.added (shows : store.Shows work c) (ok : store.Ok work) (name : String)
    (schema : Schema) (config : Config) :
    (store.addTable (.create name schema config)).1.Shows work c := by
  refine ⟨shows.sound, shows.ledger, shows.work, fun {tid table} h => ?_,
    fun {id tid row} h => ?_⟩
  · rw [tables_addTable] at h
    split at h
    · rename_i heq
      cases h
      refine Table.shows_create _ _ _ _ _ _ fun id row => ?_
      by_contra hne
      exact absurd (shows.known hne) (by rw [heq]; exact Nat.lt_irrefl _)
    · exact shows.tables h
  · rw [size_addTable ok name schema config]
    exact Nat.lt_succ_of_lt (shows.known h)

/-- Every move shows. -/
theorem Move.shows (move : Move store work event store' work') (ok : store.Ok work)
    (few : store'.ledger.lastId < 2 ^ 40) (shows : store.Shows work c) :
    store'.Shows work' (c.tell event) := by
  have hsound := shows.sound.tell event
  have hattests := move.attests ok shows.ledger
  have hworked := move.shows_work ok shows.work
  have few' : store.ledger.lastId < 2 ^ 40 := Int.lt_of_le_of_lt (move.grows ok).lastId_le few
  cases move with
  | @began l id snapshot begin =>
    have grows := Ledger.grows_begin ok.ledger begin
    obtain ⟨_, rfl, rfl, rfl⟩ := Ledger.begin?_eq_some.mp begin
    refine shows.goes_on ok grows hsound hattests hworked (fun _ _ _ => rfl) (fun _ _ => rfl)
      (fun h => h) fun {other s'} hactive hne => ?_
    rw [Maps.get_insert] at hactive
    split at hactive
    · rename_i heq
      rw [heq] at hne
      exact absurd (shows.work.idle ok.idle_next) hne
    · exact ⟨s', Int.le_refl _, hactive⟩
  | @statement id txn running =>
    exact shows.goes_on ok (.refl _) hsound hattests hworked (fun _ _ _ => rfl) (fun _ _ => rfl)
      (fun h => h) fun h _ => ⟨_, Int.le_refl _, h⟩
  | @refreshed id txn running =>
    refine shows.goes_on ok (Ledger.grows_refresh id) hsound hattests hworked (fun _ _ _ => rfl)
      (fun _ _ => rfl) (fun h => h) fun {other s'} hactive _ => ?_
    rw [Ledger.active_refresh] at hactive
    split at hactive
    · obtain ⟨s, hs, rfl⟩ := Option.map_eq_some_iff.mp hactive
      exact ⟨s, (ok.ledger.active hs).2.2.2, hs⟩
    · exact ⟨s', Int.le_refl _, hactive⟩
  | @doomed id txn running =>
    exact shows.goes_on ok (.refl _) hsound hattests hworked (fun _ _ _ => rfl) (fun _ _ => rfl)
      (fun h => h) fun h _ => ⟨_, Int.le_refl _, h⟩
  | @refused tid table after here unchanged =>
    refine shows.setTable here hsound shows.ledger shows.work ((shows.tables here).same_chains
      ok.ledger unchanged.chainOf unchanged.nextHandle fun note h => ?_) (fun _ h => shows.tables h)
      (fun _ _ _ _ => rfl) (fun _ _ => rfl) ok
    rwa [unchanged.pendingDeletes] at h
  | @wrote id txn tid table after row record old? writes running sound here wrote writable =>
    have hid := ok.runs.id running
    subst hid
    exact shows.deed ok here hworked (shows.table_wrote ok here running wrote writable)
  | @marked id txn tid table row newest older running sound here hchain writable =>
    have hid := ok.runs.id running
    subst hid
    exact shows.deed ok here hworked (shows.table_marked ok here running hchain writable)
  | committed running => exact shows.committed ok running rfl hattests hworked
  | undone running whole => exact shows.undone ok running few' whole hattests hworked
  | @aborted id txn running blank =>
    refine shows.goes_on ok (Ledger.grows_abort ok.ledger (ok.runs.running running)) hsound hattests
      hworked (fun _ _ _ => rfl) (fun _ _ => rfl) (fun h => h) fun {other s'} hactive _ => ?_
    have herase : (store.ledger.abort id).active = store.ledger.active.erase id := rfl
    rw [herase, Maps.get_erase] at hactive
    split at hactive
    · cases hactive
    · exact ⟨s', Int.le_refl _, hactive⟩
  | @built tid table after spec filling here built =>
    refine shows.setTable here hsound shows.ledger shows.work ((shows.tables here).same_chains
      ok.ledger ?_ ?_ ?_) (fun _ h => shows.tables h) (fun _ _ _ _ => rfl) (fun _ _ => rfl) ok
    all_goals rw [built.eq]
    · exact fun _ => rfl
    · exact fun _ h => h
  | @reclaimed tid table here =>
    have hgrows := Ledger.grows_prune ok.ledger
    have hpruned : (store.withLedger store.ledger.prune.1).Shows work c :=
      shows.goes_on ok hgrows shows.sound (shows.ledger.pruned ok.ledger) shows.work
        (fun _ _ _ => rfl) (fun _ _ => rfl) (fun h => h) fun h _ => ⟨_, Int.le_refl _, h⟩
    obtain ⟨hreclaimed, _, _⟩ := (ok.tables here).reclaim ok.ledger ok.runs
    exact hpruned.setTable here hsound hpruned.ledger hpruned.work
      ((shows.tables here).reclaimed (ok.tables here) ok.ledger shows.ledger shows.work hreclaimed)
      (fun _ h => hpruned.tables h) (fun _ _ _ _ => rfl) (fun _ _ => rfl) ok.prune
  | admitted on =>
    exact shows.goes_on ok (Ledger.grows_accepting _ on) hsound hattests hworked (fun _ _ _ => rfl)
      (fun _ _ => rfl) (fun h => h) fun h _ => ⟨_, Int.le_refl _, h⟩
  | added name schema config => exact shows.added ok name schema config

theorem Moves.shows {events : List Event} (moves : Moves store work events store' work')
    (ok : store.Ok work) (few : store'.ledger.lastId < 2 ^ 40) (shows : store.Shows work c) :
    store'.Shows work' (events.foldl Chronicle.tell c) := by
  induction moves generalizing c with
  | refl => exact shows
  | step move rest ih =>
    have hok := move.ok ok
    have fewNext := Int.lt_of_le_of_lt (rest.grows hok).lastId_le few
    exact ih hok few (move.shows ok fewNext shows)

theorem shows_start : Store.Shows {} (fun _ => none) {} where
  sound := Chronicle.sound_new
  ledger := Ledger.attests_new
  work := ⟨fun h => (by cases h), fun _ => rfl, fun _ _ _ => .nil⟩
  tables h := by simp at h
  known h := absurd rfl h

end Store

/-! ## 3. Services -/

namespace Service

variable {service : Service} {work : Work} {history : List Event}

/-- Answering a request goes on with the history. -/
theorem Answered.shows {request : Request} {events : List Event} {work' : Work}
    (answered : Answered service work request events work') (ok : service.Ok work)
    (few : (service.handle request).1.store.ledger.lastId < 2 ^ 40)
    (shows : service.store.Shows work (.of history)) :
    (service.handle request).1.store.Shows work' (.of (history ++ service.happening request)) := by
  rw [Chronicle.of_append, happening, ← answered.told.loud, Chronicle.foldl_tell_loud]
  exact answered.moves.shows ok.store few shows

/-- A service that can be shows its history. -/
theorem Reached.shows (reached : Reached history service)
    (few : service.store.ledger.lastId < 2 ^ 40) :
    ∃ work, service.Ok work ∧ service.store.Shows work (.of history) := by
  induction reached with
  | start => exact ⟨_, ok_start, Store.shows_start⟩
  | added _ name schema config ih =>
    obtain ⟨work, ok, shows⟩ := ih few
    exact ⟨work, ok.withTable name schema config,
      (Store.Move.added name schema config).shows ok.store few shows⟩
  | @asked history service before request ih =>
    have hok := before.ok
    obtain ⟨work₀, ok₀⟩ := hok
    obtain ⟨_, _, answered₀⟩ := handle_moves ok₀ request
    obtain ⟨work, ok, shows⟩ :=
      ih (Int.lt_of_le_of_lt (answered₀.moves.grows ok₀.store).lastId_le few)
    obtain ⟨events, work', answered⟩ := handle_moves ok request
    exact ⟨work', answered.ok, answered.shows ok few shows⟩

end Service
end SnapshotStore
