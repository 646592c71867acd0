import Mathlib
import SnapshotStore.Proofs.Store.Ok

/-!
# The moves of a store

Whatever is asked of a store, what happens to it and to the transactions that run on it is one of a
few moves, or several in a row. A move says what has changed, in terms of what the operations were
shown to do, and bears an event: what the change means to somebody who knows nothing of versions,
entries and logs. An invariant of the store is looked at move by move, and `Move.ok` does so for
`Store.Ok`.
-/

namespace SnapshotStore

/-- What a move means. -/
inductive Event where
  | began (id : Int)
  /-- The transaction went on to its next statement. -/
  | statement (id : Int)
  /-- The transaction gave a row a record, or deleted it. -/
  | wrote (id : Int) (table : TableId) (row : RowHandle) (record? : Option Record)
  | committed (id : Int)
  /-- The writes of the current statement were undone, or those of the whole transaction. -/
  | undone (id : Int) (whole : Bool)
  | aborted (id : Int)
  /-- Nothing that a reader could tell has happened. If it is to a table that something was done, to give
  it an index or to reclaim it, this is the table. -/
  | quiet (tended : Option TableId := none)

namespace Event

/-- Nothing that a reader could tell has happened. -/
def isQuiet : Event → Bool
  | quiet _ => true
  | _ => false

end Event

namespace Transaction

/-- The writes that a rollback undoes, the last one first. -/
def undoing (txn : Transaction) (whole : Bool) : List LogEntry :=
  if whole then txn.log else txn.currentWrites

/-- The writes that a rollback leaves. -/
def remaining (txn : Transaction) (whole : Bool) : List LogEntry :=
  if whole then [] else txn.forgetStatement.log

theorem log_eq_undoing_append (txn : Transaction) (whole : Bool) :
    txn.log = txn.undoing whole ++ txn.remaining whole := by
  cases whole with
  | true => exact (List.append_nil _).symm
  | false => exact txn.log_eq_currentWrites_append

/-- A log stays in order with the writes of a new version. -/
theorem Ok.remember_wrote {l : Ledger} {txn : Transaction} (ok : txn.Ok) {table after : Table}
    {row : RowHandle} {record : Record} {old? : Option Record} {writes : List Write}
    (wrote : Table.Wrote l txn table row record old? after writes) (tid : TableId) :
    (txn.remember tid writes).Ok := by
  obtain ⟨more, rfl, hmore⟩ := wrote.made
  refine ok.remember tid (fun _ _ _ h => by cases h) fun w hw index key r hbound => ?_
  obtain ⟨_, _, _, _, _, ⟨hw, _⟩ | ⟨_, hw⟩⟩ := hmore w hw
  · rw [hw] at hbound
    cases hbound
    exact ⟨_, _, rfl⟩
  · rw [hw] at hbound
    cases hbound

theorem Ok.remaining_lt {txn : Transaction} (ok : txn.Ok) (whole : Bool) :
    ∀ e ∈ txn.undoing whole, ∀ e' ∈ txn.remaining whole, e'.statement < e.statement := by
  cases whole with
  | true =>
    intro e _ e' he'
    cases he'
  | false =>
    intro e he e' he'
    rw [statement_of_mem_currentWrites he]
    exact ok.statement_lt he'

end Transaction

namespace Store

/-- The store with another ledger. -/
def withLedger (store : Store) (ledger : Ledger) : Store := { store with ledger }

/-- One change of a store and of the transactions that run on it. -/
inductive Move (store : Store) (work : Work) : Event → Store → Work → Prop
  | began {l : Ledger} {id snapshot : Int} (begin : store.ledger.begin? = some (l, id, snapshot)) :
    Move store work (.began id) (store.withLedger l)
      (Function.update work id (some { id, snapshot }))
  | statement {id : Int} {txn : Transaction} (running : work id = some txn) :
    Move store work (.statement id) store (Function.update work id (some txn.nextStatement))
  | refreshed {id : Int} {txn : Transaction} (running : work id = some txn) :
    Move store work .quiet (store.withLedger (store.ledger.refresh id).1)
      (Function.update work id (some { txn with snapshot := store.ledger.sequence }))
  | doomed {id : Int} {txn : Transaction} (running : work id = some txn) :
    Move store work .quiet store (Function.update work id (some { txn with doomed := true }))
  | refused {tid : TableId} {table after : Table} (here : store.tables[tid]? = some table)
    (unchanged : table.Unchanged after) : Move store work .quiet (store.setTable tid after) work
  | wrote {id : Int} {txn : Transaction} {tid : TableId} {table after : Table} {row : RowHandle}
    {record : Record} {old? : Option Record} {writes : List Write} (running : work id = some txn)
    (sound : txn.doomed = false) (here : store.tables[tid]? = some table)
    (wrote : Table.Wrote store.ledger txn table row record old? after writes)
    (writable : ∀ newest older, table.chainOf row = newest :: older →
      newest.isWritable store.ledger txn.id txn.snapshot = true) :
    Move store work (.wrote id tid row (some record)) (store.setTable tid after)
      (Function.update work id (some (txn.remember tid writes)))
  | marked {id : Int} {txn : Transaction} {tid : TableId} {table : Table} {row : RowHandle}
    {newest : Version} {older : Chain} (running : work id = some txn)
    (sound : txn.doomed = false) (here : store.tables[tid]? = some table)
    (chain : table.chainOf row = newest :: older)
    (writable : newest.isWritable store.ledger txn.id txn.snapshot = true) :
    Move store work (.wrote id tid row none)
      (store.setTable tid (table.withChain row (newest.mark txn.stamp :: older)))
      (Function.update work id (some (txn.remember tid [.marked row newest.id])))
  | committed {id : Int} {txn : Transaction} (running : work id = some txn)
    (sound : txn.doomed = false) :
    Move store work (.committed id)
      ((store.withLedger (store.ledger.commit id).1).publish (store.ledger.sequence + 1) txn.log)
      (Function.update work id none)
  | undone {id : Int} {txn : Transaction} (running : work id = some txn) (whole : Bool) :
    Move store work (.undone id whole) (store.undo id (txn.undoing whole))
      (Function.update work id (some { txn with log := txn.remaining whole }))
  | aborted {id : Int} {txn : Transaction} (running : work id = some txn) (blank : txn.log = []) :
    Move store work (.aborted id) (store.withLedger (store.ledger.abort id))
      (Function.update work id none)
  | built {tid : TableId} {table after : Table} {spec : KeySpec} {filling : Table.Filling}
    (here : store.tables[tid]? = some table) (built : Table.Built table spec after filling) :
    Move store work (.quiet (some tid)) (store.setTable tid after) work
  | reclaimed {tid : TableId} {table : Table} (here : store.tables[tid]? = some table) :
    Move store work (.quiet (some tid))
      ((store.withLedger store.ledger.prune.1).setTable tid (table.reclaim store.ledger).1) work
  | admitted (on : Bool) :
    Move store work .quiet (store.withLedger { store.ledger with accepting := on }) work
  | added (name : String) (schema : Schema) (config : Config) :
    Move store work .quiet (store.addTable (.create name schema config)).1 work

/-! ## 1. What moves keep in order -/

section Ok

variable {store store' : Store} {work work' : Work} {event : Event}

/-- A store stays in order while its ledger goes on and the logs stay. -/
theorem Ok.goes_on (ok : store.Ok work) {l : Ledger} (lok : l.Ok) (runs : Work.Ok l work')
    (grows : Ledger.Grows store.ledger l) (hlog : ∀ id, work'.log id = work.log id) :
    (store.withLedger l).Ok work' where
  ledger := lok
  runs := runs
  tables h := (ok.tables h).grows grows ok.ledger hlog
  numbered := ok.numbered
  logged h := ok.logged (by rwa [hlog] at h)

/-- Forgetting keeps a store in order. -/
theorem Ok.prune (ok : store.Ok work) : (store.withLedger store.ledger.prune.1).Ok work :=
  ok.goes_on (Ledger.ok_prune ok.ledger) ⟨ok.runs.active, ok.runs.id, ok.runs.txn⟩
    (Ledger.grows_prune ok.ledger) fun _ => rfl

/-- Replacing a table by one in order. -/
theorem Ok.setTable (ok : store.Ok work) {tid : TableId} {table after : Table}
    (here : store.tables[tid]? = some table) (runs : Work.Ok store.ledger work')
    (hafter : Table.Ok store.ledger work' tid [] after)
    (hothers : ∀ {other : TableId} {t : Table}, other ≠ tid → store.tables[other]? = some t →
      Table.Ok store.ledger work' other [] t)
    (hlogged : ∀ {id : Int} {entry : LogEntry}, entry ∈ work'.log id →
      entry.table = tid ∨ entry ∈ work.log id) :
    (store.setTable tid after).Ok work' := by
  have hsize : (store.setTable tid after).tables.size = store.tables.size :=
    size_setTable store after (by rw [here]; rfl)
  refine ⟨ok.ledger, runs, fun {other t} ht => ?_, fun other => ?_, fun {id entry} h => ?_⟩
  · rw [tables_setTable] at ht
    split at ht
    · rename_i heq
      cases ht
      rw [heq]
      exact hafter
    · rename_i hne
      exact hothers hne ht
  · rw [hsize, tables_setTable, ← ok.numbered]
    split
    · rename_i heq
      rw [heq, here]
      exact Iff.rfl
    · exact Iff.rfl
  · rw [hsize]
    rcases hlogged h with heq | h
    · rw [heq, ← ok.numbered, here]
      rfl
    · exact ok.logged h

/-- The transactions stay in order when the ledger notes the snapshot of one of them. -/
theorem runs_set {l l' : Ledger} (runs : Work.Ok l work) {id : Int} {txn : Transaction}
    (hid : txn.id = id) (hok : txn.Ok) (hactive : ∀ other : Int, l'.active[other]? =
      if other = id then some txn.snapshot else l.active[other]?) :
    Work.Ok l' (Function.update work id (some txn)) := by
  refine ⟨fun other => ?_, fun {other t} h => ?_, fun {other t} h => ?_⟩
  · rw [hactive, Function.update_apply]
    split
    · rfl
    · exact runs.active other
  · rw [Function.update_apply] at h
    split at h
    · rename_i heq
      cases h
      exact hid.trans heq.symm
    · exact runs.id h
  · rw [Function.update_apply] at h
    split at h
    · cases h
      exact hok
    · exact runs.txn h

/-- The transactions stay in order when one of them changes under the same snapshot. -/
theorem runs_update {l : Ledger} (runs : Work.Ok l work) {id : Int} {txn txn' : Transaction}
    (running : work id = some txn) (hid : txn'.id = txn.id) (hsnapshot : txn'.snapshot = txn.snapshot)
    (hok : txn'.Ok) : Work.Ok l (Function.update work id (some txn')) := by
  refine runs_set runs (hid.trans (runs.id running)) hok fun other => ?_
  split
  · rename_i heq
    rw [heq, runs.running running, hsnapshot]
  · rfl

theorem runs_ended {l l' : Ledger} (runs : Work.Ok l work) {id : Int}
    (hactive : l'.active = l.active.erase id) : Work.Ok l' (Function.update work id none) := by
  refine ⟨fun other => ?_, fun {other t} h => ?_, fun {other t} h => ?_⟩
  · rw [hactive, Maps.get_erase, Function.update_apply]
    split
    · rfl
    · exact runs.active other
  · rw [Function.update_apply] at h
    split at h
    · cases h
    · exact runs.id h
  · rw [Function.update_apply] at h
    split at h
    · cases h
    · exact runs.txn h

/-- Nobody runs under the next id. -/
theorem Ok.idle_next (ok : store.Ok work) : work (store.ledger.lastId + 1) = none := by
  have hnone := (Ledger.fresh ok.ledger (Int.lt_succ store.ledger.lastId)).1
  rw [ok.runs.active] at hnone
  exact Option.map_eq_none_iff.mp hnone

theorem size_addTable (ok : store.Ok work) (name : String) (schema : Schema) (config : Config) :
    (store.addTable (.create name schema config)).1.tables.size = store.tables.size + 1 := by
  have hnew : store.tables.size ∉ store.tables := by
    rw [Std.ExtTreeMap.mem_iff_isSome_getElem?, ok.numbered]
    exact Nat.lt_irrefl _
  exact Std.ExtTreeMap.size_insert.trans (if_neg hnew)

theorem tables_addTable (table : Table) (tid : TableId) : (store.addTable table).1.tables[tid]? =
    if tid = store.tables.size then some table else store.tables[tid]? :=
  Maps.get_insert _ _ _ _

/-- A new table has the next number, which no log has mentioned yet. -/
theorem Ok.added (ok : store.Ok work) (name : String) (schema : Schema) (config : Config) :
    (store.addTable (.create name schema config)).1.Ok work := by
  have hsize := size_addTable ok name schema config
  refine ⟨ok.ledger, ok.runs, fun {tid table} h => ?_, fun tid => ?_, fun h => ?_⟩
  · rw [tables_addTable] at h
    split at h
    · rename_i heq
      cases h
      refine Table.ok_create _ _ _ _ _ _ fun id entry hentry heq' => ?_
      have hlt := ok.logged hentry
      rw [heq', heq] at hlt
      exact absurd hlt (Nat.lt_irrefl _)
    · exact ok.tables h
  · rw [tables_addTable, hsize, Nat.lt_succ_iff_lt_or_eq, ← ok.numbered]
    split
    · rename_i heq
      simp [heq]
    · rename_i hne
      simp [hne]
  · rw [hsize]
    exact Nat.lt_succ_of_lt (ok.logged h)

section Running

variable {id : Int} {txn : Transaction} (ok : store.Ok work) (running : work id = some txn)
include ok running

/-- A running transaction has written to one of the tables. -/
theorem Ok.remembered {tid : TableId} {table after : Table} {writes : List Write}
    (here : store.tables[tid]? = some table) (hok : (txn.remember tid writes).Ok)
    (hafter : Table.Ok store.ledger
      (Function.update work id (some (txn.remember tid writes))) tid [] after) :
    (store.setTable tid after).Ok (Function.update work id (some (txn.remember tid writes))) := by
  refine ok.setTable here (runs_update ok.runs running rfl rfl hok) hafter
    (fun hne h => (ok.tables h).remember_elsewhere (Ne.symm hne) running writes) fun h => ?_
  rcases (Table.mem_log_remembering running).mp h with ⟨_, write, _, rfl⟩ | h
  · exact Or.inl rfl
  · exact Or.inr h

theorem Ok.committed : ((store.withLedger (store.ledger.commit id).1).publish
    (store.ledger.sequence + 1) txn.log).Ok (Function.update work id none) := by
  have hrunning := ok.runs.running running
  obtain ⟨hledger, hsize, htables⟩ :=
    (store.withLedger (store.ledger.commit id).1).publish_spec (store.ledger.sequence + 1) txn.log
  refine ⟨?_, ?_, fun {tid table} h => ?_, fun tid => ?_, fun {other entry} h => ?_⟩
  · rw [hledger]
    exact Ledger.ok_commit ok.ledger hrunning
  · rw [hledger]
    exact runs_ended ok.runs rfl
  · rw [htables] at h
    obtain ⟨old, hold, rfl⟩ := Option.map_eq_some_iff.mp h
    rw [hledger, ← Work.log_eq running]
    exact (ok.tables hold).commit ok.ledger ⟨_, hrunning⟩
  · rw [htables, hsize, Option.isSome_map]
    exact ok.numbered tid
  · rw [hsize]
    rw [Work.log_update] at h
    split at h
    · cases h
    · exact ok.logged h

theorem Ok.undone (whole : Bool) : (store.undo id (txn.undoing whole)).Ok
    (Function.update work id (some { txn with log := txn.remaining whole })) := by
  have hok := ok.runs.txn running
  have hlog := (Work.log_eq running).trans (txn.log_eq_undoing_append whole)
  obtain ⟨hledger, hsize, htables⟩ := store.undo_spec id (txn.undoing whole)
  refine ⟨?_, ?_, fun {tid table} h => ?_, fun tid => ?_, fun {other entry} h => ?_⟩
  · rw [hledger]
    exact ok.ledger
  · rw [hledger]
    exact runs_update ok.runs running rfl rfl (hok.earlier (txn.log_eq_undoing_append whole))
  · rw [htables] at h
    obtain ⟨old, hold, rfl⟩ := Option.map_eq_some_iff.mp h
    rw [hledger]
    exact Table.Ok.undoLog ok.ledger ⟨_, ok.runs.running running⟩ txn (ok.runs.backed id) hlog
      (hok.remaining_lt whole) ((ok.tables hold).excuse _)
  · rw [htables, hsize, Option.isSome_map]
    exact ok.numbered tid
  · rw [hsize]
    rw [Work.log_update] at h
    split at h
    · rename_i heq
      have hin : entry ∈ work.log other := by
        rw [heq, hlog]
        exact List.mem_append_right _ h
      exact ok.logged hin
    · exact ok.logged h

end Running

/-- The moves keep a store in order. -/
theorem Move.ok (move : Move store work event store' work') (ok : store.Ok work) :
    store'.Ok work' := by
  cases move with
  | @began l id snapshot hbegin =>
    have lok := Ledger.ok_begin ok.ledger hbegin
    have hgrows := Ledger.grows_begin ok.ledger hbegin
    obtain ⟨_, rfl, rfl, rfl⟩ := Ledger.begin?_eq_some.mp hbegin
    refine ok.goes_on lok (runs_set ok.runs rfl (Transaction.ok_begin _ _) fun other => ?_) hgrows
      (Work.log_update_same ?_)
    · rw [Maps.get_insert]
    · rw [Work.log, ok.idle_next]
      rfl
  | @statement id txn running =>
    exact ok.goes_on (l := store.ledger) ok.ledger (runs_update ok.runs running rfl rfl
      (ok.runs.txn running).nextStatement) (.refl _)
      (Work.log_update_same (Work.log_eq running).symm)
  | @refreshed id txn running =>
    have hrunning := ok.runs.running running
    have hok := ok.runs.txn running
    have hid : txn.id = id := ok.runs.id running
    refine ok.goes_on (Ledger.ok_refresh ok.ledger id) (runs_set ok.runs hid
      ⟨hok.begun, hok.short, hok.positive, hok.upTo, hok.sorted, hok.backed⟩ fun other => ?_)
      (Ledger.grows_refresh id) (Work.log_update_same (Work.log_eq running).symm)
    rw [Ledger.active_refresh]
    split
    · rename_i heq
      rw [heq, hrunning]
      rfl
    · rfl
  | @doomed id txn running =>
    have hok := ok.runs.txn running
    exact ok.goes_on (l := store.ledger) ok.ledger (runs_update ok.runs running rfl rfl
      ⟨hok.begun, hok.short, hok.positive, hok.upTo, hok.sorted, hok.backed⟩) (.refl _)
      (Work.log_update_same (Work.log_eq running).symm)
  | refused here unchanged =>
    exact ok.setTable here ok.runs ((ok.tables here).of_unchanged unchanged)
      (fun _ h => ok.tables h) Or.inr
  | @wrote id txn tid table after row record old? writes running sound here wrote writable =>
    exact ok.remembered running here ((ok.runs.txn running).remember_wrote wrote tid)
      ((ok.tables here).of_wrote wrote ok.ledger ok.runs running writable)
  | @marked id txn tid table row newest older running sound here hchain writable =>
    have hremember : (txn.remember tid [.marked row newest.id]).Ok :=
      (ok.runs.txn running).remember tid (fun _ _ _ h => by cases h) fun w hw => by cases hw
    exact ok.remembered running here hremember
      ((ok.tables here).of_marked hchain ok.ledger ok.runs running writable)
  | committed running => exact ok.committed running
  | undone running whole => exact ok.undone running whole
  | @aborted id txn running blank =>
    have hrunning := ok.runs.running running
    refine ok.goes_on (Ledger.ok_abort ok.ledger hrunning) (runs_ended ok.runs rfl)
      (Ledger.grows_abort ok.ledger hrunning) (Work.log_update_same ?_)
    rw [Work.log_eq running, blank]
    rfl
  | built here built =>
    exact ok.setTable here ok.runs ((ok.tables here).built built) (fun _ h => ok.tables h) Or.inr
  | @reclaimed tid table here =>
    obtain ⟨_, _, hafter⟩ := (ok.tables here).reclaim ok.ledger ok.runs
    exact ok.prune.setTable here ok.prune.runs hafter (fun _ h => ok.prune.tables h) Or.inr
  | admitted on =>
    exact ok.goes_on (Ledger.ok_accepting ok.ledger on) ⟨ok.runs.active, ok.runs.id, ok.runs.txn⟩
      (Ledger.grows_accepting _ on) fun _ => rfl
  | added name schema config => exact ok.added name schema config

/-- No move takes back what the ledger knows. -/
theorem Move.grows (move : Move store work event store' work') (ok : store.Ok work) :
    Ledger.Grows store.ledger store'.ledger := by
  cases move with
  | began begin => exact Ledger.grows_begin ok.ledger begin
  | @refreshed id txn running => exact Ledger.grows_refresh id
  | @committed id txn running sound =>
    rw [(publish_spec _ (store.ledger.sequence + 1) txn.log).1]
    exact Ledger.grows_commit ok.ledger (ok.runs.running running)
  | @undone id txn running whole =>
    rw [(store.undo_spec id (txn.undoing whole)).1]
    exact .refl _
  | aborted running blank => exact Ledger.grows_abort ok.ledger (ok.runs.running running)
  | reclaimed here => exact Ledger.grows_prune ok.ledger
  | admitted on => exact Ledger.grows_accepting _ on
  | statement | doomed | refused | wrote | marked | built | added => exact .refl _

end Ok

/-! ## 2. Reclaiming one table -/

section Reclaiming

variable {store : Store} {work : Work} {tid : TableId}

theorem reclaimTable_of_absent (h : store.tables[tid]? = none) :
    store.reclaimTable tid = (store, {}) := by
  rw [reclaimTable, h]

theorem reclaimTable_eq {table : Table} (here : store.tables[tid]? = some table) :
    store.reclaimTable tid =
      ((store.withLedger store.ledger.prune.1).setTable tid (table.reclaim store.ledger).1,
        (table.reclaim store.ledger).2.2) := by
  rw [reclaimTable, here]
  rfl

/-- Reclaiming a table keeps a store in order. -/
theorem Ok.reclaimTable (ok : store.Ok work) (tid : TableId) :
    (store.reclaimTable tid).1.Ok work := by
  cases here : store.tables[tid]? with
  | none =>
    rw [reclaimTable_of_absent here]
    exact ok
  | some table =>
    rw [reclaimTable_eq here]
    exact (Move.reclaimed here).ok ok

end Reclaiming

end Store
end SnapshotStore
