import Mathlib
import SnapshotStore.Proofs.History.Store
import SnapshotStore.Proofs.Store.Extends

/-!
# The last commit is on top

Take what its running writer has done to a row off its chain. If the version that comes to light bears
no mark, it is of the transaction that was the last to commit a write to the row (`Chain.Latest`). Who
may write over the row knows that transaction, and so it knows all commits that wrote to the row
(`Store.Reflects.known`).

A store that shows its history (`Store.Shows`) says more than that, but only while the numbers of
transactions stay below 2^40. Here they need not: a mark that stays behind when its writer is undone
keeps everybody from writing to the row, so nothing is claimed of rows whose newest version is marked.
-/

namespace SnapshotStore

open Chain

namespace Chain

variable {l : Ledger} {c c' : Chronicle} {tid : TableId} {row : RowHandle} {id : Int}
  {log : List LogEntry} {v : Version} {chain older : Chain}

/-! ## 1. Chains -/

theorem undoLog_nil (id : Int) (log : List LogEntry) : undoLog id log [] = [] := by
  induction log with
  | nil => rfl
  | cons entry log ih =>
    show undoLog id log (Chain.undo id entry.write []) = []
    rw [undo_nil]
    exact ih

theorem undoLog_append (id : Int) (later earlier : List LogEntry) (chain : Chain) :
    undoLog id (later ++ earlier) chain = undoLog id earlier (undoLog id later chain) :=
  List.foldl_append

/-- An unmarked newest version is of a committed transaction, and nobody has committed a write to the
row since. -/
def Latest (c : Chronicle) (tid : TableId) (row : RowHandle) (chain : Chain) : Prop :=
  ∀ newest older, chain = newest :: older → newest.isMarked = false →
    ∃ s, c.CommittedAt newest.created.transaction s ∧
      ∀ deed ∈ c.settled tid row, ∃ s' ≤ s, c.CommittedAt deed.transaction s'

theorem latest_nil : Latest c tid row [] := by
  intro newest older h
  cases h

theorem latest_of_marked (h : v.isMarked = true) : Latest c tid row (v :: older) := by
  intro newest rest heq hunmarked
  rw [← (List.cons.inj heq).1, h] at hunmarked
  cases hunmarked

theorem Latest.mono (latest : Latest c tid row chain) (hsettled : c'.settled tid row = c.settled tid row)
    (hcommitted : ∀ {id s : Int}, c.CommittedAt id s → c'.CommittedAt id s) :
    Latest c' tid row chain := by
  intro newest older heq hunmarked
  obtain ⟨s, hs, hall⟩ := latest newest older heq hunmarked
  refine ⟨s, hcommitted hs, fun deed hdeed => ?_⟩
  rw [hsettled] at hdeed
  obtain ⟨s', hle, hs'⟩ := hall deed hdeed
  exact ⟨s', hle, hcommitted hs'⟩

/-- A mark that the log knows nothing of makes no difference. -/
theorem Latest.remark (latest : Latest c tid row (undoLog id log (v :: older)))
    (layered : Layered l id log (v :: older)) (hv : v.isMarked = false) {statement : Nat}
    (hpos : 0 < statement) :
    Latest c tid row (undoLog id log (v.mark (.of id statement) :: older)) := by
  cases log with
  | nil => exact latest_of_marked (Version.isMarked_mark hpos)
  | cons entry log =>
    obtain ⟨s, table, write⟩ := entry
    cases write with
    | created touched version isNewRow =>
      obtain ⟨w, rest, heq, hid, _, hnew, _⟩ := layered_created.mp layered
      obtain ⟨rfl, rfl⟩ := List.cons.inj heq
      have hbelow : ∀ u : Version, u.id = version →
          undoLog id (⟨s, table, .created touched version isNewRow⟩ :: log) (u :: older) =
            undoLog id log older := by
        intro u hu
        exact congrArg (undoLog id log) (undo_created hu hnew)
      rw [hbelow _ (by rw [Version.id_mark, hid])]
      rwa [hbelow v hid] at latest
    | marked touched version =>
      obtain ⟨w, _, heq, _, _, hpos', _⟩ := layered_marked.mp layered
      rw [(List.cons.inj heq).1, Version.isMarked_mark hpos'] at hv
      cases hv
    | bound => exact layered.elim
    | outdated => exact layered.elim

/-- A copy of the newest version is as good. -/
theorem Latest.copy (latest : Latest c tid row (v :: older)) : Latest c tid row [v.copy] := by
  intro newest rest heq hunmarked
  obtain ⟨rfl, _⟩ := List.cons.inj heq
  exact latest v older rfl hunmarked

end Chain

/-! ## 2. Tables -/

namespace Table

variable {l : Ledger} {work work' : Work} {c c' : Chronicle} {tid : TableId} {table after : Table}
  {id : Int} {row : RowHandle} {txn txn' : Transaction}

/-- The chain of a row without what a running transaction has done to it. -/
def ground (table : Table) (work : Work) (tid : TableId) (id : Int) (row : RowHandle) : Chain :=
  Chain.undoLog id (rowLog tid row (work.log id)) (table.chainOf row)

/-- Below what its writer has done to a row lies the last commit to it. -/
def Grounded (work : Work) (c : Chronicle) (tid : TableId) (table : Table) : Prop :=
  ∀ (id : Int) (row : RowHandle), (∀ other, other ≠ id → rowLog tid row (work.log other) = []) →
    Latest c tid row (table.ground work tid id row)

theorem grounded_create (name : String) (schema : Schema) (config : Config) :
    Grounded work c tid (create name schema config) := by
  intro id row _
  have hchain : (create name schema config).chainOf row = [] := by simp [create, chainOf]
  rw [ground, hchain, Chain.undoLog_nil]
  exact latest_nil

/-- Nothing changes while the chains, the logs and the commits to the rows stay. -/
theorem Grounded.goes_on (grounded : table.Grounded work c tid)
    (hlog : ∀ id row, rowLog tid row (work'.log id) = rowLog tid row (work.log id))
    (hchains : ∀ row, after.chainOf row = table.chainOf row)
    (hsettled : ∀ row, c'.settled tid row = c.settled tid row)
    (hcommitted : ∀ {id s : Int}, c.CommittedAt id s → c'.CommittedAt id s) :
    after.Grounded work' c' tid := by
  intro id row hothers
  have hground : after.ground work' tid id row = table.ground work tid id row := by
    rw [ground, ground, hlog, hchains]
  rw [hground]
  refine (grounded _ row fun other hne => ?_).mono (hsettled row) hcommitted
  rw [← hlog]
  exact hothers other hne

/-- A write to one row, on top of what its writer did before. -/
theorem Grounded.deed (grounded : table.Grounded work c tid) (running : work id = some txn)
    {entry : LogEntry} (hlog : ∀ r, rowLog tid r txn'.log =
      if r = row then entry :: rowLog tid r txn.log else rowLog tid r txn.log)
    (helsewhere : ∀ r, r ≠ row → after.chainOf r = table.chainOf r) (record? : Option Record)
    (hhere : Latest c tid row (Chain.undoLog id (entry :: rowLog tid row (work.log id))
      (after.chainOf row))) :
    after.Grounded (Function.update work id (some txn')) (c.tell (.wrote id tid row record?)) tid := by
  have hnow : ∀ r other, rowLog tid r (Work.log (Function.update work id (some txn')) other) =
      if other = id ∧ r = row then entry :: rowLog tid row (work.log id)
      else rowLog tid r (work.log other) := rowLog_update running hlog
  intro other r hothers
  have hsame : (c.tell (.wrote id tid row record?)).settled tid r = c.settled tid r := rfl
  by_cases hrow : r = row
  · subst hrow
    by_cases hid : other = id
    · subst hid
      rw [ground, hnow, if_pos ⟨rfl, rfl⟩]
      exact hhere.mono hsame fun h => h
    · -- The writer has touched the row, so it is the one that is meant.
      have hnone := hothers id (Ne.symm hid)
      rw [hnow, if_pos ⟨rfl, rfl⟩] at hnone
      cases hnone
  · rw [ground, hnow, if_neg fun h => hrow h.2, helsewhere r hrow]
    refine (grounded other r fun writer hne => ?_).mono hsame fun h => h
    have hnone := hothers writer hne
    rwa [hnow, if_neg fun h => hrow h.2] at hnone

/-- A write to another table. -/
theorem Grounded.deed_elsewhere (grounded : table.Grounded work c tid) (running : work id = some txn)
    {other : TableId} (hne : tid ≠ other) (writes : List Write) (record? : Option Record) :
    table.Grounded (Function.update work id (some (txn.remember other writes)))
      (c.tell (.wrote id other row record?)) tid := by
  refine grounded.goes_on (fun writer r => ?_) (fun _ => rfl) (fun _ => rfl) fun h => h
  rw [Work.log_update]
  split
  · rename_i heq
    rw [heq, Work.log_eq running]
    exact rowLog_remember_elsewhere hne writes r
  · rfl

/-- A new version on top. -/
theorem Grounded.wrote (grounded : table.Grounded work c tid) (running : work id = some txn)
    {record : Record} {old? : Option Record} {writes : List Write}
    (wrote : Wrote l txn table row record old? after writes)
    (hothers : ∀ other, other ≠ id → rowLog tid row (work.log other) = []) :
    after.Grounded (Function.update work id (some (txn.remember tid writes)))
      (c.tell (.wrote id tid row (some record))) tid := by
  refine grounded.deed running (wrote.rowLog tid)
    (fun r hne => by rw [wrote.chainOf, if_neg hne]) (some record) ?_
  rw [wrote.chainOf, if_pos rfl]
  have hoff : Chain.undo id (.created row (table.newVersion txn record).id
      (table.chainOf row).isEmpty) (table.newVersion txn record :: table.chainOf row) =
        table.chainOf row := undo_created rfl List.isEmpty_iff
  show Latest c tid row (Chain.undoLog id _ (Chain.undo id _ _))
  rw [hoff]
  exact grounded id row hothers

/-- A mark on the newest version. -/
theorem Grounded.marked (grounded : table.Grounded work c tid) (running : work id = some txn)
    {newest : Version} {older : Chain} (hchain : table.chainOf row = newest :: older)
    (hunmarked : newest.isMarked = false) (tidy : Tidy (table.chainOf row)) (begun : 0 < txn.statement)
    (hid : txn.id = id) (layered : Layered l id (rowLog tid row (work.log id)) (table.chainOf row))
    (hothers : ∀ other, other ≠ id → rowLog tid row (work.log other) = []) :
    (table.withChain row (newest.mark txn.stamp :: older)).Grounded
      (Function.update work id (some (txn.remember tid [.marked row newest.id])))
      (c.tell (.wrote id tid row none)) tid := by
  have helsewhere : ∀ r, r ≠ row →
      (table.withChain row (newest.mark txn.stamp :: older)).chainOf r = table.chainOf r := by
    intro r hne
    rw [chainOf_withChain, if_neg hne]
  refine grounded.deed running rowLog_remember_marked helsewhere none ?_
  rw [chainOf_withChain, if_pos rfl]
  have hbelow := grounded id row hothers
  rw [ground, hchain] at hbelow
  rw [hchain] at layered tidy
  have hstamp : txn.stamp = .of id txn.statement := by rw [← hid]; rfl
  have htidy : Tidy (newest.mark txn.stamp :: older) := by
    refine ⟨tidy.unmarked, ?_⟩
    have hdistinct := tidy.distinct
    rwa [List.map_cons, ← Version.id_mark newest txn.stamp] at hdistinct
  show Latest c tid row (Chain.undoLog id _ (Chain.undo id _ _))
  rw [undo_marked htidy rfl]
  rcases Version.unmark_mark hunmarked txn.stamp id with hback | hstays
  · rw [hback]
    exact hbelow
  · rw [hstays, hstamp]
    exact hbelow.remark layered hunmarked begun

/-- A rollback takes off what lies above the ground. -/
theorem Grounded.undone (grounded : table.Grounded work c tid) (ok : Ok l work tid [] table)
    (running : work id = some txn) (whole : Bool) :
    (table.undoLog tid id (txn.undoing whole)).Grounded
      (Function.update work id (some { txn with log := txn.remaining whole }))
      (c.tell (.undone id whole)) tid := by
  have hlog : ∀ row, rowLog tid row (work.log id) =
      rowLog tid row (txn.undoing whole) ++ rowLog tid row (txn.remaining whole) := by
    intro row
    rw [Work.log_eq running, ← rowLog_append, ← txn.log_eq_undoing_append whole]
  have hnow : ∀ row other, rowLog tid row (Work.log (Function.update work id
      (some { txn with log := txn.remaining whole })) other) =
        if other = id then rowLog tid row (txn.remaining whole) else rowLog tid row (work.log other) := by
    intro row other
    rw [Work.log_update]
    split <;> rfl
  intro other row hothers
  have hsame : (c.tell (.undone id whole)).settled tid row = c.settled tid row := rfl
  -- Whoever is meant, what is left of the chain without the rest of its log is the same ground.
  suffices hground : ∃ writer, (∀ o, o ≠ writer → rowLog tid row (work.log o) = []) ∧
      (table.undoLog tid id (txn.undoing whole)).ground (Function.update work id
        (some { txn with log := txn.remaining whole })) tid other row =
          table.ground work tid writer row by
    obtain ⟨writer, hwriter, heq⟩ := hground
    rw [heq]
    exact (grounded writer row hwriter).mono hsame fun h => h
  rw [ground, hnow, chainOf_undoLog]
  by_cases huntouched : rowLog tid row (work.log id) = []
  · have hparts := huntouched
    rw [hlog, List.append_eq_nil_iff] at hparts
    refine ⟨other, fun o hne => ?_, ?_⟩
    · by_cases hid : o = id
      · rw [hid]
        exact huntouched
      · have hnone := hothers o hne
        rwa [hnow, if_neg hid] at hnone
    · rw [hparts.1]
      by_cases hid : other = id
      · rw [if_pos hid, hparts.2, ground, hid, huntouched]
        rfl
      · rw [if_neg hid]
        rfl
  · obtain ⟨_, hfree⟩ := ok.layered huntouched
    refine ⟨id, hfree, ?_⟩
    rw [ground, hlog, Chain.undoLog_append]
    by_cases hid : other = id
    · rw [if_pos hid, hid]
    · have hnone := hothers id (Ne.symm hid)
      rw [hnow, if_pos rfl] at hnone
      rw [if_neg hid, hfree other hid, hnone]
      rfl

/-- A commit is the last one to the rows that it wrote to. -/
theorem Grounded.committed (grounded : table.Grounded work c tid) (ok : Ok l work tid [] table)
    (sound : c.Sound) (worked : work.Shows c) (id : Int) :
    (table.publishLog tid (l.sequence + 1) (work.log id)).Grounded (Function.update work id none)
      (c.tell (.committed id)) tid := by
  obtain ⟨deletes, outdated, htable, _, _⟩ := publishLog_spec tid (l.sequence + 1) (work.log id) table
  have hchain : ∀ row, (table.publishLog tid (l.sequence + 1) (work.log id)).chainOf row =
      table.chainOf row := by
    intro row
    rw [htable]
    rfl
  have hnow : ∀ row other, rowLog tid row (Work.log (Function.update work id none) other) =
      if other = id then [] else rowLog tid row (work.log other) := by
    intro row other
    rw [Work.log_update]
    split <;> rfl
  have hafter := Chronicle.Sound.tell sound (.committed id)
  intro other row hothers
  by_cases huntouched : rowLog tid row (work.log id) = []
  · have hsame : ∀ o, rowLog tid row (Work.log (Function.update work id none) o) =
        rowLog tid row (work.log o) := by
      intro o
      rw [hnow]
      split
      · rename_i heq
        rw [heq, huntouched]
      · rfl
    have hsettled : (c.tell (.committed id)).settled tid row = c.settled tid row := by
      rw [Chronicle.settled_committed, (worked.logged id tid row).eq_nil.mp huntouched,
        List.nil_append]
    rw [ground, hsame, hchain]
    refine (grounded _ row fun o hne => ?_).mono hsettled
      fun h => Chronicle.committedAt_committed.mpr (Or.inr h)
    rw [← hsame]
    exact hothers o hne
  · -- The row was the transaction's own, so what is on top is of this commit.
    obtain ⟨hlayered, hfree⟩ := ok.layered huntouched
    have hnone : rowLog tid row (Work.log (Function.update work id none) other) = [] := by
      rw [hnow]
      split
      · rfl
      · rename_i hne
        exact hfree other hne
    rw [ground, hnone, hchain]
    intro newest older heq hunmarked
    rw [show Chain.undoLog other [] (table.chainOf row) = table.chainOf row from rfl] at heq
    rw [heq] at hlayered
    rcases Layered.top hlayered huntouched with hmarked | hown
    · rw [hunmarked] at hmarked
      cases hmarked
    · refine ⟨c.sequence + 1, Chronicle.committedAt_committed.mpr (Or.inl ⟨hown, rfl⟩), ?_⟩
      intro deed hdeed
      obtain ⟨s, hs⟩ := Chronicle.committedAt_of_mem_settled hafter hdeed
      exact ⟨s, hs.le_sequence hafter, hs⟩

/-- Reclamation leaves the newest version of a row, or nothing. -/
theorem Grounded.reclaimed (grounded : table.Grounded work c tid) (ok : Ok l work tid [] table)
    (lok : l.Ok) (wok : Work.Ok l work) (h : Reclaimed l table after) :
    after.Grounded work c tid := by
  intro id row hothers
  have hbefore := grounded id row hothers
  rw [ground, h.chainOf]
  split
  · rw [Chain.undoLog_nil]
    exact latest_nil
  · rcases truncated_cases table l l.horizon (table.chainOf row) with
      heq | ⟨newest, older, hrow, hunmarked, hsettled, heq⟩
    · rw [heq]
      exact hbefore
    · -- Nobody who runs has touched a row that everybody sees.
      have huntouched : rowLog tid row (work.log id) = [] := by
        by_contra htouched
        obtain ⟨hlayered, _⟩ := ok.layered htouched
        rw [hrow] at hlayered
        rcases Layered.top hlayered htouched with hmarked | hown
        · rw [hunmarked] at hmarked
          cases hmarked
        · obtain ⟨s, hs⟩ := wok.running_of_rowLog htouched
          rw [hown] at hsettled
          have hcommitted := Ledger.isCommitted_of_committedBy hsettled
          rw [Ledger.not_isCommitted_of_active lok hs] at hcommitted
          cases hcommitted
      rw [ground, huntouched, hrow] at hbefore
      rw [heq, huntouched]
      exact hbefore.copy

end Table

/-! ## 3. Stores -/

namespace Chronicle

variable {c : Chronicle} {tid : TableId} {row : RowHandle} {event : Event}

/-- Somebody's write to the row is pending or has been committed. -/
def Touched (c : Chronicle) (tid : TableId) (row : RowHandle) : Prop :=
  ∃ id, c.writes id tid row ++ c.settled tid row ≠ []

/-- Only a write makes a row one that has been written to. -/
theorem touched_tell (h : (c.tell event).Touched tid row) :
    c.Touched tid row ∨ ∃ id record?, event = .wrote id tid row record? := by
  obtain ⟨other, hne⟩ := h
  cases event with
  | began | statement | aborted | quiet => exact Or.inl ⟨other, hne⟩
  | wrote id t r record? =>
    rw [writes_wrote] at hne
    split at hne
    · rename_i heq
      obtain ⟨_, rfl, rfl⟩ := heq
      exact Or.inr ⟨id, record?, rfl⟩
    · exact Or.inl ⟨other, hne⟩
  | committed id =>
    left
    rw [writes_committed, settled_committed] at hne
    by_cases hwrites : c.writes id tid row = []
    · rw [hwrites, List.nil_append] at hne
      refine ⟨other, fun hnil => hne ?_⟩
      rw [List.append_eq_nil_iff] at hnil ⊢
      exact ⟨by rw [hnil.1]; exact ite_self _, hnil.2⟩
    · exact ⟨id, fun hnil => hwrites (List.append_eq_nil_iff.mp hnil).1⟩
  | undone id whole =>
    left
    rw [writes_undone] at hne
    refine ⟨other, fun hnil => hne ?_⟩
    rw [List.append_eq_nil_iff] at hnil ⊢
    refine ⟨?_, hnil.2⟩
    split
    · rename_i heq
      rw [← heq, hnil.1]
      split <;> rfl
    · exact hnil.1

end Chronicle

namespace Store

variable {store store' : Store} {work work' : Work} {c : Chronicle} {event : Event}

/-- The store reflects its history, as far as it matters to writers. -/
structure Reflects (store : Store) (work : Work) (c : Chronicle) : Prop where
  sound : c.Sound
  ledger : store.ledger.Attests c
  /-- Rows that have been written to have been given their handles. -/
  placed : ∀ {tid : TableId} {row : RowHandle}, c.Touched tid row →
    ∃ table, store.tables[tid]? = some table ∧ row.val < table.nextHandle
  grounded : ∀ {tid : TableId} {table : Table}, store.tables[tid]? = some table →
    table.Grounded work c tid
  work : work.Shows c

theorem reflects_start : Store.Reflects {} (fun _ => none) {} where
  sound := Chronicle.sound_new
  ledger := Ledger.attests_new
  placed h := by
    obtain ⟨_, hne⟩ := h
    exact absurd rfl hne
  grounded h := by simp at h
  work := ⟨fun h => (by cases h), fun _ => rfl, fun _ _ _ => .nil⟩

/-- A write is made to a row that has its handle. -/
theorem Move.places {id : Int} {tid : TableId} {row : RowHandle} {record? : Option Record}
    (move : Move store work (.wrote id tid row record?) store' work') (ok : store.Ok work) :
    ∃ table, store'.tables[tid]? = some table ∧ row.val < table.nextHandle := by
  cases move with
  | @wrote _ txn _ table after _ record old? writes running sound here wrote writable =>
    refine ⟨after, by rw [tables_setTable, if_pos rfl], ?_⟩
    rw [wrote.nextHandle]
    split
    · rename_i hnew
      rw [wrote.handle hnew]
      exact Nat.lt_succ_self _
    · rename_i hthere
      exact (ok.tables here).handles (Table.rows_eq hthere)
  | @marked _ txn _ table _ newest older running sound here hchain writable =>
    refine ⟨_, by rw [tables_setTable, if_pos rfl], ?_⟩
    have hthere : table.chainOf row ≠ [] := by
      rw [hchain]
      exact List.cons_ne_nil _ _
    exact (ok.tables here).handles (Table.rows_eq hthere)

/-- Handles that were given stay given. -/
theorem Extends.placed (extends' : store.Extends store') {tid : TableId} {row : RowHandle}
    (h : ∃ table, store.tables[tid]? = some table ∧ row.val < table.nextHandle) :
    ∃ table, store'.tables[tid]? = some table ∧ row.val < table.nextHandle := by
  obtain ⟨table, here, hlt⟩ := h
  obtain ⟨table', here', htable⟩ := extends'.keeps here
  exact ⟨table', here', Nat.lt_of_lt_of_le hlt htable.nextHandle⟩

/-- So have the rows whose writes are still pending or were committed. -/
theorem Move.placed (move : Move store work event store' work') (ok : store.Ok work)
    (placed : ∀ {tid : TableId} {row : RowHandle}, c.Touched tid row →
      ∃ table, store.tables[tid]? = some table ∧ row.val < table.nextHandle)
    {tid : TableId} {row : RowHandle} (h : (c.tell event).Touched tid row) :
    ∃ table, store'.tables[tid]? = some table ∧ row.val < table.nextHandle := by
  rcases Chronicle.touched_tell h with hbefore | ⟨id, record?, rfl⟩
  · exact (move.extends ok).placed (placed hbefore)
  · exact move.places ok

/-- Replacing a table by one that is grounded. -/
theorem grounded_setTable {tid : TableId} {after : Table}
    (hafter : after.Grounded work' c tid)
    (hothers : ∀ {other : TableId} {t : Table}, other ≠ tid → store.tables[other]? = some t →
      t.Grounded work' c other) {other : TableId} {t : Table}
    (h : (store.setTable tid after).tables[other]? = some t) : t.Grounded work' c other := by
  rw [tables_setTable] at h
  split at h
  · rename_i heq
    cases h
    rw [heq]
    exact hafter
  · rename_i hne
    exact hothers hne h

/-- A table stays grounded as long as its chains, the logs and the commits are as they were. -/
theorem Reflects.stays (reflects : store.Reflects work c) {c' : Chronicle} {tid : TableId}
    {table after : Table} (here : store.tables[tid]? = some table)
    (hlog : ∀ id, work'.log id = work.log id)
    (hchains : ∀ row, after.chainOf row = table.chainOf row) (hcommits : c'.commits = c.commits) :
    after.Grounded work' c' tid := by
  refine (reflects.grounded here).goes_on (fun id row => by rw [hlog]) hchains (fun row => ?_) ?_
  · rw [Chronicle.settled, hcommits]
    rfl
  · intro id s hs
    rw [Chronicle.CommittedAt, hcommits]
    exact hs

/-- Moves keep the last commit to each row on top. -/
theorem Move.grounded (move : Move store work event store' work') (ok : store.Ok work)
    (reflects : store.Reflects work c) {tid : TableId} {table : Table}
    (h : store'.tables[tid]? = some table) : table.Grounded work' (c.tell event) tid := by
  cases move with
  | began begin =>
    obtain ⟨_, rfl, rfl, rfl⟩ := Ledger.begin?_eq_some.mp begin
    refine reflects.stays h (Work.log_update_same ?_) (fun _ => rfl) rfl
    rw [Work.log, ok.idle_next]
    rfl
  | statement running | refreshed running | doomed running =>
    exact reflects.stays h (Work.log_update_same (Work.log_eq running).symm) (fun _ => rfl) rfl
  | aborted running blank =>
    refine reflects.stays h (Work.log_update_same ?_) (fun _ => rfl) rfl
    rw [Work.log_eq running, blank]
    rfl
  | admitted => exact reflects.stays h (fun _ => rfl) (fun _ => rfl) rfl
  | refused here unchanged =>
    exact grounded_setTable (reflects.stays here (fun _ => rfl) unchanged.chainOf rfl)
      (fun _ there => reflects.grounded there) h
  | built here built =>
    refine grounded_setTable (reflects.stays here (fun _ => rfl) ?_ rfl)
      (fun _ there => reflects.grounded there) h
    rw [built.eq]
    exact fun _ => rfl
  | @wrote id txn tid' old after row record old? writes running sound here wrote writable =>
    have hid := ok.runs.id running
    subst hid
    obtain ⟨_, hfree⟩ := (ok.tables here).layered_of_isWritable ok.ledger ok.runs writable
    exact grounded_setTable ((reflects.grounded here).wrote running wrote hfree)
      (fun hne there => (reflects.grounded there).deed_elsewhere running hne writes _) h
  | @marked id txn tid' old row newest older running sound here hchain writable =>
    have hid := ok.runs.id running
    subst hid
    have hok := ok.tables here
    obtain ⟨hlayered, hfree⟩ := hok.layered_of_isWritable ok.ledger ok.runs
      (Table.writable_newest hchain writable)
    have hafter := (reflects.grounded here).marked running hchain (Table.isWritable_iff.mp writable).1
      (hok.tidy row) (ok.runs.txn running).begun rfl hlayered hfree
    exact grounded_setTable hafter
      (fun hne there => (reflects.grounded there).deed_elsewhere running hne _ _) h
  | @committed id txn running sound =>
    obtain ⟨_, _, htables⟩ := (store.withLedger (store.ledger.commit id).1).publish_spec
      (store.ledger.sequence + 1) txn.log
    rw [htables] at h
    obtain ⟨old, hold, rfl⟩ := Option.map_eq_some_iff.mp h
    rw [← Work.log_eq running]
    exact (reflects.grounded hold).committed (ok.tables hold) reflects.sound reflects.work id
  | @undone id txn running whole =>
    rw [(store.undo_spec id (txn.undoing whole)).2.2] at h
    obtain ⟨old, hold, rfl⟩ := Option.map_eq_some_iff.mp h
    exact (reflects.grounded hold).undone (ok.tables hold) running whole
  | @reclaimed tid' old here =>
    obtain ⟨hreclaimed, _, _⟩ := (ok.tables here).reclaim ok.ledger ok.runs
    exact grounded_setTable
      ((reflects.grounded here).reclaimed (ok.tables here) ok.ledger ok.runs hreclaimed)
      (fun _ there => reflects.grounded there) h
  | added name schema config =>
    rw [tables_addTable] at h
    split at h
    · cases h
      exact Table.grounded_create name schema config
    · exact reflects.grounded h

/-- Every move is reflected. -/
theorem Move.reflects (move : Move store work event store' work') (ok : store.Ok work)
    (reflects : store.Reflects work c) : store'.Reflects work' (c.tell event) where
  sound := reflects.sound.tell event
  ledger := move.attests ok reflects.ledger
  placed := move.placed ok reflects.placed
  grounded := move.grounded ok reflects
  work := move.shows_work ok reflects.work

theorem Moves.reflects {events : List Event} (moves : Moves store work events store' work')
    (ok : store.Ok work) (reflects : store.Reflects work c) :
    store'.Reflects work' (events.foldl Chronicle.tell c) := by
  induction moves generalizing c with
  | refl => exact reflects
  | step move _ ih => exact ih (move.ok ok) (move.reflects ok reflects)

/-- Who may write over a row that it has not touched so far knew all that was committed of it. -/
theorem Reflects.known (reflects : store.Reflects work c) (ok : store.Ok work) {id : Int}
    {txn : Transaction} (running : work id = some txn) {tid : TableId} {table : Table}
    (here : store.tables[tid]? = some table) {row : RowHandle}
    (writable : ∀ newest older, table.chainOf row = newest :: older →
      newest.isWritable store.ledger txn.id txn.snapshot = true)
    (handle : table.chainOf row = [] → row.val = table.nextHandle)
    (untouched : c.writes id tid row = []) {deed : Deed} (hdeed : deed ∈ c.settled tid row) :
    ∃ s ≤ txn.snapshot, c.CommittedAt deed.transaction s := by
  have hid := ok.runs.id running
  subst hid
  have hrunning := ok.runs.running running
  cases hchain : table.chainOf row with
  | nil =>
    -- A row without versions that is written to is a new one, so nobody has written to it before.
    have htouched : c.Touched tid row := ⟨txn.id, fun hnil => List.ne_nil_of_mem hdeed
      (List.append_eq_nil_iff.mp hnil).2⟩
    obtain ⟨t, there, hlt⟩ := reflects.placed htouched
    rw [here] at there
    cases there
    rw [handle hchain] at hlt
    exact absurd hlt (Nat.lt_irrefl _)
  | cons newest older =>
    obtain ⟨hunmarked, hown⟩ := Table.isWritable_iff.mp (writable newest older hchain)
    obtain ⟨_, hfree⟩ := (ok.tables here).layered_of_isWritable ok.ledger ok.runs writable
    have hlog : rowLog tid row (work.log txn.id) = [] :=
      (reflects.work.logged txn.id tid row).eq_nil.mpr untouched
    have hlatest := reflects.grounded here txn.id row hfree
    rw [Table.ground, hlog, hchain] at hlatest
    obtain ⟨s, hs, hall⟩ := hlatest newest older rfl hunmarked
    have hle : s ≤ txn.snapshot := by
      rcases hown with hown | hseen
      · rw [hown] at hs
        have hended := (reflects.ledger.ended hs).2.2.2
        rw [hrunning] at hended
        cases hended
      · rw [reflects.ledger.committedBy hs (Ledger.horizon_le_snapshot hrunning)] at hseen
        exact of_decide_eq_true hseen
    obtain ⟨s', hle', hs'⟩ := hall deed hdeed
    exact ⟨s', Int.le_trans hle' hle, hs'⟩

end Store
end SnapshotStore
